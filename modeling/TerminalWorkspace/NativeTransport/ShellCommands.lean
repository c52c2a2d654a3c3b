import TerminalWorkspace.Foundation.OrderedMap
import TerminalWorkspace.NativeTransport.SftpCommands

/-! The commands that carry a host's environment to its shell. -/
namespace NativeTransport

/-- A `HashMap` of strings, in the order this process iterates over it. -/
abbrev HashMap := OrderedMap (List Char) (List Char)

def shellSingleQuote (value : List Char) : List Char :=
  '\'' :: (value.flatMap fun c => if c = '\'' then "'\\''".toList else [c]) ++ ['\'']

def isValidEnvironmentKey (value : List Char) : Bool :=
  match value with
  | [] => false
  | first :: characters =>
    (first.isAlpha || first = '_') && characters.all fun c => c.isAlphanum || c = '_'

/-- `Ord` of strings compares their bytes. -/
def keyOrder (left right : List Char × List Char) : Prop :=
  ¬ Utf8.encode right.1 < Utf8.encode left.1

instance : DecidableRel keyOrder := fun _ _ => inferInstanceAs (Decidable (¬ _))

def getChannelEnvironment (environment : Option HashMap) :
    Option (List (List Char × List Char)) :=
  environment.bind fun environment =>
    let entries := (environment.entries.filter fun entry =>
      isValidEnvironmentKey entry.1).insertionSort keyOrder
    if entries = [] then none else some entries

def exportText (entry : List Char × List Char) : List Char :=
  "export ".toList ++ entry.1 ++ '=' :: shellSingleQuote entry.2

def buildEnvironmentExportPrefix (environment : Option HashMap) : List Char :=
  List.intercalate "; ".toList
    (((getChannelEnvironment environment).getD []).map exportText)

def buildInteractiveShellCommand (environment : Option HashMap) : Option (List Char) :=
  let exportPrefix := buildEnvironmentExportPrefix environment
  if exportPrefix = [] then none
  else some (exportPrefix ++ "; exec \x22$\x7bSHELL:-/bin/sh\x7d\x22 -l".toList)

def buildExecCommand (command : List Char) (environment : Option HashMap) : List Char :=
  let exportPrefix := buildEnvironmentExportPrefix environment
  if exportPrefix = [] then command else exportPrefix ++ "; ".toList ++ command

end NativeTransport
