import Mathlib.Data.List.DropRight
import TerminalWorkspace.NativeTransport.OpensshConfig

/-! What a file operation writes to the terminal of `sftp`. -/
namespace NativeTransport
open NativeHostKeys (HostError isWhitespace)
open RecordFile (trim)

def normalizeRemotePath (pathname : List Char) : List Char :=
  let segments := (pathname.splitOn '/').foldl (fun segments segment =>
    if segment = [] ∨ segment = ['.'] then segments
    else if segment = ['.', '.'] then segments.dropLast
    else segments ++ [segment]) []
  if segments = [] then ['/'] else '/' :: List.intercalate ['/'] segments

def resolveRemotePath (rootPath pathname : List Char) : List Char :=
  if trim isWhitespace pathname = [] then normalizeRemotePath rootPath
  else if pathname.head? = some '/' then normalizeRemotePath pathname
  else
    let base := rootPath.rdropWhile (· == '/')
    normalizeRemotePath
      (if base = [] ∨ base = ['/'] then '/' :: pathname else base ++ '/' :: pathname)

/-- `str::replace` of one character. -/
def replaceChar (old : Char) (new : List Char) (value : List Char) : List Char :=
  value.flatMap fun c => if c = old then new else [c]

def escapeSftpArgument (value : List Char) : List Char :=
  '\x22' :: (replaceChar '\x22' ['\\', '\x22'] (replaceChar '\\' ['\\', '\\'] value) ++ ['\x22'])

def sanitizeFilename (value : List Char) : List Char :=
  let sanitized := value.map fun c => if c.isAlphanum ∨ c ∈ ['.', '_', '-'] then c else '_'
  if sanitized = [] then "download".toList else sanitized

inductive SftpOperation where
  | listDirectory (path : List Char)
  | createDirectory (path : List Char)
  | renameEntry (currentPath nextPath : List Char)
  | deleteEntry (path : List Char) (isDirectory : Bool)
  | uploadFile (path filename contentsBase64 : List Char)
  | downloadFile (path : List Char)
  deriving DecidableEq, Repr

structure SftpRequest where
  host : BackendHostConnection
  operation : SftpOperation

inductive SftpError where
  | host (error : HostError)
  | failed (message : List Char)
  deriving DecidableEq, Repr

/-- What an operation asks of the workstation before `sftp` is started. -/
structure SftpBackend where
  decodeBase64 : List Char → Except (List Char) (List UInt8)
  openControlSession : BackendHostConnection → Except (List Char) OsPath
  writeFile : OsPath → List UInt8 → Except (List Char) Unit

def uploadPath (sessionDir : OsPath) (filename : List Char) : OsPath :=
  OsPath.join sessionDir (Utf8.encode ("upload-".toList ++ sanitizeFilename filename))

/-- The last segment of the path names the local copy. -/
def downloadPath (sessionDir : OsPath) (targetPath : List Char) : OsPath :=
  let segment := (targetPath.splitOn '/').reverse.find? (· ≠ [])
  OsPath.join sessionDir
    (Utf8.encode ("download-".toList ++ sanitizeFilename (segment.getD "download".toList)))

namespace SftpRequest
variable (request : SftpRequest)

def targetPath (pathname : List Char) : List Char :=
  resolveRemotePath (request.host.sftpRoot.getD ['/']) pathname

/-- The command of an operation, as it is formatted for `sftp`. -/
def command (sessionDir : OsPath) : List Char :=
  match request.operation with
  | .listDirectory path => "@ls -la ".toList ++ escapeSftpArgument (request.targetPath path)
  | .createDirectory path => "@mkdir ".toList ++ escapeSftpArgument (request.targetPath path)
  | .renameEntry currentPath nextPath =>
    "@rename ".toList ++ escapeSftpArgument (request.targetPath currentPath) ++
      ' ' :: escapeSftpArgument (request.targetPath nextPath)
  | .deleteEntry path isDirectory =>
    '@' :: (if isDirectory then "rmdir" else "rm").toList ++
      ' ' :: escapeSftpArgument (request.targetPath path)
  | .uploadFile path filename _ =>
    "@put ".toList ++ escapeSftpArgument (uploadPath sessionDir filename).toStringLossy ++
      ' ' :: escapeSftpArgument (request.targetPath path)
  | .downloadFile path =>
    "@get ".toList ++ escapeSftpArgument (request.targetPath path) ++
      ' ' :: escapeSftpArgument (downloadPath sessionDir (request.targetPath path)).toStringLossy

/-- What an operation does before its command, with the directory of the control session. -/
def accept (backend : SftpBackend) : Except SftpError OsPath := do
  (validateSshHost request.host).mapError .host
  match request.operation with
  | .uploadFile _ filename contentsBase64 =>
    let contents ← (backend.decodeBase64 contentsBase64).mapError .failed
    let sessionDir ← (backend.openControlSession request.host).mapError .failed
    (backend.writeFile (uploadPath sessionDir filename) contents).mapError .failed
    return sessionDir
  | _ => (backend.openControlSession request.host).mapError .failed

end SftpRequest

/-- `run_sftp_batch_commands`, up to the number of prompts for which `sftp` has answered: a
command is written after a prompt, and `bye` after the last. -/
def sftpInput : ℕ → List (List Char) → List Char
  | 0, _ => []
  | _ + 1, [] => "bye\n".toList
  | prompts + 1, command :: commands =>
    command.dropWhile (· == '@') ++ '\n' :: sftpInput prompts commands

def SftpRequest.writtenText (backend : SftpBackend) (request : SftpRequest) (prompts : ℕ) :
    List Char :=
  match request.accept backend with
  | .error _ => []
  | .ok sessionDir => sftpInput prompts [request.command sessionDir]

end NativeTransport
