import TerminalWorkspace.Foundation.Utf8
import TerminalWorkspace.NativeTransport.ExternalCommands

/-! The `ssh_config` file that is written for a session. -/
namespace NativeTransport
open NativeHostKeys (isWhitespace isControl)
open RecordFile (trim)

/-- A path of the operating system, which need not be text. -/
abbrev OsPath := List UInt8

def separator : UInt8 := 0x2F

/-- `Path::join`: an absolute component replaces what it is joined to. -/
def OsPath.join (path component : OsPath) : OsPath :=
  if component.head? = some separator then component
  else if path = [] ∨ path.getLast? = some separator then path ++ component
  else path ++ separator :: component

def OsPath.toStringLossy (path : OsPath) : List Char := Utf8.decodeLossy path

/-- What building the file asks of the workstation: the home directory, the published location of
the durable store, whether a key can be copied and its passphrase removed, and whether a new file
can be written. -/
structure SshFiles where
  home : Option OsPath
  durableKnownHosts : Option OsPath
  stageIdentity : OsPath → OsPath → List Char → Except (List Char) Unit
  writePrivateFile : OsPath → List Char → Except (List Char) Unit

def expandHome (home : Option OsPath) (pathname : List Char) : OsPath :=
  match home, pathname with
  | some home, '~' :: '/' :: stripped => OsPath.join home (Utf8.encode stripped)
  | _, _ => Utf8.encode pathname

def durableKnownHostsPath (files : SshFiles) : Except (List Char) OsPath :=
  match files.durableKnownHosts with
  | some path => .ok path
  | none =>
    .error "durable SSH host-key state was never initialised; refusing to connect".toList

def sanitizedStagingStem (name : List Char) : List Char :=
  let stem := name.map fun ch => if ch = '/' ∨ ch = '\\' ∨ isControl ch then '_' else ch
  if trim (· == '.') stem = [] then "identity".toList else stem

/-- Where the staged copy of a key goes. -/
def stagedIdentityPath (sessionDir : OsPath) (name : List Char) : OsPath :=
  OsPath.join sessionDir (Utf8.encode (sanitizedStagingStem name ++ "-identity".toList))

def prepareNativeIdentityFile (files : SshFiles) (connection : BackendHostConnection)
    (sessionDir : OsPath) (name : List Char) : Except (List Char) OsPath := do
  let resolvedPath := expandHome files.home connection.privateKeyPath
  if trim isWhitespace connection.passphrase = [] then return resolvedPath
  let targetPath := stagedIdentityPath sessionDir name
  files.stageIdentity resolvedPath targetPath connection.passphrase
  return targetPath

def buildSshHostAlias (index lastIndex : ℕ) : List Char :=
  if index = lastIndex then "termsnip-target".toList
  else "termsnip-hop-".toList ++ decimal index

/-- What is written: text, or a path as text. -/
inductive WrittenValue where
  | text (value : List Char)
  | path (value : OsPath)
  deriving DecidableEq, Repr

def WrittenValue.written : WrittenValue → List Char
  | text value => value
  | path value => value.toStringLossy

structure Setting where
  keyword : String
  value : WrittenValue
  deriving DecidableEq, Repr

def fixedSetting (keyword value : String) : Setting := ⟨keyword, .text value.toList⟩

def Setting.line (setting : Setting) : List Char :=
  ' ' :: ' ' :: (setting.keyword.toList ++ ' ' :: setting.value.written)

/-- The lines between one `Host` line and the next. -/
structure HopBlock where
  name : List Char
  settings : List Setting

def HopBlock.lines (block : HopBlock) : List (List Char) :=
  ("Host".toList ++ ' ' :: block.name) :: (block.settings.map Setting.line ++ [[]])

section Build
variable (files : SshFiles) (sessionDir knownHostsPath : OsPath) (controlPath : Option OsPath)

def hopIsPinned (connection : BackendHostConnection) : Bool :=
  connection.knownHostPublicKey.isSome && connection.knownHostAlgorithm.isSome

def hopKnownHosts (connection : BackendHostConnection) : Except (List Char) OsPath :=
  if hopIsPinned connection then .ok knownHostsPath else durableKnownHostsPath files

def controlSettings : List Setting :=
  match controlPath with
  | some controlPath =>
    [fixedSetting "ControlMaster" "auto", ⟨"ControlPath", .path controlPath⟩,
      fixedSetting "ControlPersist" "no"]
  | none => []

def authSettings (connection : BackendHostConnection) (name : List Char) :
    Except (List Char) (List Setting) :=
  match connection.authMethod with
  | "privateKey" => do
    let identityPath ← prepareNativeIdentityFile files connection sessionDir name
    return [⟨"IdentityFile", .path identityPath⟩, fixedSetting "IdentitiesOnly" "yes",
      fixedSetting "PreferredAuthentications" "publickey"]
  | "password" => .ok [fixedSetting "PubkeyAuthentication" "no",
      fixedSetting "PreferredAuthentications" "keyboard-interactive,password",
      fixedSetting "NumberOfPasswordPrompts" "1"]
  | _ => .ok []

def jumpAliases (lastIndex : ℕ) : List (List Char) :=
  (List.range lastIndex).map fun index => buildSshHostAlias index lastIndex

def jumpSettings (index lastIndex : ℕ) : List Setting :=
  if index = lastIndex ∧ jumpAliases lastIndex ≠ [] then
    [⟨"ProxyJump", .text (List.intercalate [','] (jumpAliases lastIndex))⟩]
  else []

def hopSettings (connection : BackendHostConnection) (hopKnownHosts : OsPath)
    (authSettings jumpSettings : List Setting) : List Setting :=
  [⟨"HostName", .text connection.hostname⟩, ⟨"User", .text connection.username⟩,
    ⟨"Port", .text (decimal connection.port.toNat)⟩, fixedSetting "RequestTTY" "force",
    fixedSetting "LogLevel" "ERROR", fixedSetting "BatchMode" "no",
    fixedSetting "ServerAliveInterval" "15", fixedSetting "ServerAliveCountMax" "3",
    fixedSetting "ConnectTimeout" "15", fixedSetting "GlobalKnownHostsFile" "/dev/null",
    ⟨"UserKnownHostsFile", .path hopKnownHosts⟩, fixedSetting "UpdateHostKeys" "no",
    fixedSetting "HashKnownHosts" "no"] ++
  controlSettings controlPath ++
  [fixedSetting "StrictHostKeyChecking" (if hopIsPinned connection then "yes" else "accept-new"),
    fixedSetting "ForwardAgent" (if connection.agentForwarding then "yes" else "no")] ++
  authSettings ++ jumpSettings

/-- The body of the loop over the chain. -/
def hopBlock (lastIndex index : ℕ) (connection : BackendHostConnection) :
    Except (List Char) HopBlock := do
  let name := buildSshHostAlias index lastIndex
  let hopKnownHosts ← hopKnownHosts files knownHostsPath connection
  let authSettings ← authSettings files sessionDir connection name
  return ⟨name, hopSettings controlPath connection hopKnownHosts authSettings
    (jumpSettings index lastIndex)⟩

/-- The blocks of the chain from an index on. -/
def hopBlocks (lastIndex : ℕ) : ℕ → List BackendHostConnection →
    Except (List Char) (List HopBlock)
  | _, [] => .ok []
  | index, connection :: chain => do
    let block ← hopBlock files sessionDir knownHostsPath controlPath lastIndex index connection
    let blocks ← hopBlocks lastIndex (index + 1) chain
    return block :: blocks

structure NativeSshConfig where
  configPath : OsPath
  targetAlias : List Char
  contents : List Char

/-- The file is new, so its contents are what is written. -/
def buildNativeSshConfig (host : BackendHostConnection) :
    Except (List Char) NativeSshConfig := do
  let configPath := OsPath.join sessionDir (Utf8.encode "ssh_config".toList)
  let chain := buildConnectionChain host
  let lastIndex := chain.length - 1
  let targetAlias := buildSshHostAlias lastIndex lastIndex
  let blocks ← hopBlocks files sessionDir knownHostsPath controlPath lastIndex 0 chain
  let contents := List.intercalate ['\n'] (blocks.flatMap HopBlock.lines)
  files.writePrivateFile configPath contents
  return ⟨configPath, targetAlias, contents⟩

end Build
end NativeTransport
