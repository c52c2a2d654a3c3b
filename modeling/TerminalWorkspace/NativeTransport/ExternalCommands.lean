import TerminalWorkspace.NativeTransport.PromptReader

/-! The clients that the native backend starts with an argument vector, and the checks that a
host has to pass before. -/
namespace NativeTransport
open NativeHostKeys (HostError isWhitespace rejectControlChars hostRequiresTrustedKey)
open RecordFile (trim)

inductive TargetError where
  | host (error : HostError)
  | telnetDash
  | unsupportedProtocol (protocol : String)
  deriving DecidableEq, Repr

section Validation
variable (host : BackendHostConnection)

def validateNetworkHost (requireUsername : Bool) : Except HostError Unit := do
  if trim isWhitespace host.hostname = [] ∨ host.port = 0 then throw .missingFields
  if requireUsername ∧ trim isWhitespace host.username = [] then throw .missingFields
  rejectControlChars "Hostname" host.hostname
  if requireUsername then rejectControlChars "Username" host.username

/-- A hostname that begins with a dash would be a flag of the client. -/
def validateTelnetHost : Except TargetError Unit := do
  (validateNetworkHost host false).mapError .host
  if host.hostname.head? = some '-' then throw .telnetDash

def validateMoshHost : Except HostError Unit := do
  validateNetworkHost host true
  if host.authMethod = "password" ∧ host.password = [] then throw .missingPassword
  if host.authMethod = "privateKey" ∧ trim isWhitespace host.privateKeyPath = [] then
    throw .missingKeyPath
  if trim isWhitespace host.privateKeyPath ≠ [] then
    rejectControlChars "Private key path" host.privateKeyPath
  if hostRequiresTrustedKey host.hostKeys ∧ host.knownHostPublicKey.isNone then
    throw (.trustedKeyRequired host.hostname host.port)

def validateSessionTarget : Except TargetError Unit :=
  match host.protocol with
  | "localShell" => .ok ()
  | "ssh" => (validateSshHost host).mapError .host
  | "telnet" => validateTelnetHost host
  | "serial" => (validateNetworkHost host false).mapError .host
  | "mosh" => (validateMoshHost host).mapError .host
  | other => .error (.unsupportedProtocol other)

end Validation

/-- A piece of an argument: text of the program, or the hostname, device, username or port of a
request. -/
inductive ArgumentPart where
  | fixed (text : List Char)
  | user (text : List Char)
  deriving DecidableEq, Repr

def ArgumentPart.text : ArgumentPart → List Char
  | fixed text | user text => text

abbrev Argument := List ArgumentPart

def Argument.text (argument : Argument) : List Char := argument.flatMap ArgumentPart.text

def fixedArgument (text : String) : Argument := [.fixed text.toList]

def userArgument (text : List Char) : Argument := [.user text]

def decimal (n : ℕ) : List Char := Nat.toDigits 10 n

/-- The client that is started. -/
inductive ExternalClient where
  | shell
  | telnet
  | screen
  | cu
  | mosh
  | sshKeyscan
  deriving DecidableEq, Repr

/-- The options, of those the backend passes, after which the client reads an operand. -/
def ExternalClient.operandOptions : ExternalClient → List (List Char)
  | cu => ["-l".toList, "-s".toList]
  | sshKeyscan => ["-p".toList, "-T".toList]
  | shell | telnet | screen | mosh => []

/-- What a workstation answers: which clients it has, whether an agent runs, and how its file
system takes the files of a session. -/
structure Workstation where
  shell : Option (List Char)
  resolveCommandPath : String → List String → Option (List Char)
  sshAuthSock : Bool
  createSessionDir : List Char → Except (List Char) (List Char)
  writePrivateFile : List Char → List Char → Except (List Char) Unit
  validateIdentityKeyPath : List Char → Except (List Char) (List Char)

structure ExternalCommand where
  client : ExternalClient
  executable : List Char
  args : List Argument
  deriving DecidableEq, Repr

structure ExternalCommandSessionSpec where
  command : ExternalCommand
  exitLabel : String
  promptResponses : List PromptResponse
  cleanupDir : Option (List Char)
  deriving DecidableEq, Repr

/-- `Path::join` of a plain name. -/
def joinPath (directory : List Char) (name : String) : List Char :=
  if directory = [] ∨ directory.getLast? = some '/' then directory ++ name.toList
  else directory ++ '/' :: name.toList

def knownHostsHostPattern (host : BackendHostConnection) : List Char :=
  NativeHostKeys.knownHostsHostPattern host.hostKeys

/-- The pins of the chain, one a line. -/
def knownHostsText (host : BackendHostConnection) : List Char :=
  List.intercalate ['\n'] ((buildConnectionChain host).filterMap fun connection =>
    match connection.knownHostAlgorithm, connection.knownHostPublicKey with
    | some algorithm, some publicKey =>
      some (knownHostsHostPattern connection ++ ' ' :: algorithm ++ ' ' :: publicKey)
    | _, _ => none)

def isShellSafe (c : Char) : Bool := c.isAlphanum || "/._:-=@".toList.contains c

def shellQuote (value : List Char) : List Char :=
  if value.all isShellSafe then value
  else '\'' :: value.flatMap (fun c => if c = '\'' then "'\\''".toList else [c]) ++ ['\'']

section Build
variable (w : Workstation) (host : BackendHostConnection)

def writeNativeKnownHosts (sessionDir : List Char) : Except (List Char) (List Char) := do
  let knownHostsPath := joinPath sessionDir "known_hosts"
  w.writePrivateFile knownHostsPath (knownHostsText host)
  return knownHostsPath

def buildMoshSshCommand (knownHostsPath : Option (List Char)) :
    Except (List Char) (List Char) := do
  let arguments := ["/usr/bin/ssh".toList, "-p".toList, decimal host.port.toNat, "-o".toList,
    "BatchMode=no".toList, "-o".toList, "GlobalKnownHostsFile=/dev/null".toList]
  let knownHosts := match knownHostsPath with
    | some path => ["-o".toList, "UserKnownHostsFile=".toList ++ path]
    | none => []
  let checking :=
    if host.knownHostPublicKey.isSome ∧ host.knownHostAlgorithm.isSome then
      ["-o".toList, "StrictHostKeyChecking=yes".toList]
    else ["-o".toList, "StrictHostKeyChecking=accept-new".toList]
  let agent := if host.agentForwarding ∧ w.sshAuthSock then ["-A".toList] else []
  let identity ←
    if host.authMethod = "privateKey" ∧ trim isWhitespace host.privateKeyPath ≠ [] then do
      let privateKeyPath ← w.validateIdentityKeyPath host.privateKeyPath
      pure ["-i".toList, privateKeyPath, "-o".toList, "IdentitiesOnly=yes".toList]
    else pure []
  return List.intercalate [' ']
    ((arguments ++ knownHosts ++ checking ++ agent ++ identity).map shellQuote)

def localShellSpec : ExternalCommandSessionSpec where
  command := ⟨.shell, w.shell.getD "/bin/zsh".toList, [fixedArgument "-l"]⟩
  exitLabel := "Local shell"
  promptResponses := []
  cleanupDir := none

def telnetSpec : Except (List Char) ExternalCommandSessionSpec :=
  match w.resolveCommandPath "TERMSNIP_TELNET_PATH" ["/usr/bin/telnet", "telnet"] with
  | none => .error "Telnet client is not installed on this workstation".toList
  | some executable => .ok
    { command := ⟨.telnet, executable,
        [userArgument host.hostname, userArgument (decimal host.port.toNat)]⟩
      exitLabel := "Telnet session"
      promptResponses := []
      cleanupDir := none }

/-- `screen` is given the device behind a separator, `cu` as an operand. -/
def serialCommand : Option ExternalCommand :=
  match w.resolveCommandPath "TERMSNIP_SCREEN_PATH" ["/usr/bin/screen", "screen"] with
  | some executable =>
    some ⟨.screen, executable,
      [fixedArgument "--", userArgument host.hostname, userArgument (decimal host.port.toNat)]⟩
  | none =>
    (w.resolveCommandPath "TERMSNIP_CU_PATH" ["/usr/bin/cu", "cu"]).map fun executable =>
      ⟨.cu, executable,
        [fixedArgument "-l", userArgument host.hostname, fixedArgument "-s",
          userArgument (decimal host.port.toNat)]⟩

def serialSpec : Except (List Char) ExternalCommandSessionSpec :=
  match serialCommand w host with
  | none => .error "Serial runtime requires either `screen` or `cu` to be installed".toList
  | some command => .ok
    { command, exitLabel := "Serial session", promptResponses := [], cleanupDir := none }

/-- The destination is one argument, `username@hostname`. -/
def moshArguments (sshCommand : List Char) : List Argument :=
  [[.user host.username, .fixed ['@'], .user host.hostname],
    [.fixed "--ssh=".toList, .user sshCommand]]

def moshSpec (sessionId : List Char) : Except (List Char) ExternalCommandSessionSpec :=
  match w.resolveCommandPath "TERMSNIP_MOSH_PATH"
    ["/opt/homebrew/bin/mosh", "/usr/local/bin/mosh", "/usr/bin/mosh", "mosh"] with
  | none => .error "Mosh client is not installed on this workstation".toList
  | some executable => do
    let cleanupDir ←
      if host.knownHostPublicKey.isSome then some <$> w.createSessionDir sessionId else pure none
    let knownHostsPath ← match cleanupDir with
      | some sessionDir => some <$> writeNativeKnownHosts w host sessionDir
      | none => pure none
    let sshCommand ← buildMoshSshCommand w host knownHostsPath
    return {
      command := ⟨.mosh, executable, moshArguments host sshCommand⟩
      exitLabel := "Mosh session"
      promptResponses := buildPromptResponses host
      cleanupDir }

def buildExternalCommandSessionSpec (sessionId : List Char) :
    Except (List Char) ExternalCommandSessionSpec :=
  match host.protocol with
  | "localShell" => .ok (localShellSpec w)
  | "telnet" => telnetSpec w host
  | "serial" => serialSpec w host
  | "mosh" => moshSpec w host sessionId
  | other => .error ("Unsupported external session protocol: ".toList ++ other.toList)

end Build

structure KnownHostScanRequest where
  hostname : List Char
  port : UInt32
  deriving DecidableEq, Repr

/-- The command that `scan_known_host` runs. -/
def scanKnownHostCommand (request : KnownHostScanRequest) :
    Except (List Char) ExternalCommand :=
  if trim isWhitespace request.hostname = [] then
    .error "Hostname is required for host key scans".toList
  else if request.port = 0 then .error "Port must be greater than zero".toList
  else .ok ⟨.sshKeyscan, "/usr/bin/ssh-keyscan".toList,
    [fixedArgument "-p", userArgument (decimal request.port.toNat), fixedArgument "-T",
      fixedArgument "5", userArgument request.hostname]⟩

end NativeTransport
