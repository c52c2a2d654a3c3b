import TerminalWorkspace.Foundation.Fallible
import TerminalWorkspace.Inventory.Records

/-! How the Node backend connects a host over its jump hosts, with what it does to the secrets it
puts into the configurations for ssh2. A hop is named by the number of hops before it: the
target is hop 0, and its jump host is hop 1. -/
namespace NodeConnect
open JsText Inventory Traced

/-- A property of the request that should be a string. -/
inductive SecretText where
  | missing
  | text (s : JsString)
  | other (truthy : Bool)
  deriving DecidableEq, Repr

namespace SecretText

/-- `value ?? ""`. -/
def orEmpty : SecretText → SecretText
  | missing => text []
  | value => value

def truthy : SecretText → Bool
  | missing => false
  | text s => s ≠ []
  | other truthy => truthy

def isText : SecretText → Bool
  | text _ => true
  | missing | other _ => false

end SecretText

/-- The fields of a host that its hop is set up from. -/
structure HopHost where
  hostname : JsString
  port : ℤ
  username : JsString
  agentForwarding : Bool
  authMethod : HostAuthMethod
  hostKeyPolicy : HostKeyPolicy
  knownHostPublicKey : Option JsString
  password : SecretText
  privateKeyPath : JsString
  passphrase : SecretText
  deriving DecidableEq, Repr

inductive ConnectHost where
  | direct (host : HopHost)
  | via (host : HopHost) (jumpHost : ConnectHost)
  deriving DecidableEq, Repr

inductive Secret where
  | password
  | privateKey
  | passphrase
  deriving DecidableEq, Repr

structure SecretBuffer where
  hop : ℕ
  secret : Secret
  deriving DecidableEq, Repr

/-- What the host's key is checked against. -/
inductive HostVerifier where
  | trustedKey (publicKey : JsString)
  | hostKeyStore (hostname : JsString) (port : ℤ)
  deriving DecidableEq, Repr

structure ConnectConfig where
  host : JsString
  port : ℤ
  username : JsString
  tryKeyboard : Bool
  readyTimeout : ℕ
  hostVerifier : HostVerifier
  agent : Option JsString
  agentForward : Bool
  password : Option JsString
  privateKey : Option (List UInt8)
  passphrase : Option JsString
  sock : Option ℕ
  deriving DecidableEq, Repr

inductive Event where
  | created (buffer : SecretBuffer)
  | scrubbed (buffer : SecretBuffer)
  /-- ssh2's `connect` is called on the client of the hop. -/
  | connect (hop : ℕ) (config : ConnectConfig)
  | ended (client : ℕ)
  deriving DecidableEq, Repr

inductive ConnectError where
  | trustedKeyRequired (hostname : JsString) (port : ℤ)
  | keyFileUnreadable (path : JsString)
  | secretNotText (buffer : SecretBuffer)
  | forwardRefused (hop : ℕ)
  | ssh (hop : ℕ)
  | hostKeyRejected (hop : ℕ)
  deriving DecidableEq, Repr

/-- How `client.connect` of a hop ends. -/
inductive Handshake where
  | ready
  | throws
  | error (hostKeyRejected : Bool)
  deriving DecidableEq, Repr

/-- What the hops meet: the environment, the key file each of them reads, the answer to each
`forwardOut` towards a hop, and each handshake. -/
structure Answers where
  sshAuthSock : Option JsString
  readFile : ℕ → Option (List UInt8)
  forwardOut : ℕ → Bool
  handshake : ℕ → Handshake

abbrev Connecting := Attempt ConnectError Event

section Connecting
variable (w : Answers) (hop : ℕ)

/-- `SecretBuffer.fromString`, whose constructor refuses what is no string. -/
def fromString (buffer : SecretBuffer) : SecretText → Connecting JsString
  | .missing => do
    Attempt.emit (.created buffer)
    pure []
  | .text s => do
    Attempt.emit (.created buffer)
    pure s
  | .other _ => Attempt.throwing (.secretNotText buffer)

def readKeyFile (path : JsString) : Connecting (List UInt8) :=
  match w.readFile hop with
  | none => Attempt.throwing (.keyFileUnreadable path)
  | some bytes => do
    Attempt.emit (.created ⟨hop, .privateKey⟩)
    pure bytes

/-- A key that is there and not empty. -/
def trustedPublicKey (host : HopHost) : Option JsString := host.knownHostPublicKey.bind truthy

def withoutSecrets (host : HopHost) : ConnectConfig where
  host := host.hostname
  port := host.port
  username := host.username
  tryKeyboard := false
  readyTimeout := 10000
  hostVerifier :=
    match trustedPublicKey host with
    | some publicKey => .trustedKey publicKey
    | none => .hostKeyStore host.hostname host.port
  agent := if host.agentForwarding then w.sshAuthSock.bind truthy else none
  agentForward := host.agentForwarding && (w.sshAuthSock.bind truthy).isSome
  password := none
  privateKey := none
  passphrase := none
  sock := none

/-- The configuration, and the buffers that its `scrub` wipes, in the order they were added. -/
structure ConfigBundle where
  config : ConnectConfig
  cleanups : List SecretBuffer

def createConnectConfig (host : HopHost) : Connecting ConfigBundle :=
  if host.hostKeyPolicy = .requireTrusted ∧ trustedPublicKey host = none then
    Attempt.throwing (.trustedKeyRequired host.hostname host.port)
  else
    match host.authMethod with
    | .none => pure ⟨withoutSecrets w host, []⟩
    | .password => do
      let password ← fromString ⟨hop, .password⟩ host.password.orEmpty
      pure ⟨{ withoutSecrets w host with password := some password }, [⟨hop, .password⟩]⟩
    | .privateKey => do
      let privateKey ← readKeyFile w hop host.privateKeyPath
      let config := { withoutSecrets w host with privateKey := some privateKey }
      if host.passphrase.truthy then do
        let passphrase ← fromString ⟨hop, .passphrase⟩ host.passphrase
        pure ⟨{ config with passphrase := some passphrase },
          [⟨hop, .privateKey⟩, ⟨hop, .passphrase⟩]⟩
      else pure ⟨config, [⟨hop, .privateKey⟩]⟩

/-- `scrubBundle` takes the last cleanup first. -/
def scrubBundle (cleanups : List SecretBuffer) : List Event := cleanups.reverse.map .scrubbed

/-- The client of the jump host, and the hop its socket leads to. -/
structure JumpConnection where
  jumpClient : ℕ
  socket : ℕ
  deriving DecidableEq, Repr

def forwardOut : Connecting ℕ :=
  if w.forwardOut hop then pure hop else Attempt.throwing (.forwardRefused hop)

def openJumpSocket (connectJumpHost : Connecting ℕ) : Connecting JumpConnection := do
  let jumpClient ← connectJumpHost
  let socket ← (forwardOut w hop).onError [.ended jumpClient]
  pure ⟨jumpClient, socket⟩

def waitForSshReady (config : ConnectConfig) (jumpClient : Option ℕ) : Connecting ℕ := do
  Attempt.emit (.connect hop config)
  match w.handshake hop with
  | .ready => pure hop
  | .throws | .error _ =>
    (Attempt.throwing (.ssh hop)).onError (jumpClient.toList.map .ended)

/-- A rejected host key is reported with its reason. -/
def withHostKeyFailure (error : ConnectError) : ConnectError :=
  if w.handshake hop = .error true then .hostKeyRejected hop else error

/-- A hop that is set up: its configuration with the jump socket in it. -/
structure SetUp where
  config : ConnectConfig
  jump : Option JumpConnection
  cleanups : List SecretBuffer

/-- The lines before the `try` block, which `connectClient` and `createSshSession` share. -/
def setUp (host : HopHost) (jumpSocket : Option (Connecting JumpConnection)) :
    Connecting SetUp := do
  let bundle ← createConnectConfig w hop host
  match jumpSocket with
  | none => pure ⟨bundle.config, none, bundle.cleanups⟩
  | some jumpSocket => do
    let jump ← jumpSocket
    pure ⟨{ bundle.config with sock := some jump.socket }, some jump, bundle.cleanups⟩

def connectHop (host : HopHost) (jumpSocket : Option (Connecting JumpConnection)) :
    Connecting ℕ := do
  let hopSetUp ← setUp w hop host jumpSocket
  ((waitForSshReady w hop hopSetUp.config (hopSetUp.jump.map (·.jumpClient))).mapError
    (withHostKeyFailure w hop)).finallyDo (scrubBundle hopSetUp.cleanups)

/-- What `client.connect` does at once; the handshake goes on after the session is returned. -/
def connectSession (config : ConnectConfig) : Connecting Unit := do
  Attempt.emit (.connect hop config)
  if w.handshake hop = .throws then Attempt.throwing (.ssh hop) else pure ()

end Connecting

def connectClient (w : Answers) (hop : ℕ) : ConnectHost → Connecting ℕ
  | .direct host => connectHop w hop host none
  | .via host jumpHost =>
    connectHop w hop host (some (openJumpSocket w hop (connectClient w (hop + 1) jumpHost)))

/-- The socket of the target's jump host, where it has one. -/
def sessionJumpSocket (w : Answers) : ConnectHost → Option (Connecting JumpConnection)
  | .direct _ => none
  | .via _ jumpHost => some (openJumpSocket w 0 (connectClient w 1 jumpHost))

def ConnectHost.target : ConnectHost → HopHost
  | .direct host | .via host _ => host

/-- The session is returned once `connect` has returned. -/
def createSshSession (w : Answers) (host : ConnectHost) : Connecting (Option JumpConnection) := do
  let hopSetUp ← setUp w 0 host.target (sessionJumpSocket w host)
  (connectSession w 0 hopSetUp.config).finallyDo (scrubBundle hopSetUp.cleanups)
  pure hopSetUp.jump

/-- The buffer has been scrubbed once, and ssh2's `connect` of its hop was not called after
that. -/
def ScrubbedOnce (trace : List Event) (buffer : SecretBuffer) : Prop :=
  trace.count (.scrubbed buffer) = 1 ∧
    trace.Pairwise fun earlier later =>
      earlier = .scrubbed buffer → ∀ config, later ≠ .connect buffer.hop config

def EverySecretScrubbed (trace : List Event) : Prop :=
  ∀ buffer, .created buffer ∈ trace → ScrubbedOnce trace buffer

end NodeConnect
