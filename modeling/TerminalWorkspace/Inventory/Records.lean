import TerminalWorkspace.Foundation.JsText
import TerminalWorkspace.Foundation.OrderedMap

/-! The records of a vault, with the fields the source gives them. -/
namespace Inventory
open JsText

/-- An optional property. One that is there but undefined is listed and serialised
like any other, so it differs from one that is absent. -/
inductive Optional (α : Type*) where
  | absent
  | undefined
  | value (a : α)
  deriving DecidableEq, Repr

def Optional.get? {α : Type*} : Optional α → Option α
  | .value a => some a
  | _ => none

/-- What `||` and `if` see of a string. -/
def truthy (s : JsString) : Option JsString := if s = [] then none else some s

def Optional.truthy (value : Optional JsString) : Option JsString :=
  value.get?.bind Inventory.truthy

inductive HostAuthMethod where
  | none
  | password
  | privateKey
  deriving DecidableEq, Repr

inductive HostProtocol where
  | ssh
  | localShell
  | telnet
  | serial
  | mosh
  deriving DecidableEq, Repr

inductive HostKeyPolicy where
  | allowUnknown
  | requireTrusted
  deriving DecidableEq, Repr

def hostSupportsTrustedKeys (protocol : HostProtocol) : Bool :=
  protocol = .ssh || protocol = .mosh

def hostSupportsJumpHosts (protocol : HostProtocol) : Bool := protocol = .ssh

def hostSupportsSftp (protocol : HostProtocol) : Bool := protocol = .ssh

/-- The fields of a host that a connection is built from. -/
structure BackendConnectionHost where
  agentForwarding : Bool
  authMethod : HostAuthMethod
  environment : OrderedMap JsString JsString
  hostKeyPolicy : HostKeyPolicy
  id : JsString
  hostname : JsString
  identityId : Optional JsString
  label : JsString
  port : ℤ
  privateKeyPath : JsString
  jumpHostId : Optional JsString
  sftpRoot : JsString
  protocol : HostProtocol
  username : JsString
  deriving DecidableEq

structure HostRecord extends BackendConnectionHost where
  group : JsString
  tags : List JsString
  note : JsString
  favorite : Bool
  keyLabel : JsString
  snippetCount : ℤ
  forwardingCount : ℤ
  createdAt : JsString
  updatedAt : JsString
  lastConnectedAt : Optional JsString
  deriving DecidableEq

structure KnownHostRecord where
  id : JsString
  hostname : JsString
  port : ℤ
  algorithm : JsString
  publicKey : JsString
  fingerprint : JsString
  trustedAt : JsString
  updatedAt : JsString
  deriving DecidableEq

inductive IdentitySource where
  | imported
  | derived
  deriving DecidableEq, Repr

structure IdentityRecord where
  id : JsString
  label : JsString
  username : JsString
  authMethod : HostAuthMethod
  privateKeyPath : JsString
  keyId : Optional JsString
  hasPassphrase : Bool
  comment : JsString
  source : IdentitySource
  createdAt : JsString
  updatedAt : JsString
  deriving DecidableEq

inductive KeyAlgorithm where
  | ed25519
  | ecdsa
  | rsa
  | unknown
  deriving DecidableEq, Repr

inductive KeySource where
  | imported
  | generated
  deriving DecidableEq, Repr

structure KeyRecord where
  id : JsString
  label : JsString
  algorithm : KeyAlgorithm
  bits : ℤ
  fingerprint : JsString
  comment : JsString
  privateKeyPath : JsString
  publicKeyPath : Optional JsString
  source : KeySource
  hasPassphrase : Bool
  assignedHostIds : List JsString
  createdAt : JsString
  updatedAt : JsString
  deriving DecidableEq

structure SnippetRecord where
  id : JsString
  title : JsString
  description : JsString
  command : JsString
  tags : List JsString
  targetHostIds : List JsString
  createdAt : JsString
  updatedAt : JsString
  lastRunAt : Optional JsString
  deriving DecidableEq

end Inventory
