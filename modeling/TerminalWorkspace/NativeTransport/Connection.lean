import TerminalWorkspace.HostKeys.NativeStore

/-! A connection as the native transport reads it, and the chain of its jump hosts. -/
namespace NativeTransport

structure BackendHostConnection where
  agentForwarding : Bool
  authMethod : String
  hostKeyPolicy : Option String
  hostname : List Char
  jumpHost : Option BackendHostConnection
  knownHostAlgorithm : Option (List Char)
  knownHostPublicKey : Option (List Char)
  password : List Char
  passphrase : List Char
  port : UInt32
  privateKeyPath : List Char
  protocol : String
  sftpRoot : Option (List Char)
  username : List Char

namespace BackendHostConnection

/-- What the validation of a host reads of it. -/
def hostKeys : BackendHostConnection → NativeHostKeys.BackendHostConnection
  | ⟨_, authMethod, policy, hostname, jumpHost, _, publicKey, password, _, port, keyPath, protocol,
      _, username⟩ =>
    ⟨protocol, hostname, username, port, keyPath, authMethod, password, policy, publicKey,
      match jumpHost with
      | none => none
      | some jumpHost => some jumpHost.hostKeys⟩

/-- `append_connection_chain`: the outermost jump host comes first. -/
def appendConnectionChain : BackendHostConnection → List BackendHostConnection →
    List BackendHostConnection
  | ⟨agentForwarding, authMethod, policy, hostname, jumpHost, algorithm, publicKey, password,
      passphrase, port, keyPath, protocol, sftpRoot, username⟩, chain =>
    (match jumpHost with
      | none => chain
      | some jumpHost => jumpHost.appendConnectionChain chain) ++
      [⟨agentForwarding, authMethod, policy, hostname, jumpHost, algorithm, publicKey, password,
        passphrase, port, keyPath, protocol, sftpRoot, username⟩]

end BackendHostConnection

def buildConnectionChain (host : BackendHostConnection) : List BackendHostConnection :=
  host.appendConnectionChain []

def validateSshHost (host : BackendHostConnection) : Except NativeHostKeys.HostError Unit :=
  NativeHostKeys.validateSshHost host.hostKeys

/-- A host of one hop, reached with a password. -/
def directHost (hostname username : List Char) : BackendHostConnection where
  agentForwarding := false
  authMethod := "password"
  hostKeyPolicy := some "allowUnknown"
  hostname := hostname
  jumpHost := none
  knownHostAlgorithm := none
  knownHostPublicKey := none
  password := "secret".toList
  passphrase := []
  port := 22
  privateKeyPath := []
  protocol := "ssh"
  sftpRoot := none
  username := username

end NativeTransport
