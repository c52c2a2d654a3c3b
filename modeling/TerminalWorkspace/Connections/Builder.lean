import TerminalWorkspace.Inventory.Records

/-! The connection builder and the three places that call it. A connection carries
one jump host inside the other, resolved through the hosts store. -/
namespace Connections
open JsText Inventory

structure ConnectionSecrets where
  password : JsString
  passphrase : JsString
  deriving DecidableEq

/-- The stores the builder reads besides its arguments. -/
structure Stores where
  hosts : List HostRecord
  identities : List IdentityRecord
  secretsByHostId : JsString → Option ConnectionSecrets

structure BackendHostConnection where
  agentForwarding : Bool
  authMethod : HostAuthMethod
  environment : OrderedMap JsString JsString
  hostKeyPolicy : HostKeyPolicy
  hostname : JsString
  jumpHost : Option BackendHostConnection
  knownHostAlgorithm : Option JsString
  knownHostPublicKey : Option JsString
  password : JsString
  passphrase : JsString
  port : ℤ
  privateKeyPath : JsString
  protocol : HostProtocol
  sftpRoot : Option JsString
  username : JsString

inductive ConnectError where
  | jumpHostCycle (label : JsString)
  | trustedKeyRequired (label hostname : JsString) (port : ℤ)
  | jumpHostMissing (label : JsString)
  deriving DecidableEq

def findKnownHostMatch (knownHosts : List KnownHostRecord) (host : BackendConnectionHost) :
    Option KnownHostRecord :=
  knownHosts.find? fun knownHost => knownHost.hostname = host.hostname && knownHost.port = host.port

def getHostConnectionSecrets (s : Stores) (hostId : JsString) : ConnectionSecrets :=
  (s.secretsByHostId hostId).getD ⟨[], []⟩

def resolveIdentityForHost (host : BackendConnectionHost) (identities : List IdentityRecord) :
    Option IdentityRecord :=
  host.identityId.truthy.bind fun identityId => identities.find? fun entry => entry.id = identityId

def effectiveUsername (identity : Option IdentityRecord) (host : BackendConnectionHost) : JsString :=
  match identity with
  | none => host.username
  | some identity => (truthy (RecordFile.trim isSpace identity.username)).getD host.username

def effectiveAuthMethod (identity : Option IdentityRecord) (host : BackendConnectionHost) :
    HostAuthMethod :=
  match identity with
  | none => host.authMethod
  | some identity => identity.authMethod

/-- A bound identity without a key clears the path. -/
def effectivePrivateKeyPath (identity : Option IdentityRecord) (host : BackendConnectionHost) :
    JsString :=
  match identity with
  | none => host.privateKeyPath
  | some identity =>
    if identity.authMethod = .privateKey then
      (truthy identity.privateKeyPath).getD host.privateKeyPath
    else []

/-- The record one hop contributes, around the connection to its jump host. -/
def hopConnection (s : Stores) (knownHost : Option KnownHostRecord) (host : BackendConnectionHost)
    (jumpHost : Option BackendHostConnection) : BackendHostConnection :=
  let secrets := getHostConnectionSecrets s host.id
  let identity := resolveIdentityForHost host s.identities
  { agentForwarding := host.agentForwarding
    authMethod := effectiveAuthMethod identity host
    environment := host.environment
    hostKeyPolicy := host.hostKeyPolicy
    hostname := host.hostname
    jumpHost
    knownHostAlgorithm := knownHost.map (·.algorithm)
    knownHostPublicKey := knownHost.map (·.publicKey)
    password := secrets.password
    passphrase := secrets.passphrase
    port := host.port
    privateKeyPath := effectivePrivateKeyPath identity host
    protocol := host.protocol
    sftpRoot := if host.protocol = .ssh then some host.sftpRoot else none
    username := effectiveUsername identity host }

/-- The id of the jump host in effect. -/
def jumpLink (host : BackendConnectionHost) : Option JsString :=
  if hostSupportsJumpHosts host.protocol then host.jumpHostId.truthy else none

def needsTrustedKey (host : BackendConnectionHost) : Bool :=
  hostSupportsTrustedKeys host.protocol && host.hostKeyPolicy = .requireTrusted

/-- Hosts of the store that are not in the chain yet; one more for a host that is
not in the store at all. -/
def unvisited (s : Stores) (host : BackendConnectionHost) (chainHostIds : List JsString) : ℕ :=
  2 * (s.hosts.filter fun entry => entry.id ∉ chainHostIds).length +
    if host.id ∈ s.hosts.map (·.id) then 0 else 1

theorem unvisited_jump {s : Stores} {host : BackendConnectionHost} {chainHostIds : List JsString}
    {jump : HostRecord} (hnew : host.id ∉ chainHostIds) (hjump : jump ∈ s.hosts) :
    unvisited s jump.toBackendConnectionHost (host.id :: chainHostIds) <
      unvisited s host chainHostIds := by
  have hmem : jump.id ∈ s.hosts.map (·.id) := List.mem_map_of_mem hjump
  have hfilter : s.hosts.filter (fun entry => entry.id ∉ host.id :: chainHostIds) =
      (s.hosts.filter fun entry => entry.id ∉ chainHostIds).filter fun entry => entry.id ≠ host.id := by
    rw [List.filter_filter]
    refine List.filter_congr fun entry _ => ?_
    simp
  have hle : ((s.hosts.filter fun entry => entry.id ∉ chainHostIds).filter
      fun entry => entry.id ≠ host.id).length ≤
      (s.hosts.filter fun entry => entry.id ∉ chainHostIds).length := List.length_filter_le _ _
  rw [unvisited, unvisited, if_pos hmem, hfilter]
  split_ifs with hin
  · obtain ⟨entry, hentry, hid⟩ := List.mem_map.mp hin
    have hlt : ((s.hosts.filter fun entry => entry.id ∉ chainHostIds).filter
        fun entry => entry.id ≠ host.id).length <
        (s.hosts.filter fun entry => entry.id ∉ chainHostIds).length :=
      List.length_filter_lt_length_iff_exists.mpr
        ⟨entry, List.mem_filter.mpr ⟨hentry, by simpa [hid] using hnew⟩, by simp [hid]⟩
    omega
  · omega

def buildBackendConnectionRecursive (s : Stores) (knownHosts : List KnownHostRecord)
    (host : BackendConnectionHost) (chainHostIds : List JsString) :
    Except ConnectError BackendHostConnection :=
  if _ : host.id ∈ chainHostIds then .error (.jumpHostCycle host.label)
  else
    let knownHost := findKnownHostMatch knownHosts host
    if needsTrustedKey host && knownHost.isNone then
      .error (.trustedKeyRequired host.label host.hostname host.port)
    else
      match jumpLink host with
      | none => .ok (hopConnection s knownHost host none)
      | some jumpHostId =>
        match _ : s.hosts.find? fun candidate => candidate.id = jumpHostId with
        | none => .error (.jumpHostMissing host.label)
        | some jump =>
          match buildBackendConnectionRecursive s knownHosts jump.toBackendConnectionHost
              (host.id :: chainHostIds) with
          | .error e => .error e
          | .ok connection => .ok (hopConnection s knownHost host (some connection))
  termination_by unvisited s host chainHostIds
  decreasing_by exact unvisited_jump ‹_› (List.mem_of_find?_eq_some ‹_›)

/-- The key of a known host, as the callers pass it on. -/
structure TrustedKey where
  algorithm : JsString
  publicKey : JsString
  deriving DecidableEq

def KnownHostRecord.trustedKey (knownHost : KnownHostRecord) : TrustedKey :=
  ⟨knownHost.algorithm, knownHost.publicKey⟩

/-- The one-entry collection made from a key. -/
def knownHostsFromKey (host : BackendConnectionHost) : Option TrustedKey → List KnownHostRecord
  | none => []
  | some key =>
    [{ id := host.hostname ++ js ":" ++ js (toString host.port) ++ js ":known"
       hostname := host.hostname
       port := host.port
       algorithm := key.algorithm
       publicKey := key.publicKey
       fingerprint := []
       trustedAt := []
       updatedAt := [] }]

def buildBackendConnectionFromKnownHost (s : Stores) (host : BackendConnectionHost)
    (knownHost : Option TrustedKey) : Except ConnectError BackendHostConnection :=
  buildBackendConnectionRecursive s (knownHostsFromKey host knownHost) host []

def buildBackendConnection (s : Stores) (host : BackendConnectionHost)
    (knownHosts : List KnownHostRecord) : Except ConnectError BackendHostConnection :=
  buildBackendConnectionRecursive s knownHosts host []

/-- What `connectNativeSession` asks for. The host it assembles has neither an
identity nor a jump host, and its key is looked up where the protocol has one. -/
def paneConnection (s : Stores) (host : HostRecord) (knownHosts : List KnownHostRecord) :
    Except ConnectError BackendHostConnection :=
  let trustedKnownHost :=
    if hostSupportsTrustedKeys host.protocol then
      findKnownHostMatch knownHosts host.toBackendConnectionHost
    else none
  buildBackendConnectionFromKnownHost s
    { host.toBackendConnectionHost with identityId := .absent, jumpHostId := .absent }
    (trustedKnownHost.map KnownHostRecord.trustedKey)

/-- What `restoreInactiveSessions` asks for. -/
def restoreConnection (s : Stores) (host : HostRecord) (knownHosts : List KnownHostRecord) :
    Except ConnectError BackendHostConnection :=
  buildBackendConnectionFromKnownHost s host.toBackendConnectionHost
    ((findKnownHostMatch knownHosts host.toBackendConnectionHost).map KnownHostRecord.trustedKey)

end Connections
