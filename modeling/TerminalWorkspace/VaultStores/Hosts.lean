import TerminalWorkspace.Inventory.NormalHosts
import TerminalWorkspace.Foundation.JsNumbers

/-! The hosts store: how a host is made from its form, and what each action does to the
collection. `now` is what the clock says while the action runs, and `fresh` the identifier
that it draws. -/
namespace VaultStores
open JsText Inventory
open RecordFile (trim)

section Text

/-- `split(",")` and its like, with every piece trimmed and the empty ones dropped. -/
def splitTrimmed (separator : Char) (value : JsString) : List JsString :=
  ((value.splitOn (.scalar separator)).map (trim isSpace)).filter (· ≠ [])

def splitCommaList (value : JsString) : List JsString := (splitTrimmed ',' value).eraseDups

/-- An entry of the environment form: what stands before the first sign is the key. -/
def parseEnvironmentEntry (entry : JsString) : JsString × JsString :=
  if .scalar '=' ∈ entry then
    (trim isSpace (entry.takeWhile (· ≠ .scalar '=')),
      trim isSpace (entry.dropWhile (· ≠ .scalar '=')).tail)
  else (entry, [])

def parseEnvironmentVariables (value : JsString) : OrderedMap JsString JsString :=
  OrderedMap.ofList (((splitTrimmed '\n' value).map parseEnvironmentEntry).filter
    fun e => e.1 ≠ [])

def digitOf : CodePoint → Option ℕ
  | .scalar c => if c.isDigit then some (c.toNat - '0'.toNat) else none
  | .surrogate _ => none

/-- The integer that `Number.parseInt(value, 10)` reads, `none` for `NaN`. -/
def parseInt (value : JsString) : Option ℤ :=
  let signed := value.dropWhile isSpace
  let negative := signed.head? = some (.scalar '-')
  let unsigned := if negative || signed.head? = some (.scalar '+') then signed.tail else signed
  match unsigned.takeWhile fun c => (digitOf c).isSome with
  | [] => none
  | digits =>
    let magnitude : ℤ := (digits.filterMap digitOf).foldl (fun n d => 10 * n + d) (0 : ℤ)
    some (if negative then -magnitude else magnitude)

end Text

section Forms

structure HostFormValues where
  label : JsString
  protocol : HostProtocol
  hostname : JsString
  username : JsString
  port : JsString
  authMethod : HostAuthMethod
  privateKeyPath : JsString
  group : JsString
  tags : JsString
  note : JsString
  favorite : Bool
  keyLabel : JsString
  hostKeyPolicy : HostKeyPolicy
  agentForwarding : Bool
  environment : JsString
  jumpHostId : JsString
  sftpRoot : JsString
  identityId : JsString

def defaultHostKeyPolicy : HostKeyPolicy := .requireTrusted

def protocolDefaultPort : HostProtocol → ℤ
  | .localShell => 0
  | .telnet => 23
  | .serial => 115200
  | .mosh | .ssh => 22

def protocolRequiresUsername (protocol : HostProtocol) : Bool :=
  protocol = .ssh || protocol = .mosh

def hostSupportsCredentialPrompt (protocol : HostProtocol) : Bool :=
  protocol = .ssh || protocol = .mosh

/-- A property that a literal lists, whether or not there is a value for it. -/
def listed {α : Type*} : Option α → Optional α
  | none => .undefined
  | some value => .value value

def createHostRecord (values : HostFormValues) (currentHost : Option HostRecord)
    (fresh now : JsString) : HostRecord :=
  let protocol := values.protocol
  let supportsCredentials := hostSupportsCredentialPrompt protocol
  { id := (currentHost.map (·.id)).getD fresh
    label := trim isSpace values.label
    protocol := protocol
    hostname := if protocol = .localShell then js "localhost" else trim isSpace values.hostname
    username :=
      if protocol = .localShell then (truthy (trim isSpace values.username)).getD (js "local")
      else if protocolRequiresUsername protocol then trim isSpace values.username
      else []
    port :=
      (((parseInt values.port).map JsNumbers.toNumber).filter (· ≠ 0)).getD
        (protocolDefaultPort protocol)
    authMethod := if supportsCredentials then values.authMethod else .none
    privateKeyPath := if supportsCredentials then trim isSpace values.privateKeyPath else []
    group := trim isSpace values.group
    tags := normalizeTags (splitCommaList values.tags)
    note := trim isSpace values.note
    favorite := values.favorite
    keyLabel := if supportsCredentials then trim isSpace values.keyLabel else []
    hostKeyPolicy :=
      if hostSupportsTrustedKeys protocol then values.hostKeyPolicy else defaultHostKeyPolicy
    agentForwarding := if supportsCredentials then values.agentForwarding else false
    environment := parseEnvironmentVariables values.environment
    jumpHostId :=
      listed (if hostSupportsJumpHosts protocol then truthy values.jumpHostId else none)
    sftpRoot :=
      if hostSupportsSftp protocol then (truthy (trim isSpace values.sftpRoot)).getD (js "/home")
      else []
    snippetCount := (currentHost.map (·.snippetCount)).getD 0
    forwardingCount := (currentHost.map (·.forwardingCount)).getD 0
    createdAt := (currentHost.map (·.createdAt)).getD now
    updatedAt := now
    lastConnectedAt := listed (currentHost.bind (·.lastConnectedAt.get?))
    identityId :=
      listed ((truthy (trim isSpace values.identityId)).or (currentHost.bind (·.identityId.get?))) }

end Forms

section Samples

def localShellHostId : JsString := js "local-shell"

def createLocalShellHostRecord (now : JsString) : HostRecord where
  id := localShellHostId
  label := js "Local Shell"
  protocol := .localShell
  hostname := js "localhost"
  username := js "local"
  port := 0
  authMethod := .none
  privateKeyPath := []
  group := js "Workstation / Local"
  tags := [js "local", js "shell"]
  note := js "Launches the current macOS login shell inside the native desktop app."
  favorite := false
  keyLabel := []
  hostKeyPolicy := defaultHostKeyPolicy
  agentForwarding := false
  environment := OrderedMap.ofList [(js "TERMSNIP_SHELL_MODE", js "native")]
  jumpHostId := .undefined
  sftpRoot := []
  snippetCount := 0
  forwardingCount := 0
  createdAt := now
  updatedAt := now
  lastConnectedAt := .undefined
  identityId := .absent

def prodGateway : HostRecord where
  id := js "prod-gateway"
  label := js "Production Gateway"
  protocol := .ssh
  hostname := js "bastion.acme.internal"
  username := js "ops"
  port := 22
  authMethod := .privateKey
  privateKeyPath := js "~/.ssh/id_ed25519"
  group := js "Acme / Production"
  tags := [js "prod", js "bastion"]
  note := js "Primary ingress host for customer-facing services."
  favorite := true
  keyLabel := js "MacBook Pro ED25519"
  hostKeyPolicy := defaultHostKeyPolicy
  agentForwarding := true
  environment :=
    OrderedMap.ofList [(js "APP_ENV", js "production"), (js "BASTION_ROLE", js "ingress")]
  jumpHostId := .undefined
  sftpRoot := js "/srv"
  snippetCount := 4
  forwardingCount := 2
  createdAt := js "2026-03-20T12:00:00.000Z"
  updatedAt := js "2026-03-28T22:12:00.000Z"
  lastConnectedAt := .value (js "2026-03-29T11:10:00.000Z")
  identityId := .value (js "identity-prod-bastion-ops")

def billingApi : HostRecord where
  id := js "billing-api"
  label := js "Billing API"
  protocol := .ssh
  hostname := js "billing-api-02.use1.internal"
  username := js "deploy"
  port := 2222
  authMethod := .privateKey
  privateKeyPath := js "~/.ssh/deploy_key"
  group := js "Acme / Services"
  tags := [js "linux", js "api", js "staging"]
  note := js "Blue/green target used for deploy rehearsals and schema checks."
  favorite := false
  keyLabel := js "Deploy Shared Key"
  hostKeyPolicy := defaultHostKeyPolicy
  agentForwarding := false
  environment := OrderedMap.ofList [(js "APP_ENV", js "staging")]
  jumpHostId := .undefined
  sftpRoot := js "/var/www"
  snippetCount := 2
  forwardingCount := 1
  createdAt := js "2026-03-18T08:30:00.000Z"
  updatedAt := js "2026-03-28T20:12:00.000Z"
  lastConnectedAt := .value (js "2026-03-28T17:45:00.000Z")
  identityId := .value (js "identity-deploy")

def edgeRouter : HostRecord where
  id := js "edge-router-07"
  label := js "Edge Router 07"
  protocol := .ssh
  hostname := js "10.42.7.14"
  username := js "admin"
  port := 22
  authMethod := .password
  privateKeyPath := []
  group := js "Network / Edge"
  tags := [js "network", js "lab", js "router"]
  note := js "Used for testing VLAN changes and failover validation."
  favorite := false
  keyLabel := js "Lab Network Key"
  hostKeyPolicy := defaultHostKeyPolicy
  agentForwarding := false
  environment := OrderedMap.empty
  jumpHostId := .undefined
  sftpRoot := js "/cfg"
  snippetCount := 3
  forwardingCount := 0
  createdAt := js "2026-03-12T09:40:00.000Z"
  updatedAt := js "2026-03-27T18:44:00.000Z"
  lastConnectedAt := .value (js "2026-03-27T16:02:00.000Z")
  identityId := .absent

def sampleHosts : List HostRecord :=
  [prodGateway, billingApi, edgeRouter, createLocalShellHostRecord (js "2026-04-04T21:00:00.000Z")]

end Samples

section Actions
variable (p : Platform)

/-- The chosen records are edited, and the others kept. -/
def editWhere {α : Type*} (chosen : α → Bool) (edit : α → α) (records : List α) : List α :=
  records.map fun record => if chosen record then edit record else record

def upsertHostCollection (hosts : List HostRecord) (values : HostFormValues) (hostId fresh now :
    JsString) : List HostRecord :=
  if hostId = [] then sortHostCollection p (hosts ++ [createHostRecord values none fresh now])
  else
    sortHostCollection p (editWhere (fun host => host.id = hostId)
      (fun host => createHostRecord values (some host) fresh now) hosts)

def deleteHostFromCollection (hosts : List HostRecord) (hostId : JsString) : List HostRecord :=
  sortHostCollection p (hosts.filter fun host => host.id ≠ hostId)

def toggleHostFavoriteInCollection (hosts : List HostRecord) (hostId now : JsString) :
    List HostRecord :=
  sortHostCollection p (editWhere (fun host => host.id = hostId)
    (fun host => { host with favorite := !host.favorite, updatedAt := now }) hosts)

def markHostConnectedInCollection (hosts : List HostRecord) (hostId now : JsString) :
    List HostRecord :=
  sortHostCollection p (editWhere (fun host => host.id = hostId)
    (fun host => { host with lastConnectedAt := .value now }) hosts)

/-- What a host takes over of a key that is assigned to it. -/
structure AssignedKey where
  label : JsString
  privateKeyPath : JsString

def assignKeyInCollection (hosts : List HostRecord) (hostId : JsString) (key : AssignedKey)
    (now : JsString) : List HostRecord :=
  sortHostCollection p (editWhere (fun host => host.id = hostId)
    (fun host =>
      { host with
        authMethod := .privateKey
        keyLabel := key.label
        privateKeyPath := key.privateKeyPath
        updatedAt := now }) hosts)

def clearKeyInCollection (hosts : List HostRecord) (privateKeyPath now : JsString) :
    List HostRecord :=
  sortHostCollection p (editWhere (fun host => host.privateKeyPath = privateKeyPath)
    (fun host => { host with keyLabel := [], privateKeyPath := [], updatedAt := now }) hosts)

def setSnippetCounts (hosts : List HostRecord) (counts : OrderedMap JsString ℤ) :
    List HostRecord :=
  sortHostCollection p
    (hosts.map fun host => { host with snippetCount := (counts.get? host.id).getD 0 })

/-- The hosts of one group move to another. -/
def moveGroup (hosts : List HostRecord) (fromGroup toGroup now : JsString) : List HostRecord :=
  sortHostCollection p (editWhere (fun host => host.group = fromGroup)
    (fun host => { host with group := toGroup, updatedAt := now }) hosts)

def renameGroup (hosts : List HostRecord) (oldName newName now : JsString) : List HostRecord :=
  let trimmedOld := trim isSpace oldName
  let trimmedNew := trim isSpace newName
  if trimmedOld = [] ∨ trimmedOld = trimmedNew then hosts
  else moveGroup p hosts trimmedOld trimmedNew now

def removeGroup (hosts : List HostRecord) (groupName now : JsString) : List HostRecord :=
  let trimmed := trim isSpace groupName
  if trimmed = [] then hosts else moveGroup p hosts trimmed [] now

end Actions

end VaultStores
