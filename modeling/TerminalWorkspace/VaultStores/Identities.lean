import TerminalWorkspace.VaultStores.Records

/-! The identities store, and the migration that derives an identity from every host that
authenticates. This store keeps its records in the order of their labels. -/
namespace VaultStores
open JsText Inventory LocalConfig
open RecordFile (trim)

section Store

/-- What the editor hands over; the times it leaves out are filled in. -/
structure IdentityInput where
  id : JsString
  label : JsString
  username : JsString
  authMethod : HostAuthMethod
  privateKeyPath : JsString
  keyId : Optional JsString
  hasPassphrase : Bool
  comment : JsString
  source : IdentitySource
  createdAt : Option JsString
  updatedAt : Option JsString

def makeIdentityRecord (input : IdentityInput) (now : JsString) : IdentityRecord where
  id := input.id
  label := input.label
  username := input.username
  authMethod := input.authMethod
  privateKeyPath := input.privateKeyPath
  keyId := copied input.keyId
  hasPassphrase := input.hasPassphrase
  comment := input.comment
  source := input.source
  createdAt := input.createdAt.getD now
  updatedAt := input.updatedAt.getD now

def sortIdentities (p : Platform) : List IdentityRecord → List IdentityRecord :=
  sortBy fun left right => p.localeCompare left.label right.label

def upsertIdentity (p : Platform) (identities : List IdentityRecord) (input : IdentityInput)
    (now : JsString) : List IdentityRecord :=
  sortIdentities p ((identities.filter fun entry => entry.id ≠ input.id) ++
    [makeIdentityRecord input now])

def setLabel (p : Platform) (identities : List IdentityRecord) (identityId label now : JsString) :
    List IdentityRecord :=
  sortIdentities p (editWhere (fun entry => entry.id = identityId)
    (fun entry => { entry with label := label, updatedAt := now }) identities)

def setComment (p : Platform) (identities : List IdentityRecord) (identityId comment now :
    JsString) : List IdentityRecord :=
  sortIdentities p (editWhere (fun entry => entry.id = identityId)
    (fun entry => { entry with comment := comment, updatedAt := now }) identities)

def sampleIdentities : List IdentityRecord :=
  [{  id := js "identity-prod-bastion-ops"
      label := js "MacBook Pro ED25519 (ops)"
      username := js "ops"
      authMethod := .privateKey
      privateKeyPath := js "~/.ssh/id_ed25519"
      keyId := .value (js "key-prod-ed25519")
      hasPassphrase := true
      comment := js "Default identity for the production gateway host."
      source := .imported
      createdAt := js "2026-03-20T12:00:00.000Z"
      updatedAt := js "2026-03-29T11:10:00.000Z" },
    { id := js "identity-deploy"
      label := js "Deploy Shared Key (deploy)"
      username := js "deploy"
      authMethod := .privateKey
      privateKeyPath := js "~/.ssh/deploy_key"
      keyId := .value (js "key-deploy-shared")
      hasPassphrase := false
      comment := js "Shared by every blue/green deploy target."
      source := .imported
      createdAt := js "2026-03-18T08:30:00.000Z"
      updatedAt := js "2026-03-28T20:12:00.000Z" }]

end Store

section Migration

/-- Hosts with equal keys share an identity; a host without a key needs none. -/
def buildIdentityEquivalenceKey (authMethod : HostAuthMethod) (username privateKeyPath : JsString) :
    Option JsString :=
  match authMethod with
  | .none => none
  | .privateKey =>
    (truthy (trim isSpace privateKeyPath)).map fun path =>
      js "privateKey|" ++ trim isSpace username ++ js "|" ++ path
  | .password => some (js "password|" ++ trim isSpace username)

def parenthesized (name username : JsString) : JsString :=
  name ++ js " (" ++ username ++ js ")"

def deriveIdentityLabel (host : HostRecord) : JsString :=
  let username := (truthy (trim isSpace host.username)).getD (js "user")
  match host.authMethod with
  | .privateKey =>
    match truthy (trim isSpace host.keyLabel) with
    | some keyLabel => parenthesized keyLabel username
    | none =>
      let path := trim isSpace host.privateKeyPath
      let filename := ((path.splitOn (.scalar '/')).getLast?).bind truthy
      parenthesized ((filename.or (truthy path)).getD (js "key")) username
  | .password =>
    match truthy (trim isSpace host.label) with
    | some hostLabel => username ++ js "@" ++ hostLabel ++ js " (password)"
    | none => username ++ js " (password)"
  | .none => username

/-- The key that is kept at a path. -/
def keyAtPath (privateKeyPath : JsString) (keys : List KeyRecord) : Option KeyRecord :=
  (truthy (trim isSpace privateKeyPath)).bind fun trimmed =>
    keys.find? fun entry => trim isSpace entry.privateKeyPath = trimmed

/-- Of the identities that share a key the one created first. -/
def existingByKey (p : Platform) (existingIdentities : List IdentityRecord) :
    OrderedMap JsString IdentityRecord :=
  (sortBy (fun left right => p.localeCompare left.createdAt right.createdAt)
    existingIdentities).foldl (fun m identity =>
      match buildIdentityEquivalenceKey identity.authMethod identity.username
          identity.privateKeyPath with
      | none => m
      | some key => if (m.get? key).isSome then m else m.set key identity) OrderedMap.empty

/-- What the loop over the hosts has found so far. -/
structure Migration where
  assignmentsByHostId : OrderedMap JsString JsString
  newIdentitiesByKey : OrderedMap JsString IdentityRecord
  referencedIdentityIds : List JsString

def Migration.assign (m : Migration) (hostId identityId : JsString) : Migration :=
  { m with
    assignmentsByHostId := m.assignmentsByHostId.set hostId identityId
    referencedIdentityIds := m.referencedIdentityIds ++ [identityId] }

def derivedIdentity (keys : List KeyRecord) (host : HostRecord) (fresh now : JsString) :
    IdentityRecord where
  id := fresh
  label := deriveIdentityLabel host
  username := host.username
  authMethod := host.authMethod
  privateKeyPath := if host.authMethod = .privateKey then host.privateKeyPath else []
  keyId :=
    listed (if host.authMethod = .privateKey then
      (keyAtPath host.privateKeyPath keys).map (·.id) else none)
  hasPassphrase :=
    if host.authMethod = .privateKey then (keyAtPath host.privateKeyPath keys).any (·.hasPassphrase)
    else false
  comment := []
  source := .derived
  createdAt := now
  updatedAt := now

/-- The existing identity that a host names. -/
def linkedIdentity (existingIdentities : List IdentityRecord) (host : HostRecord) :
    Option IdentityRecord :=
  host.identityId.truthy.bind fun identityId =>
    existingIdentities.find? fun entry => entry.id = identityId

def hostEquivalenceKey (host : HostRecord) : Option JsString :=
  buildIdentityEquivalenceKey host.authMethod host.username host.privateKeyPath

section Loop
variable (existingIdentities : List IdentityRecord) (existing : OrderedMap JsString IdentityRecord)
  (keys : List KeyRecord) (generateId : ℕ → JsString) (now : JsString)

/-- The body of the loop. A host that names a missing identity is linked anew. -/
def migrateHost (m : Migration) (host : HostRecord) : Migration :=
  let m := { m with
    referencedIdentityIds := m.referencedIdentityIds ++ host.identityId.truthy.toList }
  match linkedIdentity existingIdentities host with
  | some previously =>
    { m with assignmentsByHostId := m.assignmentsByHostId.set host.id previously.id }
  | none =>
    match hostEquivalenceKey host with
    | none => m
    | some key =>
      match (existing.get? key).or (m.newIdentitiesByKey.get? key) with
      | some identity => m.assign host.id identity.id
      | none =>
        let identity :=
          derivedIdentity keys host (generateId m.newIdentitiesByKey.entries.length) now
        { m with newIdentitiesByKey := m.newIdentitiesByKey.set key identity }.assign host.id
          identity.id

end Loop

structure IdentityMigrationResult where
  identitiesToAdd : List IdentityRecord
  assignmentsByHostId : OrderedMap JsString JsString
  orphanedIdentityIds : List JsString

def migrateHostsToIdentities (p : Platform) (hosts : List HostRecord) (keys : List KeyRecord)
    (existingIdentities : List IdentityRecord) (generateId : ℕ → JsString) (now : JsString) :
    IdentityMigrationResult :=
  let m := hosts.foldl
    (migrateHost existingIdentities (existingByKey p existingIdentities) keys generateId now)
    ⟨OrderedMap.empty, OrderedMap.empty, []⟩
  { identitiesToAdd := m.newIdentitiesByKey.values
    assignmentsByHostId := m.assignmentsByHostId
    orphanedIdentityIds :=
      (existingIdentities.filter fun identity => identity.id ∉ m.referencedIdentityIds).map (·.id) }

/-- Only the identity of a host is written, neither its order nor its times. -/
def applyIdentityAssignments (hosts : List HostRecord)
    (assignmentsByHostId : OrderedMap JsString JsString) : List HostRecord :=
  hosts.map fun host =>
    match (assignmentsByHostId.get? host.id).bind truthy with
    | none => host
    | some nextIdentityId =>
      if host.identityId.get? = some nextIdentityId then host
      else { host with identityId := .value nextIdentityId }

end Migration

end VaultStores
