import TerminalWorkspace.VaultStores.Identities

/-! The actions of the five stores, each as one step of the state they share. -/
namespace VaultStores
open JsText Inventory LocalConfig

/-- The stores, with the flag of the identity migration, which runs once a session. -/
structure Stores extends LocalState where
  migrationCompleted : Bool

/-- What the clock says: as text, and in milliseconds. -/
structure Reading where
  now : JsString
  nowMs : ℤ

inductive StoreAction where
  | createHost (values : HostFormValues) (fresh : JsString)
  | updateHost (hostId : JsString) (values : HostFormValues) (fresh : JsString)
  | deleteHost (hostId : JsString)
  | toggleFavorite (hostId : JsString)
  | markConnected (hostId : JsString)
  | setSnippetCounts (counts : OrderedMap JsString ℤ)
  | assignKey (hostId : JsString) (key : AssignedKey)
  | clearKeyByPath (privateKeyPath : JsString)
  | renameGroup (oldName newName : JsString)
  | removeGroup (groupName : JsString)
  | ensureLocalShellHost
  | loadSampleData
  | importKey (label : JsString) (metadata : KeyMetadata) (hasPassphrase : Bool) (fresh : JsString)
  | addGeneratedKey (label : JsString) (metadata : KeyMetadata) (hasPassphrase : Bool)
      (fresh : JsString)
  | deleteKey (keyId : JsString)
  | unassignHostFromAll (hostId : JsString)
  | assignHost (keyId hostId : JsString)
  | createSnippet (values : SnippetFormValues) (fresh : JsString)
  | updateSnippet (snippetId : JsString) (values : SnippetFormValues)
  | deleteSnippet (snippetId : JsString)
  | duplicateSnippet (snippetId fresh : JsString)
  | removeHostFromAllTargets (hostId : JsString)
  | markSnippetRun (snippetId : JsString)
  | trustKnownHost (entry : KnownHostScanResult)
  | removeKnownHost (knownHostId : JsString)
  | upsertIdentity (input : IdentityInput)
  | setLabel (identityId label : JsString)
  | setComment (identityId comment : JsString)
  | removeIdentity (identityId : JsString)
  | ensureMigrated (generateId : ℕ → JsString)
  | deleteHostAndCascade (hostId : JsString)

section Writers

def Stores.setHosts (s : Stores) (hosts : List HostRecord) : Stores :=
  { s with collections := { s.collections with hosts := hosts } }

def Stores.setKeys (s : Stores) (keys : List KeyRecord) : Stores :=
  { s with collections := { s.collections with keys := keys } }

def Stores.setSnippets (s : Stores) (snippets : List SnippetRecord) : Stores :=
  { s with collections := { s.collections with snippets := snippets } }

def Stores.setKnownHosts (s : Stores) (knownHosts : List KnownHostRecord) : Stores :=
  { s with collections := { s.collections with knownHosts := knownHosts } }

def Stores.setIdentities (s : Stores) (identities : List IdentityRecord) : Stores :=
  { s with collections := { s.collections with identities := identities } }

variable (p : Platform)

def upsertDeletionEntry (entries : List VaultDeletionEntry) (id deletedAt : JsString) :
    List VaultDeletionEntry :=
  sortDeletionEntries p (⟨id, deletedAt⟩ :: entries.filter fun entry => entry.id ≠ id)

def removeDeletionEntry (entries : List VaultDeletionEntry) (id : JsString) :
    List VaultDeletionEntry :=
  sortDeletionEntries p (entries.filter fun entry => entry.id ≠ id)

def Stores.markDeleted (s : Stores) (kind : VaultSyncEntityKind) (id : JsString)
    (reading : Reading) : Stores :=
  { s with
    deletions := s.deletions.put kind (compactDeletionEntries p
      (upsertDeletionEntry p (s.deletions.of kind) id reading.now) reading.nowMs) }

def Stores.clearDeleted (s : Stores) (kind : VaultSyncEntityKind) (id : JsString) : Stores :=
  { s with deletions := s.deletions.put kind (removeDeletionEntry p (s.deletions.of kind) id) }

/-- A key is written under its path, and whatever key is then found there is not deleted. -/
def Stores.upsertKey (s : Stores) (label : JsString) (metadata : KeyMetadata) (source : KeySource)
    (hasPassphrase : Bool) (fresh now : JsString) : Stores :=
  let keys :=
    VaultStores.upsertKey p s.collections.keys label metadata source hasPassphrase fresh now
  match keys.find? fun key => key.privateKeyPath = metadata.privateKeyPath with
  | none => s.setKeys keys
  | some nextKey => (s.setKeys keys).clearDeleted p .keys nextKey.id

def Stores.deleteHost (s : Stores) (hostId : JsString) (reading : Reading) : Stores :=
  (s.setHosts (deleteHostFromCollection p s.collections.hosts hostId)).markDeleted p .hosts hostId
    reading

def Stores.ensureLocalShellHost (s : Stores) (now : JsString) : Stores :=
  if s.collections.hosts.any fun host => host.id = localShellHostId then s
  else
    (s.setHosts (sortHostCollection p
      (s.collections.hosts ++ [createLocalShellHostRecord now]))).clearDeleted p .hosts
        localShellHostId

def Stores.loadSampleData (s : Stores) : Stores :=
  let fresh := sortHostCollection p sampleHosts
  fresh.foldl (fun s host => s.clearDeleted p .hosts host.id) (s.setHosts fresh)

def Stores.deleteKey (s : Stores) (keyId : JsString) (reading : Reading) : Stores :=
  let keys := sortKeys p (s.collections.keys.filter fun entry => entry.id ≠ keyId)
  if s.collections.keys.any fun entry => entry.id = keyId then
    (s.setKeys keys).markDeleted p .keys keyId reading
  else s.setKeys keys

def Stores.deleteSnippet (s : Stores) (snippetId : JsString) (reading : Reading) : Stores :=
  (s.setSnippets (sortSnippets p
    (s.collections.snippets.filter fun snippet => snippet.id ≠ snippetId))).markDeleted p .snippets
      snippetId reading

def Stores.duplicateSnippet (s : Stores) (snippetId fresh now : JsString) : Stores :=
  match s.collections.snippets.find? fun snippet => snippet.id = snippetId with
  | none => s
  | some source =>
    (s.setSnippets (sortSnippets p (duplicateRecord source fresh now :: s.collections.snippets))
      ).clearDeleted p .snippets fresh

def Stores.removeIdentity (s : Stores) (identityId : JsString) (reading : Reading) : Stores :=
  if s.collections.identities.any fun entry => entry.id = identityId then
    (s.setIdentities (s.collections.identities.filter fun entry => entry.id ≠ identityId)
      ).markDeleted p .identities identityId reading
  else s

def Stores.ensureMigrated (s : Stores) (generateId : ℕ → JsString) (now : JsString) : Stores :=
  if s.migrationCompleted then s
  else
    let result := migrateHostsToIdentities p s.collections.hosts s.collections.keys
      s.collections.identities generateId now
    let identities :=
      if result.identitiesToAdd = [] then s.collections.identities
      else sortIdentities p (s.collections.identities ++ result.identitiesToAdd)
    { (s.setIdentities identities).setHosts
        (applyIdentityAssignments s.collections.hosts result.assignmentsByHostId) with
      migrationCompleted := true }

/-- The transfers store forgets a host that is gone. -/
def Stores.forgetActiveHost (s : Stores) (hostId : JsString) : Stores :=
  if s.activeHostId = some hostId then { s with activeHostId := none } else s

def Stores.deleteHostAndCascade (s : Stores) (hostId : JsString) (reading : Reading) : Stores :=
  let s := s.deleteHost p hostId reading
  let s := s.setKeys (unassignHostFromAll p s.collections.keys hostId)
  let s := s.setSnippets (removeHostFromAllTargets p s.collections.snippets hostId)
  s.forgetActiveHost hostId

end Writers

def Stores.perform (p : Platform) (s : Stores) (reading : Reading) : StoreAction → Stores
  | .createHost values fresh =>
    (s.setHosts (sortHostCollection p
      (s.collections.hosts ++ [createHostRecord values none fresh reading.now]))).clearDeleted p
        .hosts fresh
  | .updateHost hostId values fresh =>
    (s.setHosts (upsertHostCollection p s.collections.hosts values hostId fresh
      reading.now)).clearDeleted p .hosts hostId
  | .deleteHost hostId => s.deleteHost p hostId reading
  | .toggleFavorite hostId =>
    s.setHosts (toggleHostFavoriteInCollection p s.collections.hosts hostId reading.now)
  | .markConnected hostId =>
    s.setHosts (markHostConnectedInCollection p s.collections.hosts hostId reading.now)
  | .setSnippetCounts counts => s.setHosts (setSnippetCounts p s.collections.hosts counts)
  | .assignKey hostId key =>
    s.setHosts (assignKeyInCollection p s.collections.hosts hostId key reading.now)
  | .clearKeyByPath privateKeyPath =>
    s.setHosts (clearKeyInCollection p s.collections.hosts privateKeyPath reading.now)
  | .renameGroup oldName newName =>
    s.setHosts (renameGroup p s.collections.hosts oldName newName reading.now)
  | .removeGroup groupName =>
    s.setHosts (removeGroup p s.collections.hosts groupName reading.now)
  | .ensureLocalShellHost => s.ensureLocalShellHost p reading.now
  | .loadSampleData => s.loadSampleData p
  | .importKey label metadata hasPassphrase fresh =>
    s.upsertKey p label metadata .imported hasPassphrase fresh reading.now
  | .addGeneratedKey label metadata hasPassphrase fresh =>
    s.upsertKey p label metadata .generated hasPassphrase fresh reading.now
  | .deleteKey keyId => s.deleteKey p keyId reading
  | .unassignHostFromAll hostId => s.setKeys (unassignHostFromAll p s.collections.keys hostId)
  | .assignHost keyId hostId =>
    s.setKeys (assignHost p s.collections.keys keyId hostId reading.now)
  | .createSnippet values fresh =>
    (s.setSnippets (sortSnippets p
      (s.collections.snippets ++ [createSnippetRecord values none fresh reading.now]))
      ).clearDeleted p .snippets fresh
  | .updateSnippet snippetId values =>
    (s.setSnippets (updateSnippet p s.collections.snippets snippetId values reading.now)
      ).clearDeleted p .snippets snippetId
  | .deleteSnippet snippetId => s.deleteSnippet p snippetId reading
  | .duplicateSnippet snippetId fresh => s.duplicateSnippet p snippetId fresh reading.now
  | .removeHostFromAllTargets hostId =>
    s.setSnippets (removeHostFromAllTargets p s.collections.snippets hostId)
  | .markSnippetRun snippetId =>
    s.setSnippets (markSnippetRun p s.collections.snippets snippetId reading.now)
  | .trustKnownHost entry =>
    (s.setKnownHosts (trustKnownHost p s.collections.knownHosts entry reading.now)).clearDeleted p
      .knownHosts (createKnownHostId entry)
  | .removeKnownHost knownHostId =>
    (s.setKnownHosts (sortKnownHosts p
      (s.collections.knownHosts.filter fun knownHost => knownHost.id ≠ knownHostId))).markDeleted p
        .knownHosts knownHostId reading
  | .upsertIdentity input =>
    (s.setIdentities (upsertIdentity p s.collections.identities input reading.now)).clearDeleted p
      .identities input.id
  | .setLabel identityId label =>
    s.setIdentities (setLabel p s.collections.identities identityId label reading.now)
  | .setComment identityId comment =>
    s.setIdentities (setComment p s.collections.identities identityId comment reading.now)
  | .removeIdentity identityId => s.removeIdentity p identityId reading
  | .ensureMigrated generateId => s.ensureMigrated p generateId reading.now
  | .deleteHostAndCascade hostId => s.deleteHostAndCascade p hostId reading

/-- The stores of a new installation. -/
def sampleStores (p : Platform) (vaultId deviceId : JsString) : Stores where
  collections :=
    { hosts := sortHostCollection p sampleHosts
      keys := sortKeys p sampleKeys
      snippets := sortSnippets p sampleSnippets
      knownHosts := sortKnownHosts p sampleKnownHosts
      identities := sortIdentities p sampleIdentities }
  deletions := emptyDeletionMap
  vaultId := vaultId
  deviceId := deviceId
  lastAppliedSnapshotId := none
  activeHostId := none
  migrationCompleted := false

end VaultStores
