import TerminalWorkspace.LocalConfig.MergeById

/-! Importing a bundle: what is read from it, how it relates to the local vault, and
what applying it does to the stores. -/
namespace LocalConfig
open JsText Inventory

structure LocalVaultMetadata where
  schema : JsString
  vaultId : JsString
  sourceDeviceId : JsString
  snapshotId : JsString
  baseSnapshotId : Option JsString
  deriving DecidableEq

/-- A bundle of any version. What its version does not carry is `none`. -/
structure LocalConfigBundle where
  app : JsString
  version : ℕ
  exportedAt : JsString
  vault : Option LocalVaultMetadata
  hosts : List HostRecord
  keys : List KeyRecord
  snippets : List SnippetRecord
  knownHosts : List KnownHostRecord
  identities : Option (List IdentityRecord)
  deletions : Option VaultDeletionMap

structure Collections where
  hosts : List HostRecord
  keys : List KeyRecord
  snippets : List SnippetRecord
  knownHosts : List KnownHostRecord
  identities : List IdentityRecord

/-- The stores that an import reads and writes. -/
structure LocalState where
  collections : Collections
  deletions : VaultDeletionMap
  vaultId : JsString
  deviceId : JsString
  lastAppliedSnapshotId : Option JsString
  activeHostId : Option JsString

/-- The ids of a collection with the times of their last change. -/
def Collections.stamps (c : Collections) : VaultSyncEntityKind → List (JsString × JsString)
  | .hosts => c.hosts.map fun r => (r.id, r.updatedAt)
  | .keys => c.keys.map fun r => (r.id, r.updatedAt)
  | .snippets => c.snippets.map fun r => (r.id, r.updatedAt)
  | .knownHosts => c.knownHosts.map fun r => (r.id, r.updatedAt)
  | .identities => c.identities.map fun r => (r.id, r.updatedAt)

def Collections.ids (c : Collections) (kind : VaultSyncEntityKind) : List JsString :=
  (c.stamps kind).map Prod.fst

theorem ids_eq (c : Collections) (kind : VaultSyncEntityKind) :
    c.ids kind = match kind with
      | .hosts => c.hosts.map VaultRecord.id
      | .keys => c.keys.map VaultRecord.id
      | .snippets => c.snippets.map VaultRecord.id
      | .knownHosts => c.knownHosts.map VaultRecord.id
      | .identities => c.identities.map VaultRecord.id := by
  cases kind <;> simp [Collections.ids, Collections.stamps, VaultRecord.id, Function.comp_def]

def sortKeys (p : Platform) : List KeyRecord → List KeyRecord :=
  sortBy fun left right => p.localeCompare right.updatedAt left.updatedAt

def sortSnippets (p : Platform) : List SnippetRecord → List SnippetRecord :=
  sortBy fun left right => p.localeCompare right.updatedAt left.updatedAt

def sortKnownHosts (p : Platform) : List KnownHostRecord → List KnownHostRecord :=
  sortBy fun left right => p.localeCompare right.updatedAt left.updatedAt

def sortIdentities (p : Platform) : List IdentityRecord → List IdentityRecord :=
  sortBy fun left right => p.localeCompare right.updatedAt left.updatedAt

/-- Keys that refer to the given hosts only. -/
def restrictKeys (hostIds : List JsString) (keys : List KeyRecord) : List KeyRecord :=
  keys.map fun key => { key with assignedHostIds := key.assignedHostIds.filter (· ∈ hostIds) }

def restrictSnippets (hostIds : List JsString) (snippets : List SnippetRecord) :
    List SnippetRecord :=
  snippets.map fun snippet =>
    { snippet with targetHostIds := snippet.targetHostIds.filter (· ∈ hostIds) }

/-- The identities of a bundle whose version carries them. -/
def LocalConfigBundle.identityRecords (bundle : LocalConfigBundle) : List IdentityRecord :=
  if bundle.version = 4 ∨ bundle.version = 5 ∨ bundle.version = 6 then bundle.identities.getD []
  else []

/-- The five collections as the bundle has them. -/
def LocalConfigBundle.collections (bundle : LocalConfigBundle) : Collections :=
  ⟨bundle.hosts, bundle.keys, bundle.snippets, bundle.knownHosts, bundle.identityRecords⟩

def prepareImportedCollections (p : Platform) (bundle : LocalConfigBundle) : Collections :=
  let importedHosts := sortHostCollection p bundle.hosts
  let importedHostIds := importedHosts.map fun host => host.id
  { hosts := importedHosts
    keys := sortKeys p (restrictKeys importedHostIds bundle.keys)
    snippets := sortSnippets p (restrictSnippets importedHostIds bundle.snippets)
    knownHosts := sortKnownHosts p bundle.knownHosts
    identities := sortIdentities p bundle.identityRecords }

def prepareImportedDeletions (p : Platform) (bundle : LocalConfigBundle) (now : ℤ) :
    VaultDeletionMap :=
  let deletions :=
    if bundle.version = 3 ∨ bundle.version = 4 ∨ bundle.version = 5 ∨ bundle.version = 6 then
      bundle.deletions.getD emptyDeletionMap
    else emptyDeletionMap
  compactDeletionMap p deletions now

def getImportedVaultMetadata (bundle : LocalConfigBundle) : Option LocalVaultMetadata :=
  if bundle.version = 2 ∨ bundle.version = 3 ∨ bundle.version = 4 ∨ bundle.version = 5 ∨
      bundle.version = 6 then
    bundle.vault.filter fun vault => vault.schema = js "local-first-vault"
  else none

/-- A merge of all collections, with the section of each. -/
structure MergedCollections where
  hosts : MergeResult HostRecord
  keys : MergeResult KeyRecord
  snippets : MergeResult SnippetRecord
  knownHosts : MergeResult KnownHostRecord
  identities : MergeResult IdentityRecord

def MergedCollections.records (m : MergedCollections) : Collections :=
  ⟨m.hosts.records, m.keys.records, m.snippets.records, m.knownHosts.records,
    m.identities.records⟩

def MergedCollections.hasConflicts (m : MergedCollections) : Bool :=
  0 < m.hosts.counts.conflicts || 0 < m.keys.counts.conflicts ||
    0 < m.snippets.counts.conflicts || 0 < m.knownHosts.counts.conflicts ||
    0 < m.identities.counts.conflicts

def mergePreparedCollections (p : Platform) (localCollections importedCollections : Collections)
    (importedDeletions : VaultDeletionMap) (resolution : ConflictResolution) :
    MergedCollections :=
  let mergedHosts := mergeCollection p localCollections.hosts importedCollections.hosts
    (sortHostCollection p) importedDeletions.hosts resolution
  let mergedHostIds := mergedHosts.records.map fun host => host.id
  { hosts := mergedHosts
    keys := mergeCollection p (sortKeys p (restrictKeys mergedHostIds localCollections.keys))
      (sortKeys p (restrictKeys mergedHostIds importedCollections.keys)) (sortKeys p)
      importedDeletions.keys resolution
    snippets := mergeCollection p
      (sortSnippets p (restrictSnippets mergedHostIds localCollections.snippets))
      (sortSnippets p (restrictSnippets mergedHostIds importedCollections.snippets))
      (sortSnippets p) importedDeletions.snippets resolution
    knownHosts := mergeCollection p localCollections.knownHosts importedCollections.knownHosts
      (sortKnownHosts p) importedDeletions.knownHosts resolution
    identities := mergeCollection p localCollections.identities importedCollections.identities
      (sortIdentities p) importedDeletions.identities resolution }

structure LocalConfigMergePlan where
  hasConflicts : Bool
  hosts : MergeSection
  keys : MergeSection
  snippets : MergeSection
  knownHosts : MergeSection
  identities : MergeSection
  deriving DecidableEq

/-- The merge without a resolution, of which the plan keeps the counts. -/
def buildMergePlan (p : Platform) (localCollections importedCollections : Collections)
    (importedDeletions : VaultDeletionMap) : LocalConfigMergePlan :=
  let mergedHosts := mergeCollection p localCollections.hosts importedCollections.hosts
    (sortHostCollection p) importedDeletions.hosts .block
  let mergedHostIds := mergedHosts.records.map fun host => host.id
  let normalizedLocalKeys := sortKeys p (restrictKeys mergedHostIds localCollections.keys)
  let normalizedImportedKeys := sortKeys p (restrictKeys mergedHostIds importedCollections.keys)
  let normalizedLocalSnippets :=
    sortSnippets p (restrictSnippets mergedHostIds localCollections.snippets)
  let normalizedImportedSnippets :=
    sortSnippets p (restrictSnippets mergedHostIds importedCollections.snippets)
  let mergedKeys := mergeCollection p normalizedLocalKeys normalizedImportedKeys (sortKeys p)
    importedDeletions.keys .block
  let mergedSnippets := mergeCollection p normalizedLocalSnippets normalizedImportedSnippets
    (sortSnippets p) importedDeletions.snippets .block
  let mergedKnownHosts := mergeCollection p localCollections.knownHosts
    importedCollections.knownHosts (sortKnownHosts p) importedDeletions.knownHosts .block
  let mergedIdentities := mergeCollection p localCollections.identities
    importedCollections.identities (sortIdentities p) importedDeletions.identities .block
  { hasConflicts :=
      0 < mergedHosts.counts.conflicts || 0 < mergedKeys.counts.conflicts ||
        0 < mergedSnippets.counts.conflicts || 0 < mergedKnownHosts.counts.conflicts ||
        0 < mergedIdentities.counts.conflicts
    hosts := mergedHosts.counts
    keys := mergedKeys.counts
    snippets := mergedSnippets.counts
    knownHosts := mergedKnownHosts.counts
    identities := mergedIdentities.counts }

inductive ImportStrategy where
  | legacy
  | sameSnapshot
  | fastForward
  | divergent
  | adoptVault
  deriving DecidableEq, Repr

def importStrategy (state : LocalState) : Option LocalVaultMetadata → ImportStrategy
  | none => .legacy
  | some vault =>
    if some vault.snapshotId = state.lastAppliedSnapshotId then .sameSnapshot
    else if vault.vaultId ≠ state.vaultId then .adoptVault
    else if (state.lastAppliedSnapshotId.bind truthy).isSome ∧
        vault.baseSnapshotId = state.lastAppliedSnapshotId then
      .fastForward
    else .divergent

structure ImportAnalysis where
  strategy : ImportStrategy
  mergePlan : Option LocalConfigMergePlan

inductive ImportError where
  | unsupportedVersion
  | mergeUnavailable
  | mergeConflicts
  deriving DecidableEq, Repr

structure PreparedImport where
  bundle : LocalConfigBundle
  analysis : ImportAnalysis

def parseImportedLocalConfigBundle (p : Platform) (state : LocalState) (bundle : LocalConfigBundle)
    (now : ℤ) : Except ImportError PreparedImport :=
  if bundle.app ∉ [js "TermSnip", js "term-snip", js "terminal-workspace"] ∨
      bundle.version ∉ [1, 2, 3, 4, 5, 6] then
    .error .unsupportedVersion
  else
    let importedVault := getImportedVaultMetadata bundle
    let mergePlan :=
      match importedVault with
      | none => none
      | some vault =>
        if vault.vaultId = state.vaultId then
          some (buildMergePlan p state.collections (prepareImportedCollections p bundle)
            (prepareImportedDeletions p bundle now))
        else none
    .ok ⟨bundle, ⟨importStrategy state importedVault, mergePlan⟩⟩

inductive ImportMode where
  | replace
  | merge
  deriving DecidableEq, Repr

/-- The resolution the user chose, if the options name one. -/
inductive ChosenResolution where
  | keepLocal
  | preferImported
  deriving DecidableEq, Repr

def resolutionOf : Option ChosenResolution → ConflictResolution
  | none => .block
  | some .keepLocal => .keepLocal
  | some .preferImported => .preferImported

structure ApplyOptions where
  mode : ImportMode
  conflictResolution : Option ChosenResolution
  deriving DecidableEq

def buildAppliedDeletionMap (p : Platform) (mode : ImportMode)
    (localDeletions importedDeletions : VaultDeletionMap) (applied : Collections) :
    VaultDeletionMap :=
  match mode with
  | .replace => importedDeletions
  | .merge =>
    { hosts := mergeDeletionEntries p localDeletions.hosts importedDeletions.hosts
        (applied.ids .hosts)
      keys := mergeDeletionEntries p localDeletions.keys importedDeletions.keys (applied.ids .keys)
      snippets := mergeDeletionEntries p localDeletions.snippets importedDeletions.snippets
        (applied.ids .snippets)
      knownHosts := mergeDeletionEntries p localDeletions.knownHosts importedDeletions.knownHosts
        (applied.ids .knownHosts)
      identities := mergeDeletionEntries p localDeletions.identities importedDeletions.identities
        (applied.ids .identities) }

/-- The readings of the clock during one application: when the deletions are
prepared, and when the merged ones are stored. -/
structure ClockReadings where
  prepared : ℤ
  stored : ℤ

/-- The strategies that a merge accepts. -/
def ImportStrategy.mergeable : ImportStrategy → Bool
  | .fastForward | .divergent | .sameSnapshot => true
  | .legacy | .adoptVault => false

/-- Everything is computed, and both refusals are decided, before the first store is written. -/
def applyPreparedImport (p : Platform) (state : LocalState) (imported : PreparedImport)
    (options : ApplyOptions) (clock : ClockReadings) : Except ImportError LocalState :=
  let importedCollections := prepareImportedCollections p imported.bundle
  let importedDeletions := prepareImportedDeletions p imported.bundle clock.prepared
  let merged := mergePreparedCollections p state.collections importedCollections importedDeletions
    (resolutionOf options.conflictResolution)
  if options.mode = .merge ∧ imported.analysis.strategy.mergeable = false then
    .error .mergeUnavailable
  else if options.mode = .merge ∧ merged.hasConflicts ∧ options.conflictResolution = none then
    .error .mergeConflicts
  else
    let applied :=
      match options.mode with
      | .merge => merged.records
      | .replace => importedCollections
    let nextDeletions :=
      buildAppliedDeletionMap p options.mode state.deletions importedDeletions applied
    -- a vault without an id leaves the local one and forgets the snapshot
    let importedVault :=
      (getImportedVaultMetadata imported.bundle).filter fun vault => vault.vaultId ≠ []
    .ok
      { collections := applied
        deletions := compactDeletionMap p nextDeletions clock.stored
        vaultId := (importedVault.map (·.vaultId)).getD state.vaultId
        deviceId := state.deviceId
        lastAppliedSnapshotId := importedVault.map (·.snapshotId)
        activeHostId :=
          if (state.activeHostId.bind truthy).any fun id => id ∈ applied.ids .hosts then
            state.activeHostId
          else (applied.hosts.head?).map fun host => host.id }

/-- An import is handed over as parsed JSON or as an inspection prepared it. -/
inductive ImportInput where
  | raw (bundle : LocalConfigBundle)
  | inspected (imported : PreparedImport)

def ImportInput.bundle : ImportInput → LocalConfigBundle
  | .raw bundle => bundle
  | .inspected imported => imported.bundle

def applyImportedLocalConfigBundle (p : Platform) (state : LocalState) (input : ImportInput)
    (options : ApplyOptions) (inspectedAt : ℤ) (clock : ClockReadings) :
    Except ImportError LocalState :=
  match input with
  | .inspected imported => applyPreparedImport p state imported options clock
  | .raw bundle =>
    match parseImportedLocalConfigBundle p state bundle inspectedAt with
    | .error e => .error e
    | .ok imported => applyPreparedImport p state imported options clock

section Applied
variable {p : Platform} {state after : LocalState} {options : ApplyOptions} {clock : ClockReadings}

/-- What an import that succeeds stores. -/
theorem applyPreparedImport_eq_ok {imported : PreparedImport}
    (h : applyPreparedImport p state imported options clock = .ok after) :
    (after.collections = match options.mode with
      | .merge => (mergePreparedCollections p state.collections
          (prepareImportedCollections p imported.bundle)
          (prepareImportedDeletions p imported.bundle clock.prepared)
          (resolutionOf options.conflictResolution)).records
      | .replace => prepareImportedCollections p imported.bundle) ∧
      after.deletions = compactDeletionMap p (buildAppliedDeletionMap p options.mode
        state.deletions (prepareImportedDeletions p imported.bundle clock.prepared)
        after.collections) clock.stored := by
  unfold applyPreparedImport at h
  dsimp only at h
  split at h
  · cases h
  · split at h
    · cases h
    · obtain rfl := Except.ok.inj h
      exact ⟨rfl, rfl⟩

/-- Parsed JSON is applied as its inspection prepares it. -/
theorem applyImported_eq_ok {input : ImportInput} {inspectedAt : ℤ}
    (h : applyImportedLocalConfigBundle p state input options inspectedAt clock = .ok after) :
    ∃ imported : PreparedImport, imported.bundle = input.bundle ∧
      applyPreparedImport p state imported options clock = .ok after := by
  cases input with
  | inspected imported => exact ⟨imported, rfl, h⟩
  | raw bundle =>
    rw [applyImportedLocalConfigBundle, parseImportedLocalConfigBundle] at h
    split_ifs at h
    exact ⟨_, rfl, h⟩

end Applied

end LocalConfig
