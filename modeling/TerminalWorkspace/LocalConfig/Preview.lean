import TerminalWorkspace.LocalConfig.Apply
import TerminalWorkspace.LocalConfig.MergeById

/-! The import preview and the import itself. The plan of an inspection and the merge of an
application are computed apart, and the stores are written only after every check. -/
namespace LocalConfig
open JsText Inventory

def LocalConfigMergePlan.of (plan : LocalConfigMergePlan) : VaultSyncEntityKind → MergeSection
  | .hosts => plan.hosts
  | .keys => plan.keys
  | .snippets => plan.snippets
  | .knownHosts => plan.knownHosts
  | .identities => plan.identities

def MergedCollections.counts (m : MergedCollections) : VaultSyncEntityKind → MergeSection
  | .hosts => m.hosts.counts
  | .keys => m.keys.counts
  | .snippets => m.snippets.counts
  | .knownHosts => m.knownHosts.counts
  | .identities => m.identities.counts

section Plan
variable (p : Platform) (localCollections importedCollections : Collections)
  (importedDeletions : VaultDeletionMap)

theorem buildMergePlan_of (kind : VaultSyncEntityKind) :
    (buildMergePlan p localCollections importedCollections importedDeletions).of kind =
      (mergePreparedCollections p localCollections importedCollections importedDeletions
        .block).counts kind := by
  cases kind <;> rfl

theorem buildMergePlan_hasConflicts :
    (buildMergePlan p localCollections importedCollections importedDeletions).hasConflicts =
      (mergePreparedCollections p localCollections importedCollections importedDeletions
        .block).hasConflicts := rfl

theorem sortKeys_restrict_ids (hostIds : List JsString) (keys : List KeyRecord) :
    ((sortKeys p (restrictKeys hostIds keys)).map VaultRecord.id).toFinset =
      (keys.map VaultRecord.id).toFinset := by
  ext id
  simp [sortKeys, restrictKeys, VaultRecord.id]

theorem sortSnippets_restrict_ids (hostIds : List JsString) (snippets : List SnippetRecord) :
    ((sortSnippets p (restrictSnippets hostIds snippets)).map VaultRecord.id).toFinset =
      (snippets.map VaultRecord.id).toFinset := by
  ext id
  simp [sortSnippets, restrictSnippets, VaultRecord.id]

/-- The counters of a section stand for the live ids of both sides. -/
theorem total_counts (kind : VaultSyncEntityKind) :
    ((mergePreparedCollections p localCollections importedCollections importedDeletions
        .block).counts kind).total =
      (localCollections.ids kind ++ importedCollections.ids kind).toFinset.card := by
  rw [ids_eq, ids_eq]
  cases kind with
  | keys =>
    refine total_mergeCollection.trans ?_
    rw [List.toFinset_append, List.toFinset_append, sortKeys_restrict_ids, sortKeys_restrict_ids]
  | snippets =>
    refine total_mergeCollection.trans ?_
    rw [List.toFinset_append, List.toFinset_append, sortSnippets_restrict_ids,
      sortSnippets_restrict_ids]
  | hosts => exact total_mergeCollection
  | knownHosts => exact total_mergeCollection
  | identities => exact total_mergeCollection

/-- Preparing a bundle drops no id and adds none. -/
theorem prepared_ids (bundle : LocalConfigBundle) (kind : VaultSyncEntityKind) :
    ((prepareImportedCollections p bundle).ids kind).toFinset =
      (bundle.collections.ids kind).toFinset := by
  ext id
  rw [ids_eq, ids_eq]
  cases kind <;>
    simp [prepareImportedCollections, LocalConfigBundle.collections, sortHostCollection, sortKeys,
      sortSnippets, sortKnownHosts, sortIdentities, restrictKeys, restrictSnippets, VaultRecord.id]

end Plan

/-- What an array of the file holds: records, and items that are none. -/
inductive RawRecords (α : Type) where
  | notAnArray
  | array (items : List (Option α))

/-- A parsed file, before anything of it has been checked. -/
structure RawBundle where
  app : JsString
  version : ℕ
  exportedAt : JsString
  vault : Option LocalVaultMetadata
  hosts : RawRecords HostRecord
  keys : RawRecords KeyRecord
  snippets : RawRecords SnippetRecord
  knownHosts : RawRecords KnownHostRecord
  identities : Option (RawRecords IdentityRecord)
  deletions : Option VaultDeletionMap

/-- What the application is called with. An object that has a bundle and an analysis is taken
for an inspected import; its analysis may be missing all the same. -/
inductive RawImport where
  | notAnObject
  | bundle (raw : RawBundle)
  | inspected (raw : RawBundle) (strategy : Option ImportStrategy)

inductive ImportFailure where
  | notAnObject
  | unsupportedVersion
  | invalidHosts
  | invalidKeys
  | invalidSnippets
  | invalidKnownHosts
  | invalidIdentities
  | mergeUnavailable
  | mergeConflicts
  | typeError
  deriving DecidableEq, Repr

def RawRecords.isArray {α : Type} : RawRecords α → Bool
  | .notAnArray => false
  | .array _ => true

/-- Reading an item that is no record is an error. -/
def RawRecords.records {α : Type} : RawRecords α → Except ImportFailure (List α)
  | .notAnArray => .error .typeError
  | .array items => items.mapM fun item => item.elim (.error .typeError) .ok

/-- The versions that carry identities. -/
def RawBundle.carriesIdentities (raw : RawBundle) : Bool := raw.version ∈ [4, 5, 6]

/-- The checks of `parseImportedLocalConfigBundle`. -/
def RawBundle.check (raw : RawBundle) : Except ImportFailure Unit :=
  if raw.app ∉ [js "TermSnip", js "term-snip", js "terminal-workspace"] ∨
      raw.version ∉ [1, 2, 3, 4, 5, 6] then
    .error .unsupportedVersion
  else if ¬ raw.hosts.isArray then .error .invalidHosts
  else if ¬ raw.keys.isArray then .error .invalidKeys
  else if ¬ raw.snippets.isArray then .error .invalidSnippets
  else if ¬ raw.knownHosts.isArray then .error .invalidKnownHosts
  else if raw.carriesIdentities ∧ raw.identities.any (¬ ·.isArray) then .error .invalidIdentities
  else .ok ()

/-- The bundle with its records read. Identities that are no array count as none. -/
def RawBundle.read (raw : RawBundle) : Except ImportFailure LocalConfigBundle := do
  let hosts ← raw.hosts.records
  let keys ← raw.keys.records
  let snippets ← raw.snippets.records
  let knownHosts ← raw.knownHosts.records
  let identities ←
    match raw.identities with
    | some (.array items) =>
      if raw.carriesIdentities then (RawRecords.array items).records.map some else .ok none
    | _ => .ok none
  return ⟨raw.app, raw.version, raw.exportedAt, raw.vault, hosts, keys, snippets, knownHosts,
    identities, raw.deletions⟩

structure SessionsStore where
  tabs : List JsString
  panes : List JsString
  activeTabId : Option JsString
  deriving DecidableEq

structure TransfersStore where
  activeHostId : Option JsString
  remotePathByHost : List (JsString × JsString)
  queue : List JsString
  deriving DecidableEq

/-- The stores an import writes. -/
structure Stores where
  collections : Collections
  deletions : VaultDeletionMap
  vaultId : JsString
  deviceId : JsString
  lastAppliedSnapshotId : Option JsString
  sessions : SessionsStore
  transfers : TransfersStore

/-- What the import reads of the stores. -/
def Stores.state (stores : Stores) : LocalState :=
  ⟨stores.collections, stores.deletions, stores.vaultId, stores.deviceId,
    stores.lastAppliedSnapshotId, stores.transfers.activeHostId⟩

/-- The bundle and the strategy, from a file or from an inspection. -/
def RawImport.prepare (p : Platform) (stores : Stores) (inspectedAt : ℤ) :
    RawImport → Except ImportFailure (LocalConfigBundle × Option ImportStrategy)
  | .notAnObject => .error .notAnObject
  | .inspected raw strategy => do
    let bundle ← raw.read
    return (bundle, strategy)
  | .bundle raw => do
    raw.check
    let bundle ← raw.read
    match parseImportedLocalConfigBundle p stores.state bundle inspectedAt with
    | .ok imported => return (bundle, some imported.analysis.strategy)
    | .error _ => throw .unsupportedVersion

/-- What the application has computed when it starts to write. -/
structure PlannedImport where
  strategy : Option ImportStrategy
  applied : Collections
  nextDeletions : VaultDeletionMap
  importedVault : Option LocalVaultMetadata

/-- The two refusals of a merge. A strategy that is not there cannot be read. -/
def mergeRefusal (options : ApplyOptions) (strategy : Option ImportStrategy)
    (hasConflicts : Bool) : Option ImportFailure :=
  if options.mode = .replace then none
  else
    match strategy with
    | none => some .typeError
    | some strategy =>
      if strategy.mergeable = false then some .mergeUnavailable
      else if hasConflicts ∧ options.conflictResolution = none then some .mergeConflicts
      else none

def planImport (p : Platform) (stores : Stores) (input : RawImport) (options : ApplyOptions)
    (inspectedAt : ℤ) (clock : ClockReadings) : Except ImportFailure PlannedImport :=
  match input.prepare p stores inspectedAt with
  | .error failure => .error failure
  | .ok (bundle, strategy) =>
    let importedCollections := prepareImportedCollections p bundle
    let importedDeletions := prepareImportedDeletions p bundle clock.prepared
    let merged := mergePreparedCollections p stores.collections importedCollections
      importedDeletions (resolutionOf options.conflictResolution)
    match mergeRefusal options strategy merged.hasConflicts with
    | some failure => .error failure
    | none =>
      let applied :=
        match options.mode with
        | .merge => merged.records
        | .replace => importedCollections
      .ok ⟨strategy, applied,
        buildAppliedDeletionMap p options.mode stores.deletions importedDeletions applied,
        getImportedVaultMetadata bundle⟩

/-- The writes of an application, in their order. -/
def writeImport (p : Platform) (planned : PlannedImport) (storedAt : ℤ) : StateM Stores Unit := do
  modify fun s => { s with collections.hosts := planned.applied.hosts }
  modify fun s => { s with collections.keys := planned.applied.keys }
  modify fun s => { s with collections.snippets := planned.applied.snippets }
  modify fun s => { s with collections.knownHosts := planned.applied.knownHosts }
  modify fun s => { s with collections.identities := planned.applied.identities }
  modify fun s => { s with deletions := compactDeletionMap p planned.nextDeletions storedAt }
  match planned.importedVault.filter fun vault => vault.vaultId ≠ [] with
  | some vault =>
    modify fun s => { s with vaultId := vault.vaultId }
    modify fun s => { s with lastAppliedSnapshotId := some vault.snapshotId }
  | none => modify fun s => { s with lastAppliedSnapshotId := none }
  modify fun s => { s with sessions := ⟨[], [], none⟩ }
  modify fun s =>
    let active := s.transfers.activeHostId
    let nextActiveHostId :=
      if (active.bind truthy).any fun id => id ∈ planned.applied.ids .hosts then active
      else planned.applied.hosts.head?.map fun host => host.id
    { s with transfers := ⟨nextActiveHostId, [], []⟩ }

/-- The application as a whole: the answer names the strategy, which is read last. -/
def applyImport (p : Platform) (input : RawImport) (options : ApplyOptions) (inspectedAt : ℤ)
    (clock : ClockReadings) : ExceptT ImportFailure (StateM Stores) ImportStrategy := do
  let planned ← ExceptT.mk (return planImport p (← get) input options inspectedAt clock)
  ExceptT.lift (writeImport p planned clock.stored)
  match planned.strategy with
  | none => throw .typeError
  | some strategy => return strategy

/-- An inspected import comes with the analysis of the inspection. -/
def RawImport.hasAnalysis : RawImport → Bool
  | .inspected _ none => false
  | _ => true

section Effects
variable {p : Platform} {stores stores' : Stores} {input : RawImport} {options : ApplyOptions}
  {inspectedAt : ℤ} {clock : ClockReadings}

theorem prepare_strategy {prepared : LocalConfigBundle × Option ImportStrategy}
    (hanalysis : input.hasAnalysis = true)
    (h : input.prepare p stores inspectedAt = .ok prepared) : prepared.2.isSome = true := by
  cases input with
  | notAnObject => cases h
  | inspected raw strategy =>
    cases strategy with
    | none => cases hanalysis
    | some strategy =>
      simp only [RawImport.prepare, bind, Except.bind, pure, Except.pure] at h
      split at h
      · cases h
      · cases h
        rfl
  | bundle raw =>
    simp only [RawImport.prepare, bind, Except.bind, pure, Except.pure] at h
    split at h
    · cases h
    · split at h
      · cases h
      · split at h
        · cases h
          rfl
        · cases h

theorem planImport_strategy {planned : PlannedImport} (hanalysis : input.hasAnalysis = true)
    (h : planImport p stores input options inspectedAt clock = .ok planned) :
    planned.strategy.isSome = true := by
  unfold planImport at h
  split at h
  · cases h
  · rename_i bundle strategy hprepared
    have hstrategy := prepare_strategy hanalysis hprepared
    simp only at h
    split at h
    · cases h
    · cases h
      exact hstrategy

/-- The run of an application, from what it has planned. -/
theorem applyImport_run :
    (applyImport p input options inspectedAt clock).run stores =
      match planImport p stores input options inspectedAt clock with
      | .error failure => (.error failure, stores)
      | .ok planned =>
        (match planned.strategy with
          | none => .error .typeError
          | some strategy => .ok strategy,
          ((writeImport p planned clock.stored).run stores).2) := by
  have hpure (planned : Except ImportFailure PlannedImport) :
      (StateT.pure planned : StateT Stores Id _) stores = (planned, stores) := rfl
  simp only [applyImport, ExceptT.run, ExceptT.mk, bind, ExceptT.bind, ExceptT.bindCont,
    StateT.bind, get, getThe, MonadStateOf.get, StateT.get, pure, hpure, StateT.run,
    ExceptT.lift, Functor.map]
  cases hplan : planImport p stores input options inspectedAt clock with
  | error failure => rfl
  | ok planned =>
    cases hstrategy : planned.strategy with
    | none => simp only [hstrategy]; rfl
    | some strategy => simp only [hstrategy]; rfl

/-- An application that fails has written nothing. -/
theorem applyImport_failed {failure : ImportFailure} (hanalysis : input.hasAnalysis = true)
    (h : (applyImport p input options inspectedAt clock).run stores = (.error failure, stores')) :
    stores' = stores := by
  rw [applyImport_run] at h
  cases hplan : planImport p stores input options inspectedAt clock with
  | error e =>
    rw [hplan] at h
    exact (congrArg Prod.snd h).symm
  | ok planned =>
    obtain ⟨strategy, hstrategy⟩ := Option.isSome_iff_exists.mp
      (planImport_strategy hanalysis hplan)
    rw [hplan] at h
    simp only [hstrategy] at h
    cases congrArg Prod.fst h

end Effects

/-- A bundle that is well formed, as a file has it. -/
def RawBundle.ofBundle (bundle : LocalConfigBundle) : RawBundle where
  app := bundle.app
  version := bundle.version
  exportedAt := bundle.exportedAt
  vault := bundle.vault
  hosts := .array (bundle.hosts.map some)
  keys := .array (bundle.keys.map some)
  snippets := .array (bundle.snippets.map some)
  knownHosts := .array (bundle.knownHosts.map some)
  identities := bundle.identities.map fun identities => .array (identities.map some)
  deletions := bundle.deletions

section WellFormed
variable {p : Platform} {stores : Stores} {bundle : LocalConfigBundle} {options : ApplyOptions}
  {inspectedAt : ℤ} {clock : ClockReadings}

theorem records_map_some {α : Type} (records : List α) :
    (RawRecords.array (records.map some)).records = .ok records := by
  unfold RawRecords.records
  induction records with
  | nil => rfl
  | cons r records ih =>
    simp only [List.map_cons, List.mapM_cons, Option.elim_some, bind, Except.bind] at ih ⊢
    rw [ih]
    rfl

/-- The bundle without the identities its version does not carry. -/
theorem read_ofBundle :
    (RawBundle.ofBundle bundle).read = .ok { bundle with
      identities := if bundle.version ∈ [4, 5, 6] then bundle.identities else none } := by
  simp only [RawBundle.read, RawBundle.ofBundle, records_map_some, bind, Except.bind, pure,
    Except.pure]
  cases bundle.identities with
  | none => simp
  | some identities =>
    simp only [Option.map_some, RawBundle.carriesIdentities, records_map_some]
    by_cases hversion : bundle.version ∈ [4, 5, 6]
    · simp only [hversion, decide_true, if_true, Except.map]
    · simp only [hversion, decide_false, Bool.false_eq_true, if_false]

theorem prepared_read :
    prepareImportedCollections p { bundle with
      identities := if bundle.version ∈ [4, 5, 6] then bundle.identities else none } =
      prepareImportedCollections p bundle := by
  by_cases hversion : bundle.version ∈ [4, 5, 6]
  · simp only [hversion, if_true]
  · have hnone : ¬ (bundle.version = 4 ∨ bundle.version = 5 ∨ bundle.version = 6) := by
      simpa using hversion
    simp only [prepareImportedCollections, LocalConfigBundle.identityRecords, hnone, if_false]

theorem check_ofBundle :
    (RawBundle.ofBundle bundle).check =
      if bundle.app ∉ [js "TermSnip", js "term-snip", js "terminal-workspace"] ∨
          bundle.version ∉ [1, 2, 3, 4, 5, 6] then .error .unsupportedVersion
      else .ok () := by
  unfold RawBundle.check RawBundle.ofBundle
  cases bundle.identities <;> simp [RawRecords.isArray]

def ImportError.failure : ImportError → ImportFailure
  | .unsupportedVersion => .unsupportedVersion
  | .mergeUnavailable => .mergeUnavailable
  | .mergeConflicts => .mergeConflicts

/-- What the writes leave in the stores that an import reads. -/
theorem writeImport_state (planned : PlannedImport) (storedAt : ℤ) :
    ((writeImport p planned storedAt).run stores).2.state =
      { collections := planned.applied
        deletions := compactDeletionMap p planned.nextDeletions storedAt
        vaultId := ((planned.importedVault.filter fun vault => vault.vaultId ≠ []).map
          (·.vaultId)).getD stores.vaultId
        deviceId := stores.deviceId
        lastAppliedSnapshotId := (planned.importedVault.filter fun vault =>
          vault.vaultId ≠ []).map (·.snapshotId)
        activeHostId :=
          if (stores.transfers.activeHostId.bind truthy).any fun id =>
              id ∈ planned.applied.ids .hosts then
            stores.transfers.activeHostId
          else planned.applied.hosts.head?.map fun host => host.id } := by
  unfold writeImport
  cases planned.importedVault.filter fun vault => decide (vault.vaultId ≠ []) <;> rfl

theorem prepare_ofBundle :
    (RawImport.bundle (.ofBundle bundle)).prepare p stores inspectedAt =
      match parseImportedLocalConfigBundle p stores.state bundle inspectedAt with
      | .error _ => .error .unsupportedVersion
      | .ok imported => .ok ({ bundle with
          identities := if bundle.version ∈ [4, 5, 6] then bundle.identities else none },
          some imported.analysis.strategy) := by
  simp only [RawImport.prepare, check_ofBundle, read_ofBundle, bind, Except.bind]
  by_cases hversion : bundle.app ∉ [js "TermSnip", js "term-snip", js "terminal-workspace"] ∨
      bundle.version ∉ [1, 2, 3, 4, 5, 6]
  · simp only [parseImportedLocalConfigBundle, hversion, if_true]
  · simp only [parseImportedLocalConfigBundle, hversion, if_false]
    rfl

/-- The two refusals, as `applyPreparedImport` decides them. -/
theorem mergeRefusal_some {strategy : ImportStrategy} {hasConflicts : Bool} :
    mergeRefusal options (some strategy) hasConflicts =
      if options.mode = .merge ∧ strategy.mergeable = false then some .mergeUnavailable
      else if options.mode = .merge ∧ hasConflicts ∧ options.conflictResolution = none then
        some .mergeConflicts
      else none := by
  unfold mergeRefusal
  cases options.mode with
  | replace => simp
  | merge => simp

/-- On a well-formed bundle the statements of the application do what the function that
computes the next state says. -/
theorem applyImport_refines :
    match applyImportedLocalConfigBundle p stores.state (.raw bundle) options inspectedAt clock with
    | .error e => (applyImport p (.bundle (.ofBundle bundle)) options inspectedAt clock).run
        stores = (.error e.failure, stores)
    | .ok state' => ∃ strategy stores', (applyImport p (.bundle (.ofBundle bundle)) options
        inspectedAt clock).run stores = (.ok strategy, stores') ∧ stores'.state = state' := by
  simp only [applyImport_run, planImport, prepare_ofBundle, applyImportedLocalConfigBundle]
  cases hparse : parseImportedLocalConfigBundle p stores.state bundle inspectedAt with
  | error e =>
    have hunsupported : e = .unsupportedVersion := by
      unfold parseImportedLocalConfigBundle at hparse
      split_ifs at hparse
      exact (Except.error.inj hparse).symm
    subst hunsupported
    rfl
  | ok imported =>
    have hbundle : imported.bundle = bundle := by
      unfold parseImportedLocalConfigBundle at hparse
      split_ifs at hparse
      exact congrArg PreparedImport.bundle (Except.ok.inj hparse).symm
    have hdeletions : prepareImportedDeletions p { bundle with
        identities := if bundle.version ∈ [4, 5, 6] then bundle.identities else none }
        clock.prepared = prepareImportedDeletions p bundle clock.prepared := rfl
    simp only [applyPreparedImport, hbundle, prepared_read, hdeletions, mergeRefusal_some,
      Stores.state]
    by_cases hunavailable : options.mode = .merge ∧ imported.analysis.strategy.mergeable = false
    · rw [if_pos hunavailable, if_pos hunavailable]
      rfl
    · rw [if_neg hunavailable, if_neg hunavailable]
      by_cases hconflicts : options.mode = .merge ∧
          (mergePreparedCollections p stores.collections (prepareImportedCollections p bundle)
            (prepareImportedDeletions p bundle clock.prepared)
            (resolutionOf options.conflictResolution)).hasConflicts = true ∧
          options.conflictResolution = none
      · rw [if_pos hconflicts, if_pos hconflicts]
        rfl
      · rw [if_neg hconflicts, if_neg hconflicts]
        exact ⟨_, _, rfl, writeImport_state _ _⟩

end WellFormed

def inspectImportedLocalConfigBundle (p : Platform) (state : LocalState)
    (bundle : LocalConfigBundle) (now : ℤ) : Except ImportError ImportAnalysis :=
  (parseImportedLocalConfigBundle p state bundle now).map (·.analysis)

section Preview
variable {p : Platform} {state : LocalState} {bundle : LocalConfigBundle}
  {vault : LocalVaultMetadata} {analysis : ImportAnalysis} {inspectedAt readAt : ℤ}
  {clock : ClockReadings}

theorem inspect_sameVault (hvault : getImportedVaultMetadata bundle = some vault)
    (hsame : vault.vaultId = state.vaultId)
    (h : inspectImportedLocalConfigBundle p state bundle inspectedAt = .ok analysis) :
    analysis.mergePlan = some (buildMergePlan p state.collections
      (prepareImportedCollections p bundle) (prepareImportedDeletions p bundle inspectedAt)) := by
  unfold inspectImportedLocalConfigBundle parseImportedLocalConfigBundle at h
  split_ifs at h
  · cases h
  · cases h
    simp only [hvault, hsame, if_true]

/-- A file of the same vault is always mergeable. -/
theorem importStrategy_sameVault (hsame : vault.vaultId = state.vaultId) :
    (importStrategy state (some vault)).mergeable = true := by
  unfold importStrategy
  simp only [hsame, ne_eq, not_true_eq_false, if_false]
  split_ifs <;> rfl

/-- A merge without a resolution is refused exactly for its conflicts. -/
theorem apply_merge_conflicts_iff (hvault : getImportedVaultMetadata bundle = some vault)
    (hsame : vault.vaultId = state.vaultId)
    (h : inspectImportedLocalConfigBundle p state bundle inspectedAt = .ok analysis) :
    applyImportedLocalConfigBundle p state (.raw bundle) ⟨.merge, none⟩ readAt clock =
        .error .mergeConflicts ↔
      (mergePreparedCollections p state.collections (prepareImportedCollections p bundle)
        (prepareImportedDeletions p bundle clock.prepared) .block).hasConflicts = true := by
  have hstrategy := importStrategy_sameVault hsame
  unfold inspectImportedLocalConfigBundle parseImportedLocalConfigBundle at h
  split_ifs at h with hunsupported
  · cases h
  · simp only [applyImportedLocalConfigBundle, parseImportedLocalConfigBundle, if_neg hunsupported,
      applyPreparedImport, hvault, hstrategy, Bool.true_eq_false, and_false, if_false, resolutionOf]
    split_ifs with hconflicts
    · simp [hconflicts]
    · simpa using hconflicts

end Preview

/-- Collation by code units, and a clock that reads the start of the epoch. -/
def epochPlatform : Platform where
  localeCompare s t := if before s t then .lt else if before t s then .gt else .eq
  dateParse s := if s = js "1970-01-01T00:00:00.000Z" then some 0 else none

/-- A vault with one known host, which was trusted before the epoch. -/
def knownHostState : LocalState where
  collections :=
    ⟨[], [], [], [⟨js "k", js "h", 22, js "ssh-rsa", js "AAAA", [], [], js "1969"⟩], []⟩
  deletions := emptyDeletionMap
  vaultId := js "v"
  deviceId := js "d"
  lastAppliedSnapshotId := none
  activeHostId := none

/-- An export of that vault in which the known host is deleted. -/
def deletedKnownHost : LocalConfigBundle where
  app := js "terminal-workspace"
  version := 6
  exportedAt := js "1970-01-01T00:00:00.000Z"
  vault := some ⟨js "local-first-vault", js "v", js "e", js "s", none⟩
  hosts := []
  keys := []
  snippets := []
  knownHosts := []
  identities := some []
  deletions := some { emptyDeletionMap with
    knownHosts := [⟨js "k", js "1970-01-01T00:00:00.000Z"⟩] }

def knownHostStores : Stores where
  collections := knownHostState.collections
  deletions := emptyDeletionMap
  vaultId := js "v"
  deviceId := js "d"
  lastAppliedSnapshotId := none
  sessions := ⟨[], [], none⟩
  transfers := ⟨none, [], []⟩

end LocalConfig
