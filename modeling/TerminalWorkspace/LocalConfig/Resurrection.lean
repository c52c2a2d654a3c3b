import TerminalWorkspace.LocalConfig.Apply

/-! Local deletions under a merge. The merge joins live records and never looks at the
local tombstones, so a bundle brings back every record it has. -/
namespace LocalConfig
open JsText Inventory

section Collection
variable {α : Type} [VaultRecord α] {p : Platform} {resolution : ConflictResolution}
  {localRecords importedRecords : List α} {sortRecords : List α → List α}
  {deletions : List VaultDeletionEntry} {id : JsString}

theorem byId_get?_eq_none {records : List α} (h : ∀ r ∈ records, VaultRecord.id r ≠ id) :
    (byId records).get? id = none := by
  rw [byId, OrderedMap.get?_ofList, OrderedMap.lastFor_eq_none]
  simpa using h

theorem byId_get?_eq_some {records : List α} {r : α} (hr : r ∈ records)
    (hid : VaultRecord.id r = id) :
    ∃ r' ∈ records, VaultRecord.id r' = id ∧ (byId records).get? id = some r' := by
  cases hget : (byId records).get? id with
  | none =>
    rw [byId, OrderedMap.get?_ofList, OrderedMap.lastFor_eq_none] at hget
    exact absurd hid (hget (VaultRecord.id r, r) (List.mem_map_of_mem hr))
  | some r' =>
    rw [byId, OrderedMap.get?_ofList] at hget
    obtain ⟨r₀, hr₀, he⟩ := List.mem_map.mp (OrderedMap.lastFor_mem hget)
    obtain ⟨hid₀, rfl⟩ := Prod.mk.inj he
    exact ⟨r₀, hr₀, hid₀, rfl⟩

/-- A record that only the import has is added, whatever the tombstones say. -/
theorem mergeCollection_adds
    (hsort : ∀ (l : List α), ∀ r ∈ l, ∃ r' ∈ sortRecords l, VaultRecord.id r' = VaultRecord.id r)
    (hlocal : ∀ r ∈ localRecords, VaultRecord.id r ≠ id)
    (himported : ∃ r ∈ importedRecords, VaultRecord.id r = id) :
    ∃ r ∈ (mergeCollection p localRecords importedRecords sortRecords deletions resolution).records,
      VaultRecord.id r = id := by
  obtain ⟨r, hr, hid⟩ := himported
  obtain ⟨r', -, hid', hget⟩ := byId_get?_eq_some hr hid
  have hnone := byId_get?_eq_none hlocal
  have hids : id ∈ allIds (byId localRecords) (byId importedRecords) := by
    refine List.mem_append_right _ (List.mem_filter.mpr ⟨?_, ?_⟩)
    · simp [OrderedMap.mem_keys_iff, hget]
    · simp [OrderedMap.mem_keys_iff, hnone]
  have hmem : r' ∈ (allIds (byId localRecords) (byId importedRecords)).filterMap fun id =>
      (mergeOne p resolution ((byId localRecords).get? id) ((byId importedRecords).get? id)
        ((OrderedMap.ofList (deletions.map fun entry => (entry.id, entry))).get? id)).record := by
    refine List.mem_filterMap.mpr ⟨id, hids, ?_⟩
    rw [hnone, hget]
    rfl
  obtain ⟨r'', hr'', hid''⟩ := hsort _ r' hmem
  exact ⟨r'', hr'', hid''.trans hid'⟩

theorem exists_sortBy {compare : α → α → Ordering} (l : List α) (r : α) (hr : r ∈ l) :
    ∃ r' ∈ sortBy compare l, VaultRecord.id r' = VaultRecord.id r :=
  ⟨r, mem_sortBy.mpr hr, rfl⟩

end Collection

theorem exists_sortHostCollection (p : Platform) (l : List HostRecord) (r : HostRecord)
    (hr : r ∈ l) : ∃ r' ∈ sortHostCollection p l, VaultRecord.id r' = VaultRecord.id r :=
  ⟨normalizeHostRecord r, mem_sortBy.mpr (List.mem_map_of_mem hr), rfl⟩

section Apply
variable {p : Platform} {state state' : LocalState} {input : ImportInput}
  {options : ApplyOptions} {inspectedAt : ℤ} {clock : ClockReadings} {kind : VaultSyncEntityKind}
  {id : JsString}

theorem mem_ids {c : Collections} : id ∈ c.ids kind ↔
    match kind with
    | .hosts => ∃ r ∈ c.hosts, VaultRecord.id r = id
    | .keys => ∃ r ∈ c.keys, VaultRecord.id r = id
    | .snippets => ∃ r ∈ c.snippets, VaultRecord.id r = id
    | .knownHosts => ∃ r ∈ c.knownHosts, VaultRecord.id r = id
    | .identities => ∃ r ∈ c.identities, VaultRecord.id r = id := by
  cases kind <;> simp [Collections.ids, Collections.stamps, VaultRecord.id]

/-- Preparing a bundle drops no id. -/
theorem mem_ids_prepared {bundle : LocalConfigBundle} (h : id ∈ bundle.collections.ids kind) :
    id ∈ (prepareImportedCollections p bundle).ids kind := by
  rw [mem_ids] at h ⊢
  cases kind with
  | hosts =>
    obtain ⟨r, hr, hid⟩ := h
    obtain ⟨r', hr', hid'⟩ := exists_sortHostCollection p _ r hr
    exact ⟨r', hr', hid'.trans hid⟩
  | keys =>
    obtain ⟨r, hr, hid⟩ := h
    exact ⟨_, mem_sortBy.mpr (List.mem_map_of_mem hr), hid⟩
  | snippets =>
    obtain ⟨r, hr, hid⟩ := h
    exact ⟨_, mem_sortBy.mpr (List.mem_map_of_mem hr), hid⟩
  | knownHosts =>
    obtain ⟨r, hr, hid⟩ := h
    exact ⟨r, mem_sortBy.mpr hr, hid⟩
  | identities =>
    obtain ⟨r, hr, hid⟩ := h
    exact ⟨r, mem_sortBy.mpr hr, hid⟩

private theorem exists_restrictKeys {hostIds : List JsString} {keys : List KeyRecord} :
    (∃ r ∈ sortKeys p (restrictKeys hostIds keys), VaultRecord.id r = id) ↔
      ∃ r ∈ keys, VaultRecord.id r = id := by
  simp [sortKeys, restrictKeys, VaultRecord.id]

private theorem exists_restrictSnippets {hostIds : List JsString} {snippets : List SnippetRecord} :
    (∃ r ∈ sortSnippets p (restrictSnippets hostIds snippets), VaultRecord.id r = id) ↔
      ∃ r ∈ snippets, VaultRecord.id r = id := by
  simp [sortSnippets, restrictSnippets, VaultRecord.id]

/-- Merging collections adds every id that only the import has. -/
theorem mem_ids_merged {localCollections importedCollections : Collections}
    {importedDeletions : VaultDeletionMap} {resolution : ConflictResolution}
    (hlocal : id ∉ localCollections.ids kind) (himported : id ∈ importedCollections.ids kind) :
    id ∈ (mergePreparedCollections p localCollections importedCollections importedDeletions
      resolution).records.ids kind := by
  rw [mem_ids] at *
  cases kind with
  | hosts =>
    exact mergeCollection_adds (exists_sortHostCollection p)
      (fun r hr hid => hlocal ⟨r, hr, hid⟩) himported
  | keys =>
    exact mergeCollection_adds exists_sortBy
      (fun r hr hid => hlocal (exists_restrictKeys.mp ⟨r, hr, hid⟩))
      (exists_restrictKeys.mpr himported)
  | snippets =>
    exact mergeCollection_adds exists_sortBy
      (fun r hr hid => hlocal (exists_restrictSnippets.mp ⟨r, hr, hid⟩))
      (exists_restrictSnippets.mpr himported)
  | knownHosts =>
    exact mergeCollection_adds exists_sortBy (fun r hr hid => hlocal ⟨r, hr, hid⟩) himported
  | identities =>
    exact mergeCollection_adds exists_sortBy (fun r hr hid => hlocal ⟨r, hr, hid⟩) himported

/-- What a successful merge stores. -/
theorem apply_merge_ok (hmode : options.mode = .merge)
    (h : applyImportedLocalConfigBundle p state input options inspectedAt clock = .ok state') :
    ∃ importedDeletions, state'.collections = (mergePreparedCollections p state.collections
        (prepareImportedCollections p input.bundle) importedDeletions
        (resolutionOf options.conflictResolution)).records ∧
      state'.deletions = compactDeletionMap p (buildAppliedDeletionMap p .merge state.deletions
        importedDeletions state'.collections) clock.stored := by
  obtain ⟨imported, hbundle, himported⟩ := applyImported_eq_ok h
  obtain ⟨hcollections, hdeletions⟩ := applyPreparedImport_eq_ok himported
  rw [hmode, hbundle] at hcollections
  rw [hmode, hbundle] at hdeletions
  exact ⟨_, hcollections, hdeletions⟩

theorem live_after_merge (hmode : options.mode = .merge)
    (h : applyImportedLocalConfigBundle p state input options inspectedAt clock = .ok state')
    (hlocal : id ∉ state.collections.ids kind) (himported : id ∈ input.bundle.collections.ids kind) :
    id ∈ state'.collections.ids kind := by
  obtain ⟨importedDeletions, hcollections, -⟩ := apply_merge_ok hmode h
  rw [hcollections]
  exact mem_ids_merged hlocal (mem_ids_prepared himported)

theorem mergeDeletionEntries_dead {localEntries importedEntries : List VaultDeletionEntry}
    {survivingIds : List JsString} {e : VaultDeletionEntry}
    (h : e ∈ mergeDeletionEntries p localEntries importedEntries survivingIds) :
    e.id ∉ survivingIds := by
  rw [mergeDeletionEntries, sortDeletionEntries, mem_sortBy] at h
  simpa using (List.mem_filter.mp (latestEntries_values h)).2

/-- A merge records no tombstone for a live id. -/
theorem no_tombstone_of_live (hmode : options.mode = .merge)
    (h : applyImportedLocalConfigBundle p state input options inspectedAt clock = .ok state')
    (hlive : id ∈ state'.collections.ids kind) : ∀ e ∈ state'.deletions.of kind, e.id ≠ id := by
  obtain ⟨importedDeletions, -, hdeletions⟩ := apply_merge_ok hmode h
  rintro e he rfl
  rw [hdeletions, compactDeletionMap_of] at he
  have hmerged := compactDeletionEntries_subset he
  cases kind <;> exact mergeDeletionEntries_dead hmerged hlive

/-- The local state has deleted an id later than the bundle's record for it changed. -/
structure DeletedLocally (state : LocalState) (bundle : LocalConfigBundle)
    (kind : VaultSyncEntityKind) (id : JsString) : Prop where
  not_live : id ∉ state.collections.ids kind
  later : ∃ entry ∈ state.deletions.of kind, entry.id = id ∧
    ∃ updatedAt, (id, updatedAt) ∈ bundle.collections.stamps kind ∧
      before updatedAt entry.deletedAt = true

theorem DeletedLocally.imported {bundle : LocalConfigBundle}
    (h : DeletedLocally state bundle kind id) : id ∈ bundle.collections.ids kind := by
  obtain ⟨-, -, -, -, updatedAt, hstamp, -⟩ := h
  exact List.mem_map.mpr ⟨(id, updatedAt), hstamp, rfl⟩

/-- A merge resurrects every locally deleted record that the bundle has, and forgets
its tombstone. -/
theorem merge_resurrects (hmode : options.mode = .merge)
    (h : applyImportedLocalConfigBundle p state input options inspectedAt clock = .ok state')
    (hdeleted : DeletedLocally state input.bundle kind id) :
    id ∈ state'.collections.ids kind ∧ ∀ e ∈ state'.deletions.of kind, e.id ≠ id :=
  have hlive := live_after_merge hmode h hdeleted.not_live hdeleted.imported
  ⟨hlive, no_tombstone_of_live hmode h hlive⟩

/-- A merge for which the user chose a resolution is refused only outside the vault's lineage. -/
theorem apply_resolved {imported : PreparedImport} (hmode : options.mode = .merge)
    (hstrategy : imported.analysis.strategy.mergeable = true)
    (hchosen : options.conflictResolution ≠ none) :
    ∃ state', applyImportedLocalConfigBundle p state (.inspected imported) options inspectedAt
      clock = .ok state' := by
  rw [applyImportedLocalConfigBundle, applyPreparedImport]
  simp [hmode, hstrategy, hchosen]

/-- Collation by code units, and a clock that reads nothing. -/
def plainPlatform : Platform := ⟨fun s t => if before s t then .lt else .gt, fun _ => none⟩

/-- A vault whose only trace of the known host `k` is its tombstone. -/
def deletedState : LocalState where
  collections := ⟨[], [], [], [], []⟩
  deletions := { emptyDeletionMap with knownHosts := [⟨js "k", js "2026-02"⟩] }
  vaultId := js "v"
  deviceId := js "d"
  lastAppliedSnapshotId := none
  activeHostId := none

/-- An older export of that vault, in which `k` is live. -/
def olderImport : PreparedImport where
  bundle :=
    { app := js "terminal-workspace"
      version := 6
      exportedAt := js "2026-01"
      vault := some ⟨js "local-first-vault", js "v", js "d", js "s", none⟩
      hosts := []
      keys := []
      snippets := []
      knownHosts := [⟨js "k", js "h", 22, js "ssh-rsa", js "AAAA", [], [], js "2026-01"⟩]
      identities := some []
      deletions := some emptyDeletionMap }
  analysis := ⟨.divergent, none⟩

theorem olderImport_deleted :
    DeletedLocally deletedState olderImport.bundle .knownHosts (js "k") where
  not_live := by decide
  later := ⟨⟨js "k", js "2026-02"⟩, by decide, rfl, js "2026-01", by decide, by decide⟩

theorem merge_resurrects_olderImport :
    ∃ state', applyImportedLocalConfigBundle plainPlatform deletedState (.inspected olderImport)
        ⟨.merge, some .keepLocal⟩ 0 ⟨0, 0⟩ = .ok state' ∧
      js "k" ∈ state'.collections.ids .knownHosts ∧
      ∀ e ∈ state'.deletions.of .knownHosts, e.id ≠ js "k" := by
  obtain ⟨state', h⟩ := @apply_resolved plainPlatform deletedState ⟨.merge, some .keepLocal⟩ 0
    ⟨0, 0⟩ olderImport rfl rfl (by decide)
  exact ⟨state', h, merge_resurrects rfl h olderImport_deleted⟩

theorem not_every_deletion_kept :
    ¬ ∀ (p : Platform) (state state' : LocalState) (input : ImportInput) (options : ApplyOptions)
      (inspectedAt : ℤ) (clock : ClockReadings) (kind : VaultSyncEntityKind) (id : JsString),
      options.mode = .merge →
      applyImportedLocalConfigBundle p state input options inspectedAt clock = .ok state' →
      DeletedLocally state input.bundle kind id →
      id ∉ state'.collections.ids kind ∧ ∃ e ∈ state'.deletions.of kind, e.id = id := by
  intro hkept
  obtain ⟨state', h⟩ := @apply_resolved plainPlatform deletedState ⟨.merge, some .keepLocal⟩ 0
    ⟨0, 0⟩ olderImport rfl rfl (by decide)
  have hlive := live_after_merge rfl h olderImport_deleted.not_live olderImport_deleted.imported
  exact (hkept _ _ _ _ _ _ _ _ _ rfl h olderImport_deleted).1 hlive

end Apply

end LocalConfig
