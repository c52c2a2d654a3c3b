import TerminalWorkspace.LocalConfig.Convergence
import TerminalWorkspace.LocalConfig.Preview
import TerminalWorkspace.VaultStores.InOrder

/-! Importing one's own export. In a state that the stores can reach it changes nothing if and only
if the records are stored the way an import stores them and no tombstone is to be dropped. -/
namespace VaultStores
open JsText Inventory LocalConfig
open ParsedRecord (parsed)

section SelfMerge
variable {α : Type} [VaultRecord α] [ParsedRecord α] {p : Platform} {form : ImportedForm α p}
  {records : List α} {merged : MergeResult α}

/-- A section that counts nothing but unchanged records. -/
def unchangedSection (n : ℕ) : MergeSection := { createEmptyMergeSection with unchanged := n }

/-- A merge of a collection with its own export. -/
def SelfMerge (form : ImportedForm α p) (records : List α) (merged : MergeResult α) : Prop :=
  ∃ (I : List α) (deletions : List VaultDeletionEntry), I.Perm (records.map form.imported) ∧
    merged = mergeCollection p records I form.sort deletions .block

theorem imported_id (form : ImportedForm α p) (r : α) :
    VaultRecord.id (form.imported r) = VaultRecord.id r :=
  (form.normalize_id _).trans (form.parsed_id r)

/-- Where the merge finds no conflict, every record is stored as an import stores it. -/
theorem SelfMerge.canonical (h : SelfMerge form records merged)
    (hdistinct : (records.map VaultRecord.id).Nodup) (hnone : merged.counts.conflicts = 0) :
    ∀ r ∈ records, form.Canonical r := by
  obtain ⟨I, deletions, hI, rfl⟩ := h
  intro r hr
  have hids : ((records.map form.imported).map VaultRecord.id).Nodup := by
    rw [List.map_map]
    exact (List.map_congr_left fun r _ => imported_id form r).symm ▸ hdistinct
  have hfound : (byId I).get? (VaultRecord.id r) = some (form.imported r) := by
    rw [byId_perm hI hids, ← imported_id form r]
    exact byId_get?_of_nodup hids (List.mem_map_of_mem hr)
  have hagree := conflicts_eq_zero_iff.mp hnone (VaultRecord.id r)
  rw [outcomeOf, byId_get?_of_nodup hdistinct hr, hfound, mergeOne_both, imported_updatedAt,
    not_before_self] at hagree
  by_cases hserial : stableSerialize p (VaultRecord.toJson r) =
      stableSerialize p (VaultRecord.toJson (form.imported r))
  · exact (form.unchanged_iff r r rfl).mp hserial
  · rw [if_neg hserial] at hagree
    simp [Outcome.isConflict] at hagree

omit [VaultRecord α] [ParsedRecord α] in
theorem foldl_unchanged {outcome : JsString → Outcome α} {ids : List JsString}
    (h : ∀ id ∈ ids, ∃ r, outcome id = .unchanged r) (s : MergeSection) :
    ids.foldl (fun s id => s.count id (outcome id)) s =
      { s with unchanged := s.unchanged + ids.length } := by
  induction ids generalizing s with
  | nil => rfl
  | cons id ids ih =>
    obtain ⟨r, hr⟩ := h id List.mem_cons_self
    rw [List.foldl_cons, ih (fun other hother => h other (List.mem_cons_of_mem _ hother)), hr,
      List.length_cons]
    simp only [MergeSection.count]
    congr 1
    omega

/-- And then the merge leaves all of them unchanged. -/
theorem SelfMerge.unchanged (h : SelfMerge form records merged)
    (hdistinct : (records.map VaultRecord.id).Nodup)
    (hcanonical : ∀ r ∈ records, form.Canonical r) (hsorted : form.sort records = records) :
    merged = ⟨records, unchangedSection records.length⟩ := by
  obtain ⟨I, deletions, hI, rfl⟩ := h
  rw [map_eq_self hcanonical] at hI
  have hids : allIds (byId records) (byId I) = records.map VaultRecord.id := by
    rw [allIds, byId_keys_of_nodup hdistinct]
    have hnew : ((byId I).keys.filter fun id => id ∉ records.map VaultRecord.id) = [] := by
      refine List.filter_eq_nil_iff.mpr fun id hid => ?_
      rw [mem_byId_keys] at hid
      simpa using (hI.map VaultRecord.id).subset hid
    rw [hnew, List.append_nil]
  have houtcome : ∀ r ∈ records,
      outcomeOf p .block records I deletions (VaultRecord.id r) = .unchanged r := by
    intro r hr
    rw [outcomeOf, byId_perm hI hdistinct, byId_get?_of_nodup hdistinct hr, mergeOne_self]
  have hjoined : joined p .block records I deletions = records := by
    rw [joined, hids, List.filterMap_map]
    refine (List.filterMap_congr fun r hr => ?_).trans List.filterMap_some
    exact congrArg Outcome.record (houtcome r hr)
  have hcounts : (mergeCollection p records I form.sort deletions .block).counts =
      unchangedSection records.length := by
    have hfold := foldl_unchanged (fun id hid => by
      obtain ⟨r, hr, rfl⟩ := List.mem_map.mp hid
      exact ⟨r, houtcome r hr⟩) createEmptyMergeSection
    rw [List.length_map, ← hids] at hfold
    exact hfold.trans (by simp [unchangedSection, createEmptyMergeSection])
  have hrecords : (mergeCollection p records I form.sort deletions .block).records = records := by
    rw [mergeCollection_records, hjoined, hsorted]
  rw [← hcounts]
  exact congrArg (MergeResult.mk · _) hrecords

end SelfMerge

section Tombstones
variable {p : Platform} {entries imported : List VaultDeletionEntry} {live : List JsString}
  {storedMs : ℤ}

/-- The tombstones are stored again as they were exactly if none has expired and none is of a
record that lives. -/
theorem deletions_kept_iff (hentries : Compacted p entries) (himported : imported ⊆ entries)
    (hdistinct : (imported.map (·.id)).Nodup) :
    compactDeletionEntries p (mergeDeletionEntries p entries imported live) storedMs = entries ↔
      ∀ e ∈ entries, retained p storedMs e = true ∧ e.id ∉ live := by
  constructor
  · intro h e he
    rw [← h] at he
    refine ⟨compactDeletionEntries_retained he, ?_⟩
    have hmerged := compactDeletionEntries_subset he
    rw [mergeDeletionEntries, sortDeletionEntries, mem_sortBy] at hmerged
    exact of_decide_eq_true (List.mem_filter.mp (latestEntries_values hmerged)).2
  · intro h
    have hall : (entries ++ imported).filter (fun entry => entry.id ∉ live) =
        entries ++ imported := by
      refine List.filter_eq_self.mpr fun e he => decide_eq_true ?_
      rcases List.mem_append.mp he with hlocal | hforeign
      · exact (h e hlocal).2
      · exact (h e (himported hforeign)).2
    have hlatest : (latestEntries (entries ++ imported)).values = entries := by
      have hlater : ∀ e ∈ imported, e.id ∈ (latestEntries entries).keys →
          HasLater (latestEntries entries) e :=
        fun e he _ => hasLater_latestEntries (himported he)
      have hbehind : (imported.filter fun e => e.id ∉ (latestEntries entries).keys) = [] := by
        refine List.filter_eq_nil_iff.mpr fun e he => ?_
        rw [OrderedMap.keys, latestEntries_of_nodup hentries.distinct, List.map_map]
        simpa using ⟨e, himported he, rfl⟩
      rw [OrderedMap.values, latestEntries, List.foldl_append]
      change ((imported.foldl keepLatest (latestEntries entries)).entries.map Prod.snd) = entries
      rw [foldl_keepLatest_entries hdistinct hlater, hbehind,
        latestEntries_of_nodup hentries.distinct, List.map_nil, List.append_nil, List.map_map]
      exact List.map_id _
    have hretained : entries.filter (retained p storedMs) = entries :=
      List.filter_eq_self.mpr fun e he => (h e he).1
    rw [mergeDeletionEntries, hall, hlatest, sortDeletionEntries_of_pairwise hentries.sorted,
      compactDeletionEntries_of_sorted hentries.distinct hentries.sorted, hretained,
      List.take_of_length_le hentries.bounded]

end Tombstones

/-- What an export takes besides the stores. -/
structure ExportReading where
  exportedAt : JsString
  snapshotId : JsString
  exportedMs : ℤ

/-- The export of a state, written to a file and read again. -/
def ownExport (p : Platform) (s : LocalState) (e : ExportReading) : LocalConfigBundle :=
  parsedBundle (buildLocalConfigBundle p s e.exportedAt e.snapshotId e.exportedMs)

/-- The merge of a state with its own export. -/
def reimported (p : Platform) (s : LocalState) (e : ExportReading) (readMs : ℤ) :
    MergedCollections :=
  mergedCollections p s (ownExport p s e) none readMs

section Kinds
variable {p : Platform} {s : LocalState} {e : ExportReading} {readMs : ℤ} (hp : p.Collates)

theorem selfMerge_hosts :
    SelfMerge (importedHosts hp) s.collections.hosts (reimported p s e readMs).hosts := by
  refine ⟨sortHostCollection p (s.collections.hosts.map parsed),
    (prepareImportedDeletions p (ownExport p s e) readMs).hosts, ?_, rfl⟩
  refine (sortBy_perm _ _).trans ?_
  rw [List.map_map]
  exact .refl _

theorem selfMerge_knownHosts :
    SelfMerge (importedKnownHosts hp) s.collections.knownHosts
      (reimported p s e readMs).knownHosts := by
  refine ⟨sortKnownHosts p (s.collections.knownHosts.map parsed),
    (prepareImportedDeletions p (ownExport p s e) readMs).knownHosts, sortBy_perm _ _, ?_⟩
  rw [show (importedKnownHosts hp).sort = sortKnownHosts p from sort_knownHosts hp]
  rfl

theorem selfMerge_identities :
    SelfMerge (importedIdentities hp) s.collections.identities
      (reimported p s e readMs).identities := by
  refine ⟨LocalConfig.sortIdentities p (s.collections.identities.map parsed),
    (prepareImportedDeletions p (ownExport p s e) readMs).identities, sortBy_perm _ _, ?_⟩
  rw [show (importedIdentities hp).sort = LocalConfig.sortIdentities p from sort_identities hp]
  rfl

/-- The hosts that are known after the merge. -/
def liveHosts (p : Platform) (s : LocalState) (e : ExportReading) (readMs : ℤ) : List JsString :=
  (reimported p s e readMs).hosts.records.map fun host => host.id

include hp in
theorem own_live {id : JsString} (hid : id ∈ s.collections.ids .hosts) :
    id ∈ liveHosts p s e readMs :=
  @imported_kept _ _ _ (importedHosts hp).toFinalForm _ _ _ _ _ (imported_live hid)

end Kinds

section Referring
variable {α : Type} [VaultRecord α] [ParsedRecord α] {p : Platform} {form : ImportedForm α p}
  {refs : α → List JsString} {restrict : List JsString → List α → List α}
  {sort : List α → List α} {records : List α} {live exported : List JsString}
  {deletions : List VaultDeletionEntry}

/-- Where the records of a kind refer to known hosts, the restrictions leave them alone. -/
theorem selfMerge_referring
    (hself : ∀ hostIds records, (∀ r ∈ records, ∀ id ∈ refs r, id ∈ hostIds) →
      restrict hostIds records = records)
    (hparsed : ∀ r : α, refs (parsed r) = refs r) (hperm : ∀ l, (sort l).Perm l)
    (himported : form.imported = parsed) (hsort : form.sort = sort) (hsorted : sort records = records)
    (hlive : ∀ r ∈ records, ∀ id ∈ refs r, id ∈ live)
    (hexported : ∀ r ∈ records, ∀ id ∈ refs r, id ∈ exported) :
    SelfMerge form records (mergeCollection p (sort (restrict live records))
      (sort (restrict live (sort (restrict exported (records.map parsed))))) sort deletions
      .block) := by
  rw [hself live records hlive, hsorted, ← hsort]
  refine ⟨_, _, ?_, rfl⟩
  rw [himported, hsort]
  exact imported_referring hself hparsed hperm hlive hexported

end Referring

/-- What a merge keeps is a record of one side. -/
theorem mem_merged {α : Type} [VaultRecord α] {p : Platform} {resolution : ConflictResolution}
    {ls is : List α} {sort : List α → List α} {deletions : List VaultDeletionEntry} {r : α}
    (hperm : ∀ l, (sort l).Perm l)
    (h : r ∈ (mergeCollection p ls is sort deletions resolution).records) : r ∈ ls ∨ r ∈ is :=
  (outcomeOf_record (mem_joined.mp ((hperm _).subset h))).2

section References
variable {p : Platform} {s : LocalState} {e : ExportReading} {readMs : ℤ} (hp : p.Collates)

theorem selfMerge_keys (hsorted : sortKeys p s.collections.keys = s.collections.keys)
    (hown : OwnReferences s.collections) :
    SelfMerge (LocalConfig.importedKeys hp) s.collections.keys (reimported p s e readMs).keys :=
  selfMerge_referring (fun _ _ => restrictKeys_eq_self) (fun _ => rfl) (fun _ => sortBy_perm _ _)
    rfl (sort_keys hp) hsorted (fun key hkey id hid => own_live hp (hown.keys key hkey id hid))
    fun key hkey id hid => imported_live (hown.keys key hkey id hid)

theorem selfMerge_snippets
    (hsorted : sortSnippets p s.collections.snippets = s.collections.snippets)
    (hown : OwnReferences s.collections) :
    SelfMerge (importedSnippets hp) s.collections.snippets (reimported p s e readMs).snippets :=
  selfMerge_referring (fun _ _ => restrictSnippets_eq_self) (fun _ => rfl)
    (fun _ => sortBy_perm _ _) rfl (sort_snippets hp) hsorted
    (fun snippet hsnippet id hid => own_live hp (hown.snippets snippet hsnippet id hid))
    fun snippet hsnippet id hid => imported_live (hown.snippets snippet hsnippet id hid)

/-- Restricted lists are merged, so the references that are kept are to known hosts. -/
theorem merged_known {α : Type} [VaultRecord α] {refs : α → List JsString}
    {restrict : List JsString → List α → List α} {sort : List α → List α} {live : List JsString}
    {own foreign : List α} {deletions : List VaultDeletionEntry} {resolution : ConflictResolution}
    (hrestrict : ∀ records, ∀ r ∈ restrict live records, ∀ id ∈ refs r, id ∈ live)
    (hperm : ∀ l, (sort l).Perm l) {r : α}
    (h : r ∈ (mergeCollection p (sort (restrict live own)) (sort (restrict live foreign)) sort
      deletions resolution).records) : ∀ id ∈ refs r, id ∈ live := by
  rcases mem_merged hperm h with hown | hforeign
  · exact hrestrict own r ((hperm _).subset hown)
  · exact hrestrict foreign r ((hperm _).subset hforeign)

theorem restrictKeys_known {hostIds : List JsString} (keys : List KeyRecord) :
    ∀ key ∈ restrictKeys hostIds keys, ∀ id ∈ key.assignedHostIds, id ∈ hostIds := by
  intro key hkey id hid
  obtain ⟨key', -, rfl⟩ := List.mem_map.mp hkey
  exact of_decide_eq_true (List.mem_filter.mp hid).2

theorem restrictSnippets_known {hostIds : List JsString} (snippets : List SnippetRecord) :
    ∀ snippet ∈ restrictSnippets hostIds snippets, ∀ id ∈ snippet.targetHostIds, id ∈ hostIds := by
  intro snippet hsnippet id hid
  obtain ⟨snippet', -, rfl⟩ := List.mem_map.mp hsnippet
  exact of_decide_eq_true (List.mem_filter.mp hid).2

/-- The lists of the keys and snippets are filtered, so that a merge never breaks them. -/
theorem merged_references {own imported : Collections} {deletions : VaultDeletionMap}
    {resolution : ConflictResolution} :
    OwnReferences (mergePreparedCollections p own imported deletions resolution).records := by
  have hhosts : (mergePreparedCollections p own imported deletions resolution).records.ids .hosts =
      (mergePreparedCollections p own imported deletions resolution).hosts.records.map
        fun host => host.id := by
    rw [ids_eq]
    rfl
  constructor
  · intro key hkey
    rw [hhosts]
    have hperm (keys : List KeyRecord) : (sortKeys p keys).Perm keys := sortBy_perm _ _
    exact merged_known restrictKeys_known hperm hkey
  · intro snippet hsnippet
    rw [hhosts]
    have hperm (snippets : List SnippetRecord) : (sortSnippets p snippets).Perm snippets :=
      sortBy_perm _ _
    exact merged_known restrictSnippets_known hperm hsnippet

/-- No kind lists an id twice after the merge. -/
theorem merged_distinct : DistinctIds (reimported p s e readMs).records := by
  have hsorted {α : Type} [VaultRecord α] (compare : α → α → Ordering) {l : List α}
      (h : (l.map VaultRecord.id).Nodup) : ((sortBy compare l).map VaultRecord.id).Nodup :=
    ((sortBy_perm compare l).map _).nodup_iff.mpr h
  intro kind
  rw [ids_eq]
  cases kind with
  | hosts =>
    refine hsorted _ ?_
    rw [List.map_map]
    exact joined_nodup
  | keys => exact hsorted _ joined_nodup
  | snippets => exact hsorted _ joined_nodup
  | knownHosts => exact hsorted _ joined_nodup
  | identities => exact hsorted _ joined_nodup

end References

/-- Collections that are stored as their import would store them. -/
structure AsImported (p : Platform) (c : Collections) : Prop where
  distinct : DistinctIds c
  references : OwnReferences c
  hosts : ∀ host ∈ c.hosts, host.lastConnectedAt ≠ .undefined ∧ host.identityId ≠ .undefined
  keys : ∀ key ∈ c.keys, key.publicKeyPath ≠ .undefined
  snippets : ∀ snippet ∈ c.snippets, snippet.lastRunAt ≠ .undefined
  identities : ∀ identity ∈ c.identities, identity.keyId ≠ .undefined
  identityOrder : LocalConfig.sortIdentities p c.identities = c.identities

/-- No tombstone has expired, and none is of a record that lives. -/
def KeepsTombstones (p : Platform) (s : LocalState) (storedMs : ℤ) : Prop :=
  ∀ kind, ∀ entry ∈ s.deletions.of kind,
    retained p storedMs entry = true ∧ entry.id ∉ s.collections.ids kind

section Canonical
variable {p : Platform} (hp : p.Collates)

theorem reparseOptional_eq_self {value : Optional JsString} :
    reparseOptional value = value ↔ value ≠ .undefined := by
  cases value <;> simp [reparseOptional]

theorem canonical_host {host : HostRecord} (hnormal : normalizeHostRecord host = host) :
    (importedHosts hp).Canonical host ↔
      host.lastConnectedAt ≠ .undefined ∧ host.identityId ≠ .undefined := by
  have himported : (importedHosts hp).imported host =
      { host with
        lastConnectedAt := reparseOptional host.lastConnectedAt
        identityId := reparseOptional host.identityId } := by
    refine (normalize_parsed host).trans ?_
    rw [hnormal]
  rw [ImportedForm.Canonical, himported, ← reparseOptional_eq_self, ← reparseOptional_eq_self]
  constructor
  · intro h
    exact ⟨congrArg (·.lastConnectedAt) h, congrArg (·.identityId) h⟩
  · rintro ⟨hconnected, hidentity⟩
    rw [hconnected, hidentity]

theorem canonical_key {key : KeyRecord} :
    (LocalConfig.importedKeys hp).Canonical key ↔ key.publicKeyPath ≠ .undefined := by
  rw [← reparseOptional_eq_self]
  constructor
  · intro h
    exact congrArg (·.publicKeyPath) h
  · intro h
    exact congrArg (fun path => { key with publicKeyPath := path }) h

theorem canonical_snippet {snippet : SnippetRecord} :
    (importedSnippets hp).Canonical snippet ↔ snippet.lastRunAt ≠ .undefined := by
  rw [← reparseOptional_eq_self]
  constructor
  · intro h
    exact congrArg (·.lastRunAt) h
  · intro h
    exact congrArg (fun time => { snippet with lastRunAt := time }) h

theorem canonical_identity {identity : IdentityRecord} :
    (importedIdentities hp).Canonical identity ↔ identity.keyId ≠ .undefined := by
  rw [← reparseOptional_eq_self]
  constructor
  · intro h
    exact congrArg (·.keyId) h
  · intro h
    exact congrArg (fun keyId => { identity with keyId := keyId }) h

/-- Hosts in the order of the store are in normal form. -/
theorem normal_of_sorted {hosts : List HostRecord} (h : sortHostCollection p hosts = hosts) :
    ∀ host ∈ hosts, normalizeHostRecord host = host := by
  intro host hhost
  rw [← h] at hhost
  obtain ⟨host', -, rfl⟩ := List.mem_map.mp (mem_sortBy.mp hhost)
  exact normalizeHostRecord_idem host'

end Canonical

section Records
variable {p : Platform} {s : LocalState} {e : ExportReading} {readMs : ℤ} (hp : p.Collates)
  (horder : InOrder p s)
include hp horder

/-- Collections stored as imported ones are all unchanged. -/
theorem reimported_unchanged (e : ExportReading) (readMs : ℤ) (h : AsImported p s.collections) :
    (reimported p s e readMs).records = s.collections ∧
      ∀ kind, (reimported p s e readMs).counts kind =
        unchangedSection (s.collections.ids kind).length := by
  have hdistinct := h.distinct
  simp only [DistinctIds, ids_eq] at hdistinct
  have hnormal := normal_of_sorted horder.hosts
  have hhosts : (reimported p s e readMs).hosts =
      ⟨s.collections.hosts, unchangedSection s.collections.hosts.length⟩ :=
    (selfMerge_hosts hp).unchanged (hdistinct .hosts)
      (fun host hhost => (canonical_host hp (hnormal host hhost)).mpr (h.hosts host hhost))
      horder.hosts
  have hkeys : (reimported p s e readMs).keys =
      ⟨s.collections.keys, unchangedSection s.collections.keys.length⟩ :=
    (selfMerge_keys hp horder.keys h.references).unchanged (hdistinct .keys)
      (fun key hkey => (canonical_key hp).mpr (h.keys key hkey))
      ((congrFun (sort_keys hp) _).trans horder.keys)
  have hsnippets : (reimported p s e readMs).snippets =
      ⟨s.collections.snippets, unchangedSection s.collections.snippets.length⟩ :=
    (selfMerge_snippets hp horder.snippets h.references).unchanged (hdistinct .snippets)
      (fun snippet hsnippet => (canonical_snippet hp).mpr (h.snippets snippet hsnippet))
      ((congrFun (sort_snippets hp) _).trans horder.snippets)
  have hknownHosts : (reimported p s e readMs).knownHosts =
      ⟨s.collections.knownHosts, unchangedSection s.collections.knownHosts.length⟩ :=
    (selfMerge_knownHosts hp).unchanged (hdistinct .knownHosts) (fun _ _ => rfl)
      ((congrFun (sort_knownHosts hp) _).trans horder.knownHosts)
  have hidentities : (reimported p s e readMs).identities =
      ⟨s.collections.identities, unchangedSection s.collections.identities.length⟩ :=
    (selfMerge_identities hp).unchanged (hdistinct .identities)
      (fun identity hidentity => (canonical_identity hp).mpr (h.identities identity hidentity))
      ((congrFun (sort_identities hp) _).trans h.identityOrder)
  constructor
  · rw [MergedCollections.records, hhosts, hkeys, hsnippets, hknownHosts, hidentities]
  · intro kind
    rw [ids_eq]
    cases kind with
    | hosts => simp only [MergedCollections.counts, hhosts, List.length_map]
    | keys => simp only [MergedCollections.counts, hkeys, List.length_map]
    | snippets => simp only [MergedCollections.counts, hsnippets, List.length_map]
    | knownHosts => simp only [MergedCollections.counts, hknownHosts, List.length_map]
    | identities => simp only [MergedCollections.counts, hidentities, List.length_map]

/-- A merge without conflicts that keeps the collections finds them stored as imported ones. -/
theorem asImported_of_kept (hnone : (reimported p s e readMs).hasConflicts = false)
    (hkept : (reimported p s e readMs).records = s.collections) : AsImported p s.collections := by
  obtain ⟨hhosts, hkeys, hsnippets, -, hidentities⟩ := (hasConflicts_iff _).mp hnone
  have hdistinct : DistinctIds s.collections := hkept ▸ merged_distinct
  have hreferences : OwnReferences s.collections := hkept ▸ merged_references
  have hids := hdistinct
  simp only [DistinctIds, ids_eq] at hids
  have hnormal := normal_of_sorted horder.hosts
  refine ⟨hdistinct, hreferences, fun host hhost => ?_, fun key hkey => ?_,
    fun snippet hsnippet => ?_, fun identity hidentity => ?_, ?_⟩
  · have hcanonical := (selfMerge_hosts hp).canonical (hids .hosts) hhosts host hhost
    exact (canonical_host hp (hnormal host hhost)).mp hcanonical
  · have hcanonical := (selfMerge_keys hp horder.keys hreferences).canonical (hids .keys) hkeys key
      hkey
    exact (canonical_key hp).mp hcanonical
  · have hcanonical := (selfMerge_snippets hp horder.snippets hreferences).canonical
      (hids .snippets) hsnippets snippet hsnippet
    exact (canonical_snippet hp).mp hcanonical
  · have hcanonical := (selfMerge_identities hp).canonical (hids .identities) hidentities identity
      hidentity
    exact (canonical_identity hp).mp hcanonical
  · have hidentities : (reimported p s e readMs).identities.records = s.collections.identities :=
      congrArg Collections.identities hkept
    rw [← hidentities]
    exact sortByUpdate_idem hp IdentityRecord.updatedAt _

end Records

section Deletions
variable {p : Platform} {s : LocalState} {e : ExportReading} {clock : ClockReadings}

/-- What a merge with one's own export stores of the tombstones. -/
def reimportedDeletions (p : Platform) (s : LocalState) (e : ExportReading)
    (clock : ClockReadings) : VaultDeletionMap :=
  (mergedState p s (ownExport p s e) none clock).deletions

theorem deletionMap_ext {m n : VaultDeletionMap} (h : ∀ kind, m.of kind = n.of kind) : m = n := by
  cases m
  cases n
  exact congr (congr (congr (congr (congrArg _ (h .hosts)) (h .keys)) (h .snippets))
    (h .knownHosts)) (h .identities)

theorem keepsTombstones_iff (horder : InOrder p s)
    (hkept : (reimported p s e clock.prepared).records = s.collections) :
    reimportedDeletions p s e clock = s.deletions ↔ KeepsTombstones p s clock.stored := by
  have hkind (kind : VaultSyncEntityKind) : (reimportedDeletions p s e clock).of kind =
      compactDeletionEntries p (mergeDeletionEntries p (s.deletions.of kind)
        (compactDeletionEntries p (compactDeletionEntries p (s.deletions.of kind) e.exportedMs)
          clock.prepared) (s.collections.ids kind)) clock.stored := by
    rw [← hkept]
    cases kind <;> rfl
  have himported (kind : VaultSyncEntityKind) :
      compactDeletionEntries p (compactDeletionEntries p (s.deletions.of kind) e.exportedMs)
        clock.prepared ⊆ s.deletions.of kind :=
    fun _ hentry => compactDeletionEntries_subset (compactDeletionEntries_subset hentry)
  have hiff (kind : VaultSyncEntityKind) :
      (reimportedDeletions p s e clock).of kind = s.deletions.of kind ↔
        ∀ entry ∈ s.deletions.of kind,
          retained p clock.stored entry = true ∧ entry.id ∉ s.collections.ids kind := by
    rw [hkind]
    exact deletions_kept_iff (horder.deletions kind) (himported kind)
      (compactDeletionEntries_ids_nodup _ _)
  constructor
  · intro h kind
    exact (hiff kind).mp (congrArg (fun deletions => deletions.of kind) h)
  · intro h
    exact deletionMap_ext fun kind => (hiff kind).mpr (h kind)

end Deletions

/-- An export is read back and merged into the state it was made from: every record counts as
unchanged, and the collections and the tombstones are left as they were. -/
structure ReimportsUnchanged (p : Platform) (s : LocalState) (e : ExportReading)
    (inspectedMs : ℤ) (clock : ClockReadings) : Prop where
  inspected : ∃ analysis plan,
    inspectImportedLocalConfigBundle p s (ownExport p s e) inspectedMs = .ok analysis ∧
      analysis.mergePlan = some plan ∧
      ∀ kind, plan.of kind = unchangedSection (s.collections.ids kind).length
  merged : ∃ after,
    applyImportedLocalConfigBundle p s (.raw (ownExport p s e)) ⟨.merge, none⟩ inspectedMs clock =
        .ok after ∧
      after.collections = s.collections ∧ after.deletions = s.deletions

section Run
variable {p : Platform} {s : LocalState} {e : ExportReading} {inspectedMs : ℤ}
  {clock : ClockReadings} (hp : p.Collates) (horder : InOrder p s)

/-- What an inspection of one's own export reports. -/
theorem inspect_own : ∃ analysis plan,
    inspectImportedLocalConfigBundle p s (ownExport p s e) inspectedMs = .ok analysis ∧
      analysis.mergePlan = some plan ∧
      ∀ kind, plan.of kind = (reimported p s e inspectedMs).counts kind := by
  obtain ⟨imported, himported, -, -, hplan⟩ :=
    parse_export (p := p) (A := s) (B := s) rfl e.exportedAt e.snapshotId e.exportedMs inspectedMs
  refine ⟨imported.analysis, _, ?_, hplan, fun kind => buildMergePlan_of ..⟩
  rw [inspectImportedLocalConfigBundle, ownExport, himported]
  rfl

include hp horder

theorem asImported_of_unchanged (h : ReimportsUnchanged p s e inspectedMs clock) :
    AsImported p s.collections := by
  obtain ⟨after, happly, hcollections, -⟩ := h.merged
  obtain ⟨hnone, rfl⟩ := (apply_export_iff rfl _ _ _ _ _).mp happly
  exact asImported_of_kept hp horder hnone hcollections

theorem reimportsUnchanged_iff :
    ReimportsUnchanged p s e inspectedMs clock ↔
      AsImported p s.collections ∧ KeepsTombstones p s clock.stored := by
  constructor
  · intro h
    obtain ⟨after, happly, hcollections, hdeletions⟩ := h.merged
    obtain ⟨-, rfl⟩ := (apply_export_iff rfl _ _ _ _ _).mp happly
    exact ⟨asImported_of_unchanged hp horder h,
      (keepsTombstones_iff horder hcollections).mp hdeletions⟩
  · rintro ⟨hstored, htombstones⟩
    obtain ⟨-, hinspected⟩ := reimported_unchanged hp horder e inspectedMs hstored
    obtain ⟨hrecords, hmerged⟩ := reimported_unchanged hp horder e clock.prepared hstored
    have hnone : (reimported p s e clock.prepared).hasConflicts = false := by
      rw [hasConflicts_iff]
      have hconflicts (kind : VaultSyncEntityKind) :
          ((reimported p s e clock.prepared).counts kind).conflicts = 0 := by
        rw [hmerged kind]
        rfl
      exact ⟨hconflicts .hosts, hconflicts .keys, hconflicts .snippets, hconflicts .knownHosts,
        hconflicts .identities⟩
    constructor
    · obtain ⟨analysis, plan, hinspect, hplan, hcounts⟩ := inspect_own (p := p) (s := s)
      exact ⟨analysis, plan, hinspect, hplan, fun kind => (hcounts kind).trans (hinspected kind)⟩
    · exact ⟨_, (apply_export_iff rfl _ _ _ _ _).mpr ⟨hnone, rfl⟩, hrecords,
        (keepsTombstones_iff horder hrecords).mpr htombstones⟩

end Run

theorem inOrder_sampleStores {p : Platform} (hp : p.Collates) (vaultId deviceId : JsString) :
    InOrder p (sampleStores p vaultId deviceId).toLocalState where
  hosts := sortHosts_idem hp _
  keys := sortByUpdate_idem hp KeyRecord.updatedAt _
  snippets := sortByUpdate_idem hp SnippetRecord.updatedAt _
  knownHosts := sortByUpdate_idem hp KnownHostRecord.updatedAt _
  deletions kind := by
    cases kind <;> exact ⟨List.nodup_nil, List.Pairwise.nil, Nat.zero_le _⟩

/-- In every state that the stores reach, importing its own export changes nothing if and only if
its collections are stored as imported ones and its tombstones are all to be kept. -/
theorem reimport_iff {p : Platform} (hp : p.Collates) (vaultId deviceId : JsString)
    (steps : List VaultStep) (e : ExportReading) (inspectedMs : ℤ) (clock : ClockReadings) :
    let s := (Runs.run (vaultStep p) (sampleStores p vaultId deviceId) steps).toLocalState
    ReimportsUnchanged p s e inspectedMs clock ↔
      AsImported p s.collections ∧ KeepsTombstones p s clock.stored :=
  reimportsUnchanged_iff hp (inOrder_run hp (inOrder_sampleStores hp vaultId deviceId) steps)

def firstExport : ExportReading := ⟨js "2026-05-01T00:00:00.000Z", js "snapshot", 0⟩

/-- A connection to the local shell, and a comment on one of the identities. -/
def connectedSteps : List VaultStep :=
  [.act ⟨js "2026-05-01T00:00:00.000Z", 0⟩ (.markConnected localShellHostId),
    .act ⟨js "2026-05-01T00:00:00.000Z", 0⟩ (.setComment (js "identity-deploy") [])]

def connectedStores : Stores :=
  Runs.run (vaultStep datesPlatform) (sampleStores datesPlatform (js "v") (js "d")) connectedSteps

theorem connectedStores_asImported : AsImported datesPlatform connectedStores.collections where
  distinct kind := by cases kind <;> decide +kernel
  references := by constructor <;> decide +kernel
  hosts := by decide +kernel
  keys := by decide +kernel
  snippets := by decide +kernel
  identities := by decide +kernel
  identityOrder := by decide +kernel

/-- Every sample host has been connected to, and the identities are in both orders. -/
theorem reimport_connected :
    ReimportsUnchanged datesPlatform (Runs.run (vaultStep datesPlatform)
      (sampleStores datesPlatform (js "v") (js "d")) connectedSteps).toLocalState firstExport 0
      ⟨0, 0⟩ :=
  (reimport_iff datesPlatform_collates (js "v") (js "d") connectedSteps firstExport 0 ⟨0, 0⟩).mpr
    ⟨connectedStores_asImported, fun kind => by cases kind <;> decide +kernel⟩

/-- On the first start the local shell has never been connected to, and says so with a property
that an export leaves out. -/
theorem not_every_reimport_unchanged :
    ¬ ∀ (p : Platform) (vaultId deviceId : JsString) (steps : List VaultStep) (e : ExportReading)
      (inspectedMs : ℤ) (clock : ClockReadings), p.Collates →
      ReimportsUnchanged p (Runs.run (vaultStep p) (sampleStores p vaultId deviceId)
        steps).toLocalState e inspectedMs clock := by
  intro h
  have hunchanged := h datesPlatform (js "v") (js "d") [] firstExport 0 ⟨0, 0⟩
    datesPlatform_collates
  have hstored := asImported_of_unchanged datesPlatform_collates
    (inOrder_sampleStores datesPlatform_collates _ _) hunchanged
  exact absurd hstored.hosts (by decide +kernel)

end VaultStores
