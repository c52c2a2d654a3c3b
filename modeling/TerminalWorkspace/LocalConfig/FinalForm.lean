import TerminalWorkspace.Foundation.MovedItems
import TerminalWorkspace.Inventory.NormalHosts
import TerminalWorkspace.LocalConfig.Apply
import TerminalWorkspace.LocalConfig.MergeById

/-! How a merge brings a collection into its final form, and what a successful merge of a
bundle leaves of the local state. -/
namespace LocalConfig
open JsText Inventory

section Sorting
variable {α : Type*} {compare : α → α → Ordering}

/-- No two elements come after each other. -/
def Total (compare : α → α → Ordering) : Prop := ∀ a b, compare a b ≠ .gt ∨ compare b a ≠ .gt

theorem sortBy_idem (h : Total compare) (l : List α) :
    sortBy compare (sortBy compare l) = sortBy compare l :=
  StableSort.insertionSort_idem _ h l

variable {p : Platform}

theorem total_localeCompare (hp : p.Collates) (key : α → JsString) :
    Total fun left right => p.localeCompare (key right) (key left) := by
  intro a b
  by_cases hba : p.localeCompare (key b) (key a) = .gt
  · exact .inr (hp.total _ _ hba)
  · exact .inl hba

theorem total_compareHosts (hp : p.Collates) : Total (compareHosts p) := by
  intro left right
  simp only [compareHosts]
  by_cases hfavorite : left.favorite = right.favorite
  · by_cases hactivity : left.lastConnectedAt.get?.getD [] = right.lastConnectedAt.get?.getD []
    · simp only [hfavorite, hactivity, ne_eq, not_true_eq_false, if_false]
      by_cases hlabel : p.localeCompare left.label right.label = .gt
      · exact .inr (hp.total _ _ hlabel)
      · exact .inl hlabel
    · simp only [hfavorite, hactivity, Ne.symm hactivity, ne_eq, not_true_eq_false, if_false,
        not_false_eq_true, if_true]
      by_cases hlater : p.localeCompare (right.lastConnectedAt.get?.getD [])
          (left.lastConnectedAt.get?.getD []) = .gt
      · exact .inr (hp.total _ _ hlater)
      · exact .inl hlater
  · cases hl : left.favorite <;> cases hr : right.favorite <;> simp_all

end Sorting

section Collection
variable {α : Type} [VaultRecord α]

def Outcome.isConflict : Outcome α → Bool
  | .conflict _ | .conflictRemoved => true
  | _ => false

omit [VaultRecord α] in
theorem conflicts_foldl_count (outcome : JsString → Outcome α) (ids : List JsString)
    (s : MergeSection) :
    (ids.foldl (fun s id => s.count id (outcome id)) s).conflicts =
      s.conflicts + (ids.filter fun id => (outcome id).isConflict).length := by
  induction ids generalizing s with
  | nil => rfl
  | cons id ids ih =>
    rw [List.foldl_cons, ih, List.filter_cons]
    cases outcome id <;> simp [MergeSection.count, Outcome.isConflict]
    all_goals omega

omit [VaultRecord α] in
theorem conflictingIds_foldl_count (outcome : JsString → Outcome α) (ids : List JsString)
    (s : MergeSection) :
    (ids.foldl (fun s id => s.count id (outcome id)) s).conflictingIds =
      s.conflictingIds ++ ids.filter fun id => (outcome id).isConflict := by
  induction ids generalizing s with
  | nil => exact (List.append_nil _).symm
  | cons id ids ih =>
    rw [List.foldl_cons, ih, List.filter_cons]
    cases outcome id <;> simp [MergeSection.count, Outcome.isConflict]

/-- Only an id in conflict is listed as one. -/
theorem mem_conflictingIds {p : Platform} {resolution : ConflictResolution}
    {localRecords importedRecords : List α} {sortRecords : List α → List α}
    {deletions : List VaultDeletionEntry} {id : JsString}
    (h : id ∈ (mergeCollection p localRecords importedRecords sortRecords deletions
      resolution).counts.conflictingIds) :
    (outcomeOf p resolution localRecords importedRecords deletions id).isConflict = true := by
  have hids : (mergeCollection p localRecords importedRecords sortRecords deletions
      resolution).counts.conflictingIds =
        (allIds (byId localRecords) (byId importedRecords)).filter fun id =>
          (outcomeOf p resolution localRecords importedRecords deletions id).isConflict :=
    (conflictingIds_foldl_count _ _ _).trans (List.nil_append _)
  rw [hids] at h
  exact (List.mem_filter.mp h).2

/-- A merge without conflicts has none under any id. -/
theorem conflicts_eq_zero_iff {p : Platform} {resolution : ConflictResolution}
    {localRecords importedRecords : List α} {sortRecords : List α → List α}
    {deletions : List VaultDeletionEntry} :
    (mergeCollection p localRecords importedRecords sortRecords deletions
        resolution).counts.conflicts = 0 ↔
      ∀ id, (outcomeOf p resolution localRecords importedRecords deletions id).isConflict =
        false := by
  have hcounts : (mergeCollection p localRecords importedRecords sortRecords deletions
      resolution).counts.conflicts =
        ((allIds (byId localRecords) (byId importedRecords)).filter fun id =>
          (outcomeOf p resolution localRecords importedRecords deletions id).isConflict).length :=
    (conflicts_foldl_count _ _ _).trans (Nat.zero_add _)
  rw [hcounts, List.length_eq_zero_iff, List.filter_eq_nil_iff]
  constructor
  · intro h id
    by_cases hmem : id ∈ allIds (byId localRecords) (byId importedRecords)
    · exact Bool.eq_false_of_not_eq_true (h id hmem)
    · rw [mem_allIds, not_or, ← byId_get?_isSome_iff, ← byId_get?_isSome_iff,
        Option.not_isSome_iff_eq_none, Option.not_isSome_iff_eq_none] at hmem
      rw [outcomeOf, hmem.1, hmem.2]
      rfl
  · intro h id _
    rw [h id]
    exact Bool.false_ne_true

/-- How a collection is put in its final form. -/
structure FinalForm (α : Type) [VaultRecord α] (p : Platform) where
  normalize : α → α
  compare : α → α → Ordering
  normalize_id : ∀ r, VaultRecord.id (normalize r) = VaultRecord.id r
  normalize_updatedAt : ∀ r, VaultRecord.updatedAt (normalize r) = VaultRecord.updatedAt r
  normalize_idem : ∀ r, normalize (normalize r) = normalize r
  normal_of_serialize : ∀ l i, normalize i = i →
    stableSerialize p (VaultRecord.toJson l) = stableSerialize p (VaultRecord.toJson i) →
    normalize l = l
  total : Total compare

def FinalForm.sort {p : Platform} (form : FinalForm α p) (records : List α) : List α :=
  sortBy form.compare (records.map form.normalize)

variable {p : Platform} {form : FinalForm α p} {resolution : ConflictResolution}
  {localRecords importedRecords : List α} {deletions : List VaultDeletionEntry}

/-- What a merge decides about an id where both sides have a record. -/
theorem mergeOne_both (l i : α) (deletion : Option VaultDeletionEntry) :
    mergeOne p resolution (some l) (some i) deletion =
      if stableSerialize p (VaultRecord.toJson l) = stableSerialize p (VaultRecord.toJson i) then
        .unchanged l
      else if before (VaultRecord.updatedAt l) (VaultRecord.updatedAt i) then .updated i
      else if before (VaultRecord.updatedAt i) (VaultRecord.updatedAt l) then .retainedLocal l
      else if resolution = .preferImported then .conflict i
      else .conflict l := by
  cases deletion <;> rfl

theorem sort_nodup (h : (localRecords.map VaultRecord.id).Nodup) :
    ((form.sort localRecords).map VaultRecord.id).Nodup := by
  have hperm := (sortBy_perm form.compare (localRecords.map form.normalize)).map VaultRecord.id
  rw [List.map_map] at hperm
  have hids : VaultRecord.id ∘ form.normalize = (VaultRecord.id : α → JsString) :=
    funext form.normalize_id
  rw [hids] at hperm
  exact hperm.nodup_iff.mpr h

theorem sort_idem : form.sort (form.sort localRecords) = form.sort localRecords := by
  have hnormal : (form.sort localRecords).map form.normalize = form.sort localRecords := by
    conv_rhs => rw [← List.map_id (form.sort localRecords)]
    refine List.map_congr_left fun r hr => ?_
    obtain ⟨r', -, rfl⟩ := List.mem_map.mp (mem_sortBy.mp hr)
    exact form.normalize_idem r'
  rw [FinalForm.sort, hnormal, FinalForm.sort, sortBy_idem form.total]

/-- What is found in a merged collection under an id. -/
theorem byId_sort_joined (id : JsString) :
    (byId (form.sort (joined p resolution localRecords importedRecords deletions))).get? id =
      (outcomeOf p resolution localRecords importedRecords deletions id).record.map
        form.normalize := by
  have hnodup : ((form.sort (joined p resolution localRecords importedRecords deletions)).map
      VaultRecord.id).Nodup := sort_nodup joined_nodup
  cases hrecord : (outcomeOf p resolution localRecords importedRecords deletions id).record with
  | none =>
    by_contra hsome
    obtain ⟨r, hr⟩ := Option.ne_none_iff_exists'.mp hsome
    obtain ⟨hmem, rfl⟩ := byId_get?_mem hr
    obtain ⟨r', hr', rfl⟩ := List.mem_map.mp (mem_sortBy.mp hmem)
    rw [form.normalize_id, mem_joined.mp hr'] at hrecord
    cases hrecord
  | some r =>
    obtain rfl := (outcomeOf_record hrecord).1
    have hmem : form.normalize r ∈
        form.sort (joined p resolution localRecords importedRecords deletions) :=
      mem_sortBy.mpr (List.mem_map_of_mem (mem_joined.mpr hrecord))
    rw [← form.normalize_id r, byId_get?_of_nodup hnodup hmem]
    rfl

end Collection

section Forms
variable {p : Platform}

def hostForm (hp : p.Collates) : FinalForm HostRecord p where
  normalize := normalizeHostRecord
  compare := compareHosts p
  normalize_id _ := rfl
  normalize_updatedAt _ := rfl
  normalize_idem := normalizeHostRecord_idem
  normal_of_serialize _ _ := normal_of_serialize
  total := total_compareHosts hp

/-- The other collections are only sorted, the last change first. -/
def sortedForm (hp : p.Collates) (α : Type) [VaultRecord α] : FinalForm α p where
  normalize := id
  compare left right :=
    p.localeCompare (VaultRecord.updatedAt right) (VaultRecord.updatedAt left)
  normalize_id _ := rfl
  normalize_updatedAt _ := rfl
  normalize_idem _ := rfl
  normal_of_serialize _ _ _ _ := rfl
  total := total_localeCompare hp VaultRecord.updatedAt

theorem sort_keys (hp : p.Collates) : (sortedForm hp KeyRecord).sort = sortKeys p := by
  funext keys
  exact congrArg _ (List.map_id keys)

theorem sort_snippets (hp : p.Collates) : (sortedForm hp SnippetRecord).sort = sortSnippets p := by
  funext snippets
  exact congrArg _ (List.map_id snippets)

theorem sort_knownHosts (hp : p.Collates) :
    (sortedForm hp KnownHostRecord).sort = sortKnownHosts p := by
  funext knownHosts
  exact congrArg _ (List.map_id knownHosts)

theorem sort_identities (hp : p.Collates) :
    (sortedForm hp IdentityRecord).sort = sortIdentities p := by
  funext identities
  exact congrArg _ (List.map_id identities)

end Forms

section Apply
variable {p : Platform} {state after : LocalState} {imported : PreparedImport}
  {resolution : Option ChosenResolution} {clock : ClockReadings} {now : ℤ}

/-- The host that stays active, or the first one. -/
def keptActive (activeHostId : Option JsString) (applied : Collections) : Option JsString :=
  if (activeHostId.bind truthy).any fun id => id ∈ applied.ids .hosts then activeHostId
  else (applied.hosts.head?).map fun host => host.id

def mergedCollections (p : Platform) (state : LocalState) (bundle : LocalConfigBundle)
    (resolution : Option ChosenResolution) (now : ℤ) : MergedCollections :=
  mergePreparedCollections p state.collections (prepareImportedCollections p bundle)
    (prepareImportedDeletions p bundle now) (resolutionOf resolution)

/-- What a successful merge leaves. -/
def mergedState (p : Platform) (state : LocalState) (bundle : LocalConfigBundle)
    (resolution : Option ChosenResolution) (clock : ClockReadings) : LocalState :=
  let merged := mergedCollections p state bundle resolution clock.prepared
  let importedVault := (getImportedVaultMetadata bundle).filter fun vault => vault.vaultId ≠ []
  { collections := merged.records
    deletions := compactDeletionMap p (buildAppliedDeletionMap p .merge state.deletions
      (prepareImportedDeletions p bundle clock.prepared) merged.records) clock.stored
    vaultId := (importedVault.map (·.vaultId)).getD state.vaultId
    deviceId := state.deviceId
    lastAppliedSnapshotId := importedVault.map (·.snapshotId)
    activeHostId := keptActive state.activeHostId merged.records }

/-- A merge succeeds in the vault's lineage, without conflicts or with a resolution. -/
theorem applyPrepared_ok_iff :
    applyPreparedImport p state imported ⟨.merge, resolution⟩ clock = .ok after ↔
      imported.analysis.strategy.mergeable = true ∧
        ((mergedCollections p state imported.bundle resolution clock.prepared).hasConflicts = true →
          resolution ≠ none) ∧
        after = mergedState p state imported.bundle resolution clock := by
  rw [applyPreparedImport, ← mergedCollections]
  by_cases hstrategy : imported.analysis.strategy.mergeable = false
  · rw [if_pos ⟨rfl, hstrategy⟩]
    simp [hstrategy]
  · rw [if_neg fun hrefused => hstrategy hrefused.2]
    by_cases hconflicts : (mergedCollections p state imported.bundle resolution clock.prepared).hasConflicts =
        true ∧ resolution = none
    · rw [if_pos ⟨rfl, hconflicts⟩]
      exact iff_of_false nofun fun h => h.2.1 hconflicts.1 hconflicts.2
    · rw [if_neg fun hrefused => hconflicts hrefused.2]
      constructor
      · intro h
        exact ⟨Bool.eq_true_of_not_eq_false hstrategy,
          fun hany hnone => hconflicts ⟨hany, hnone⟩, (Except.ok.inj h).symm⟩
      · rintro ⟨-, -, rfl⟩
        rfl

theorem parse_ok {bundle : LocalConfigBundle}
    (h : parseImportedLocalConfigBundle p state bundle now = .ok imported) :
    imported.bundle = bundle ∧
      imported.analysis.strategy = importStrategy state (getImportedVaultMetadata bundle) := by
  rw [parseImportedLocalConfigBundle] at h
  split_ifs at h
  obtain rfl := Except.ok.inj h
  exact ⟨rfl, rfl⟩

/-- A bundle that is read in one state is read in any other. -/
theorem parse_again {bundle : LocalConfigBundle}
    (h : parseImportedLocalConfigBundle p state bundle now = .ok imported) (other : LocalState) :
    ∃ again, parseImportedLocalConfigBundle p other bundle now = .ok again := by
  rw [parseImportedLocalConfigBundle] at h ⊢
  split_ifs at h with hversion
  rw [if_neg hversion]
  exact ⟨_, rfl⟩

end Apply

end LocalConfig
