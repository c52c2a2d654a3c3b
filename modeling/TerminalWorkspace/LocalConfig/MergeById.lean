import Mathlib.Data.Finset.Card
import TerminalWorkspace.Inventory.NormalHosts
import TerminalWorkspace.Inventory.Tombstones

/-! Merging an imported collection into a local one. The two sides are joined by id,
and the later change wins. -/
namespace LocalConfig
open JsText Inventory

inductive ConflictResolution where
  | block
  | keepLocal
  | preferImported
  deriving DecidableEq, Repr

structure MergeSection where
  added : ℕ
  updated : ℕ
  removed : ℕ
  retainedLocal : ℕ
  unchanged : ℕ
  conflicts : ℕ
  conflictingIds : List JsString
  deriving DecidableEq

def createEmptyMergeSection : MergeSection := ⟨0, 0, 0, 0, 0, 0, []⟩

section Collection
variable {α : Type} [VaultRecord α]

/-- What the merge decides about one id. -/
inductive Outcome (α : Type) where
  | skipped
  | added (record : α)
  | updated (record : α)
  | removed
  | retainedLocal (record : α)
  | unchanged (record : α)
  | conflictRemoved
  | conflict (record : α)

def Outcome.record : Outcome α → Option α
  | .added record | .updated record | .retainedLocal record | .unchanged record
  | .conflict record => some record
  | .skipped | .removed | .conflictRemoved => none

def MergeSection.count (s : MergeSection) (id : JsString) : Outcome α → MergeSection
  | .skipped => s
  | .added _ => { s with added := s.added + 1 }
  | .updated _ => { s with updated := s.updated + 1 }
  | .removed => { s with removed := s.removed + 1 }
  | .retainedLocal _ => { s with retainedLocal := s.retainedLocal + 1 }
  | .unchanged _ => { s with unchanged := s.unchanged + 1 }
  | .conflictRemoved =>
    { s with
      conflicts := s.conflicts + 1
      conflictingIds := s.conflictingIds ++ [id]
      removed := s.removed + 1 }
  | .conflict _ =>
    { s with conflicts := s.conflicts + 1, conflictingIds := s.conflictingIds ++ [id] }

/-- The body of the merge loop. A tombstone is looked at only where the import has
no record of its own. -/
def mergeOne (p : Platform) (resolution : ConflictResolution) (localRecord importedRecord : Option α)
    (deletion : Option VaultDeletionEntry) : Outcome α :=
  match localRecord, importedRecord, deletion with
  | none, none, _ => .skipped
  | some l, none, some deletion =>
    if before (VaultRecord.updatedAt l) deletion.deletedAt then .removed
    else if before deletion.deletedAt (VaultRecord.updatedAt l) then .retainedLocal l
    else if resolution = .preferImported then .conflictRemoved
    else .conflict l
  | some l, none, none => .retainedLocal l
  | none, some i, _ => .added i
  | some l, some i, _ =>
    if stableSerialize p (VaultRecord.toJson l) = stableSerialize p (VaultRecord.toJson i) then
      .unchanged l
    else if before (VaultRecord.updatedAt l) (VaultRecord.updatedAt i) then .updated i
    else if before (VaultRecord.updatedAt i) (VaultRecord.updatedAt l) then .retainedLocal l
    else if resolution = .preferImported then .conflict i
    else .conflict l

def byId (records : List α) : OrderedMap JsString α :=
  OrderedMap.ofList (records.map fun record => (VaultRecord.id record, record))

/-- The ids of both sides, local ones first. -/
def allIds (localById importedById : OrderedMap JsString α) : List JsString :=
  localById.keys ++ importedById.keys.filter fun id => id ∉ localById.keys

structure MergeResult (α : Type) where
  records : List α
  counts : MergeSection

def mergeCollection (p : Platform) (localRecords importedRecords : List α)
    (sortRecords : List α → List α) (deletions : List VaultDeletionEntry)
    (resolution : ConflictResolution) : MergeResult α :=
  let localById := byId localRecords
  let importedById := byId importedRecords
  let deletionById := OrderedMap.ofList (deletions.map fun entry => (entry.id, entry))
  let outcome id :=
    mergeOne p resolution (localById.get? id) (importedById.get? id) (deletionById.get? id)
  let ids := allIds localById importedById
  { records := sortRecords (ids.filterMap fun id => (outcome id).record)
    counts := ids.foldl (fun s id => s.count id (outcome id)) createEmptyMergeSection }

end Collection

def mergeDeletionEntries (p : Platform) (localEntries importedEntries : List VaultDeletionEntry)
    (survivingIds : List JsString) : List VaultDeletionEntry :=
  sortDeletionEntries p
    (latestEntries ((localEntries ++ importedEntries).filter fun entry =>
      entry.id ∉ survivingIds)).values

/-! The merge of one collection, id by id: which ids it looks at, what it keeps of each, and
how its counters add up. -/

section ById
variable {α : Type} [VaultRecord α] {records : List α} {id : JsString} {r : α}

theorem byId_get?_mem (h : (byId records).get? id = some r) :
    r ∈ records ∧ VaultRecord.id r = id := by
  rw [byId, OrderedMap.get?_ofList] at h
  obtain ⟨r', hr', he⟩ := List.mem_map.mp (OrderedMap.lastFor_mem h)
  obtain ⟨hid, rfl⟩ := Prod.mk.inj he
  exact ⟨hr', hid⟩

theorem byId_get?_isSome_iff :
    ((byId records).get? id).isSome ↔ id ∈ records.map VaultRecord.id := by
  rw [byId, OrderedMap.get?_ofList, ← Option.ne_none_iff_isSome, ne_eq, OrderedMap.lastFor_eq_none]
  simp

theorem mem_byId_keys : id ∈ (byId records).keys ↔ id ∈ records.map VaultRecord.id := by
  rw [OrderedMap.mem_keys_iff, byId_get?_isSome_iff]

/-- Where the ids differ, every record is found under its own. -/
theorem byId_get?_of_nodup (h : (records.map VaultRecord.id).Nodup) (hr : r ∈ records) :
    (byId records).get? (VaultRecord.id r) = some r := by
  obtain ⟨r', hget⟩ := Option.isSome_iff_exists.mp
    (byId_get?_isSome_iff.mpr (List.mem_map_of_mem hr))
  obtain ⟨hr', hid⟩ := byId_get?_mem hget
  rw [hget, List.inj_on_of_nodup_map h hr' hr hid]

theorem byId_keys_of_nodup (h : (records.map VaultRecord.id).Nodup) :
    (byId records).keys = records.map VaultRecord.id := by
  rw [byId, OrderedMap.keys, OrderedMap.ofList_entries (by simpa [Function.comp_def] using h)]
  simp [Function.comp_def]

omit [VaultRecord α] in
theorem allIds_nodup (localById importedById : OrderedMap JsString α) :
    (allIds localById importedById).Nodup := by
  refine localById.nodup.append (importedById.nodup.filter _) ?_
  intro id hlocal himported
  have hnew := (List.mem_filter.mp himported).2
  exact of_decide_eq_true hnew hlocal

theorem mem_allIds {localRecords importedRecords : List α} :
    id ∈ allIds (byId localRecords) (byId importedRecords) ↔
      id ∈ localRecords.map VaultRecord.id ∨ id ∈ importedRecords.map VaultRecord.id := by
  simp only [allIds, List.mem_append, List.mem_filter, mem_byId_keys, decide_eq_true_eq]
  tauto

end ById

section Outcome
variable {α : Type} [VaultRecord α] (p : Platform) (resolution : ConflictResolution)
  (localRecords importedRecords : List α) (deletions : List VaultDeletionEntry)

/-- What the merge of a collection decides about an id. -/
def outcomeOf (id : JsString) : Outcome α :=
  mergeOne p resolution ((byId localRecords).get? id) ((byId importedRecords).get? id)
    ((OrderedMap.ofList (deletions.map fun entry => (entry.id, entry))).get? id)

/-- The records a merge keeps, before it sorts them. -/
def joined : List α :=
  (allIds (byId localRecords) (byId importedRecords)).filterMap fun id =>
    (outcomeOf p resolution localRecords importedRecords deletions id).record

theorem mergeCollection_records (sortRecords : List α → List α) :
    (mergeCollection p localRecords importedRecords sortRecords deletions resolution).records =
      sortRecords (joined p resolution localRecords importedRecords deletions) := rfl

variable {p resolution localRecords importedRecords deletions} {id : JsString} {r : α}

theorem mergeOne_record_mem {l i : Option α} {deletion : Option VaultDeletionEntry}
    (h : (mergeOne p resolution l i deletion).record = some r) : l = some r ∨ i = some r := by
  unfold mergeOne at h
  split at h
  · cases h
  · split_ifs at h
    all_goals first | exact .inl h | cases h
  · exact .inl h
  · exact .inr h
  · split_ifs at h
    all_goals first | exact .inl h | exact .inr h

/-- What is kept under an id is a record of that id, of one side or the other. -/
theorem outcomeOf_record
    (h : (outcomeOf p resolution localRecords importedRecords deletions id).record = some r) :
    VaultRecord.id r = id ∧ (r ∈ localRecords ∨ r ∈ importedRecords) := by
  rcases mergeOne_record_mem h with hlocal | himported
  · obtain ⟨hr, hid⟩ := byId_get?_mem hlocal
    exact ⟨hid, .inl hr⟩
  · obtain ⟨hr, hid⟩ := byId_get?_mem himported
    exact ⟨hid, .inr hr⟩

theorem mem_joined :
    r ∈ joined p resolution localRecords importedRecords deletions ↔
      (outcomeOf p resolution localRecords importedRecords deletions (VaultRecord.id r)).record =
        some r := by
  constructor
  · intro h
    obtain ⟨id, -, hrecord⟩ := List.mem_filterMap.mp h
    rw [(outcomeOf_record hrecord).1]
    exact hrecord
  · intro h
    refine List.mem_filterMap.mpr ⟨VaultRecord.id r, mem_allIds.mpr ?_, h⟩
    rcases (outcomeOf_record h).2 with hlocal | himported
    · exact .inl (List.mem_map_of_mem hlocal)
    · exact .inr (List.mem_map_of_mem himported)

/-- One record for each id that is kept, in the order of the ids. -/
theorem joined_ids :
    (joined p resolution localRecords importedRecords deletions).map VaultRecord.id =
      (allIds (byId localRecords) (byId importedRecords)).filter fun id =>
        (outcomeOf p resolution localRecords importedRecords deletions id).record.isSome := by
  unfold joined
  induction allIds (byId localRecords) (byId importedRecords) with
  | nil => rfl
  | cons id ids ih =>
    cases hrecord : (outcomeOf p resolution localRecords importedRecords deletions id).record with
    | none => simp [hrecord, ih]
    | some r => simp [hrecord, ih, (outcomeOf_record hrecord).1]

theorem joined_nodup :
    ((joined p resolution localRecords importedRecords deletions).map VaultRecord.id).Nodup := by
  rw [joined_ids]
  exact (allIds_nodup _ _).filter _

end Outcome

section Counts
variable {α : Type} [VaultRecord α]

/-- The sum of the six counters. -/
def MergeSection.total (s : MergeSection) : ℕ :=
  s.added + s.updated + s.removed + s.retainedLocal + s.unchanged + s.conflicts

/-- An outcome that exactly one counter stands for. -/
def Outcome.countedOnce : Outcome α → Bool
  | .skipped | .conflictRemoved => false
  | _ => true

omit [VaultRecord α] in
theorem total_count {outcome : Outcome α} (h : outcome.countedOnce = true) (s : MergeSection)
    (id : JsString) : (s.count id outcome).total = s.total + 1 := by
  cases outcome with
  | skipped => exact Bool.noConfusion h
  | conflictRemoved => exact Bool.noConfusion h
  | _ => simp only [MergeSection.count, MergeSection.total]; omega

omit [VaultRecord α] in
theorem total_foldl_count {outcome : JsString → Outcome α} {ids : List JsString}
    (h : ∀ id ∈ ids, (outcome id).countedOnce = true) (s : MergeSection) :
    (ids.foldl (fun s id => s.count id (outcome id)) s).total = s.total + ids.length := by
  induction ids generalizing s with
  | nil => rfl
  | cons id ids ih =>
    rw [List.foldl_cons, ih (fun other hother => h other (List.mem_cons_of_mem _ hother)),
      total_count (h id List.mem_cons_self), List.length_cons]
    omega

variable {p : Platform} {localRecords importedRecords : List α}
  {deletions : List VaultDeletionEntry} {sortRecords : List α → List α}

/-- A merge that blocks on conflicts counts every id of either side once. -/
theorem outcomeOf_countedOnce {id : JsString}
    (h : id ∈ allIds (byId localRecords) (byId importedRecords)) :
    (outcomeOf p .block localRecords importedRecords deletions id).countedOnce = true := by
  have hlive : ((byId localRecords).get? id).isSome ∨ ((byId importedRecords).get? id).isSome := by
    rw [byId_get?_isSome_iff, byId_get?_isSome_iff]
    exact mem_allIds.mp h
  unfold outcomeOf mergeOne
  split
  · rename_i hlocal himported
    rw [hlocal, himported] at hlive
    simp at hlive
  · simp only [reduceCtorEq, if_false]
    split_ifs <;> rfl
  · rfl
  · rfl
  · split_ifs <;> rfl

theorem total_mergeCollection :
    (mergeCollection p localRecords importedRecords sortRecords deletions .block).counts.total =
      (localRecords.map VaultRecord.id ++ importedRecords.map VaultRecord.id).toFinset.card := by
  have hids : (allIds (byId localRecords) (byId importedRecords)).toFinset =
      (localRecords.map VaultRecord.id ++ importedRecords.map VaultRecord.id).toFinset := by
    ext id
    rw [List.mem_toFinset, List.mem_toFinset, mem_allIds, List.mem_append]
  have hcounted : ∀ id ∈ allIds (byId localRecords) (byId importedRecords),
      (outcomeOf p .block localRecords importedRecords deletions id).countedOnce = true :=
    fun id hid => outcomeOf_countedOnce hid
  have htotal := total_foldl_count hcounted createEmptyMergeSection
  rw [← hids, List.toFinset_card_of_nodup (allIds_nodup _ _)]
  exact htotal.trans (Nat.zero_add _)

end Counts
end LocalConfig
