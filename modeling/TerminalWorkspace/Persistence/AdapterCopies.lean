import TerminalWorkspace.Foundation.FallbackCopies
import TerminalWorkspace.Persistence.StorageAdapters

/-! The copies that an adapter keeps of its value, and what its table answers for a value. -/
namespace StorageAdapters
open JsText Inventory FallbackCopies
open Persistence (DeletionTable deletionRows)

section LocalStorage

/-- What a read of localStorage comes to. -/
def fallbackOf (storage : OrderedMap JsString JsString) (key : JsString) : Option JsString :=
  (storage.get? key).or ((legacyStorageKeyFor key).bind storage.get?)

/-- One key is set, or removed. -/
def SetTo (key : JsString) (value : Option JsString) (before after : OrderedMap JsString JsString) :
    Prop :=
  ∀ k, after.get? k = if k = key then value else before.get? k

variable {key : JsString} {value : Option JsString}
  {before after : OrderedMap JsString JsString}

theorem setTo_set (storage : OrderedMap JsString JsString) (key value : JsString) :
    SetTo key (some value) storage (storage.set key value) := fun k =>
  OrderedMap.get?_set storage key value k

theorem setTo_erase (storage : OrderedMap JsString JsString) (key : JsString) :
    SetTo key none storage (storage.erase key) := fun k => OrderedMap.get?_erase storage key k

theorem SetTo.self (h : SetTo key value before after) : after.get? key = value := by
  rw [h key, if_pos rfl]

theorem SetTo.of_ne (h : SetTo key value before after) {k : JsString} (hne : k ≠ key) :
    after.get? k = before.get? k := by
  rw [h k, if_neg hne]

theorem SetTo.trans {value' : Option JsString} {last : OrderedMap JsString JsString}
    (h : SetTo key value before after) (h' : SetTo key value' after last) :
    SetTo key value' before last := by
  intro k
  rw [h' k]
  split_ifs with hk
  · rfl
  · exact h.of_ne hk

/-- A legacy key is no key of an adapter. -/
theorem legacyStorageKey_not_current {legacyKey : JsString}
    (h : legacyStorageKeyFor key = some legacyKey) : ¬ storagePrefix <+: legacyKey := by
  unfold legacyStorageKeyFor at h
  split_ifs at h
  obtain rfl := Option.some.inj h
  rintro ⟨rest, hrest⟩
  have hfifth := congrArg (fun name => name[4]?) hrest
  simp [storagePrefix, legacyStoragePrefix, js, ofText] at hfifth

/-- All of them. -/
def adapters : List Adapter :=
  [.hosts, .keys, .knownHosts, .identities, .snippets, .runbooks].map .store ++ .deletions ::
    [.app, .sessions, .transfers, .vaultSyncTrust].map .migrating

theorem mem_adapters (a : Adapter) : a ∈ adapters := by
  cases a with
  | store name => cases name <;> decide
  | deletions => decide
  | migrating name => cases name <;> decide

theorem storagePrefix_key (a : Adapter) : storagePrefix <+: a.key :=
  (by decide +kernel : ∀ a ∈ adapters, storagePrefix <+: a.key) a (mem_adapters a)

theorem names_nodup : (adapters.map Adapter.name).Nodup := by
  simp [adapters, Adapter.name, PersistedStoreName.name, LocalStoreName.name]

theorem key_injective {a b : Adapter} (h : a.key = b.key) : a = b :=
  List.inj_on_of_nodup_map names_nodup (mem_adapters a) (mem_adapters b) (js_injective h)

end LocalStorage

section Copies
variable (isTauriRuntime : Bool)

def deletionsAnswer (table : DeletionTable) : Option Answer :=
  if byDeletedAt table.entries = [] then none
  else some (.serialized (serializeDeletionRows (byDeletedAt table.entries)))

/-- What the database answers to an adapter. -/
def storedAnswer (tables : Tables) : Adapter → Option Answer
  | .store name => if isTauriRuntime then (tables.stores name).map .text else none
  | .deletions => if isTauriRuntime then deletionsAnswer tables.deletions else none
  | .migrating _ => none

/-- The copies of an adapter's value. -/
def copies (w : World) (a : Adapter) : Copies JsString Answer where
  stored := storedAnswer isTauriRuntime w.connection.table a
  current := w.localStorage.get? a.key
  legacy := (legacyStorageKeyFor a.key).bind w.localStorage.get?

/-- Only what belongs to the adapter has changed. -/
structure Leaves (a : Adapter) (w w' : World) : Prop where
  stores : ∀ name, a ≠ .store name →
    w'.connection.table.stores name = w.connection.table.stores name
  deletions : a ≠ .deletions → w'.connection.table.deletions = w.connection.table.deletions
  saved : w'.connection.saved = w.connection.saved
  localStorage : ∀ k ≠ a.key, w'.localStorage.get? k = w.localStorage.get? k

variable {isTauriRuntime} {a b : Adapter} {w w' w'' : World}

theorem Leaves.trans (h : Leaves a w w') (h' : Leaves a w' w'') : Leaves a w w'' where
  stores name hne := (h'.stores name hne).trans (h.stores name hne)
  deletions hne := (h'.deletions hne).trans (h.deletions hne)
  saved := h'.saved.trans h.saved
  localStorage k hk := (h'.localStorage k hk).trans (h.localStorage k hk)

/-- A call of another adapter leaves the copies of an adapter alone. -/
theorem Leaves.copies (h : Leaves a w w') (hne : a ≠ b) :
    copies isTauriRuntime w' b = copies isTauriRuntime w b := by
  have hstored : storedAnswer isTauriRuntime w'.connection.table b =
      storedAnswer isTauriRuntime w.connection.table b := by
    cases b with
    | store name => simp only [storedAnswer, h.stores name hne]
    | deletions => simp only [storedAnswer, h.deletions hne]
    | migrating name => rfl
  have hcurrent := h.localStorage b.key fun hkey => hne (key_injective hkey).symm
  have hlegacy : (legacyStorageKeyFor b.key).bind w'.localStorage.get? =
      (legacyStorageKeyFor b.key).bind w.localStorage.get? := by
    cases hkey : legacyStorageKeyFor b.key with
    | none => rfl
    | some legacyKey =>
      refine h.localStorage legacyKey ?_
      rintro rfl
      exact legacyStorageKey_not_current hkey (storagePrefix_key a)
  rw [StorageAdapters.copies, hstored, hcurrent, hlegacy]
  rfl

/-- The adapter's own copies, once its key is set. -/
theorem copies_setTo (isTauriRuntime : Bool) (w w' : World) {value : Option JsString}
    (h : SetTo a.key value w.localStorage w'.localStorage) :
    copies isTauriRuntime w' a =
      { copies isTauriRuntime w a with
        stored := storedAnswer isTauriRuntime w'.connection.table a
        current := value } := by
  have hlegacy : (legacyStorageKeyFor a.key).bind w'.localStorage.get? =
      (legacyStorageKeyFor a.key).bind w.localStorage.get? := by
    cases hkey : legacyStorageKeyFor a.key with
    | none => rfl
    | some legacyKey =>
      refine h.of_ne ?_
      rintro rfl
      exact legacyStorageKey_not_current hkey (storagePrefix_key a)
  rw [copies, hlegacy, h.self]
  rfl

end Copies

section Tombstones

/-- The time at which a record was deleted; of several entries the last counts. -/
def tombstones (deletions : VaultDeletionMap) (kind : VaultSyncEntityKind) (id : JsString) :
    Option JsString :=
  ((deletions.of kind).reverse.find? (·.id = id)).map VaultDeletionEntry.deletedAt

theorem of_serializeDeletionRows (rows : List DeletionRow) (kind : VaultSyncEntityKind) :
    (serializeDeletionRows rows).of kind =
      (rows.filter (·.1.1 = kind)).map fun row => ⟨row.1.2, row.2⟩ := by
  induction rows using List.reverseRecOn with
  | nil => cases kind <;> rfl
  | append_singleton rows row ih =>
    obtain ⟨⟨rowKind, id⟩, deletedAt⟩ := row
    rw [serializeDeletionRows, List.foldl_append, List.foldl_cons, List.foldl_nil,
      ← serializeDeletionRows, List.filter_append, List.map_append, ← ih, of_put]
    by_cases hkind : kind = rowKind
    · simp [hkind]
    · simp [hkind, Ne.symm hkind]

theorem tombstones_serializeDeletionRows (rows : List DeletionRow) (kind : VaultSyncEntityKind)
    (id : JsString) :
    tombstones (serializeDeletionRows rows) kind id = OrderedMap.lastFor (kind, id) rows := by
  have hkey : ∀ row : DeletionRow,
      decide (decide (row.1.1 = kind) = true ∧ decide (row.1.2 = id) = true) =
        decide (row.1 = (kind, id)) := by
    intro row
    simp [Prod.ext_iff]
  rw [tombstones, of_serializeDeletionRows, ← List.map_reverse, List.find?_map,
    ← List.filter_reverse, List.find?_filter, OrderedMap.lastFor, Option.map_map]
  simp only [Function.comp_def, hkey]

/-- The rows of a table, in whatever order they are read, are its tombstones. -/
theorem lastFor_perm_entries {rows : List DeletionRow} {table : DeletionTable}
    (h : rows.Perm table.entries) (key : VaultSyncEntityKind × JsString) :
    OrderedMap.lastFor key rows = table.get? key := by
  cases hget : table.get? key with
  | none =>
    refine OrderedMap.lastFor_eq_none.mpr fun e he hkey => ?_
    have hmem : key ∈ table.keys := hkey ▸ List.mem_map_of_mem (h.mem_iff.mp he)
    have hsome := OrderedMap.mem_keys_iff.mp hmem
    rw [hget] at hsome
    cases hsome
  | some deletedAt =>
    cases hlast : OrderedMap.lastFor key rows with
    | none =>
      exact absurd rfl (OrderedMap.lastFor_eq_none.mp hlast _
        (h.mem_iff.mpr (OrderedMap.get?_mem hget)))
    | some other =>
      have hother := OrderedMap.get?_of_mem (h.mem_iff.mp (OrderedMap.lastFor_mem hlast))
      exact hother.symm.trans hget

theorem deletionsAnswer_tombstones {table : DeletionTable} {answer : Answer}
    (h : deletionsAnswer table = some answer) :
    ∃ deletions, answer = .serialized deletions ∧
      ∀ kind id, tombstones deletions kind id = table.get? (kind, id) := by
  unfold deletionsAnswer at h
  split_ifs at h
  refine ⟨_, (Option.some.inj h).symm, fun kind id => ?_⟩
  rw [tombstones_serializeDeletionRows]
  exact lastFor_perm_entries (sortBy_perm _ _) (kind, id)

theorem deletionsAnswer_eq_none {table : DeletionTable}
    (h : ∀ kind id, table.get? (kind, id) = none) : deletionsAnswer table = none := by
  refine if_pos (List.eq_nil_iff_forall_not_mem.mpr fun row hrow => ?_)
  have hget := OrderedMap.get?_of_mem (mem_sortBy.mp hrow)
  rw [h row.1.1 row.1.2] at hget
  cases hget

end Tombstones

section Medium
variable (isTauriRuntime : Bool) (readDeletions : DeletionReader)

/-- The tombstones that an answer lists. -/
def Answer.deletions : Answer → Option VaultDeletionMap
  | .text value => parsePersistedDeletions readDeletions value
  | .serialized deletions => some deletions

/-- Values are compared as texts, and those of the tombstone adapter as tombstone maps. -/
def Agrees (a : Adapter) (answer : Answer) (value : JsString) : Prop :=
  answer = .text value ∨ a = .deletions ∧
    ∃ answered ∈ answer.deletions readDeletions,
      ∃ passed ∈ parsePersistedDeletions readDeletions value,
        ∀ kind id, tombstones answered kind id = tombstones passed kind id

/-- An empty tombstone map. -/
def Vacant (a : Adapter) (answer : Answer) : Prop :=
  a = .deletions ∧ ∃ answered ∈ answer.deletions readDeletions,
    ∀ kind id, tombstones answered kind id = none

/-- What the database answers to an adapter that has written the value. -/
def Written : Adapter → JsString → Option Answer → Prop
  | .store _, value, answer => answer = if isTauriRuntime then some (.text value) else none
  | .deletions, value, answer =>
    if isTauriRuntime then
      ∃ deletions ∈ parsePersistedDeletions readDeletions value,
        answer = deletionsAnswer (OrderedMap.ofList (deletionRows deletions))
    else answer = none
  | .migrating _, _, answer => answer = none

variable {isTauriRuntime readDeletions} {a : Adapter} {value : JsString} {answer : Option Answer}

theorem agrees_of_written (h : Written isTauriRuntime readDeletions a value answer) :
    ∀ x ∈ answer, Agrees readDeletions a x value := by
  intro x hx
  obtain rfl : answer = some x := hx
  cases a with
  | store name =>
    simp only [Written] at h
    split_ifs at h
    exact .inl (Option.some.inj h)
  | deletions =>
    simp only [Written] at h
    split_ifs at h
    obtain ⟨passed, hpassed, hanswer⟩ := h
    obtain ⟨answered, rfl, hanswered⟩ := deletionsAnswer_tombstones hanswer.symm
    refine .inr ⟨rfl, answered, rfl, passed, hpassed, fun kind id => ?_⟩
    rw [hanswered]
    exact Persistence.holds_ofList_rows passed kind id
  | migrating name => cases h

theorem eq_none_of_vacant (h : Written isTauriRuntime readDeletions a value answer)
    (hvacant : Vacant readDeletions a (.text value)) : answer = none := by
  obtain ⟨rfl, answered, hanswered, hempty⟩ := hvacant
  simp only [Written] at h
  split_ifs at h
  · obtain ⟨passed, hpassed, rfl⟩ := h
    obtain rfl : answered = passed := Option.some.inj (hanswered.symm.trans hpassed)
    refine deletionsAnswer_eq_none fun kind id => ?_
    exact (Persistence.holds_ofList_rows answered kind id).trans (hempty kind id)
  · exact h

variable (isTauriRuntime readDeletions)

def medium (a : Adapter) : Medium JsString Answer where
  text := .text
  Agrees := Agrees readDeletions a
  Vacant := Vacant readDeletions a
  Written := Written isTauriRuntime readDeletions a
  agrees_text _ := .inl rfl
  agrees_of_written := agrees_of_written
  eq_none_of_vacant := eq_none_of_vacant

end Medium

end StorageAdapters
