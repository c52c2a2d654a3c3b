import Mathlib.Data.List.InsertIdx
import Mathlib.Data.List.Perm.Basic
import Mathlib.Data.List.Perm.Subperm
import Mathlib.Data.List.Sort

/-! Lists whose items are moved from place to place, and what a move leaves in front of a
given place. -/
namespace MovedItems

section Moves
variable {α : Type*} {items : List α} {source target count : ℕ}

/-- The item at one place is taken out, and put in at another. -/
def moveItem (items : List α) (source target : ℕ) : List α :=
  match items[source]? with
  | none => items
  | some item => (items.eraseIdx source).insertIdx target item

theorem moveItem_of_lt (hsource : source < items.length) :
    moveItem items source target = (items.eraseIdx source).insertIdx target items[source] := by
  rw [moveItem, List.getElem?_eq_getElem hsource]

theorem moveItem_perm (htarget : target < items.length) :
    (moveItem items source target).Perm items := by
  rcases Nat.lt_or_ge source items.length with hsource | hsource
  · rw [moveItem_of_lt hsource]
    have hle : target ≤ (items.eraseIdx source).length := by
      rw [List.length_eraseIdx_of_lt hsource]
      omega
    exact (List.perm_insertIdx _ _ hle).trans (List.getElem_cons_eraseIdx_perm hsource)
  · rw [moveItem, List.getElem?_eq_none hsource]

@[simp] theorem moveItem_self (items : List α) (place : ℕ) :
    moveItem items place place = items := by
  rcases Nat.lt_or_ge place items.length with hplace | hplace
  · rw [moveItem_of_lt hplace, List.insertIdx_eraseIdx_getElem hplace]
  · rw [moveItem, List.getElem?_eq_none hplace]

/-- Where a move crosses a place, the item that comes in front of it and the item that goes
behind it are alike. -/
structure CrossesAlike (items : List α) (source target count : ℕ) : Prop where
  behind : source < count → count ≤ target → items[source]? = items[count]?
  inFront : target < count → count ≤ source → items[source]? = items[count - 1]?

theorem take_moveItem_behind (hcount : count ≤ source) (htarget : count ≤ target) :
    (moveItem items source target).take count = items.take count := by
  rcases Nat.lt_or_ge source items.length with hsource | hsource
  · rw [moveItem_of_lt hsource, List.take_insertIdx_eq_take_of_le _ _ _ _ htarget,
      List.take_eraseIdx_eq_take_of_le _ _ _ hcount]
  · rw [moveItem, List.getElem?_eq_none hsource]

/-- A move in front of a place only reorders what stands there. -/
theorem take_moveItem_inFront (hsource : source < count) (htarget : target < count)
    (hcount : count ≤ items.length) :
    ((moveItem items source target).take count).Perm (items.take count) := by
  have hdrop : (moveItem items source target).drop count = items.drop count := by
    rw [moveItem_of_lt (Nat.lt_of_lt_of_le hsource hcount)]
    refine List.ext_getElem (by grind) fun i hi hi' => ?_
    grind
  have hperm : (moveItem items source target).Perm items :=
    moveItem_perm (Nat.lt_of_lt_of_le htarget hcount)
  rw [← List.take_append_drop count (moveItem items source target), hdrop] at hperm
  conv_rhs at hperm => rw [← List.take_append_drop count items]
  exact (List.perm_append_right_iff _).mp hperm

theorem cons_perm_cons_iff {first second : α} {rest : List α} :
    (first :: rest).Perm (second :: rest) ↔ first = second := by
  have h : ([first] ++ rest).Perm ([second] ++ rest) ↔ [first].Perm [second] :=
    List.perm_append_right_iff rest
  rw [List.singleton_append, List.singleton_append, List.singleton_perm_singleton] at h
  exact h

/-- An item that leaves the front makes room for the first one behind it. -/
theorem take_moveItem_leaves (hsource : source < count) (hcount : count ≤ target)
    (htarget : target < items.length) :
    (moveItem items source target).take count =
      (items.take count).eraseIdx source ++ [items[count]] := by
  rw [moveItem_of_lt (by omega), List.take_insertIdx_eq_take_of_le _ _ _ _ hcount]
  refine List.ext_getElem (by grind) fun i hi hi' => ?_
  grind

/-- An item that comes to the front pushes the last one there behind it. -/
theorem take_moveItem_enters (htarget : target < count) (hcount : count ≤ source)
    (hsource : source < items.length) :
    (moveItem items source target).take count =
      (items.take (count - 1)).insertIdx target items[source] := by
  rw [moveItem_of_lt hsource]
  refine List.ext_getElem (by grind) fun i hi hi' => ?_
  grind

/-- What stands in front of a place is the same, in some order, exactly if the items that
cross the place are alike. -/
theorem take_moveItem_perm_iff (hsource : source < items.length) (htarget : target < items.length)
    (hcount : count ≤ items.length) :
    ((moveItem items source target).take count).Perm (items.take count) ↔
      CrossesAlike items source target count := by
  rcases Nat.lt_or_ge source count with hs | hs <;> rcases Nat.lt_or_ge target count with ht | ht
  · refine iff_of_true (take_moveItem_inFront hs ht hcount) ⟨fun _ h => ?_, fun _ h => ?_⟩ <;> omega
  · -- The item at `source` leaves the front, and the one at `count` takes its part.
    have hlt : source < (items.take count).length := by grind
    have hsplit : (items.take count).Perm
        (items[source] :: (items.take count).eraseIdx source) := by
      have h := (List.getElem_cons_eraseIdx_perm hlt).symm
      rwa [List.getElem_take] at h
    rw [take_moveItem_leaves hs ht htarget, (List.perm_append_singleton _ _).congr_left,
      hsplit.congr_right, cons_perm_cons_iff]
    constructor
    · intro h
      refine ⟨fun _ _ => ?_, fun h => by omega⟩
      rw [List.getElem?_eq_getElem hsource, List.getElem?_eq_getElem (by omega), h]
    · intro h
      have hsame := h.behind hs ht
      rw [List.getElem?_eq_getElem hsource, List.getElem?_eq_getElem (by omega)] at hsame
      exact (Option.some.inj hsame).symm
  · -- The item at `source` comes to the front, and the last one there is pushed behind.
    obtain ⟨last, rfl⟩ : ∃ last, count = last + 1 := ⟨count - 1, by omega⟩
    have hsplit : (items.take (last + 1)).Perm (items[last] :: items.take last) := by
      rw [List.take_succ_eq_append_getElem (by omega)]
      exact List.perm_append_singleton _ _
    rw [take_moveItem_enters ht hs hsource, Nat.add_sub_cancel,
      (List.perm_insertIdx _ _ (by grind)).congr_left, hsplit.congr_right, cons_perm_cons_iff]
    constructor
    · intro h
      refine ⟨fun h => by omega, fun _ _ => ?_⟩
      rw [List.getElem?_eq_getElem hsource, Nat.add_sub_cancel,
        List.getElem?_eq_getElem (by omega), h]
    · intro h
      have hsame := h.inFront ht hs
      rw [List.getElem?_eq_getElem hsource, Nat.add_sub_cancel,
        List.getElem?_eq_getElem (by omega)] at hsame
      exact Option.some.inj hsame
  · rw [take_moveItem_behind hs ht]
    refine iff_of_true (.refl _) ⟨fun h => ?_, fun h => ?_⟩ <;> omega

end Moves
end MovedItems

/-! A sweep over a list that takes items out by putting the last one in their place. -/
namespace SwapSweep
variable {α : Type*}

/-- The last item is put in the place of the one that is taken out. -/
def swapRemove (items : List α) (i : ℕ) : List α :=
  match items.getLast? with
  | none => items
  | some last => (items.set i last).dropLast

section Removal
variable {items : List α} {i : ℕ}

theorem swapRemove_concat_of_lt (init : List α) (last : α) (h : i < init.length) :
    swapRemove (init ++ [last]) i = init.set i last := by
  rw [swapRemove, List.getLast?_append_cons]
  change ((init ++ [last]).set i last).dropLast = _
  rw [List.set_append_left _ _ h, List.dropLast_concat]

theorem swapRemove_concat_length (init : List α) (last : α) :
    swapRemove (init ++ [last]) init.length = init := by
  rw [swapRemove, List.getLast?_append_cons]
  change ((init ++ [last]).set init.length last).dropLast = _
  rw [List.set_append_right _ _ (Nat.le_refl _), Nat.sub_self, List.set_cons_zero, List.dropLast_concat]

/-- What comes before the place stays, and from the place on only the item is gone. -/
theorem swapRemove_split (h : i < items.length) :
    (swapRemove items i).take i = items.take i ∧
      (items.drop i).Perm (items[i] :: (swapRemove items i).drop i) := by
  obtain rfl | ⟨init, last, rfl⟩ := List.eq_nil_or_concat' items
  · exact absurd h (Nat.not_lt_zero i)
  rw [List.length_append, List.length_singleton] at h
  rcases Nat.eq_or_lt_of_le (Nat.le_of_lt_succ h) with rfl | hlt
  · rw [swapRemove_concat_length]
    simp
  · rw [swapRemove_concat_of_lt init last hlt, List.take_set_of_le (Nat.le_refl i),
      List.take_append_of_le_length (Nat.le_of_lt hlt), List.getElem_append_left hlt,
      List.drop_append_of_le_length (Nat.le_of_lt hlt), List.drop_eq_getElem_cons hlt, List.drop_set]
    refine ⟨rfl, ?_⟩
    rw [if_neg (Nat.lt_irrefl i), Nat.sub_self, List.drop_eq_getElem_cons hlt, List.set_cons_zero,
      List.cons_append]
    exact (List.perm_append_singleton last _).cons _

end Removal

section Sweep
variable (gone : α → Bool)

/-- Ask each item in turn and take out those that are gone, with the items in the order in which
they are asked. -/
def sweepFrom : ℕ → ℕ → List α → List α × List α
  | 0, _, items => (items, [])
  | fuel + 1, index, items =>
    match items[index]? with
    | none => (items, [])
    | some item =>
      if gone item then
        let rest := sweepFrom fuel index (swapRemove items index)
        (rest.1, item :: rest.2)
      else
        let rest := sweepFrom fuel (index + 1) items
        (rest.1, item :: rest.2)

def sweep (items : List α) : List α × List α := sweepFrom gone items.length 0 items

variable {gone}

theorem length_swapRemove {items : List α} {i : ℕ} (h : i < items.length) :
    (swapRemove items i).length + 1 = items.length := by
  obtain rfl | ⟨init, last, rfl⟩ := List.eq_nil_or_concat' items
  · exact absurd h (Nat.not_lt_zero i)
  · simp [swapRemove]

theorem sweepFrom_perm {fuel index : ℕ} {items : List α} (hfuel : items.length ≤ index + fuel) :
    (sweepFrom gone fuel index items).1.Perm
        (items.take index ++ (items.drop index).filter fun item => !gone item) ∧
      (sweepFrom gone fuel index items).2.Perm (items.drop index) := by
  induction fuel generalizing index items with
  | zero =>
    rw [sweepFrom, List.drop_eq_nil_of_le (by omega), List.take_of_length_le (by omega)]
    simp
  | succ fuel ih =>
    rw [sweepFrom]
    cases hitem : items[index]? with
    | none =>
      have hend := List.getElem?_eq_none_iff.mp hitem
      rw [List.drop_eq_nil_of_le hend, List.take_of_length_le hend]
      simp
    | some item =>
      obtain ⟨hlt, rfl⟩ := List.getElem?_eq_some_iff.mp hitem
      dsimp only
      split_ifs with hgone
      · obtain ⟨htake, hdrop⟩ := swapRemove_split hlt
        have hlength := length_swapRemove hlt
        obtain ⟨hkept, hasked⟩ := ih (show (swapRemove items index).length ≤ index + fuel by omega)
        have hfilter := hdrop.filter fun item => !gone item
        rw [List.filter_cons_of_neg (by simpa using hgone)] at hfilter
        rw [htake] at hkept
        exact ⟨hkept.trans (hfilter.symm.append_left _), (hasked.cons _).trans hdrop.symm⟩
      · obtain ⟨hkept, hasked⟩ := ih (show items.length ≤ index + 1 + fuel by omega)
        rw [List.drop_eq_getElem_cons hlt, List.filter_cons_of_pos (by simpa using hgone)]
        refine ⟨hkept.trans ?_, hasked.cons _⟩
        rw [List.take_succ_eq_append_getElem hlt, List.append_assoc, List.singleton_append]

/-- A sweep asks each item once, and keeps those that are not gone. -/
theorem sweep_perm (gone : α → Bool) (items : List α) :
    (sweep gone items).1.Perm (items.filter fun item => !gone item) ∧
      (sweep gone items).2.Perm items := by
  have hfuel : items.length ≤ 0 + items.length := Nat.le_add_left items.length 0
  have h : (sweepFrom gone items.length 0 items).1.Perm _ ∧ _ := sweepFrom_perm hfuel
  rwa [List.take_zero, List.nil_append, List.drop_zero] at h

end Sweep
end SwapSweep

/-! Insertion sort by a relation of which no more than totality is known. Neighbours end up
related, and a list whose neighbours are related is not changed. -/
namespace StableSort

section
variable {α : Type*} (r : α → α → Prop) [DecidableRel r]

theorem isChain_orderedInsert (htotal : ∀ a b, r a b ∨ r b a) (a : α) {l : List α}
    (h : l.IsChain r) : (l.orderedInsert r a).IsChain r := by
  induction l with
  | nil => exact .singleton a
  | cons b l ih =>
    rw [List.orderedInsert_cons]
    split_ifs with hab
    · exact .cons_cons hab h
    · have hba := (htotal a b).resolve_left hab
      cases l with
      | nil => exact .cons_cons hba (.singleton a)
      | cons c l =>
        have hrest := ih (List.isChain_of_isChain_cons h)
        rw [List.orderedInsert_cons] at hrest ⊢
        split_ifs at hrest ⊢ with hac
        · exact .cons_cons hba hrest
        · exact .cons_cons (List.isChain_cons_cons.mp h).1 hrest

theorem isChain_insertionSort (htotal : ∀ a b, r a b ∨ r b a) (l : List α) :
    (l.insertionSort r).IsChain r := by
  induction l with
  | nil => exact .nil
  | cons a l ih => exact isChain_orderedInsert r htotal a ih

theorem insertionSort_of_isChain {l : List α} (h : l.IsChain r) : l.insertionSort r = l := by
  induction l with
  | nil => rfl
  | cons a l ih =>
    rw [List.insertionSort_cons, ih (List.isChain_of_isChain_cons h)]
    cases l with
    | nil => rfl
    | cons b l => rw [List.orderedInsert_cons, if_pos (List.isChain_cons_cons.mp h).1]

theorem insertionSort_idem (htotal : ∀ a b, r a b ∨ r b a) (l : List α) :
    (l.insertionSort r).insertionSort r = l.insertionSort r :=
  insertionSort_of_isChain r (isChain_insertionSort r htotal l)

end

end StableSort
