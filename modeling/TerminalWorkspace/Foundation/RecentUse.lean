import Mathlib.Data.List.Dedup
import Mathlib.Data.List.Induction
import Mathlib.Data.List.Perm.Lattice

/-! Values in the order of their last uses, the latest first, and the store that keeps only as
many of them as it has room for. -/
namespace RecentUse
variable {α : Type*} [DecidableEq α]

/-- A use puts a value first. -/
def touch (recent : List α) (a : α) : List α := a :: recent.erase a

def touched (uses : List α) : List α := uses.foldl touch []

/-- A store with room for `capacity` values forgets the ones used longest ago. -/
def use (capacity : ℕ) (kept : List α) (a : α) : List α := (touch kept a).take capacity

theorem mem_touch {recent : List α} {a b : α} : b ∈ touch recent a ↔ b = a ∨ b ∈ recent := by
  by_cases hb : b = a
  · simp [touch, hb]
  · simp [touch, hb, List.mem_erase_of_ne hb]

theorem nodup_touch {recent : List α} (h : recent.Nodup) (a : α) : (touch recent a).Nodup :=
  List.nodup_cons.mpr ⟨h.not_mem_erase, h.erase a⟩

theorem nodup_touched (uses : List α) : (touched uses).Nodup :=
  List.foldlRecOn uses touch List.nodup_nil fun _ h a _ => nodup_touch h a

theorem touched_concat (uses : List α) (a : α) : touched (uses ++ [a]) = touch (touched uses) a := by
  rw [touched, List.foldl_append, List.foldl_cons, List.foldl_nil, touched]

theorem mem_touched {uses : List α} {a : α} : a ∈ touched uses ↔ a ∈ uses := by
  induction uses using List.reverseRecOn with
  | nil => exact Iff.rfl
  | append_singleton uses b ih =>
    rw [touched_concat, mem_touch, List.mem_append, List.mem_singleton, or_comm, ih]

theorem touched_perm_dedup (uses : List α) : (touched uses).Perm uses.dedup :=
  (List.perm_ext_iff_of_nodup (nodup_touched uses) (List.nodup_dedup uses)).mpr fun a => by
    rw [mem_touched, List.mem_dedup]

theorem take_erase_take (n : ℕ) (recent : List α) (a : α) :
    ((recent.take (n + 1)).erase a).take n = (recent.erase a).take n := by
  induction recent generalizing n with
  | nil => rfl
  | cons b recent ih =>
    by_cases hb : b = a
    · subst hb
      simp [List.take_take]
    · cases n with
      | zero => rfl
      | succ n =>
        rw [List.take_succ_cons, List.erase_cons_tail (by simpa using hb),
          List.erase_cons_tail (by simpa using hb), List.take_succ_cons, List.take_succ_cons, ih]

/-- What a store has forgotten does not matter for what it keeps later. -/
theorem use_take (capacity : ℕ) (recent : List α) (a : α) :
    use capacity (recent.take capacity) a = (touch recent a).take capacity := by
  cases capacity with
  | zero => rfl
  | succ n => rw [use, touch, touch, List.take_succ_cons, List.take_succ_cons, take_erase_take]

theorem mem_use_self {capacity : ℕ} (hpos : 0 < capacity) (kept : List α) (a : α) :
    a ∈ use capacity kept a := by
  obtain ⟨n, rfl⟩ := Nat.exists_eq_succ_of_ne_zero (Nat.ne_of_gt hpos)
  exact List.mem_cons_self

/-- What a store keeps, the latest used first. -/
structure Store (α : Type*) (capacity : ℕ) where
  kept : List α
  nodup : kept.Nodup
  length_le : kept.length ≤ capacity

namespace Store
variable {capacity : ℕ}

def empty : Store α capacity := ⟨[], List.nodup_nil, Nat.zero_le _⟩

def use (store : Store α capacity) (a : α) : Store α capacity where
  kept := RecentUse.use capacity store.kept a
  nodup := (nodup_touch store.nodup a).sublist (List.take_sublist _ _)
  length_le := List.length_take_le _ _

theorem kept_use (store : Store α capacity) (a : α) :
    (store.use a).kept = RecentUse.use capacity store.kept a := rfl

end Store

/-- A value that is kept already makes no other one go. -/
theorem use_of_mem {capacity : ℕ} {kept : List α} {a : α} (h : a ∈ kept)
    (hlength : kept.length ≤ capacity) : use capacity kept a = touch kept a := by
  refine List.take_of_length_le ?_
  rwa [touch, List.length_cons, List.length_erase_add_one h]

theorem use_of_lt {capacity : ℕ} {kept : List α} {a : α} (h : a ∉ kept)
    (hlength : kept.length < capacity) : use capacity kept a = a :: kept := by
  rw [use, touch, List.erase_of_not_mem h]
  exact List.take_of_length_le hlength

/-- A new value makes the last one go when there is no room. -/
theorem use_of_full {capacity : ℕ} {kept : List α} {a : α} (h : a ∉ kept)
    (hlength : kept.length = capacity) (hpos : 0 < capacity) :
    use capacity kept a = a :: kept.dropLast := by
  obtain ⟨n, rfl⟩ := Nat.exists_eq_succ_of_ne_zero (Nat.ne_of_gt hpos)
  rw [use, touch, List.erase_of_not_mem h, List.take_succ_cons, List.dropLast_eq_take, hlength]
  rfl

theorem touch_map {β : Type*} [DecidableEq β] {f : α → β} (hf : Function.Injective f)
    (recent : List α) (a : α) : touch (recent.map f) (f a) = (touch recent a).map f := by
  rw [touch, touch, List.map_cons, List.map_erase hf]

theorem use_map {β : Type*} [DecidableEq β] {f : α → β} (hf : Function.Injective f)
    (capacity : ℕ) (kept : List α) (a : α) :
    use capacity (kept.map f) (f a) = (use capacity kept a).map f := by
  rw [use, use, touch_map hf, List.map_take]

/-- The use after which a queue of the values, the oldest first, has its last one behind. -/
theorem reverse_touch {recent : List α} (h : recent.Nodup) (a : α) :
    recent.reverse.erase a ++ [a] = (touch recent a).reverse := by
  rw [touch, List.reverse_cons, h.erase_eq_filter, (List.nodup_reverse.mpr h).erase_eq_filter,
    List.filter_reverse]

/-- Uses of other values put these before a value, each of them once. -/
theorem exists_foldl_touch {a : α} (later front back : List α) (h : a ∉ later) :
    ∃ rest, later.foldl touch (front ++ a :: back) = later.foldl touch front ++ a :: rest := by
  induction later generalizing front back with
  | nil => exact ⟨back, rfl⟩
  | cons b later ih =>
    rw [List.mem_cons, not_or] at h
    by_cases hb : b ∈ front
    · have htouch : touch (front ++ a :: back) b = touch front b ++ a :: back := by
        rw [touch, touch, List.erase_append_left _ hb, List.cons_append]
      rw [List.foldl_cons, List.foldl_cons, htouch]
      exact ih (touch front b) back h.2
    · have htouch : touch (front ++ a :: back) b = touch front b ++ a :: back.erase b := by
        rw [touch, touch, List.erase_append_right _ hb, List.erase_of_not_mem hb,
          List.erase_cons_tail (by simpa using h.1), List.cons_append]
      rw [List.foldl_cons, List.foldl_cons, htouch]
      exact ih (touch front b) (back.erase b) h.2

theorem touched_split (earlier later : List α) {a : α} (h : a ∉ later) :
    ∃ rest, touched (earlier ++ a :: later) = touched later ++ a :: rest := by
  rw [touched, List.foldl_append, List.foldl_cons]
  exact exists_foldl_touch later [] _ h

theorem mem_take_split {front back : List α} {a : α} (hfront : a ∉ front) (hback : a ∉ back)
    (n : ℕ) : a ∈ (front ++ a :: back).take n ↔ front.length < n := by
  rw [List.take_append, List.mem_append]
  constructor
  · rintro (h | h)
    · exact absurd (List.mem_of_mem_take h) hfront
    · by_contra hle
      rw [Nat.sub_eq_zero_of_le (Nat.le_of_not_lt hle), List.take_zero] at h
      exact List.not_mem_nil h
  · intro h
    obtain ⟨k, hk⟩ := Nat.exists_eq_succ_of_ne_zero (Nat.sub_ne_zero_of_lt h)
    rw [hk, List.take_succ_cons]
    exact .inr List.mem_cons_self

/-- A store keeps a value when fewer others than it has room for were used after it. -/
theorem mem_kept_iff {capacity : ℕ} {uses : List α} {a : α} :
    a ∈ (touched uses).take capacity ↔
      ∃ earlier later, uses = earlier ++ a :: later ∧ a ∉ later ∧ later.dedup.length < capacity := by
  have hsplit : ∀ earlier later : List α, a ∉ later →
      (a ∈ (touched (earlier ++ a :: later)).take capacity ↔ later.dedup.length < capacity) := by
    intro earlier later hlater
    obtain ⟨rest, hrest⟩ := touched_split earlier later hlater
    have hnodup := nodup_touched (earlier ++ a :: later)
    rw [hrest] at hnodup ⊢
    rw [mem_take_split (mem_touched.not.mpr hlater)
      (List.nodup_cons.mp hnodup.of_append_right).1, (touched_perm_dedup later).length_eq]
  constructor
  · intro h
    have hmem : a ∈ uses := mem_touched.mp (List.mem_of_mem_take h)
    obtain ⟨later, earlier, hreverse, hlater⟩ :=
      List.eq_append_cons_of_mem (List.mem_reverse.mpr hmem)
    have huses : uses = earlier.reverse ++ a :: later.reverse := by
      simpa using congrArg List.reverse hreverse
    have hnew : a ∉ later.reverse := List.mem_reverse.not.mpr hlater
    rw [huses] at h
    exact ⟨_, _, huses, hnew, (hsplit _ _ hnew).mp h⟩
  · rintro ⟨earlier, later, rfl, hlater, hroom⟩
    exact (hsplit earlier later hlater).mpr hroom

end RecentUse
