import Mathlib.Data.List.Basic

/-! What changing one place of a list does to its places and its members. -/
namespace Indexed
variable {α : Type*} {items : List α} {i : ℕ} {old : α}

/-- A place of an updated list is the updated one or an old one. -/
theorem getElem?_set_some {next item : α} {j : ℕ} (h : (items.set i next)[j]? = some item) :
    (j = i ∧ item = next ∧ i < items.length) ∨ (j ≠ i ∧ items[j]? = some item) := by
  rw [List.getElem?_set] at h
  split_ifs at h with hij hlt
  · exact .inl ⟨hij.symm, (Option.some_inj.mp h).symm, hlt⟩
  · exact .inr ⟨Ne.symm hij, h⟩

theorem getElem?_set_self_of_some (hi : items[i]? = some old) (next : α) :
    (items.set i next)[i]? = some next :=
  List.getElem?_set_self (List.getElem?_eq_some_iff.mp hi).1

/-- A place of an extended list is an old one or the new one. -/
theorem getElem?_concat_some {next item : α} {j : ℕ} (h : (items ++ [next])[j]? = some item) :
    items[j]? = some item ∨ (j = items.length ∧ item = next) := by
  rcases Nat.lt_trichotomy j items.length with hlt | rfl | hgt
  · exact .inl ((List.getElem?_append_left hlt).symm.trans h)
  · rw [List.getElem?_append_right (Nat.le_refl _), Nat.sub_self] at h
    exact .inr ⟨rfl, (Option.some_inj.mp h).symm⟩
  · rw [List.getElem?_eq_none (by rw [List.length_append]; exact hgt)] at h
    cases h

theorem getElem?_concat_of_some {next item : α} {j : ℕ} (h : items[j]? = some item) :
    (items ++ [next])[j]? = some item :=
  (List.getElem?_append_left (List.getElem?_eq_some_iff.mp h).1).trans h

theorem getElem?_modify_some {f : α → α} {item : α} {j : ℕ}
    (h : (items.modify i f)[j]? = some item) :
    ∃ earlier, items[j]? = some earlier ∧
      ((j = i ∧ item = f earlier) ∨ (j ≠ i ∧ item = earlier)) := by
  rw [List.getElem?_modify] at h
  obtain ⟨earlier, hearlier, rfl⟩ := Option.map_eq_some_iff.mp h
  refine ⟨earlier, hearlier, ?_⟩
  by_cases hij : i = j
  · exact .inl ⟨hij.symm, by rw [if_pos hij]⟩
  · exact .inr ⟨Ne.symm hij, by rw [if_neg hij]⟩

theorem mem_set_of_mem (hi : items[i]? = some old) (next : α) {item : α} (hmem : item ∈ items) :
    item = old ∨ item ∈ items.set i next := by
  obtain ⟨j, hj⟩ := List.mem_iff_getElem?.mp hmem
  by_cases hij : i = j
  · subst hij
    exact .inl (Option.some_inj.mp (hj.symm.trans hi))
  · exact .inr (List.mem_iff_getElem?.mpr ⟨j, (List.getElem?_set_ne hij).trans hj⟩)

theorem mem_eraseIdx_of_mem (hi : items[i]? = some old) {item : α} (hmem : item ∈ items) :
    item = old ∨ item ∈ items.eraseIdx i := by
  obtain ⟨j, hj⟩ := List.mem_iff_getElem?.mp hmem
  by_cases hij : j = i
  · subst hij
    exact .inl (Option.some_inj.mp (hj.symm.trans hi))
  · exact .inr (List.mem_eraseIdx_iff_getElem?.mpr ⟨j, hij, hj⟩)

/-- What an update keeps of one place, it keeps of the list. -/
theorem map_set_of_some {β : Type*} {f : α → β} (hi : items[i]? = some old) {next : α}
    (h : f next = f old) : (items.set i next).map f = items.map f := by
  refine List.ext_getElem? fun j => ?_
  rw [List.getElem?_map, List.getElem?_map]
  by_cases hij : i = j
  · subst hij
    rw [getElem?_set_self_of_some hi, hi, Option.map_some, Option.map_some, h]
  · rw [List.getElem?_set_ne hij]

/-- What holds at one place only picks out that place. -/
theorem filter_eq_singleton {p : α → Bool} (hi : items[i]? = some old)
    (h : ∀ (j : ℕ) item, items[j]? = some item → (p item ↔ j = i)) :
    items.filter p = [old] := by
  induction items generalizing i with
  | nil => cases hi
  | cons item items ih =>
    cases i with
    | zero =>
      obtain rfl := Option.some_inj.mp hi
      have hrest : ∀ item ∈ items, ¬ p item := by
        intro item hmem hp
        obtain ⟨j, hj⟩ := List.mem_iff_getElem?.mp hmem
        exact absurd ((h (j + 1) item hj).mp hp) (Nat.succ_ne_zero j)
      rw [List.filter_cons_of_pos ((h 0 _ rfl).mpr rfl), List.filter_eq_nil_iff.mpr hrest]
    | succ i =>
      have hfirst : ¬ p item := fun hp => absurd ((h 0 item rfl).mp hp) (Nat.succ_ne_zero i).symm
      rw [List.filter_cons_of_neg hfirst]
      exact ih hi fun j item hj => (h (j + 1) item hj).trans Nat.succ_inj

end Indexed
