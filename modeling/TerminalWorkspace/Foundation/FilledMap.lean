import TerminalWorkspace.Foundation.OrderedMap

/-! A map that is filled from a list. Where a key is entered once, the first element with the key
decides what stands under it; where it is overwritten, the last one does. -/
namespace OrderedMap
variable {α κ ν : Type*} [DecidableEq κ]

theorem entries_set_of_new {m : OrderedMap κ ν} {k : κ} (h : m.get? k = none) (v : ν) :
    (m.set k v).entries = m.entries ++ [(k, v)] := by
  refine setEntry_of_not_mem fun hmem => ?_
  have hsome := mem_keys_iff.mp hmem
  rw [h] at hsome
  cases hsome

section First
variable (key : α → Option κ) (make : ℕ → α → ν)

/-- A key that is new is entered, with what is made of the element and of the number of keys
before it. -/
def enter (m : OrderedMap κ ν) (a : α) : OrderedMap κ ν :=
  match key a with
  | none => m
  | some k => if (m.get? k).isSome then m else m.set k (make m.entries.length a)

variable {key make} {m : OrderedMap κ ν}

/-- An element without a key, or whose key is known, changes nothing. -/
theorem enter_cases (key : α → Option κ) (make : ℕ → α → ν) (m : OrderedMap κ ν) (a : α) :
    (enter key make m a = m ∧ ∀ k, key a = some k → (m.get? k).isSome) ∨
      ∃ k, key a = some k ∧ m.get? k = none ∧
        enter key make m a = m.set k (make m.entries.length a) := by
  unfold enter
  cases hkey : key a with
  | none => exact .inl ⟨rfl, nofun⟩
  | some k =>
    cases hget : m.get? k with
    | none => exact .inr ⟨k, rfl, hget, by simp [hget]⟩
    | some v => exact .inl ⟨by simp [hget], fun _ hk => by rw [← Option.some.inj hk, hget]; rfl⟩

theorem get?_enter_of_some {k : κ} {v : ν} (h : m.get? k = some v) (a : α) :
    (enter key make m a).get? k = some v := by
  rcases enter_cases key make m a with ⟨hsame, -⟩ | ⟨k', -, hnew, hset⟩
  · rw [hsame, h]
  · have hne : k ≠ k' := by
      rintro rfl
      rw [h] at hnew
      cases hnew
    rw [hset, get?_set, if_neg hne, h]

theorem get?_enter_isSome {a : α} {k : κ} (h : key a = some k) :
    ((enter key make m a).get? k).isSome := by
  rcases enter_cases key make m a with ⟨hsame, hknown⟩ | ⟨k', hk', -, hset⟩
  · rw [hsame]
    exact hknown k h
  · obtain rfl : k = k' := Option.some.inj (h.symm.trans hk')
    rw [hset, get?_set_self]
    rfl

theorem get?_foldl_enter_of_some {k : κ} {v : ν} (h : m.get? k = some v) (l : List α) :
    (l.foldl (enter key make) m).get? k = some v := by
  induction l generalizing m with
  | nil => exact h
  | cons a l ih => exact ih (get?_enter_of_some h a)

theorem get?_foldl_enter_isSome {l : List α} {a : α} (ha : a ∈ l) {k : κ} (h : key a = some k) :
    ((l.foldl (enter key make) m).get? k).isSome := by
  induction l generalizing m with
  | nil => cases ha
  | cons b l ih =>
    rcases List.mem_cons.mp ha with rfl | hmem
    · have hsome : ((enter key make m a).get? k).isSome := get?_enter_isSome h
      obtain ⟨v, hv⟩ := Option.isSome_iff_exists.mp hsome
      exact Option.isSome_iff_exists.mpr ⟨v, get?_foldl_enter_of_some hv l⟩
    · exact ih hmem

/-- What stands at a place was there before, or is made of the first element with its key. -/
theorem getElem?_foldl_enter {l : List α} {n : ℕ} {e : κ × ν}
    (h : (l.foldl (enter key make) m).entries[n]? = some e) :
    m.entries[n]? = some e ∨ m.get? e.1 = none ∧
      ∃ a, l.find? (fun a => key a = some e.1) = some a ∧ e.2 = make n a := by
  induction l generalizing m with
  | nil => exact .inl h
  | cons b l ih =>
    rw [List.foldl_cons] at h
    rcases enter_cases key make m b with ⟨hsame, hknown⟩ | ⟨k, hk, hnew, hset⟩
    · rw [hsame] at h
      refine (ih h).imp_right fun ⟨hnone, a, hfind, hmade⟩ => ⟨hnone, a, ?_, hmade⟩
      have hne : key b ≠ some e.1 := by
        intro hb
        have hsome := hknown _ hb
        rw [hnone] at hsome
        cases hsome
      rw [List.find?_cons_of_neg (by simpa using hne), hfind]
    · rw [hset] at h
      rcases ih h with hplace | ⟨hnone, a, hfind, hmade⟩
      · rw [entries_set_of_new hnew, List.getElem?_append] at hplace
        split_ifs at hplace with hlt
        · exact .inl hplace
        · have hn : n = m.entries.length := by
            have := List.getElem?_eq_some_iff.mp hplace |>.1
            simp only [List.length_singleton] at this
            omega
          subst hn
          rw [Nat.sub_self, List.getElem?_cons_zero] at hplace
          obtain rfl := Option.some.inj hplace
          exact .inr ⟨hnew, b, List.find?_cons_of_pos (by simpa using hk), rfl⟩
      · rw [get?_set] at hnone
        split_ifs at hnone with hek
        refine .inr ⟨hnone, a, ?_, hmade⟩
        have hne : key b ≠ some e.1 := fun hb => hek (Option.some.inj (hb.symm.trans hk))
        rw [List.find?_cons_of_neg (by simpa using hne), hfind]

/-- A map that is filled with the elements themselves holds the first one with each key. -/
theorem get?_foldl_enter (key : α → Option κ) (l : List α) (k : κ) :
    (l.foldl (enter key fun _ a => a) empty).get? k = l.find? fun a => key a = some k := by
  cases hget : (l.foldl (enter key fun _ a => a) empty).get? k with
  | some v =>
    obtain ⟨n, hn⟩ := List.getElem?_of_mem (get?_mem hget)
    rcases getElem?_foldl_enter hn with hempty | ⟨-, a, hfind, hmade⟩
    · cases hempty
    · obtain rfl : v = a := hmade
      exact hfind.symm
  | none =>
    symm
    rw [List.find?_eq_none]
    intro a ha hk
    have hsome : ((l.foldl (enter key fun _ a => a) empty).get? k).isSome :=
      get?_foldl_enter_isSome ha (of_decide_eq_true hk)
    rw [hget] at hsome
    cases hsome

end First

section Last
variable (key : α → κ) (value : α → Option ν)

theorem find?_filterMap_entries (l : List α) (q : κ) :
    ((l.filterMap fun a => (value a).map (key a, ·)).find? fun e => e.1 = q).map Prod.snd =
      (l.find? fun a => key a = q ∧ (value a).isSome).bind value := by
  induction l with
  | nil => rfl
  | cons a l ih =>
    cases hvalue : value a with
    | none =>
      rw [List.filterMap_cons_none (by simp [hvalue]), ih,
        List.find?_cons_of_neg (by simp [hvalue])]
    | some v =>
      rw [List.filterMap_cons_some (by rw [hvalue]; rfl)]
      by_cases hq : key a = q
      · rw [List.find?_cons_of_pos (by simpa using hq),
          List.find?_cons_of_pos (by simp [hq, hvalue]), Option.bind_some, hvalue]
        rfl
      · rw [List.find?_cons_of_neg (by simpa using hq), ih,
          List.find?_cons_of_neg (by simp [hq])]

/-- The last element that has a value for its key decides. -/
theorem lastFor_filterMap (l : List α) (q : κ) :
    lastFor q (l.filterMap fun a => (value a).map (key a, ·)) =
      (l.reverse.find? fun a => key a = q ∧ (value a).isSome).bind value := by
  rw [lastFor, ← List.filterMap_reverse, find?_filterMap_entries]

end Last

end OrderedMap
