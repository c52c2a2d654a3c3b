import Mathlib.Data.List.Nodup
import Mathlib.Logic.Function.Basic
import Mathlib.Tactic.Tauto

/-! Finite maps that remember insertion order: writing a present key keeps its
place, writing a new key appends it. -/

/-- Entries in insertion order, one for each key. -/
structure OrderedMap (κ ν : Type*) where
  entries : List (κ × ν)
  nodup : (entries.map Prod.fst).Nodup
  deriving DecidableEq

namespace OrderedMap
variable {κ ν : Type*} [DecidableEq κ]

def setEntry (k : κ) (v : ν) : List (κ × ν) → List (κ × ν)
  | [] => [(k, v)]
  | e :: es => if e.1 = k then (k, v) :: es else e :: setEntry k v es

theorem setEntry_keys (k : κ) (v : ν) (es : List (κ × ν)) :
    (setEntry k v es).map Prod.fst =
      if k ∈ es.map Prod.fst then es.map Prod.fst else es.map Prod.fst ++ [k] := by
  induction es with
  | nil => rfl
  | cons e es ih =>
    by_cases he : e.1 = k
    · simp [setEntry, he]
    · have hk : k ≠ e.1 := Ne.symm he
      simp only [setEntry, if_neg he, List.map_cons, ih, List.mem_cons, hk, false_or]
      split_ifs <;> rfl

def empty : OrderedMap κ ν := ⟨[], List.nodup_nil⟩

def set (m : OrderedMap κ ν) (k : κ) (v : ν) : OrderedMap κ ν where
  entries := setEntry k v m.entries
  nodup := by
    rw [setEntry_keys]
    split_ifs with h
    · exact m.nodup
    · exact m.nodup.append (List.nodup_singleton k) (by simpa using h)

def get? (m : OrderedMap κ ν) (k : κ) : Option ν :=
  (m.entries.find? (fun e => e.1 = k)).map Prod.snd

def keys (m : OrderedMap κ ν) : List κ := m.entries.map Prod.fst

def values (m : OrderedMap κ ν) : List ν := m.entries.map Prod.snd

theorem mem_setEntry {k : κ} {v : ν} {es : List (κ × ν)} {e : κ × ν} (h : e ∈ setEntry k v es) :
    e = (k, v) ∨ e ∈ es := by
  induction es with
  | nil => exact .inl (List.mem_singleton.mp h)
  | cons e' es ih =>
    rw [setEntry] at h
    split_ifs at h
    · exact (List.mem_cons.mp h).imp_right (List.mem_cons_of_mem _)
    · rcases List.mem_cons.mp h with rfl | h
      · exact .inr List.mem_cons_self
      · exact (ih h).imp_right (List.mem_cons_of_mem _)

theorem mem_values_set {m : OrderedMap κ ν} {k : κ} {v w : ν} (h : w ∈ (m.set k v).values) :
    w = v ∨ w ∈ m.values := by
  obtain ⟨e, he, rfl⟩ := List.mem_map.mp h
  rcases mem_setEntry he with rfl | he
  · exact .inl rfl
  · exact .inr (List.mem_map_of_mem he)

/-- Write a list of entries from left to right. -/
def setAll (m : OrderedMap κ ν) (es : List (κ × ν)) : OrderedMap κ ν :=
  es.foldl (fun m e => m.set e.1 e.2) m

def ofList (es : List (κ × ν)) : OrderedMap κ ν := empty.setAll es

@[simp] theorem get?_empty (k : κ) : (empty : OrderedMap κ ν).get? k = none := rfl

theorem get?_set (m : OrderedMap κ ν) (k : κ) (v : ν) (q : κ) :
    (m.set k v).get? q = if q = k then some v else m.get? q := by
  obtain ⟨es, hn⟩ := m
  simp only [get?, set]
  clear hn
  induction es with
  | nil =>
    by_cases hq : q = k
    · simp [setEntry, hq]
    · simp [setEntry, hq, Ne.symm hq]
  | cons e es ih =>
    by_cases he : e.1 = k <;> by_cases hq : q = k
    · simp [setEntry, he, hq]
    · have hk : ¬ k = q := Ne.symm hq
      simp [setEntry, he, hq, hk]
    · subst hq
      simpa [setEntry, he] using ih
    · by_cases heq : e.1 = q
      · simp [setEntry, hq, heq]
      · simpa [setEntry, he, heq, hq] using ih

@[simp] theorem get?_set_self (m : OrderedMap κ ν) (k : κ) (v : ν) :
    (m.set k v).get? k = some v := by simp [get?_set]

def erase (m : OrderedMap κ ν) (k : κ) : OrderedMap κ ν where
  entries := m.entries.filter fun e => e.1 ≠ k
  nodup := m.nodup.sublist (List.filter_sublist.map Prod.fst)

theorem get?_erase (m : OrderedMap κ ν) (k q : κ) :
    (m.erase k).get? q = if q = k then none else m.get? q := by
  simp only [get?, erase, List.find?_filter]
  split_ifs with hq
  · subst hq
    simp
  · congr 2
    funext e
    by_cases he : e.1 = q
    · simp [he, hq]
    · simp [he]

@[simp] theorem setAll_nil (m : OrderedMap κ ν) : m.setAll [] = m := rfl

@[simp] theorem setAll_cons (m : OrderedMap κ ν) (e : κ × ν) (es : List (κ × ν)) :
    m.setAll (e :: es) = (m.set e.1 e.2).setAll es := rfl

theorem setAll_append (m : OrderedMap κ ν) (es fs : List (κ × ν)) :
    m.setAll (es ++ fs) = (m.setAll es).setAll fs := by
  simp [setAll]

/-- The value the last entry for a key writes. -/
def lastFor (k : κ) (es : List (κ × ν)) : Option ν :=
  (es.reverse.find? (fun e => e.1 = k)).map Prod.snd

/-- The last entry for a key wins; a key without entry keeps its value. -/
theorem get?_setAll (m : OrderedMap κ ν) (es : List (κ × ν)) (q : κ) :
    (m.setAll es).get? q = (lastFor q es).or (m.get? q) := by
  induction es generalizing m with
  | nil => simp [lastFor]
  | cons e es ih =>
    rw [setAll_cons, ih, get?_set]
    simp only [lastFor, List.reverse_cons, List.find?_append]
    cases h : es.reverse.find? (fun e => decide (e.1 = q)) with
    | some x => simp
    | none =>
      by_cases hq : e.1 = q
      · simp [hq]
      · simp [hq, Ne.symm hq]

theorem get?_ofList (es : List (κ × ν)) (q : κ) : (ofList es).get? q = lastFor q es := by
  rw [ofList, get?_setAll, get?_empty, Option.or_none]

theorem mem_keys_iff {m : OrderedMap κ ν} {k : κ} : k ∈ m.keys ↔ (m.get? k).isSome := by
  simp [keys, get?, List.find?_isSome]

theorem get?_mem {m : OrderedMap κ ν} {k : κ} {v : ν} (h : m.get? k = some v) :
    (k, v) ∈ m.entries := by
  obtain ⟨e, he, rfl⟩ := Option.map_eq_some_iff.mp h
  have hk : e.1 = k := by simpa using List.find?_some he
  exact hk ▸ List.mem_of_find?_eq_some he

theorem lastFor_mem {k : κ} {v : ν} {es : List (κ × ν)} (h : lastFor k es = some v) :
    (k, v) ∈ es := by
  obtain ⟨e, he, rfl⟩ := Option.map_eq_some_iff.mp h
  have hk : e.1 = k := by simpa using List.find?_some he
  exact hk ▸ List.mem_reverse.mp (List.mem_of_find?_eq_some he)

theorem lastFor_eq_none {k : κ} {es : List (κ × ν)} :
    lastFor k es = none ↔ ∀ e ∈ es, e.1 ≠ k := by
  simp [lastFor]

/-- An entry with no other for its key behind it. -/
theorem lastFor_append_cons {k : κ} {v : ν} (es : List (κ × ν)) {fs : List (κ × ν)}
    (h : ∀ e ∈ fs, e.1 ≠ k) : lastFor k (es ++ (k, v) :: fs) = some v := by
  have hfs : fs.reverse.find? (fun e => decide (e.1 = k)) = none := by
    simpa using h
  simp [lastFor, List.find?_append, hfs]

/-- The place of the last entry for a key. -/
theorem lastFor_getElem? {k : κ} {v : ν} {es : List (κ × ν)} (h : lastFor k es = some v) :
    ∃ i : ℕ, es[i]? = some (k, v) ∧
      ∀ (j : ℕ) (e : κ × ν), i < j → es[j]? = some e → e.1 ≠ k := by
  obtain ⟨e, he, rfl⟩ := Option.map_eq_some_iff.mp h
  obtain ⟨hkey, later, earlier, hsplit, hlater⟩ := List.find?_eq_some_iff_append.mp he
  obtain rfl : e.1 = k := by simpa using hkey
  have hes : es = earlier.reverse ++ e :: later.reverse := by
    simpa using congrArg List.reverse hsplit
  subst hes
  refine ⟨earlier.reverse.length, by simp, fun j e' hlt hj => ?_⟩
  rw [List.getElem?_append_right (Nat.le_of_lt hlt), List.getElem?_cons,
    if_neg (Nat.sub_ne_zero_of_lt hlt)] at hj
  simpa using hlater e' (List.mem_reverse.mp (List.mem_of_getElem? hj))

theorem lastFor_map {κ' ν' : Type*} [DecidableEq κ'] {f : κ → κ'} (hf : Function.Injective f)
    (g : ν → ν') (k : κ) (es : List (κ × ν)) :
    lastFor (f k) (es.map (Prod.map f g)) = (lastFor k es).map g := by
  have hkey : (fun e : κ' × ν' => decide (e.1 = f k)) ∘ Prod.map f g = fun e => decide (e.1 = k) := by
    funext e
    simp [hf.eq_iff]
  rw [lastFor, ← List.map_reverse, List.find?_map, hkey, lastFor]
  cases es.reverse.find? fun e => decide (e.1 = k) <;> rfl

theorem setEntry_of_not_mem {k : κ} {v : ν} {es : List (κ × ν)} (h : k ∉ es.map Prod.fst) :
    setEntry k v es = es ++ [(k, v)] := by
  induction es with
  | nil => rfl
  | cons e es ih =>
    rw [List.map_cons, List.mem_cons, not_or] at h
    rw [setEntry, if_neg (Ne.symm h.1), ih h.2, List.cons_append]

/-- Entries with different keys are kept as they are. -/
theorem ofList_entries {es : List (κ × ν)} (h : (es.map Prod.fst).Nodup) :
    (ofList es).entries = es := by
  have hsetAll : ∀ (es : List (κ × ν)) (m : OrderedMap κ ν),
      (m.entries.map Prod.fst ++ es.map Prod.fst).Nodup → (m.setAll es).entries = m.entries ++ es := by
    intro es
    induction es with
    | nil => exact fun m _ => (List.append_nil _).symm
    | cons e es ih =>
      intro m hnodup
      have hnew : e.1 ∉ m.entries.map Prod.fst := fun hmem =>
        (List.disjoint_of_nodup_append hnodup) hmem List.mem_cons_self
      have hset : (m.set e.1 e.2).entries = m.entries ++ [e] := setEntry_of_not_mem hnew
      rw [setAll_cons, ih, hset, List.append_assoc, List.singleton_append]
      rw [hset, List.map_append, List.append_assoc]
      exact hnodup
  exact hsetAll es empty h

omit [DecidableEq κ] in
theorem entries_injective : Function.Injective (entries : OrderedMap κ ν → List (κ × ν)) := by
  rintro ⟨es, _⟩ ⟨fs, _⟩ rfl
  rfl

theorem setEntry_setEntry (k : κ) (v v' : ν) (es : List (κ × ν)) :
    setEntry k v' (setEntry k v es) = setEntry k v' es := by
  induction es with
  | nil => exact if_pos rfl
  | cons e es ih =>
    by_cases he : e.1 = k
    · simp [setEntry, he]
    · simp [setEntry, he, ih]

theorem set_set (m : OrderedMap κ ν) (k : κ) (v v' : ν) : (m.set k v).set k v' = m.set k v' :=
  entries_injective (setEntry_setEntry k v v' m.entries)

theorem setEntry_of_mem {k : κ} {v : ν} {es : List (κ × ν)} (hn : (es.map Prod.fst).Nodup)
    (h : (k, v) ∈ es) : setEntry k v es = es := by
  induction es with
  | nil => cases h
  | cons e es ih =>
    obtain ⟨hnotin, hn⟩ := List.nodup_cons.mp hn
    rcases List.mem_cons.mp h with rfl | hmem
    · exact if_pos rfl
    · have he : e.1 ≠ k := fun he => hnotin (he ▸ List.mem_map_of_mem hmem)
      rw [setEntry, if_neg he, ih hn hmem]

/-- Writing what is there already changes nothing. -/
theorem set_of_get? {m : OrderedMap κ ν} {k : κ} {v : ν} (h : m.get? k = some v) : m.set k v = m :=
  entries_injective (setEntry_of_mem m.nodup (get?_mem h))

theorem mem_ofList {es : List (κ × ν)} {e : κ × ν} (h : e ∈ (ofList es).entries) : e ∈ es := by
  have hsetAll : ∀ (es : List (κ × ν)) (m : OrderedMap κ ν), e ∈ (m.setAll es).entries →
      e ∈ es ∨ e ∈ m.entries := by
    intro es
    induction es with
    | nil => exact fun m h => .inr h
    | cons e' es ih =>
      intro m h
      rcases ih _ h with h | h
      · exact .inl (List.mem_cons_of_mem _ h)
      · rcases mem_setEntry h with rfl | h
        · exact .inl List.mem_cons_self
        · exact .inr h
  exact (hsetAll es empty h).resolve_right List.not_mem_nil

theorem mem_keys_set {m : OrderedMap κ ν} {k : κ} {v : ν} {q : κ} :
    q ∈ (m.set k v).keys ↔ q = k ∨ q ∈ m.keys := by
  rw [mem_keys_iff, mem_keys_iff, get?_set]
  by_cases hq : q = k <;> simp [hq]

theorem get?_of_mem {m : OrderedMap κ ν} {k : κ} {v : ν} (h : (k, v) ∈ m.entries) :
    m.get? k = some v := by
  obtain ⟨w, hw⟩ := Option.isSome_iff_exists.mp (mem_keys_iff.mp (List.mem_map_of_mem h))
  have hsame := List.inj_on_of_nodup_map m.nodup h (get?_mem hw) rfl
  rw [hw, (Prod.mk.inj hsame).2]

theorem mem_values_iff {m : OrderedMap κ ν} {v : ν} :
    v ∈ m.values ↔ ∃ k, m.get? k = some v := by
  constructor
  · intro h
    obtain ⟨e, he, rfl⟩ := List.mem_map.mp h
    exact ⟨e.1, get?_of_mem he⟩
  · rintro ⟨k, hk⟩
    exact List.mem_map_of_mem (f := Prod.snd) (get?_mem hk)

/-- Remove the entries of some keys, one after the other. -/
def eraseAll (m : OrderedMap κ ν) (ks : List κ) : OrderedMap κ ν := ks.foldl erase m

theorem get?_eraseAll_of_not_mem (m : OrderedMap κ ν) {ks : List κ} {q : κ} (h : q ∉ ks) :
    (m.eraseAll ks).get? q = m.get? q := by
  induction ks generalizing m with
  | nil => rfl
  | cons k ks ih =>
    rw [List.mem_cons, not_or] at h
    exact (ih (m.erase k) h.2).trans ((get?_erase m k q).trans (if_neg h.1))

theorem get?_eraseAll_of_mem (m : OrderedMap κ ν) {ks : List κ} {q : κ} (h : q ∈ ks) :
    (m.eraseAll ks).get? q = none := by
  induction ks generalizing m with
  | nil => cases h
  | cons k ks ih =>
    by_cases hmem : q ∈ ks
    · exact ih (m.erase k) hmem
    · have hk : q = k := (List.mem_cons.mp h).resolve_right hmem
      exact (get?_eraseAll_of_not_mem (m.erase k) hmem).trans
        ((get?_erase m k q).trans (if_pos hk))

theorem get?_eraseAll (m : OrderedMap κ ν) (ks : List κ) (q : κ) [Decidable (q ∈ ks)] :
    (m.eraseAll ks).get? q = if q ∈ ks then none else m.get? q := by
  split_ifs with h
  · exact get?_eraseAll_of_mem m h
  · exact get?_eraseAll_of_not_mem m h

def mapValues {ν' : Type*} (f : ν → ν') (m : OrderedMap κ ν) : OrderedMap κ ν' where
  entries := m.entries.map (Prod.map id f)
  nodup := by
    rw [List.map_map]
    exact m.nodup

theorem get?_mapValues {ν' : Type*} (f : ν → ν') (m : OrderedMap κ ν) (q : κ) :
    (m.mapValues f).get? q = (m.get? q).map f := by
  have hkey : (fun e : κ × ν' => decide (e.1 = q)) ∘ Prod.map id f = fun e => decide (e.1 = q) := rfl
  rw [get?, mapValues, List.find?_map, hkey, get?]
  cases m.entries.find? fun e => decide (e.1 = q) <;> rfl

end OrderedMap
