import Mathlib.Algebra.Order.Group.Unbundled.Int
import Mathlib.Data.List.Infix
import Mathlib.Data.Nat.Find
import Mathlib.Order.MinMax

/-! The first place of a sequence, among those of a set, that holds a value. -/
namespace FirstPlace
variable {α : Type*} (value : ℕ → Option α)

def IsFirst (S : ℕ → Prop) : Option (ℕ × α) → Prop
  | none => ∀ i, S i → value i = none
  | some (i, a) => S i ∧ value i = some a ∧ ∀ j < i, S j → value j = none

open Classical in
/-- The first place of `S` with a value, and that value. -/
noncomputable def first (S : ℕ → Prop) : Option (ℕ × α) :=
  if h : ∃ i, S i ∧ (value i).isSome then (value (Nat.find h)).map (Nat.find h, ·) else none

/-- Of two places the one that comes first. -/
def sooner : Option (ℕ × α) → Option (ℕ × α) → Option (ℕ × α)
  | current, none => current
  | none, some candidate => some candidate
  | some current, some candidate =>
    if candidate.1 < current.1 then some candidate else some current

section First
variable {value} {S T : ℕ → Prop} {found other : Option (ℕ × α)}

theorem isFirst_first : IsFirst value S (first value S) := by
  classical
  rw [first]
  split_ifs with h
  · obtain ⟨hS, hsome⟩ := Nat.find_spec h
    obtain ⟨a, ha⟩ := Option.isSome_iff_exists.mp hsome
    rw [ha]
    refine ⟨hS, ha, fun j hj hSj => ?_⟩
    have hnot := Nat.find_min h hj
    exact Option.not_isSome_iff_eq_none.mp fun hj => hnot ⟨hSj, hj⟩
  · intro i hi
    exact Option.not_isSome_iff_eq_none.mp fun hsome => h ⟨i, hi, hsome⟩

theorem IsFirst.unique (h : IsFirst value S found) (hother : IsFirst value S other) :
    found = other := by
  rcases found with - | ⟨i, a⟩ <;> rcases other with - | ⟨j, b⟩
  · rfl
  · exact absurd (hother.2.1.symm.trans (h j hother.1)) nofun
  · exact absurd (h.2.1.symm.trans (hother i h.1)) nofun
  · obtain ⟨hi, hvalue, hbefore⟩ := h
    obtain ⟨hj, hvalue', hbefore'⟩ := hother
    have hij : i = j := by
      rcases Nat.lt_trichotomy i j with hlt | heq | hlt
      · exact absurd (hvalue.symm.trans (hbefore' i hlt hi)) nofun
      · exact heq
      · exact absurd (hvalue'.symm.trans (hbefore j hlt hj)) nofun
    subst hij
    obtain rfl := Option.some.inj (hvalue.symm.trans hvalue')
    rfl

theorem first_eq_iff : first value S = found ↔ IsFirst value S found :=
  ⟨fun h => h ▸ isFirst_first, fun h => isFirst_first.unique h⟩

theorem first_eq_none_iff : first value S = none ↔ ∀ i, S i → value i = none := first_eq_iff

theorem first_eq_some_iff {i : ℕ} {a : α} : first value S = some (i, a) ↔
    S i ∧ value i = some a ∧ ∀ j < i, S j → value j = none := first_eq_iff

/-- Only places with a value count. -/
theorem first_congr (h : ∀ i a, value i = some a → (S i ↔ T i)) :
    first value S = first value T := by
  have hnone : ∀ i, (S i → value i = none) ↔ (T i → value i = none) := by
    intro i
    cases hi : value i with
    | none => exact iff_of_true (fun _ => rfl) fun _ => rfl
    | some a => simp [h i a hi]
  rw [first_eq_iff]
  cases hfirst : first value T with
  | none => exact fun i => (hnone i).mpr (first_eq_none_iff.mp hfirst i)
  | some found =>
    obtain ⟨hT, hvalue, hbefore⟩ := first_eq_some_iff.mp hfirst
    exact ⟨(h _ _ hvalue).mpr hT, hvalue, fun j hj => (hnone j).mpr (hbefore j hj)⟩

theorem first_or : first value (fun i => S i ∨ T i) = sooner (first value S) (first value T) := by
  rw [first_eq_iff]
  cases hS : first value S with
  | none =>
    rw [first_eq_none_iff] at hS
    cases hT : first value T with
    | none => exact fun i => Or.rec (hS i) (first_eq_none_iff.mp hT i)
    | some found =>
      obtain ⟨hi, hvalue, hbefore⟩ := first_eq_some_iff.mp hT
      exact ⟨.inr hi, hvalue, fun j hj => Or.rec (hS j) (hbefore j hj)⟩
  | some current =>
    obtain ⟨hi, hvalue, hbefore⟩ := first_eq_some_iff.mp hS
    cases hT : first value T with
    | none =>
      exact ⟨.inl hi, hvalue, fun j hj => Or.rec (hbefore j hj) (first_eq_none_iff.mp hT j)⟩
    | some candidate =>
      obtain ⟨hj, hvalue', hbefore'⟩ := first_eq_some_iff.mp hT
      rw [sooner]
      split_ifs with hlt
      · exact ⟨.inr hj, hvalue',
          fun k hk => Or.rec (hbefore k (Nat.lt_trans hk hlt)) (hbefore' k hk)⟩
      · exact ⟨.inl hi, hvalue,
          fun k hk => Or.rec (hbefore k hk) (hbefore' k (Nat.lt_of_lt_of_le hk (Nat.le_of_not_lt hlt)))⟩

/-- A place behind all others counts where they hold no value. -/
theorem first_insert {n : ℕ} (h : ∀ i, S i → i < n) :
    first value (fun i => S i ∨ i = n) = (first value S).or ((value n).map (n, ·)) := by
  rw [first_eq_iff]
  cases hS : first value S with
  | none =>
    rw [first_eq_none_iff] at hS
    rw [Option.none_or]
    cases hn : value n with
    | none =>
      rintro i (hi | rfl)
      · exact hS i hi
      · exact hn
    | some a =>
      refine ⟨.inr rfl, hn, ?_⟩
      rintro j hj (hSj | rfl)
      · exact hS j hSj
      · exact absurd hj (Nat.lt_irrefl j)
  | some found =>
    obtain ⟨hi, hvalue, hbefore⟩ := first_eq_some_iff.mp hS
    refine ⟨.inl hi, hvalue, ?_⟩
    rintro j hj (hSj | rfl)
    · exact hbefore j hj hSj
    · exact absurd (Nat.lt_trans hj (h _ hi)) (Nat.lt_irrefl j)

theorem first_false : first value (fun _ => False) = none :=
  first_eq_none_iff.mpr fun _ => False.elim

end First
end FirstPlace

/-! The last place at which a mark stands in a text, given by the text in front of it. -/
namespace LastPlace
variable {α : Type*} [DecidableEq α] (mark : List α)

/-- What stands in front of the last occurrence. -/
def beforeLast : List α → Option (List α)
  | [] => if mark = [] then some [] else none
  | c :: text =>
    match beforeLast text with
    | some before => some (c :: before)
    | none => if mark <+: c :: text then some [] else none

variable {mark} {text before after : List α}

theorem beforeLast_eq_none_iff : beforeLast mark text = none ↔ ¬ mark <:+: text := by
  induction text with
  | nil => simp [beforeLast]
  | cons c text ih =>
    rw [beforeLast, List.infix_cons_iff, not_or]
    cases hrest : beforeLast mark text with
    | none => simp [ih.mp hrest]
    | some before =>
      have hoccurs : mark <:+: text := by
        by_contra hnot
        cases hrest.symm.trans (ih.mpr hnot)
      simp [hoccurs]

theorem eq_of_beforeLast (h : beforeLast mark text = some before) :
    ∃ after, text = before ++ (mark ++ after) := by
  induction text generalizing before with
  | nil =>
    rw [beforeLast] at h
    split_ifs at h with hmark
    cases h
    exact ⟨[], by rw [hmark]; rfl⟩
  | cons c text ih =>
    rw [beforeLast] at h
    cases hrest : beforeLast mark text with
    | some rest =>
      rw [hrest] at h
      cases h
      obtain ⟨after, rfl⟩ := ih hrest
      exact ⟨after, rfl⟩
    | none =>
      rw [hrest] at h
      split_ifs at h with hprefix
      cases h
      obtain ⟨after, hafter⟩ := hprefix
      exact ⟨after, hafter.symm⟩

/-- An occurrence is the last one when there is none behind its first character. -/
theorem beforeLast_append {c : α} {rest : List α} (hmark : mark <+: c :: rest)
    (hlast : ¬ mark <:+: rest) (before : List α) :
    beforeLast mark (before ++ c :: rest) = some before := by
  induction before with
  | nil => rw [List.nil_append, beforeLast, beforeLast_eq_none_iff.mpr hlast, if_pos hmark]
  | cons d before ih => rw [List.cons_append, beforeLast, ih]

/-- An occurrence does not reach across the end of a line, for a mark without a line break. -/
theorem occurrence_cases {newline : α} (hmark : newline ∉ mark) {lines tail : List α}
    (hlines : lines = [] ∨ ∃ text, lines = text ++ [newline])
    (h : before ++ (mark ++ after) = lines ++ tail) :
    (∃ rest, lines = before ++ (mark ++ rest)) ∨
      ∃ earlier, before = lines ++ earlier ∧ tail = earlier ++ (mark ++ after) := by
  rcases List.append_eq_append_iff.mp h with ⟨middle, rfl, hmiddle⟩ | ⟨earlier, rfl, htail⟩
  · rcases List.append_eq_append_iff.mp hmiddle with ⟨rest, rfl, -⟩ | ⟨cut, rfl, htail⟩
    · exact .inl ⟨rest, rfl⟩
    · -- the mark would go on behind `lines`, so that it holds their last character
      rcases hlines with hempty | ⟨text, htext⟩
      · obtain ⟨rfl, rfl⟩ := List.append_eq_nil_iff.mp hempty
        exact .inr ⟨[], rfl, htail⟩
      · rcases List.eq_nil_or_concat middle with rfl | ⟨middle, c, rfl⟩
        · exact .inr ⟨[], (List.append_nil _).symm.trans (List.append_nil _).symm, htail⟩
        · rw [List.concat_eq_append, ← List.append_assoc] at htext
          obtain ⟨-, hc⟩ := List.append_inj' htext rfl
          obtain rfl := List.singleton_inj.mp hc
          exact absurd (by simp) hmark
  · exact .inr ⟨earlier, rfl, htail⟩

/-- A text has one first line. -/
theorem line_eq {newline : α} {line other s t : List α} (hline : newline ∉ line)
    (hother : newline ∉ other) (h : line ++ newline :: s = other ++ newline :: t) :
    line = other := by
  rcases List.append_eq_append_iff.mp h with ⟨middle, rfl, hmiddle⟩ | ⟨middle, rfl, hmiddle⟩
  · cases middle with
    | nil => exact (List.append_nil line).symm
    | cons c middle =>
      obtain ⟨rfl, -⟩ := List.cons.inj hmiddle
      exact absurd (by simp) hother
  · cases middle with
    | nil => exact List.append_nil other
    | cons c middle =>
      obtain ⟨rfl, -⟩ := List.cons.inj hmiddle
      exact absurd (by simp) hline

/-- A text that goes on with complete lines where it was shifted by a line repeats that line. -/
theorem line_eq_of_shift {newline : α} {line : List α} (hline : newline ∉ line)
    {shifted lines : List α} (hlines : ∃ text, lines = text ++ [newline])
    (h : line ++ [newline] ++ shifted = shifted ++ lines) : lines = line ++ [newline] := by
  induction hn : shifted.length using Nat.strong_induction_on generalizing shifted with
  | _ n ih =>
    rcases List.append_eq_append_iff.mp h with ⟨rest, rfl, hrest⟩ | ⟨rest, hrest, rfl⟩
    · have hlt : rest.length < n := by
        rw [← hn]
        simp
        omega
      exact ih rest.length hlt hrest rfl
    · rcases List.eq_nil_or_concat shifted with rfl | ⟨shifted, c, rfl⟩
      · simpa using hrest.symm
      · obtain ⟨text, htext⟩ := hlines
        rw [List.concat_eq_append] at hrest htext ⊢
        obtain ⟨-, hc⟩ := List.append_inj' ((List.append_assoc _ _ _).trans htext) rfl
        obtain rfl := List.singleton_inj.mp hc
        rcases List.eq_nil_or_concat rest with rfl | ⟨rest, d, rfl⟩
        · rw [hrest, List.append_nil, List.nil_append]
        · rw [List.concat_eq_append, ← List.append_assoc] at hrest
          obtain ⟨hline', -⟩ := List.append_inj' hrest rfl
          exact absurd (by simp [hline']) hline

end LastPlace

/-! Scores in bands: a class sets the band, and a size takes something off within it. -/
namespace Bands

/-- What each class is worth, and how much a size may take off: less than to the next class. -/
structure Bands (κ : Type*) [LT κ] where
  worth : κ → ℤ
  most : κ → ℕ
  separated : ∀ first second, first < second → worth second < worth first - most first

namespace Bands
variable {κ : Type*} [LT κ] (bands : Bands κ)

def score (c : κ) (size : ℕ) : ℤ := bands.worth c - min size (bands.most c)

theorem score_lt {first second : κ} (h : first < second) (size other : ℕ) :
    bands.score second other < bands.score first size := by
  have hseparated := bands.separated first second h
  simp only [score]
  omega

theorem score_anti (c : κ) {size other : ℕ} (h : size ≤ other) :
    bands.score c other ≤ bands.score c size := by
  simp only [score]
  omega

end Bands
end Bands
