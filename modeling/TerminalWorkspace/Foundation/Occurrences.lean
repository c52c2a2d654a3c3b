import Mathlib.Data.List.Basic
import Mathlib.Data.List.Range

/-! The leftmost places, of a width and apart from one another, at which something occurs: what
they are, and the scan that finds them. -/
namespace Occurrences

section Counted
variable (occurs : ℕ → Prop) [DecidablePred occurs] (width : ℕ)

/-- The place before `place` that reading from the left counts last. -/
def lastCounted : ℕ → Option ℕ
  | 0 => none
  | place + 1 =>
    if occurs place ∧ ∀ last ∈ lastCounted place, last + width ≤ place then some place
    else lastCounted place

/-- The place is not covered by one that is counted before it. -/
def Clear (place : ℕ) : Prop := ∀ last ∈ lastCounted occurs width place, last + width ≤ place

def Counted (place : ℕ) : Prop := occurs place ∧ Clear occurs width place

instance (place : ℕ) : Decidable (Clear occurs width place) :=
  inferInstanceAs (Decidable (∀ last ∈ lastCounted occurs width place, last + width ≤ place))

instance (place : ℕ) : Decidable (Counted occurs width place) :=
  inferInstanceAs (Decidable (_ ∧ _))

/-- The places are in order and apart, something occurs at each, and each place at which it
occurs is at one of them or covered by it. -/
structure Leftmost (places : List ℕ) : Prop where
  apart : places.Pairwise fun first second => first + width ≤ second
  here : ∀ place ∈ places, occurs place
  covers : ∀ place, occurs place → ∃ first ∈ places, first ≤ place ∧ place < first + width

end Counted

section Laws
variable {occurs : ℕ → Prop} [DecidablePred occurs] {width place last : ℕ}

theorem lastCounted_succ_pos (h : Counted occurs width place) :
    lastCounted occurs width (place + 1) = some place := if_pos h

theorem lastCounted_succ_neg (h : ¬ Counted occurs width place) :
    lastCounted occurs width (place + 1) = lastCounted occurs width place := if_neg h

theorem lastCounted_spec (h : last ∈ lastCounted occurs width place) :
    last < place ∧ Counted occurs width last := by
  induction place with
  | zero => cases h
  | succ place ih =>
    by_cases hcounted : Counted occurs width place
    · rw [lastCounted_succ_pos hcounted] at h
      obtain rfl := Option.some.inj h
      exact ⟨Nat.lt_succ_self _, hcounted⟩
    · rw [lastCounted_succ_neg hcounted] at h
      exact ⟨Nat.lt_succ_of_lt (ih h).1, (ih h).2⟩

theorem exists_lastCounted {first : ℕ} (h : Counted occurs width first) (hlt : first < place) :
    ∃ last ∈ lastCounted occurs width place, first ≤ last := by
  induction place with
  | zero => exact absurd hlt (Nat.not_lt_zero _)
  | succ place ih =>
    by_cases hcounted : Counted occurs width place
    · exact ⟨place, lastCounted_succ_pos hcounted, Nat.le_of_lt_succ hlt⟩
    · have hne : first ≠ place := fun heq => hcounted (heq ▸ h)
      obtain ⟨last, hlast, hle⟩ := ih (by omega)
      exact ⟨last, (lastCounted_succ_neg hcounted).symm ▸ hlast, hle⟩

theorem Counted.apart {first second : ℕ} (hfirst : Counted occurs width first)
    (hsecond : Counted occurs width second) (hlt : first < second) : first + width ≤ second := by
  obtain ⟨last, hlast, hle⟩ := exists_lastCounted hfirst hlt
  have hclear := hsecond.2 last hlast
  omega

theorem exists_counted (hwidth : 0 < width) (h : occurs place) :
    ∃ first, Counted occurs width first ∧ first ≤ place ∧ place < first + width := by
  by_cases hclear : Clear occurs width place
  · exact ⟨place, ⟨h, hclear⟩, le_rfl, by omega⟩
  · simp only [Clear, not_forall, not_le] at hclear
    obtain ⟨last, hlast, hlt⟩ := hclear
    obtain ⟨hbefore, hcounted⟩ := lastCounted_spec hlast
    exact ⟨last, hcounted, hbefore.le, hlt⟩

/-- The leftmost places are the ones that reading from the left counts. -/
theorem leftmost_iff (hwidth : 0 < width) {places : List ℕ} : Leftmost occurs width places ↔
    places.Pairwise (· < ·) ∧ ∀ place, place ∈ places ↔ Counted occurs width place := by
  constructor
  · intro h
    have hapart : ∀ first ∈ places, ∀ second ∈ places, first < second → first + width ≤ second := by
      have hthere : places.Pairwise fun first second => first < second → first + width ≤ second := by
        refine h.apart.imp ?_
        exact fun hle _ => hle
      have hback : places.Pairwise fun first second => second < first → second + width ≤ first :=
        h.apart.imp fun hle hlt => by omega
      exact fun first hfirst second hsecond => hthere.forall_of_forall_of_flip
        (fun place _ hlt => absurd hlt (Nat.lt_irrefl place)) hback hfirst hsecond
    refine ⟨h.apart.imp fun hle => by omega, fun place => ?_⟩
    induction place using Nat.strong_induction_on with
    | _ place ih =>
      constructor
      · refine fun hmem => ⟨h.here place hmem, fun last hlast => ?_⟩
        obtain ⟨hlt, hcounted⟩ := lastCounted_spec hlast
        exact hapart last ((ih last hlt).mpr hcounted) place hmem hlt
      · intro hcounted
        obtain ⟨first, hfirst, hle, hlt⟩ := h.covers place hcounted.1
        rcases Nat.eq_or_lt_of_le hle with rfl | hbefore
        · exact hfirst
        · have happart := ((ih first hbefore).mp hfirst).apart hcounted hbefore
          omega
  · rintro ⟨hsorted, hmem⟩
    refine ⟨?_, fun place hplace => ((hmem place).mp hplace).1, fun place hplace => ?_⟩
    · exact hsorted.imp_of_mem fun hfirst hsecond hlt =>
        ((hmem _).mp hfirst).apart ((hmem _).mp hsecond) hlt
    · obtain ⟨first, hcounted, hle, hlt⟩ := exists_counted hwidth hplace
      exact ⟨first, (hmem first).mpr hcounted, hle, hlt⟩

theorem lastCounted_congr {occurs' : ℕ → Prop} [DecidablePred occurs'] {width' : ℕ}
    (h : ∀ c < place, Counted occurs width c ↔ Counted occurs' width' c) :
    lastCounted occurs width place = lastCounted occurs' width' place := by
  induction place with
  | zero => rfl
  | succ place ih =>
    have hbefore := ih fun c hc => h c (Nat.lt_succ_of_lt hc)
    have hplace := h place (Nat.lt_succ_self place)
    by_cases hcounted : Counted occurs width place
    · rw [lastCounted_succ_pos hcounted, lastCounted_succ_pos (hplace.mp hcounted)]
    · rw [lastCounted_succ_neg hcounted, lastCounted_succ_neg fun hc => hcounted (hplace.mpr hc),
        hbefore]

/-- Two things are counted at the same places just when, at each place that what is counted last
leaves free for either, the one occurs where the other does. -/
theorem counted_iff_counted {occurs' : ℕ → Prop} [DecidablePred occurs'] {width' : ℕ} :
    (∀ c, Counted occurs width c ↔ Counted occurs' width' c) ↔
      ∀ c, Counted occurs width c ↔
        occurs' c ∧ ∀ last ∈ lastCounted occurs width c, last + width' ≤ c := by
  constructor
  · intro h c
    rw [h c, Counted, Clear, lastCounted_congr fun c _ => h c]
  · intro h c
    induction c using Nat.strong_induction_on with
    | _ c ih =>
      rw [h c, Counted, Clear, lastCounted_congr ih]

end Laws

section Scan
variable (occurs : ℕ → Prop) [DecidablePred occurs] (width bound : ℕ)

/-- The first place from a start on, up to a bound. -/
def firstFrom (start : ℕ) : Option ℕ :=
  (List.range' start (bound + 1 - start)).find? fun place => occurs place

/-- The scan that goes on behind each place it finds. -/
def scan : ℕ → ℕ → List ℕ
  | 0, _ => []
  | fuel + 1, start =>
    match firstFrom occurs bound start with
    | none => []
    | some place => place :: scan fuel (place + width)

variable {occurs width bound} {start fuel : ℕ}

theorem firstFrom_eq_none_iff (hbound : ∀ place, occurs place → place ≤ bound) :
    firstFrom occurs bound start = none ↔ ∀ place, start ≤ place → ¬ occurs place := by
  simp only [firstFrom, List.find?_eq_none, List.mem_range'_1, decide_eq_true_eq, and_imp]
  refine forall_congr' fun place => forall_congr' fun hle => ⟨fun h hoccurs => ?_, fun h _ => h⟩
  have hplace := hbound place hoccurs
  exact h (by omega) hoccurs

theorem firstFrom_some {place : ℕ} (h : firstFrom occurs bound start = some place) :
    start ≤ place ∧ place ≤ bound ∧ occurs place ∧
      ∀ before, start ≤ before → before < place → ¬ occurs before := by
  obtain ⟨hoccurs, i, hi, hplace, hbefore⟩ := List.find?_eq_some_iff_getElem.mp h
  rw [List.getElem_range'] at hplace
  rw [List.length_range'] at hi
  refine ⟨by omega, by omega, by simpa using hoccurs, fun before hle hlt => ?_⟩
  have hnot := hbefore (before - start) (by omega)
  rw [List.getElem_range'] at hnot
  simpa [Nat.add_sub_cancel' hle] using hnot

theorem scan_spec (hwidth : 0 < width) (hbound : ∀ place, occurs place → place ≤ bound)
    (hclear : Clear occurs width start) (hfuel : bound < start + fuel) :
    (scan occurs width bound fuel start).Pairwise (· < ·) ∧
      ∀ place, place ∈ scan occurs width bound fuel start ↔
        Counted occurs width place ∧ start ≤ place := by
  induction fuel generalizing start with
  | zero =>
    refine ⟨.nil, fun place => iff_of_false List.not_mem_nil fun h => ?_⟩
    have hplace := hbound place h.1.1
    omega
  | succ fuel ih =>
    rw [scan]
    cases hfirst : firstFrom occurs bound start with
    | none =>
      have hnone := (firstFrom_eq_none_iff hbound).mp hfirst
      exact ⟨.nil, fun place => iff_of_false List.not_mem_nil fun h => hnone place h.2 h.1.1⟩
    | some first =>
      obtain ⟨hstart, hle, hoccurs, hbefore⟩ := firstFrom_some hfirst
      have hcounted : Counted occurs width first := by
        refine ⟨hoccurs, fun last hlast => ?_⟩
        obtain ⟨hlt, hlastCounted⟩ := lastCounted_spec hlast
        have hlow : last < start := by
          by_contra hge
          exact hbefore last (by omega) hlt hlastCounted.1
        obtain ⟨later, hlater, hlaterLe⟩ := exists_lastCounted hlastCounted hlow
        have hfree := hclear later hlater
        omega
      have hnext : Clear occurs width (first + width) := by
        intro last hlast
        obtain ⟨hlt, hlastCounted⟩ := lastCounted_spec hlast
        by_contra hcover
        have happart := hcounted.apart hlastCounted (by omega)
        omega
      obtain ⟨hsorted, hmem⟩ := ih hnext (by omega)
      refine ⟨List.pairwise_cons.mpr ⟨fun place hplace => ?_, hsorted⟩, fun place => ?_⟩
      · have hlow := ((hmem place).mp hplace).2
        omega
      · rw [List.mem_cons, hmem]
        constructor
        · rintro (rfl | ⟨hplace, hlow⟩)
          · exact ⟨hcounted, hstart⟩
          · exact ⟨hplace, by omega⟩
        · rintro ⟨hplace, hlow⟩
          rcases Nat.lt_trichotomy place first with hlt | rfl | hlt
          · exact absurd hplace.1 (hbefore place hlow hlt)
          · exact .inl rfl
          · exact .inr ⟨hplace, hcounted.apart hplace hlt⟩

/-- The scan from the start finds the places that reading from the left counts. -/
theorem scan_counted (hwidth : 0 < width) (hbound : ∀ place, occurs place → place ≤ bound) :
    (scan occurs width bound (bound + 1) 0).Pairwise (· < ·) ∧
      ∀ place, place ∈ scan occurs width bound (bound + 1) 0 ↔ Counted occurs width place := by
  have hclear : Clear occurs width 0 := fun last hlast => nomatch hlast
  have hfuel : bound < 0 + (bound + 1) := by omega
  have h := scan_spec hwidth hbound hclear hfuel
  refine ⟨h.1, fun place => ?_⟩
  rw [h.2, and_iff_left (Nat.zero_le place)]

end Scan
end Occurrences
