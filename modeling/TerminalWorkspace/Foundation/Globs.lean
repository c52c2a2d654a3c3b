import Mathlib.Data.List.Infix

/-! Patterns with two wildcards, one for any run and one for any single element. Beside the
splits that a pattern allows, those in which a star that stands before itself takes just that
element: what a matcher finds that tries the elements for equality before it looks for stars. -/
namespace Globs
variable {α : Type*} (star one : α)

/-- The text splits as the pattern says: a star takes what stands before a suffix. -/
inductive Splits : List α → List α → Prop
  | nil : Splits [] []
  | run {pattern text rest : List α} (hrest : rest <:+ text) (h : Splits pattern rest) :
    Splits (star :: pattern) text
  | one {pattern text : List α} (c : α) (h : Splits pattern text) :
    Splits (one :: pattern) (c :: text)
  | itself {pattern text : List α} {c : α} (hstar : c ≠ star) (hone : c ≠ one)
    (h : Splits pattern text) : Splits (c :: pattern) (c :: text)

/-- The text splits, and a star that stands before one in the text takes just that. -/
inductive Guarded : List α → List α → Prop
  | nil : Guarded [] []
  | run {pattern text rest : List α} (hhead : text.head? ≠ some star) (hrest : rest <:+ text)
    (h : Guarded pattern rest) : Guarded (star :: pattern) text
  | literal {pattern text : List α} (h : Guarded pattern text) :
    Guarded (star :: pattern) (star :: text)
  | one {pattern text : List α} (c : α) (h : Guarded pattern text) :
    Guarded (one :: pattern) (c :: text)
  | itself {pattern text : List α} {c : α} (hstar : c ≠ star) (hone : c ≠ one)
    (h : Guarded pattern text) : Guarded (c :: pattern) (c :: text)

variable {star one} {pattern text : List α}

theorem Guarded.splits (h : Guarded star one pattern text) : Splits star one pattern text := by
  induction h with
  | nil => exact .nil
  | run _ hrest _ ih => exact .run hrest ih
  | literal _ ih => exact .run (List.suffix_cons star _) ih
  | one c _ ih => exact .one c ih
  | itself hstar hone _ ih => exact .itself hstar hone ih

theorem splits_self (hstar : star ∉ text) (hone : one ∉ text) : Splits star one text text := by
  induction text with
  | nil => exact .nil
  | cons c text ih =>
    rw [List.mem_cons, not_or] at hstar hone
    exact .itself (Ne.symm hstar.1) (Ne.symm hone.1) (ih hstar.2 hone.2)

/-- Where no star stands in the text there is nothing to guard. -/
theorem Splits.guarded (h : Splits star one pattern text) (htext : star ∉ text) :
    Guarded star one pattern text := by
  induction h with
  | nil => exact .nil
  | run hrest _ ih =>
    have hhead : ∀ head ∈ List.head? _, head ≠ star := fun head hmem heq =>
      htext (heq ▸ List.mem_of_head? hmem)
    refine .run (fun heq => hhead star heq rfl) hrest (ih fun hmem => htext (hrest.mem hmem))
  | one c _ ih => exact .one c (ih fun hmem => htext (List.mem_cons_of_mem c hmem))
  | itself hstar hone _ ih =>
    exact .itself hstar hone (ih fun hmem => htext (List.mem_cons_of_mem _ hmem))

section Cases
variable {c d : α}

theorem splits_nil : Splits star one [] text ↔ text = [] := by
  constructor
  · intro h
    cases h with
    | nil => rfl
  · rintro rfl
    exact .nil

theorem splits_star (hne : one ≠ star) : Splits star one (star :: pattern) text ↔
    ∃ rest, rest <:+ text ∧ Splits star one pattern rest := by
  refine ⟨fun h => ?_, fun ⟨rest, hrest, h⟩ => .run hrest h⟩
  cases h with
  | run hrest h => exact ⟨_, hrest, h⟩
  | one => exact absurd rfl hne
  | itself hstar => exact absurd rfl hstar

theorem splits_one (hne : one ≠ star) : Splits star one (one :: pattern) text ↔
    ∃ d rest, text = d :: rest ∧ Splits star one pattern rest := by
  constructor
  · intro h
    cases h with
    | run => exact absurd rfl hne
    | one d h => exact ⟨d, _, rfl, h⟩
    | itself _ hone => exact absurd rfl hone
  · rintro ⟨d, rest, rfl, h⟩
    exact .one d h

theorem splits_itself (hstar : c ≠ star) (hone : c ≠ one) :
    Splits star one (c :: pattern) text ↔ ∃ rest, text = c :: rest ∧ Splits star one pattern rest := by
  constructor
  · intro h
    cases h with
    | run => exact absurd rfl hstar
    | one => exact absurd rfl hone
    | itself _ _ h => exact ⟨_, rfl, h⟩
  · rintro ⟨rest, rfl, h⟩
    exact .itself hstar hone h

theorem guarded_nil : Guarded star one [] text ↔ text = [] := by
  constructor
  · intro h
    cases h with
    | nil => rfl
  · rintro rfl
    exact .nil

theorem guarded_one (hne : one ≠ star) :
    Guarded star one (one :: pattern) (d :: text) ↔ Guarded star one pattern text := by
  refine ⟨fun h => ?_, fun h => .one d h⟩
  cases h with
  | run => exact absurd rfl hne
  | literal => exact absurd rfl hne
  | one _ h => exact h
  | itself _ hone => exact absurd rfl hone

/-- An element that stands in both, be it a star, is taken by itself. -/
theorem guarded_same : Guarded star one (c :: pattern) (c :: text) ↔
    Guarded star one pattern text := by
  constructor
  · intro h
    cases h with
    | run hhead => exact absurd rfl hhead
    | literal h => exact h
    | one _ h => exact h
    | itself _ _ h => exact h
  · intro h
    by_cases hstar : c = star
    · subst hstar
      exact .literal h
    by_cases hone : c = one
    · subst hone
      exact .one c h
    · exact .itself hstar hone h

theorem guarded_star (hhead : text.head? ≠ some star) (hne : one ≠ star) :
    Guarded star one (star :: pattern) text ↔
      ∃ rest, rest <:+ text ∧ Guarded star one pattern rest := by
  refine ⟨fun h => ?_, fun ⟨rest, hrest, h⟩ => .run hhead hrest h⟩
  cases h with
  | run _ hrest h => exact ⟨_, hrest, h⟩
  | literal => exact absurd rfl hhead
  | one => exact absurd rfl hne
  | itself hstar => exact absurd rfl hstar

/-- Whatever the first element took, the others split a suffix. -/
theorem Guarded.tail (h : Guarded star one (c :: pattern) text) :
    ∃ rest, rest <:+ text ∧ Guarded star one pattern rest := by
  cases h with
  | run _ hrest h => exact ⟨_, hrest, h⟩
  | literal h => exact ⟨_, List.suffix_cons star _, h⟩
  | one d h => exact ⟨_, List.suffix_cons d _, h⟩
  | itself _ _ h => exact ⟨_, List.suffix_cons c _, h⟩

theorem not_guarded_cons (hstar : c ≠ star) (hone : c ≠ one) (hne : c ≠ d) :
    ¬ Guarded star one (c :: pattern) (d :: text) := by
  intro h
  cases h with
  | run => exact hstar rfl
  | literal => exact hne rfl
  | one => exact hone rfl
  | itself => exact hne rfl

theorem guarded_nil_text [DecidableEq α] (hne : one ≠ star) :
    Guarded star one pattern [] ↔ pattern.dropWhile (· = star) = [] := by
  induction pattern with
  | nil => exact ⟨fun _ => rfl, fun _ => .nil⟩
  | cons c pattern ih =>
    by_cases hc : c = star
    · subst hc
      rw [guarded_star (by simp) hne, List.dropWhile_cons_of_pos (by simp), ← ih]
      simp
    · rw [List.dropWhile_cons_of_neg (by simpa using hc)]
      refine ⟨fun h => ?_, fun h => (nomatch h)⟩
      cases h with
      | run => exact absurd rfl hc

/-- What a text took element by element, any later attempt leaves no earlier. -/
theorem Guarded.later {seen taken rest : List α}
    (hseen : List.Forall₂ (fun c d => c = one ∨ c = d) seen taken) (hne : one ≠ star) :
    ∀ {start : List α}, start <:+ taken ++ rest → Guarded star one (seen ++ pattern) start →
      ∃ left, left <:+ rest ∧ Guarded star one pattern left := by
  induction hseen with
  | nil => exact fun hstart h => ⟨_, hstart, h⟩
  | @cons c d seen taken hcd _ ih =>
    intro start hstart h
    rcases List.suffix_cons_iff.mp hstart with rfl | hlater
    · have hnext : Guarded star one (seen ++ pattern) (taken ++ rest) := by
        rcases hcd with rfl | rfl
        · exact (guarded_one hne).mp h
        · exact guarded_same.mp h
      exact ih (List.suffix_refl _) hnext
    · obtain ⟨left, hleft, hnext⟩ := h.tail
      exact ih (hleft.trans hlater) hnext

end Cases

section Maps
variable {β : Type*} {f : α → β}

theorem Guarded.map (hf : Function.Injective f) (h : Guarded star one pattern text) :
    Guarded (f star) (f one) (pattern.map f) (text.map f) := by
  induction h with
  | nil => exact .nil
  | @run pattern text rest hhead hrest _ ih =>
    refine .run (fun hmap => hhead ?_) (hrest.map f) ih
    rw [List.head?_map] at hmap
    obtain ⟨c, hc, heq⟩ := Option.map_eq_some_iff.mp hmap
    rw [hc, hf heq]
  | literal _ ih => exact .literal ih
  | one c _ ih => exact .one (f c) ih
  | itself hstar hone _ ih => exact .itself (hf.ne hstar) (hf.ne hone) ih

theorem Guarded.of_map (hf : Function.Injective f) {images codes : List β}
    (h : Guarded (f star) (f one) images codes) : ∀ {pattern text : List α},
      images = pattern.map f → codes = text.map f → Guarded star one pattern text := by
  induction h with
  | nil =>
    intro pattern text hpattern htext
    rw [List.map_eq_nil_iff.mp hpattern.symm, List.map_eq_nil_iff.mp htext.symm]
    exact .nil
  | @run images codes rest hhead hrest _ ih =>
    rintro pattern text hpattern rfl
    obtain ⟨c, pattern, rfl, hc, rfl⟩ := List.map_eq_cons_iff.mp hpattern.symm
    obtain rfl := hf hc
    obtain ⟨left, hleft, rfl⟩ := List.suffix_map_iff.mp hrest
    refine .run (fun hstar => hhead ?_) hleft (ih rfl rfl)
    rw [List.head?_map, hstar, Option.map_some]
  | literal _ ih =>
    intro pattern text hpattern htext
    obtain ⟨c, pattern, rfl, hc, rfl⟩ := List.map_eq_cons_iff.mp hpattern.symm
    obtain ⟨d, text, rfl, hd, rfl⟩ := List.map_eq_cons_iff.mp htext.symm
    obtain rfl := hf hc
    obtain rfl := hf hd
    exact .literal (ih rfl rfl)
  | one _ _ ih =>
    intro pattern text hpattern htext
    obtain ⟨c, pattern, rfl, hc, rfl⟩ := List.map_eq_cons_iff.mp hpattern.symm
    obtain ⟨d, text, rfl, hd, rfl⟩ := List.map_eq_cons_iff.mp htext.symm
    obtain rfl := hf hc
    exact .one d (ih rfl rfl)
  | itself hstar hone _ ih =>
    intro pattern text hpattern htext
    obtain ⟨c, pattern, rfl, hc, rfl⟩ := List.map_eq_cons_iff.mp hpattern.symm
    obtain ⟨d, text, rfl, hd, rfl⟩ := List.map_eq_cons_iff.mp htext.symm
    obtain rfl := hf (hc.trans hd.symm)
    subst hc
    exact .itself (fun h => hstar (h ▸ rfl)) (fun h => hone (h ▸ rfl)) (ih rfl rfl)

theorem guarded_map (hf : Function.Injective f) :
    Guarded (f star) (f one) (pattern.map f) (text.map f) ↔ Guarded star one pattern text :=
  ⟨fun h => h.of_map hf rfl rfl, Guarded.map hf⟩

end Maps

theorem exists_suffix_iff {P : List α → Prop} :
    (∃ rest, rest <:+ text ∧ P rest) ↔ P text ∨ ∃ rest, rest <:+ text.tail ∧ P rest := by
  cases text with
  | nil =>
    have hnil : ∀ rest : List α, rest <:+ [] ∧ P rest ↔ rest = [] ∧ P [] := by
      intro rest
      rw [List.suffix_nil]
      exact and_congr_right fun heq => by rw [heq]
    simp only [List.tail_nil, hnil, exists_eq_left, or_self]
  | cons c text =>
    constructor
    · rintro ⟨rest, hrest, h⟩
      rcases List.suffix_cons_iff.mp hrest with rfl | hlater
      · exact .inl h
      · exact .inr ⟨rest, hlater, h⟩
    · rintro (h | ⟨rest, hrest, h⟩)
      · exact ⟨c :: text, List.suffix_refl _, h⟩
      · exact ⟨rest, hrest.trans (List.suffix_cons c text), h⟩

end Globs
