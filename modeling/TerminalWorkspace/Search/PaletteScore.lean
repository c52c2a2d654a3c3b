import Mathlib.Data.List.Infix
import Mathlib.Data.List.Sublists
import TerminalWorkspace.Foundation.Places
import TerminalWorkspace.Foundation.RecordFile
import TerminalWorkspace.Search.MatchPlaces

/-! How well a target of the palette matches a query. -/
namespace Search
open JsText RecordFile Bands

def isSpaceUnit (unit : ℕ) : Bool := unit ∈ spaceCodes

/-- What ends a word: white space and `-`, `_`, `/`, `.`, `:`. -/
def isSeparator (unit : ℕ) : Bool := isSpaceUnit unit || unit ∈ codeUnits "-_/.:"

section Score
variable (toLowerCase : CodeUnits → CodeUnits)

def normalized (text : CodeUnits) : CodeUnits := toLowerCase (trim isSpaceUnit text)

def words (t : CodeUnits) : List CodeUnits := (t.splitOnP isSeparator).filter (· ≠ [])

def acronym (t : CodeUnits) : CodeUnits := (words t).flatMap (List.take 1)

/-- One round of the loop over the target. -/
def advanceQuery (q : CodeUnits) (queryIdx unit : ℕ) : ℕ :=
  if queryIdx < q.length ∧ q[queryIdx]? = some unit then queryIdx + 1 else queryIdx

def scorePaletteMatch (query target : CodeUnits) : ℤ :=
  let q := normalized toLowerCase query
  let t := normalized toLowerCase target
  if q.length = 0 ∨ t.length = 0 then 0
  else if q = t then 10000
  else if acronym t = q then 5000 - min t.length 500
  else if q <+: acronym t then 4000 - min t.length 500
  else if q <+: t then 2000 - min t.length 500
  else if q <:+: t then 1000 - min t.length 500
  else if t.foldl (advanceQuery q) 0 = q.length then 100 - min t.length 99
  else 0

end Score

section Classes

/-- The ways a query can match, the best first. -/
inductive MatchClass where
  | exact
  | wholeAcronym
  | acronymStart
  | start
  | substring
  | subsequence
  deriving DecidableEq, Repr

def MatchClass.rank : MatchClass → ℕ
  | exact => 0
  | wholeAcronym => 1
  | acronymStart => 2
  | start => 3
  | substring => 4
  | subsequence => 5

instance : LT MatchClass := ⟨fun c d => c.rank < d.rank⟩

/-- A query that is not empty matches a target, both trimmed and in lower case. -/
def Matches (q t : CodeUnits) (c : MatchClass) : Prop :=
  q ≠ [] ∧ match c with
  | .exact => q = t
  | .wholeAcronym => q = acronym t
  | .acronymStart => q <+: acronym t
  | .start => q <+: t
  | .substring => q <:+: t
  | .subsequence => q.Sublist t

structure BestMatch (q t : CodeUnits) (c : MatchClass) : Prop where
  here : Matches q t c
  best : ∀ d < c, ¬ Matches q t d

/-- The scores are bands: a class is worth more than all that come after it. -/
def paletteBands : Bands MatchClass where
  worth
    | .exact => 10000
    | .wholeAcronym => 5000
    | .acronymStart => 4000
    | .start => 2000
    | .substring => 1000
    | .subsequence => 100
  most
    | .exact => 0
    | .subsequence => 99
    | _ => 500
  separated first second h := by
    change first.rank < second.rank at h
    cases first <;> cases second <;> revert h <;> decide

/-- What makes the scores of the targets for one query a ranking. -/
structure RanksTargets (normalize : CodeUnits → CodeUnits) (query : CodeUnits)
    (score : CodeUnits → ℤ) : Prop where
  positive : ∀ target, 0 < score target ↔
    normalize query ≠ [] ∧ (normalize query).Sublist (normalize target)
  classes : ∀ target other c d, BestMatch (normalize query) (normalize target) c →
    BestMatch (normalize query) (normalize other) d → c < d → score other < score target
  lengths : ∀ target other c, BestMatch (normalize query) (normalize target) c →
    BestMatch (normalize query) (normalize other) c →
    (normalize target).length < (normalize other).length → score other ≤ score target

end Classes

section Subsequences
variable {q t : CodeUnits}

/-- The loop finds a subsequence wherever there is one. -/
theorem foldl_advanceQuery_iff {queryIdx : ℕ} (h : queryIdx ≤ q.length) :
    t.foldl (advanceQuery q) queryIdx = q.length ↔ (q.drop queryIdx).Sublist t := by
  induction t generalizing queryIdx with
  | nil =>
    rw [List.foldl_nil, List.sublist_nil, List.drop_eq_nil_iff]
    omega
  | cons unit t ih =>
    rw [List.foldl_cons, advanceQuery]
    rcases Nat.eq_or_lt_of_le h with rfl | hlt
    · rw [if_neg fun hboth => Nat.lt_irrefl _ hboth.1, ih le_rfl, List.drop_length]
      exact iff_of_true (List.nil_sublist _) (List.nil_sublist _)
    · rw [List.drop_eq_getElem_cons hlt]
      have hget : q[queryIdx]? = some q[queryIdx] := List.getElem?_eq_getElem hlt
      split_ifs with hsame
      · obtain rfl : q[queryIdx] = unit := Option.some.inj (hget.symm.trans hsame.2)
        rw [ih hsame.1, List.cons_sublist_cons]
      · have hne : q[queryIdx] ≠ unit := fun heq => hsame ⟨hlt, heq ▸ hget⟩
        rw [ih h, List.cons_sublist_cons', or_iff_left fun hboth => hne hboth.1,
          List.drop_eq_getElem_cons hlt]

theorem splitOnP_flatten_sublist (separates : ℕ → Bool) (t : CodeUnits) :
    (t.splitOnP separates).flatten.Sublist t := by
  induction t with
  | nil => exact List.Sublist.refl _
  | cons unit t ih =>
    rw [List.splitOnP_cons_eq_if_modifyHead]
    split_ifs
    · exact ih.cons unit
    · obtain ⟨word, rest, hsplit⟩ := List.exists_cons_of_ne_nil (List.splitOnP_ne_nil separates t)
      rw [hsplit] at ih ⊢
      exact ih.cons_cons unit

theorem acronym_sublist (t : CodeUnits) : (acronym t).Sublist t := by
  have hheads : ∀ pieces : List CodeUnits,
      ((pieces.filter (· ≠ [])).flatMap (List.take 1)).Sublist pieces.flatten := by
    intro pieces
    induction pieces with
    | nil => exact List.Sublist.refl _
    | cons piece pieces ih =>
      rw [List.filter_cons, List.flatten_cons]
      split_ifs
      · exact (List.take_sublist 1 piece).append ih
      · exact ih.trans (List.sublist_append_right piece _)
  exact (hheads _).trans (splitOnP_flatten_sublist isSeparator t)

/-- Every match is a subsequence. -/
theorem Matches.sublist {c : MatchClass} (h : Matches q t c) : q.Sublist t := by
  obtain ⟨-, h⟩ := h
  cases c with
  | exact => exact h ▸ List.Sublist.refl _
  | wholeAcronym => exact h ▸ acronym_sublist t
  | acronymStart => exact h.sublist.trans (acronym_sublist t)
  | start => exact h.sublist
  | substring => exact h.sublist
  | subsequence => exact h

end Subsequences
section Ranking
variable (toLowerCase : CodeUnits → CodeUnits) {query target : CodeUnits}

theorem BestMatch.unique {q t : CodeUnits} {c d : MatchClass} (hc : BestMatch q t c)
    (hd : BestMatch q t d) : c = d := by
  have hle : ¬ c.rank < d.rank := fun hlt => hd.best c hlt hc.here
  have hge : ¬ d.rank < c.rank := fun hlt => hc.best d hlt hd.here
  have hrank : c.rank = d.rank := by omega
  cases c <;> cases d <;> first | rfl | exact absurd hrank (by decide)

/-- The tests that failed, each as far as it comes before a class, rule out the classes before. -/
theorem bestMatch_of_tests {q t : CodeUnits} {c : MatchClass} (h : Matches q t c)
    (hexact : 0 < c.rank → q ≠ t) (hwhole : 1 < c.rank → acronym t ≠ q)
    (hacronym : 2 < c.rank → ¬ q <+: acronym t) (hstart : 3 < c.rank → ¬ q <+: t)
    (hsubstring : 4 < c.rank → ¬ q <:+: t) : BestMatch q t c := by
  refine ⟨h, fun d hd hmatch => ?_⟩
  obtain ⟨-, hmatch⟩ := hmatch
  cases d with
  | exact => exact hexact hd hmatch
  | wholeAcronym => exact hwhole hd hmatch.symm
  | acronymStart => exact hacronym hd hmatch
  | start => exact hstart hd hmatch
  | substring => exact hsubstring hd hmatch
  | subsequence => cases c <;> exact absurd hd (by decide)

/-- The score is the band of the best match, and nothing where there is none. -/
theorem scorePaletteMatch_spec (query target : CodeUnits) :
    (∃ c, BestMatch (normalized toLowerCase query) (normalized toLowerCase target) c ∧
      scorePaletteMatch toLowerCase query target =
        paletteBands.score c (normalized toLowerCase target).length) ∨
    scorePaletteMatch toLowerCase query target = 0 ∧
      ∀ c, ¬ Matches (normalized toLowerCase query) (normalized toLowerCase target) c := by
  simp only [scorePaletteMatch]
  generalize normalized toLowerCase query = q
  generalize normalized toLowerCase target = t
  split_ifs with hempty hexact hwhole hacronym hstart hsubstring hsubsequence
  · refine .inr ⟨rfl, fun c h => ?_⟩
    have hsublist := h.sublist
    rcases hempty with hq | ht
    · exact h.1 (List.length_eq_zero_iff.mp hq)
    · rw [List.length_eq_zero_iff.mp ht, List.sublist_nil] at hsublist
      exact h.1 hsublist
  all_goals have hquery : q ≠ [] := fun hq => hempty (.inl (List.length_eq_zero_iff.mpr hq))
  · refine .inl ⟨.exact, bestMatch_of_tests ⟨hquery, hexact⟩ ?_ ?_ ?_ ?_ ?_, ?_⟩
    iterate 5 exact fun h => absurd h (by decide)
    rw [Bands.score, show paletteBands.most .exact = 0 from rfl, Nat.min_zero]
    rfl
  · refine .inl ⟨.wholeAcronym, bestMatch_of_tests ⟨hquery, hwhole.symm⟩ (fun _ => hexact) ?_ ?_ ?_ ?_,
      rfl⟩
    iterate 4 exact fun h => absurd h (by decide)
  · refine .inl ⟨.acronymStart, bestMatch_of_tests ⟨hquery, hacronym⟩ (fun _ => hexact)
      (fun _ => hwhole) ?_ ?_ ?_, rfl⟩
    iterate 3 exact fun h => absurd h (by decide)
  · refine .inl ⟨.start, bestMatch_of_tests ⟨hquery, hstart⟩ (fun _ => hexact) (fun _ => hwhole)
      (fun _ => hacronym) ?_ ?_, rfl⟩
    iterate 2 exact fun h => absurd h (by decide)
  · exact .inl ⟨.substring, bestMatch_of_tests ⟨hquery, hsubstring⟩ (fun _ => hexact)
      (fun _ => hwhole) (fun _ => hacronym) (fun _ => hstart) (fun h => absurd h (by decide)), rfl⟩
  · have hsublist : q.Sublist t := (foldl_advanceQuery_iff (Nat.zero_le _)).mp hsubsequence
    exact .inl ⟨.subsequence, bestMatch_of_tests ⟨hquery, hsublist⟩ (fun _ => hexact)
      (fun _ => hwhole) (fun _ => hacronym) (fun _ => hstart) (fun _ => hsubstring), rfl⟩
  · refine .inr ⟨rfl, fun c h => hsubsequence ?_⟩
    exact (foldl_advanceQuery_iff (Nat.zero_le _)).mpr h.sublist

theorem paletteBands_pos (c : MatchClass) (size : ℕ) : 0 < paletteBands.score c size := by
  have hworth : (paletteBands.most c : ℤ) < paletteBands.worth c := by cases c <;> decide
  simp only [Bands.score]
  omega

theorem scorePaletteMatch_of_best {c : MatchClass}
    (h : BestMatch (normalized toLowerCase query) (normalized toLowerCase target) c) :
    scorePaletteMatch toLowerCase query target =
      paletteBands.score c (normalized toLowerCase target).length := by
  obtain ⟨d, hd, hscore⟩ | ⟨-, hnone⟩ := scorePaletteMatch_spec toLowerCase query target
  · rw [hscore, hd.unique h]
  · exact absurd h.here (hnone c)

/-- The scores are a ranking: a match of an earlier class is above all of the later ones, and
within a class no longer target is above a shorter one. -/
theorem scorePaletteMatch_ranks (query : CodeUnits) :
    RanksTargets (normalized toLowerCase) query (scorePaletteMatch toLowerCase query) where
  positive target := by
    obtain ⟨c, hc, hscore⟩ | ⟨hscore, hnone⟩ := scorePaletteMatch_spec toLowerCase query target
    · rw [hscore]
      exact iff_of_true (paletteBands_pos c _) ⟨hc.here.1, hc.here.sublist⟩
    · rw [hscore]
      exact iff_of_false (lt_irrefl _) fun h => hnone .subsequence h
  classes target other c d hc hd hlt := by
    rw [scorePaletteMatch_of_best toLowerCase hc, scorePaletteMatch_of_best toLowerCase hd]
    exact paletteBands.score_lt hlt _ _
  lengths target other c hc hd hlt := by
    rw [scorePaletteMatch_of_best toLowerCase hc, scorePaletteMatch_of_best toLowerCase hd]
    exact paletteBands.score_anti c hlt.le

example : scorePaletteMatch id (codeUnits "pg") (codeUnits "production gateway") = 4982 := by
  decide +kernel

end Ranking
end Search
