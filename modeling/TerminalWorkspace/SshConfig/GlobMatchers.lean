import TerminalWorkspace.Foundation.Globs
import TerminalWorkspace.Foundation.Regexes
import TerminalWorkspace.SshConfig.ImportedHosts

/-! The three matchers of glob patterns, and when they agree with what a glob says. -/
namespace SshConfig
open JsText Globs

section Loop

/-- The loop has gone from the last star to where it stands one element after the other. -/
def Passed {pattern value : List ℕ} (last : Option (StarPlace pattern value)) : Prop :=
  ∀ s ∈ last, ∃ seen taken : List ℕ, s.val.1 = seen ++ pattern ∧ s.val.2 = taken ++ value ∧
    List.Forall₂ (fun c d => c = questionMark ∨ c = d) seen taken

theorem questionMark_ne_star : questionMark ≠ star := by decide

/-- The pattern behind the last star splits what stands further behind it. -/
def Later {pattern value : List ℕ} (last : Option (StarPlace pattern value)) : Prop :=
  ∃ s ∈ last, ∃ rest, rest <:+ s.val.2.tail ∧ Guarded star questionMark s.val.1 rest

theorem Passed.later {pattern value : List ℕ} {last : Option (StarPlace pattern value)}
    (hpassed : Passed last) (hlater : Later last) :
    ∃ left, left <:+ value ∧ Guarded star questionMark pattern left := by
  obtain ⟨s, hs, rest, hrest, h⟩ := hlater
  obtain ⟨seen, taken, hpattern, hvalue, hseen⟩ := hpassed s hs
  have hstart : rest <:+ taken ++ value := hvalue ▸ hrest.trans (List.tail_suffix _)
  exact Guarded.later hseen questionMark_ne_star hstart (hpattern ▸ h)

theorem passed_star (pattern value : List ℕ) :
    Passed (some (⟨(pattern, value), le_rfl, le_rfl⟩ : StarPlace pattern value)) := by
  rintro s ⟨⟩
  exact ⟨[], [], rfl, rfl, .nil⟩

theorem later_some {pattern value : List ℕ} {s : StarPlace pattern value} :
    Later (some s) ↔
      ∃ rest, rest <:+ s.val.2.tail ∧ Guarded star questionMark s.val.1 rest := by
  simp [Later]

theorem not_later_none {pattern value : List ℕ} :
    ¬ Later (none : Option (StarPlace pattern value)) := by
  rintro ⟨s, hs, -⟩
  cases hs

theorem not_guarded_head {pattern value : List ℕ} {unit : ℕ}
    (hunit : ¬(pattern.head? = some questionMark ∨ pattern.head? = some unit))
    (hstar : ¬pattern.head? = some star) :
    ¬ Guarded star questionMark pattern (unit :: value) := by
  cases pattern with
  | nil => exact fun h => List.cons_ne_nil _ _ (guarded_nil.mp h)
  | cons c pattern =>
    simp only [List.head?_cons, Option.some.injEq, not_or] at hunit hstar
    exact not_guarded_cons hstar hunit.1 hunit.2

theorem globLoop_iff (pattern value : List ℕ) (last : Option (StarPlace pattern value))
    (hpassed : Passed last) :
    globLoop pattern value last = true ↔
      Guarded star questionMark pattern value ∨ Later last := by
  fun_induction globLoop pattern value last with
  | case1 pattern last =>
    rw [decide_eq_true_iff, ← guarded_nil_text questionMark_ne_star]
    refine ⟨.inl, fun h => h.elim id fun hlater => ?_⟩
    obtain ⟨left, hleft, h⟩ := hpassed.later hlater
    exact List.suffix_nil.mp hleft ▸ h
  | case2 pattern unit value hunit last ih =>
    cases pattern with
    | nil => simp at hunit
    | cons c pattern =>
      have hc : c = questionMark ∨ c = unit := by simpa using hunit
      have hguarded : Guarded star questionMark (c :: pattern) (unit :: value) ↔
          Guarded star questionMark pattern value := by
        rcases hc with rfl | rfl
        · exact guarded_one questionMark_ne_star
        · exact guarded_same
      rw [hguarded]
      cases last with
      | none => exact (ih nofun).trans (or_congr Iff.rfl (iff_of_false not_later_none not_later_none))
      | some s =>
        have hsame : Later (some s) ↔ _ := later_some
        refine (ih ?_).trans (or_congr Iff.rfl (later_some.trans hsame.symm))
        obtain ⟨seen, taken, hpattern, hvalue, hseen⟩ := hpassed s rfl
        rintro _ ⟨⟩
        refine ⟨seen ++ [c], taken ++ [unit], ?_, ?_, List.rel_append hseen (.cons hc .nil)⟩
        · rw [hpattern, List.append_assoc]
          rfl
        · rw [hvalue, List.append_assoc]
          rfl
  | case3 pattern unit value hunit hstar last ih =>
    obtain ⟨rest, rfl⟩ := List.head?_eq_some_iff.mp hstar
    have hhead : (unit :: value).head? ≠ some star := by
      rintro heq
      exact hunit (.inr (hstar.trans heq.symm))
    have hbehind := @exists_suffix_iff _ (unit :: value) (Guarded star questionMark rest)
    rw [ih (passed_star _ _), later_some, guarded_star hhead questionMark_ne_star]
    refine hbehind.symm.trans ⟨.inl, fun h => h.elim id fun hlater => ?_⟩
    -- an attempt behind the star before would have had to pass this one
    obtain ⟨left, hleft, h⟩ := hpassed.later hlater
    obtain ⟨next, hnext, h⟩ := h.tail
    exact ⟨next, hnext.trans hleft, h⟩
  | case4 pattern unit value hunit hstar starPattern starValue hs ih =>
    rw [ih (passed_star _ _), later_some, later_some, or_iff_right (not_guarded_head hunit hstar)]
    exact exists_suffix_iff.symm
  | case5 pattern unit value hunit hstar =>
    refine iff_of_false Bool.false_ne_true fun h => ?_
    exact h.elim (not_guarded_head hunit hstar) not_later_none

theorem globLoop_none (pattern value : List ℕ) :
    globLoop pattern value none = true ↔ Guarded star questionMark pattern value :=
  (globLoop_iff pattern value none nofun).trans (or_iff_left not_later_none)

end Loop

section Node

/-- Characters that the source puts a backslash before. -/
def escaped : JsString := js ".+^$\x7b\x7d()|[]\\"

def globTerm (char : CodePoint) : JsString :=
  if char = .scalar '*' then js ".*"
  else if char = .scalar '?' then js "."
  else if char ∈ escaped then [.scalar '\\', char]
  else [char]

def globMatcher (pattern : JsString) : Option (List Regexes.Term) :=
  Regexes.parse (js "^" ++ pattern.flatMap globTerm ++ js "$")

def globMatches (pattern text : JsString) : Bool :=
  match globMatcher pattern with
  | none => false
  | some matcher => Regexes.test matcher text

/-- What a character of the pattern is read as. -/
def meaning (char : CodePoint) : Regexes.Term :=
  if char = .scalar '*' then .many .any
  else if char = .scalar '?' then .one .any
  else .one (.itself char)

def meaningTokens (char : CodePoint) : List Regexes.Token :=
  if char = .scalar '*' then [.atom .any, .star]
  else if char = .scalar '?' then [.atom .any]
  else [.atom (.itself char)]

theorem mem_syntaxCharacters {char : CodePoint} (hstar : char ≠ .scalar '*')
    (hone : char ≠ .scalar '?') : char ∈ Regexes.syntaxCharacters ↔ char ∈ escaped := by
  have hsyntax : ∀ c ∈ Regexes.syntaxCharacters,
      c = .scalar '*' ∨ c = .scalar '?' ∨ c ∈ escaped := by decide
  have hescaped : ∀ c ∈ escaped, c ∈ Regexes.syntaxCharacters := by decide
  refine ⟨fun h => ?_, hescaped char⟩
  rcases hsyntax char h with heq | heq | hmem
  · exact absurd heq hstar
  · exact absurd heq hone
  · exact hmem

theorem tokens_globTerm (char : CodePoint) (source : JsString) :
    Regexes.tokens (globTerm char ++ source) =
      (Regexes.tokens source).map (meaningTokens char ++ ·) := by
  by_cases hstar : char = .scalar '*'
  · subst hstar
    have hsource : globTerm (.scalar '*') ++ source = .scalar '.' :: .scalar '*' :: source := rfl
    rw [hsource, Regexes.tokens_dot, Regexes.tokens_star, Option.map_map]
    rfl
  by_cases hone : char = .scalar '?'
  · subst hone
    exact Regexes.tokens_dot source
  rw [globTerm, meaningTokens, if_neg hstar, if_neg hone, if_neg hstar, if_neg hone]
  split_ifs with hescaped
  · exact Regexes.tokens_escaped source ((mem_syntaxCharacters hstar hone).mpr hescaped)
  · exact Regexes.tokens_literal source fun h => hescaped ((mem_syntaxCharacters hstar hone).mp h)

theorem tokens_pattern (pattern : JsString) :
    Regexes.tokens (pattern.flatMap globTerm ++ js "$") =
      some (pattern.flatMap meaningTokens ++ [.finish]) := by
  induction pattern with
  | nil => rfl
  | cons char pattern ih =>
    rw [List.flatMap_cons, List.append_assoc, tokens_globTerm, ih, List.flatMap_cons,
      List.append_assoc, Option.map_some]

theorem terms_meaningTokens (char : CodePoint) {rest : List Regexes.Token}
    (hrest : rest.head? ≠ some .star) :
    Regexes.terms (meaningTokens char ++ rest) = (Regexes.terms rest).map (meaning char :: ·) := by
  have hone : ∀ a, Regexes.terms (.atom a :: rest) = (Regexes.terms rest).map (.one a :: ·) := by
    intro a
    rw [Regexes.terms]
    rintro tail rfl
    exact hrest rfl
  rw [meaningTokens, meaning]
  split_ifs
  · exact Regexes.terms.eq_4 .any rest
  · exact hone .any
  · exact hone (.itself char)

theorem terms_pattern (pattern : JsString) :
    Regexes.terms (pattern.flatMap meaningTokens ++ [.finish]) =
      some (pattern.map meaning ++ [.finish]) := by
  have hhead : ∀ pattern : JsString,
      (pattern.flatMap meaningTokens ++ [Regexes.Token.finish]).head? ≠ some .star := by
    intro pattern
    cases pattern with
    | nil => exact nofun
    | cons char pattern =>
      rw [List.flatMap_cons, meaningTokens]
      split_ifs <;> exact nofun
  induction pattern with
  | nil => rfl
  | cons char pattern ih =>
    rw [List.flatMap_cons, List.append_assoc, terms_meaningTokens char (hhead pattern), ih]
    rfl

theorem globMatcher_eq (pattern : JsString) :
    globMatcher pattern = some (.start :: (pattern.map meaning ++ [.finish])) := by
  have htokens : Regexes.tokens (js "^" ++ pattern.flatMap globTerm ++ js "$") =
      some (.start :: (pattern.flatMap meaningTokens ++ [.finish])) := by
    rw [List.append_assoc]
    exact (Regexes.tokens_start _).trans (congrArg (Option.map _) (tokens_pattern pattern))
  rw [globMatcher, Regexes.parse, htokens]
  exact congrArg (Option.map _) (terms_pattern pattern)

theorem matchHere_meaning (pattern text : JsString) (atStart : Bool) :
    Regexes.matchHere (pattern.map meaning ++ [.finish]) atStart text = true ↔
      Splits (.scalar '*') (.scalar '?') pattern text := by
  induction pattern generalizing text atStart with
  | nil =>
    rw [List.map_nil, List.nil_append, Regexes.matchHere, Regexes.matchHere, Bool.and_true,
      List.isEmpty_iff, splits_nil]
  | cons char pattern ih =>
    rw [List.map_cons, List.cons_append, meaning]
    split_ifs with hstar hone
    · subst hstar
      rw [Regexes.matchHere, splits_star (by decide)]
      simp [Regexes.mem_leftovers_any, ih]
    · subst hone
      cases text with
      | nil => simp [Regexes.matchHere, splits_one hstar]
      | cons c text => simp [Regexes.matchHere, Regexes.Atom.takes, ih, splits_one hstar]
    · cases text with
      | nil => simp [Regexes.matchHere, splits_itself hstar hone]
      | cons c text =>
        simp [Regexes.matchHere, Regexes.Atom.takes, ih, splits_itself hstar hone, @eq_comm _ char c]

/-- The generated expression matches what the pattern says. -/
theorem globMatches_iff (pattern text : JsString) :
    globMatches pattern text = true ↔ Splits (.scalar '*') (.scalar '?') pattern text := by
  have htest : globMatches pattern text =
      Regexes.matchHere (pattern.map meaning ++ [.finish]) true text := by
    rw [globMatches, globMatcher_eq]
    exact Regexes.test_anchored _ text
  rw [htest, matchHere_meaning]

end Node

section Native

/-- The matcher of the native backend, on the characters of its strings. -/
def globMatch (pattern text : List Char) : Bool :=
  globLoop (pattern.map Char.toNat) (text.map Char.toNat) none

/-- The number of a code point. -/
def code : CodePoint → ℕ
  | .scalar c => c.toNat
  | .surrogate unit => 0xD800 + unit

theorem code_injective : Function.Injective code := by
  have hchar : ∀ (c : Char) (unit : Fin 2048), c.toNat ≠ 0xD800 + unit := by
    intro c unit heq
    have hvalid : c.toNat.isValidChar := c.valid
    have hunit := unit.isLt
    unfold Nat.isValidChar at hvalid
    omega
  rintro (c | u) (d | v) heq
  · exact congrArg _ (Char.toNat_inj.mp heq)
  · exact absurd heq (hchar c v)
  · exact absurd heq.symm (hchar d u)
  · exact congrArg _ (Fin.ext (Nat.add_left_cancel heq))

theorem map_toNat (s : List Char) : s.map Char.toNat = (ofText s).map code := by
  rw [ofText, List.map_map]
  rfl

theorem globMatch_iff (pattern text : List Char) : globMatch pattern text = true ↔
    Guarded (.scalar '*') (.scalar '?') (ofText pattern) (ofText text) := by
  have hstar : star = code (.scalar '*') := rfl
  have hone : questionMark = code (.scalar '?') := rfl
  rw [globMatch, globLoop_none, map_toNat, map_toNat, hstar, hone]
  exact guarded_map code_injective

end Native

section Agreement

/-- Each of the matchers says what the pattern does, the native one of the texts it can be given:
a star takes any run of characters, a question mark one character, any other character itself. -/
structure Agree (pattern text : JsString) : Prop where
  native : ∀ p t, pattern = ofText p → text = ofText t →
    (globMatch p t = true ↔ Splits (.scalar '*') (.scalar '?') pattern text)
  node : globMatches pattern text = true ↔ Splits (.scalar '*') (.scalar '?') pattern text
  importer : matchesGlob pattern text = true ↔ Splits (.scalar '*') (.scalar '?') pattern text

theorem matchesGlob_iff (pattern text : JsString) : matchesGlob pattern text = true ↔
    Guarded star questionMark (pattern.flatMap CodePoint.units) (text.flatMap CodePoint.units) :=
  globLoop_none _ _

/-- The matchers agree where a text that splits does so with every star that stands before one
taking just that, and where its code units split so if and only if its characters split. -/
theorem agree_iff (pattern text : JsString) : Agree pattern text ↔
    (WellFormed pattern → WellFormed text → Splits (.scalar '*') (.scalar '?') pattern text →
      Guarded (.scalar '*') (.scalar '?') pattern text) ∧
    (Guarded star questionMark (pattern.flatMap CodePoint.units)
      (text.flatMap CodePoint.units) ↔ Splits (.scalar '*') (.scalar '?') pattern text) := by
  constructor
  · intro h
    refine ⟨fun hpattern htext hsplits => ?_, (matchesGlob_iff pattern text).symm.trans h.importer⟩
    have hp := (ofText_toText_iff.mpr hpattern).symm
    have ht := (ofText_toText_iff.mpr htext).symm
    rw [hp, ht, ← globMatch_iff]
    exact (h.native _ _ hp ht).mpr hsplits
  · rintro ⟨hnative, himporter⟩
    refine ⟨?_, globMatches_iff pattern text, (matchesGlob_iff pattern text).trans himporter⟩
    rintro p t rfl rfl
    rw [globMatch_iff]
    exact ⟨Guarded.splits, hnative (wellFormed_ofText p) (wellFormed_ofText t)⟩

/-- A star that stands before one takes no more, and half of a character counts as one. -/
theorem not_agree : ¬ Agree (js "*.conf") (js "*old.conf") ∧
    ¬ Agree (js "a?b") [.scalar 'a', .scalar (Char.ofNat 0x1F980), .scalar 'b'] := by
  constructor
  · intro h
    have hconf : Splits (.scalar '*') (.scalar '?') (js ".conf") (js ".conf") :=
      splits_self (by decide) (by decide)
    have hsplits : Splits (.scalar '*') (.scalar '?') (js "*.conf") (js "*old.conf") :=
      .run ⟨js "*old", rfl⟩ hconf
    have hguarded := ((agree_iff _ _).mp h).1 (wellFormed_ofText _) (wellFormed_ofText _) hsplits
    have hrest : Guarded (.scalar '*') (.scalar '?') (.scalar '.' :: js "conf")
        (.scalar 'o' :: js "ld.conf") := guarded_same.mp hguarded
    exact not_guarded_cons (by decide) (by decide) (by decide) hrest
  · intro h
    have hsplits : Splits (.scalar '*') (.scalar '?') (js "a?b")
        [.scalar 'a', .scalar (Char.ofNat 0x1F980), .scalar 'b'] :=
      .itself (by decide) (by decide) (.one _ (.itself (by decide) (by decide) .nil))
    have hguarded := ((agree_iff _ _).mp h).2.mpr hsplits
    have hpattern : (js "a?b").flatMap CodePoint.units = [97, questionMark, 98] := by decide
    have htext : [.scalar 'a', .scalar (Char.ofNat 0x1F980), .scalar 'b'].flatMap CodePoint.units =
        [97, 0xD83E, 0xDD80, 98] := by decide
    rw [hpattern, htext] at hguarded
    have hrest := (guarded_one questionMark_ne_star).mp (guarded_same.mp hguarded)
    exact not_guarded_cons (by decide) (by decide) (by decide) hrest

theorem flatMap_units {s : JsString} (hs : ∀ c ∈ s, code c < 0x10000) :
    s.flatMap CodePoint.units = s.map code := by
  have hunits : ∀ c ∈ s, c.units = [code c] := by
    intro c hc
    cases c with
    | scalar x => exact if_pos (hs _ hc)
    | surrogate unit => rfl
  rw [← List.flatMap_singleton' (s.map code), List.flatMap_map]
  exact List.flatMap_congr hunits

/-- They agree on texts without a star that have no character outside the basic plane. -/
theorem agree_of_plain {pattern text : JsString} (hstar : .scalar '*' ∉ text)
    (hpattern : ∀ c ∈ pattern, code c < 0x10000) (htext : ∀ c ∈ text, code c < 0x10000) :
    Agree pattern text := by
  refine (agree_iff pattern text).mpr ⟨fun _ _ h => h.guarded hstar, ?_⟩
  have hstars : star = code (.scalar '*') := rfl
  have hone : questionMark = code (.scalar '?') := rfl
  rw [flatMap_units hpattern, flatMap_units htext, hstars, hone]
  exact (guarded_map code_injective).trans ⟨Guarded.splits, fun h => h.guarded hstar⟩

end Agreement

end SshConfig
