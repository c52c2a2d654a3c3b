import Mathlib.Data.List.Infix
import TerminalWorkspace.Foundation.JsText

/-! Regular expressions of JavaScript with the flags `u` and `s`, as far as they are made of
characters, dots and their repetitions between anchors. Any other construct is not read. -/
namespace Regexes
open JsText

/-- Characters that stand for themselves only behind a backslash. -/
def syntaxCharacters : JsString := js "^$\\.*+?()[]\x7b\x7d|"

inductive Atom where
  | any
  | itself (c : CodePoint)
  deriving DecidableEq, Repr

inductive Token where
  | start
  | finish
  | atom (a : Atom)
  | star
  deriving DecidableEq, Repr

inductive Term where
  | start
  | finish
  | one (a : Atom)
  | many (a : Atom)
  deriving DecidableEq, Repr

def tokens : JsString → Option (List Token)
  | [] => some []
  | c :: source =>
    if c = .scalar '^' then (tokens source).map (.start :: ·)
    else if c = .scalar '$' then (tokens source).map (.finish :: ·)
    else if c = .scalar '.' then (tokens source).map (.atom .any :: ·)
    else if c = .scalar '*' then (tokens source).map (.star :: ·)
    else if c = .scalar '\\' then
      match source with
      | [] => none
      | d :: source =>
        if d ∈ syntaxCharacters then (tokens source).map (.atom (.itself d) :: ·) else none
    else if c ∈ syntaxCharacters then none
    else (tokens source).map (.atom (.itself c) :: ·)

attribute [grind =] tokens

section Tokens
variable (source : JsString)

theorem tokens_start : tokens (.scalar '^' :: source) = (tokens source).map (.start :: ·) := by
  rw [tokens.eq_def]
  rfl

theorem tokens_dot : tokens (.scalar '.' :: source) = (tokens source).map (.atom .any :: ·) := by
  rw [tokens.eq_def]
  rfl

theorem tokens_star : tokens (.scalar '*' :: source) = (tokens source).map (.star :: ·) := by
  rw [tokens.eq_def]
  rfl

theorem tokens_escaped {d : CodePoint} (hd : d ∈ syntaxCharacters) :
    tokens (.scalar '\\' :: d :: source) = (tokens source).map (.atom (.itself d) :: ·) := by
  rw [tokens.eq_def]
  exact if_pos hd

theorem tokens_literal {c : CodePoint} (hc : c ∉ syntaxCharacters) :
    tokens (c :: source) = (tokens source).map (.atom (.itself c) :: ·) := by
  have hne : ∀ other ∈ syntaxCharacters, c ≠ other := fun other hother heq => hc (heq ▸ hother)
  rw [tokens.eq_def]
  simp only [if_neg (hne (.scalar '^') (by decide)), if_neg (hne (.scalar '$') (by decide)),
    if_neg (hne (.scalar '.') (by decide)), if_neg (hne (.scalar '*') (by decide)),
    if_neg (hne (.scalar '\\') (by decide)), if_neg hc]

end Tokens

/-- A star repeats the atom before it, and stands nowhere else. -/
def terms : List Token → Option (List Term)
  | [] => some []
  | .start :: rest => (terms rest).map (.start :: ·)
  | .finish :: rest => (terms rest).map (.finish :: ·)
  | .atom a :: .star :: rest => (terms rest).map (.many a :: ·)
  | .atom a :: rest => (terms rest).map (.one a :: ·)
  | .star :: _ => none

def parse (source : JsString) : Option (List Term) := (tokens source).bind terms

/-- With the flag `s` a dot takes a line end too, with `u` it takes a whole code point. -/
def Atom.takes : Atom → CodePoint → Bool
  | .any, _ => true
  | .itself c, d => c = d

/-- What is left where an atom has been repeated. -/
def leftovers (a : Atom) : JsString → List JsString
  | [] => [[]]
  | c :: text => (c :: text) :: if a.takes c then leftovers a text else []

/-- The terms match here, at the start of the text or behind it. -/
def matchHere : List Term → Bool → JsString → Bool
  | [], _, _ => true
  | .start :: rest, atStart, text => atStart && matchHere rest atStart text
  | .finish :: rest, atStart, text => text.isEmpty && matchHere rest atStart text
  | .one _ :: _, _, [] => false
  | .one a :: rest, _, c :: text => a.takes c && matchHere rest false text
  | .many a :: rest, atStart, text =>
    (leftovers a text).any fun left => matchHere rest (atStart && left.length = text.length) left

attribute [grind =] matchHere

/-- `test` looks at every place of the text. -/
def test (regex : List Term) (text : JsString) : Bool :=
  matchHere regex true text || text.tails.tail.any (matchHere regex false)

theorem mem_leftovers_any {text left : JsString} : left ∈ leftovers .any text ↔ left <:+ text := by
  induction text with
  | nil => simp [leftovers]
  | cons c text ih => simp [leftovers, Atom.takes, ih, List.suffix_cons_iff]

/-- An expression that begins with an anchor matches at the start or nowhere. -/
theorem test_anchored (regex : List Term) (text : JsString) :
    test (.start :: regex) text = matchHere regex true text := by
  have hlater : ∀ later, matchHere (.start :: regex) false later = false := fun _ => rfl
  simp [test, matchHere, hlater]

end Regexes
