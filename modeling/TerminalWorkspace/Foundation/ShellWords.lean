import Mathlib.Data.List.Basic

/-! How a POSIX shell reads the words of its input: blanks and operators end a word, quotes and
backslashes take characters for themselves. Reading stops at a character that may begin an
expansion outside of single quotes; longer operators are read as their characters, one after the
other, and a NUL as any other character. -/
namespace ShellWords

inductive Token where
  | word (text : List Char)
  | operator (c : Char)
  /-- What was read of a word, and the rest from an expansion on, which is left unread. -/
  | unread (text rest : List Char)
  /-- The input ends inside a quoted part. -/
  | unclosed
  deriving DecidableEq, Repr

/-- Where the reader stands, with what it has read of the word. A backslash may stand where no
word has begun, since with the line end behind it, it is no part of one. -/
inductive Mode where
  | between
  | comment
  | word (text : List Char)
  | single (text : List Char)
  | double (text : List Char)
  | escaped (text : Option (List Char))
  | doubleEscaped (text : List Char)
  deriving DecidableEq, Repr

def blanks : List Char := [' ', '\t']

def operators : List Char := ";&|()<>\n".toList

/-- The characters that may begin an expansion. -/
def expanding : List Char := "$`*?[~".toList

/-- The characters that a shell does not read for themselves inside of a word. -/
def special : List Char := blanks ++ operators ++ ['\'', '\x22', '\\'] ++ expanding

def isBlank (c : Char) : Bool := blanks.contains c

def isOperator (c : Char) : Bool := operators.contains c

def mayExpand (c : Char) : Bool := expanding.contains c

def expandsInDouble (c : Char) : Bool := "$`".toList.contains c

/-- A character that belongs to a word, after `text` of it, outside of quotes. -/
def wordMode (text : Option (List Char)) (c : Char) : Option Mode :=
  if c = '\'' then some (.single (text.getD []))
  else if c = '\x22' then some (.double (text.getD []))
  else if c = '\\' then some (.escaped text)
  else if mayExpand c then none
  else some (.word (text.getD [] ++ [c]))

def read : Mode → List Char → List Token
  | .between, [] => []
  | .comment, [] => []
  | .word text, [] => [.word text]
  | _, [] => [.unclosed]
  | .between, c :: rest =>
    if isBlank c then read .between rest
    else if isOperator c then .operator c :: read .between rest
    else if c = '#' then read .comment rest
    else match wordMode none c with
      | some mode => read mode rest
      | none => [.unread [] (c :: rest)]
  | .comment, c :: rest =>
    if c = '\n' then .operator c :: read .between rest else read .comment rest
  | .word text, c :: rest =>
    if isBlank c then .word text :: read .between rest
    else if isOperator c then .word text :: .operator c :: read .between rest
    else match wordMode (some text) c with
      | some mode => read mode rest
      | none => [.unread text (c :: rest)]
  | .single text, c :: rest =>
    if c = '\'' then read (.word text) rest else read (.single (text ++ [c])) rest
  | .double text, c :: rest =>
    if c = '\x22' then read (.word text) rest
    else if c = '\\' then read (.doubleEscaped text) rest
    else if expandsInDouble c then [.unread text (c :: rest)]
    else read (.double (text ++ [c])) rest
  | .escaped text, c :: rest =>
    if c = '\n' then
      match text with
      | some text => read (.word text) rest
      | none => read .between rest
    else read (.word (text.getD [] ++ [c])) rest
  | .doubleEscaped text, c :: rest =>
    if c = '\n' then read (.double text) rest
    else if c = '\x22' ∨ c = '\\' ∨ expandsInDouble c then read (.double (text ++ [c])) rest
    else read (.double (text ++ ['\\', c])) rest

attribute [grind =] read

/-- A text between single quotes, where a quote of the text is put behind a backslash between two
quoted parts. -/
def singleQuoted (text : List Char) : List Char :=
  '\'' :: (text.flatMap fun c => if c = '\'' then "'\\''".toList else [c]) ++ ['\'']

/-- A character that is read for itself everywhere in a word but at its start. -/
def IsPlain (c : Char) : Prop :=
  isBlank c = false ∧ isOperator c = false ∧ c ≠ '\'' ∧ c ≠ '\x22' ∧ c ≠ '\\' ∧ mayExpand c = false

instance (c : Char) : Decidable (IsPlain c) := inferInstanceAs (Decidable (_ ∧ _))

theorem isPlain_of_not_special {c : Char} (h : c ∉ special) : IsPlain c := by
  simp only [special, List.mem_append, not_or] at h
  obtain ⟨⟨⟨hblank, hoperator⟩, hquoting⟩, hexpand⟩ := h
  have hne : ∀ quoting ∈ ['\'', '\x22', '\\'], c ≠ quoting :=
    fun quoting hmem heq => hquoting (heq ▸ hmem)
  refine ⟨?_, ?_, hne _ (by simp), hne _ (by simp), hne _ (by simp), ?_⟩
  · exact Bool.eq_false_iff.mpr (mt List.contains_iff_mem.mp hblank)
  · exact Bool.eq_false_iff.mpr (mt List.contains_iff_mem.mp hoperator)
  · exact Bool.eq_false_iff.mpr (mt List.contains_iff_mem.mp hexpand)

theorem read_blank {c : Char} (hc : isBlank c = true) (rest : List Char) :
    read .between (c :: rest) = read .between rest := by
  rw [read, if_pos hc]

/-- A blank ends a word. -/
theorem read_word_blank {c : Char} (hc : isBlank c = true) (text rest : List Char) :
    read (.word text) (c :: rest) = .word text :: read .between rest := by
  rw [read, if_pos hc]

theorem read_word_operator {c : Char} (hblank : isBlank c = false) (hc : isOperator c = true)
    (text rest : List Char) :
    read (.word text) (c :: rest) = .word text :: .operator c :: read .between rest := by
  rw [read, hblank, if_neg Bool.false_ne_true, if_pos hc]

theorem read_word_plain {text : List Char} (htext : ∀ c ∈ text, IsPlain c) (word rest : List Char) :
    read (.word word) (text ++ rest) = read (.word (word ++ text)) rest := by
  induction text generalizing word with
  | nil => rw [List.nil_append, List.append_nil]
  | cons c text ih =>
    obtain ⟨⟨hblank, hoperator, hsingle, hdouble, hescape, hexpand⟩, htext⟩ :=
      List.forall_mem_cons.mp htext
    have hmode : wordMode (some word) c = some (.word (word ++ [c])) := by
      simp [wordMode, hsingle, hdouble, hescape, hexpand]
    rw [List.cons_append, read, hblank, hoperator, if_neg Bool.false_ne_true,
      if_neg Bool.false_ne_true, hmode]
    simp only [ih htext, List.append_assoc, List.singleton_append]

/-- A word of plain characters, the first of which begins no comment. -/
theorem read_plain {text : List Char} (hne : text ≠ []) (hhash : text.head? ≠ some '#')
    (htext : ∀ c ∈ text, IsPlain c) (rest : List Char) :
    read .between (text ++ rest) = read (.word text) rest := by
  cases text with
  | nil => exact absurd rfl hne
  | cons c text =>
    obtain ⟨⟨hblank, hoperator, hsingle, hdouble, hescape, hexpand⟩, htext⟩ :=
      List.forall_mem_cons.mp htext
    have hmode : wordMode none c = some (.word [c]) := by
      simp [wordMode, hsingle, hdouble, hescape, hexpand]
    have hc : c ≠ '#' := fun heq => hhash (congrArg some heq)
    rw [List.cons_append, read, hblank, hoperator, if_neg Bool.false_ne_true,
      if_neg Bool.false_ne_true, if_neg hc, hmode]
    exact read_word_plain htext [c] rest

/-- Between quotes, and again behind the quote that closes them. -/
theorem read_single (text word rest : List Char) :
    read (.single word)
        (text.flatMap (fun c => if c = '\'' then "'\\''".toList else [c]) ++ '\'' :: rest) =
      read (.word (word ++ text)) rest := by
  induction text generalizing word with
  | nil => simp [read]
  | cons c text ih =>
    rw [List.flatMap_cons, List.append_assoc]
    by_cases hc : c = '\''
    · -- the quote closes, stands behind the backslash, and opens again
      subst hc
      have hquote : ∀ tail, read (.single word) ("'\\''".toList ++ tail) =
          read (.single (word ++ ['\''])) tail := fun tail => rfl
      rw [if_pos rfl, hquote, ih, List.append_assoc, List.singleton_append]
    · rw [if_neg hc, List.singleton_append, read, if_neg hc, ih, List.append_assoc,
        List.singleton_append]

theorem singleQuoted_append (text rest : List Char) :
    singleQuoted text ++ rest = '\'' ::
      (text.flatMap (fun c => if c = '\'' then "'\\''".toList else [c]) ++ '\'' :: rest) := by
  simp [singleQuoted]

/-- A text between single quotes is one word, whatever it holds. -/
theorem read_singleQuoted (text rest : List Char) :
    read .between (singleQuoted text ++ rest) = read (.word text) rest := by
  rw [singleQuoted_append]
  exact read_single text [] rest

/-- A quoted text behind what is read of a word belongs to it. -/
theorem read_word_singleQuoted (word text rest : List Char) :
    read (.word word) (singleQuoted text ++ rest) = read (.word (word ++ text)) rest := by
  rw [singleQuoted_append]
  exact read_single text word rest

/-- What reads as a word each, read with blanks between. -/
theorem read_intercalate {write : List Char → List Char} {texts : List (List Char)}
    (hwrite : ∀ text ∈ texts, ∀ rest, read .between (write text ++ rest) = read (.word text) rest) :
    read .between (List.intercalate [' '] (texts.map write)) = texts.map Token.word := by
  induction texts with
  | nil => rfl
  | cons text texts ih =>
    obtain ⟨htext, htexts⟩ := List.forall_mem_cons.mp hwrite
    cases texts with
    | nil =>
      have hread := htext []
      rw [List.append_nil] at hread
      rw [List.map_cons, List.map_nil, List.intercalate_singleton, hread]
      rfl
    | cons next texts =>
      rw [List.map_cons, List.map_cons, List.intercalate_cons_cons, List.append_assoc, htext,
        List.singleton_append, read_word_blank rfl, ← List.map_cons, ih htexts]
      rfl

end ShellWords
