import TerminalWorkspace.Foundation.Utf8
import TerminalWorkspace.Foundation.RecordFile

/-! JavaScript text. A string is read by code point, and a surrogate stands for
itself where it has no partner; only such a surrogate has no UTF-8 encoding of
its own. -/
namespace JsText
open RecordFile

/-- What holds of every character of a given text. -/
theorem forall_mem_of_all {α : Type*} {p : α → Prop} [DecidablePred p] {l : List α}
    (h : (l.all fun c => decide (p c)) = true) : ∀ c ∈ l, p c := by
  simpa using h

inductive CodePoint where
  | scalar (c : Char)
  | surrogate (unit : Fin 2048)
  deriving DecidableEq, Repr

abbrev JsString := List CodePoint

instance : LawfulBEq JsString := inferInstance

instance neZero_surrogates : NeZero 2048 := ⟨by decide⟩

def ofText (s : List Char) : JsString := s.map .scalar

/-- A literal of the source. -/
def js (s : String) : JsString := ofText s.toList

/-- The UTF-16 code units of a code point. -/
def CodePoint.units : CodePoint → List ℕ
  | .scalar c =>
    if c.toNat < 0x10000 then [c.toNat]
    else [0xD800 + (c.toNat - 0x10000) / 0x400, 0xDC00 + (c.toNat - 0x10000) % 0x400]
  | .surrogate unit => [0xD800 + unit]

/-- The operator `<` on strings, which compares code units. -/
def before (s t : JsString) : Bool := s.flatMap CodePoint.units < t.flatMap CodePoint.units

/-- What the language leaves to the platform: the collation of the locale, and the
instant `Date.parse` reads, `none` for `NaN`. -/
structure Platform where
  localeCompare : JsString → JsString → Ordering
  dateParse : JsString → Option ℤ

/-- What the language says of `localeCompare`: it orders all strings. -/
structure Platform.Collates (p : Platform) : Prop where
  total : ∀ s t, p.localeCompare s t = .gt → p.localeCompare t s ≠ .gt
  trans : ∀ s t u, p.localeCompare s t ≠ .gt → p.localeCompare t u ≠ .gt →
    p.localeCompare s u ≠ .gt

/-- The scalar value that encoding writes: a lone surrogate becomes U+FFFD. -/
def CodePoint.toScalar : CodePoint → Char
  | .scalar c => c
  | .surrogate _ => Char.ofNat 0xFFFD

def toText (s : JsString) : List Char := s.map CodePoint.toScalar

/-- `Buffer.from(s, "utf8")`. -/
def utf8Bytes (s : JsString) : List UInt8 := Utf8.encode (toText s)

/-- What `\s` and `trim` call white space. -/
def spaceCodes : List ℕ :=
  [0x09, 0x0A, 0x0B, 0x0C, 0x0D, 0x20, 0xA0, 0x1680, 0x2000, 0x2001, 0x2002, 0x2003, 0x2004,
    0x2005, 0x2006, 0x2007, 0x2008, 0x2009, 0x200A, 0x2028, 0x2029, 0x202F, 0x205F, 0x3000, 0xFEFF]

def isSpaceChar (c : Char) : Bool := c.toNat ∈ spaceCodes

def isSpace : CodePoint → Bool
  | .scalar c => isSpaceChar c
  | .surrogate _ => false

/-- `new TextDecoder("utf-8", { fatal: true }).decode(bytes)`, which drops a byte order mark. -/
def decodeText (bytes : List UInt8) : Option JsString :=
  (Utf8.decodeStrict bytes).map fun s =>
    ofText (if s.head? = some (Char.ofNat 0xFEFF) then s.tail else s)

/-- Every code point has an encoding of its own. -/
def WellFormed (s : JsString) : Prop := ∀ c ∈ s, ∃ x, c = .scalar x

@[simp] theorem toText_ofText (s : List Char) : toText (ofText s) = s := by
  simp [toText, ofText, CodePoint.toScalar, Function.comp_def]

@[simp] theorem ofText_append (s t : List Char) : ofText (s ++ t) = ofText s ++ ofText t :=
  List.map_append

@[simp] theorem toText_append (s t : JsString) : toText (s ++ t) = toText s ++ toText t :=
  List.map_append

@[simp] theorem utf8Bytes_append (s t : JsString) :
    utf8Bytes (s ++ t) = utf8Bytes s ++ utf8Bytes t := by simp [utf8Bytes]

@[simp] theorem length_toText (s : JsString) : (toText s).length = s.length := List.length_map _

theorem ofText_injective : Function.Injective ofText :=
  List.map_injective_iff.mpr fun _ _ h => CodePoint.scalar.inj h

theorem js_injective : Function.Injective js :=
  fun _ _ h => String.toList_injective (ofText_injective h)

theorem wellFormed_ofText (s : List Char) : WellFormed (ofText s) := by
  simp [WellFormed, ofText]

theorem ofText_toText_iff {s : JsString} : ofText (toText s) = s ↔ WellFormed s := by
  constructor
  · intro h
    exact h ▸ wellFormed_ofText _
  · intro h
    induction s with
    | nil => rfl
    | cons c s ih =>
      obtain ⟨x, rfl⟩ := h c List.mem_cons_self
      have hs := ih fun d hd => h d (List.mem_cons_of_mem _ hd)
      simpa [ofText, toText, CodePoint.toScalar] using hs

/-- What a text is read back as. -/
def readBack (s : JsString) : JsString := ofText (toText s)

@[simp] theorem readBack_append (s t : JsString) :
    readBack (s ++ t) = readBack s ++ readBack t := by simp [readBack]

@[simp] theorem readBack_nil : readBack [] = [] := rfl

@[simp] theorem readBack_cons_scalar (c : Char) (s : JsString) :
    readBack (.scalar c :: s) = .scalar c :: readBack s := rfl

@[simp] theorem readBack_ofText (s : List Char) : readBack (ofText s) = ofText s := by
  simp [readBack]

theorem readBack_eq_self {s : JsString} (h : WellFormed s) : readBack s = s :=
  ofText_toText_iff.mpr h

@[simp] theorem length_readBack (s : JsString) : (readBack s).length = s.length := by
  simp [readBack, ofText]

/-- Appended text is decoded where it stands. -/
theorem decodeText_append {bytes : List UInt8} {text s : JsString}
    (h : decodeText bytes = some text)
    (hs : (toText s).head? ≠ some (Char.ofNat 0xFEFF)) :
    decodeText (bytes ++ utf8Bytes s) = some (text ++ readBack s) := by
  obtain ⟨t, ht, rfl⟩ := Option.map_eq_some_iff.mp h
  rw [decodeText, Utf8.decodeStrict_append ht, utf8Bytes, Utf8.decodeStrict_encode, Option.map_some,
    Option.map_some]
  refine congrArg some ?_
  cases t with
  | nil => simp [hs, readBack, ofText]
  | cons c t =>
    by_cases hc : c = Char.ofNat 0xFEFF <;> simp [hc, readBack, ofText]

/-- A file that ends in a line break reads as text that ends in one. -/
theorem decodeText_concat_newline {bytes : List UInt8} {text : JsString}
    (h : decodeText (bytes ++ [0x0A]) = some text) : ∃ s, text = s ++ [.scalar '\n'] := by
  obtain ⟨t, ht, rfl⟩ := Option.map_eq_some_iff.mp h
  obtain ⟨s, -, rfl⟩ := Utf8.decodeStrict_concat_ascii (by decide) ht
  have hnl : Char.ofNat (0x0A : UInt8).toNat = '\n' := rfl
  rw [hnl]
  cases s with
  | nil => exact ⟨[], rfl⟩
  | cons c s =>
    by_cases hc : c = Char.ofNat 0xFEFF
    · exact ⟨ofText s, by simp [hc, ofText]⟩
    · exact ⟨ofText (c :: s), by simp [hc, ofText]⟩

end JsText
