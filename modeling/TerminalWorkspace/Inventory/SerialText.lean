import TerminalWorkspace.Foundation.PrefixFree
import TerminalWorkspace.Inventory.Serialization

/-! What a serialisation tells about the value: strings, numbers and arrays are read back
from it, and the entries of an object up to their order. -/
namespace Inventory
open JsText

section Quoted

/-- The value of a hexadecimal digit. -/
def hexDigit : CodePoint → ℕ
  | .scalar c => if c.isDigit then c.toNat - 48 else c.toNat - 87
  | .surrogate _ => 0

def unescape (c : Char) : Char :=
  if c = 'b' then Char.ofNat 0x08
  else if c = 'f' then Char.ofNat 0x0C
  else if c = 'n' then '\n'
  else if c = 'r' then '\r'
  else if c = 't' then '\t'
  else c

def pointOfUnit (unit : ℕ) : CodePoint :=
  if unit < 0xD800 then .scalar (Char.ofNat unit) else .surrogate (Fin.ofNat 2048 (unit - 0xD800))

/-- The first code point of a quoted text. -/
def readPoint : JsString → Option (CodePoint × JsString)
  | .scalar '\\' :: .scalar 'u' :: a :: b :: c :: d :: s =>
    some (pointOfUnit (((hexDigit a * 16 + hexDigit b) * 16 + hexDigit c) * 16 + hexDigit d), s)
  | .scalar '\\' :: .scalar c :: s => some (.scalar (unescape c), s)
  | c :: s => some (c, s)
  | [] => none

theorem hexDigit_digitChar : ∀ d < 16, hexDigit (.scalar (Nat.digitChar d)) = d := by decide

/-- Four digits, the leading zeros written out. -/
theorem padded_toDigits {n : ℕ} (h : n < 65536) :
    List.replicate (4 - (Nat.toDigits 16 n).length) '0' ++ Nat.toDigits 16 n =
      [Nat.digitChar (n / 4096), Nat.digitChar (n / 256 % 16), Nat.digitChar (n / 16 % 16),
        Nat.digitChar (n % 16)] := by
  have hzero : Nat.digitChar 0 = '0' := rfl
  rcases lt_or_ge n 16 with h1 | h1
  · have h2 : n / 4096 = 0 ∧ n / 256 % 16 = 0 ∧ n / 16 % 16 = 0 ∧ n % 16 = n := by omega
    simp [Nat.toDigits_of_lt_base h1, h2, hzero, List.replicate_succ]
  · rw [Nat.toDigits_of_base_le (by decide) h1]
    rcases lt_or_ge (n / 16) 16 with h2 | h2
    · have h3 : n / 4096 = 0 ∧ n / 256 % 16 = 0 ∧ n / 16 % 16 = n / 16 := by omega
      simp [Nat.toDigits_of_lt_base h2, h3, hzero, List.replicate_succ]
    · rw [Nat.toDigits_of_base_le (by decide) h2]
      rcases lt_or_ge (n / 16 / 16) 16 with h3 | h3
      · have h4 : n / 4096 = 0 ∧ n / 256 % 16 = n / 16 / 16 := by omega
        simp [Nat.toDigits_of_lt_base h3, h4, hzero]
      · have h4 : n / 16 / 16 / 16 < 16 := by omega
        have h5 : n / 4096 = n / 16 / 16 / 16 ∧ n / 256 % 16 = n / 16 / 16 % 16 := by omega
        simp [Nat.toDigits_of_base_le (by decide) h3, Nat.toDigits_of_lt_base h4, h5]

theorem readPoint_unitEscape {n : ℕ} (h : n < 65536) (s : JsString) :
    readPoint (unitEscape n ++ s) = some (pointOfUnit n, s) := by
  have hdigits : ((n / 4096 * 16 + n / 256 % 16) * 16 + n / 16 % 16) * 16 + n % 16 = n := by omega
  have hform : unitEscape n ++ s =
      .scalar '\\' :: .scalar 'u' :: .scalar (Nat.digitChar (n / 4096)) ::
        .scalar (Nat.digitChar (n / 256 % 16)) :: .scalar (Nat.digitChar (n / 16 % 16)) ::
        .scalar (Nat.digitChar (n % 16)) :: s := by
    simp only [unitEscape, padded_toDigits h]
    rfl
  rw [hform, readPoint, hexDigit_digitChar _ (by omega), hexDigit_digitChar _ (by omega),
    hexDigit_digitChar _ (by omega), hexDigit_digitChar _ (by omega), hdigits]

theorem readPoint_escape {c : Char} (h : c ≠ 'u') (s : JsString) :
    readPoint (.scalar '\\' :: .scalar c :: s) = some (.scalar (unescape c), s) := by
  rw [readPoint]
  intros
  contradiction

theorem readPoint_plain {c : Char} (h : c ≠ '\\') (s : JsString) :
    readPoint (.scalar c :: s) = some (.scalar c, s) := by
  unfold readPoint
  split <;> simp_all

theorem char_eq_of_toNat {c d : Char} (h : c.toNat = d.toNat) : c = d := Char.toNat_inj.mp h

theorem readPoint_quotePoint (c : CodePoint) (s : JsString) :
    readPoint (quotePoint c ++ s) = some (c, s) := by
  cases c with
  | surrogate unit =>
    have hpoint : pointOfUnit (0xD800 + unit) = .surrogate unit := by
      simp [pointOfUnit]
    rw [quotePoint, readPoint_unitEscape (by omega), hpoint]
  | scalar c =>
    rw [quotePoint]
    split_ifs with hquote hslash hback hfeed hline hreturn htab hcontrol
    · subst hquote; exact readPoint_escape (by decide) s
    · subst hslash; exact readPoint_escape (by decide) s
    · obtain rfl : c = Char.ofNat 0x08 := char_eq_of_toNat hback
      exact readPoint_escape (by decide) s
    · obtain rfl : c = Char.ofNat 0x0C := char_eq_of_toNat hfeed
      exact readPoint_escape (by decide) s
    · subst hline; exact readPoint_escape (by decide) s
    · subst hreturn; exact readPoint_escape (by decide) s
    · subst htab; exact readPoint_escape (by decide) s
    · have hpoint : pointOfUnit c.toNat = .scalar c := by
        rw [pointOfUnit, if_pos (by omega), Char.ofNat_toNat]
      rw [readPoint_unitEscape (by omega), hpoint]
    · exact readPoint_plain hslash s

theorem quotePoint_not_quote (c : CodePoint) (s t : JsString) :
    quotePoint c ++ s ≠ .scalar '"' :: t := by
  intro h
  have hread := readPoint_quotePoint c s
  rw [h, readPoint_plain (by decide)] at hread
  obtain ⟨rfl, -⟩ := Prod.mk.inj (Option.some.inj hread)
  exact absurd (List.head_eq_of_cons_eq h) (by decide)

/-- A quoted string is read as it was written. -/
theorem quote_eq {s t r q : JsString} (h : quote s ++ r = quote t ++ q) : s = t ∧ r = q := by
  have hrest : s.flatMap quotePoint ++ .scalar '"' :: r =
      t.flatMap quotePoint ++ .scalar '"' :: q := by
    simpa [quote, js, ofText] using h
  exact PrefixFree.flatMap_eq readPoint_quotePoint quotePoint_not_quote hrest

end Quoted

section Number

def isNumberPoint : CodePoint → Bool
  | .scalar c => c = '-' || c.isDigit
  | .surrogate _ => false

theorem toString_natCast (n : ℕ) : (toString (n : ℤ)).toList = Nat.toDigits 10 n := by
  rw [Int.toString_eq_repr]
  exact Nat.toList_repr

theorem toString_negSucc (n : ℕ) :
    (toString (Int.negSucc n)).toList = '-' :: Nat.toDigits 10 (n + 1) := by
  rw [Int.toString_eq_repr]
  simp [Int.repr, Nat.toList_repr]

theorem numberText_symbols (n : ℤ) : ∀ c ∈ js (toString n), isNumberPoint c := by
  have hdigits (m : ℕ) : ∀ c ∈ Nat.toDigits 10 m, c.isDigit :=
    fun c hc => Nat.isDigit_of_mem_toDigits (by decide) (by decide) hc
  intro c hc
  obtain ⟨x, hx, rfl⟩ := List.mem_map.mp hc
  cases n with
  | ofNat m =>
    have hx' : x ∈ Nat.toDigits 10 m := by rwa [← toString_natCast]
    simp [isNumberPoint, hdigits m x hx']
  | negSucc m =>
    rw [toString_negSucc] at hx
    rcases List.mem_cons.mp hx with rfl | hx
    · rfl
    · simp [isNumberPoint, hdigits _ x hx]

theorem numberText_ne_nil (n : ℤ) : js (toString n) ≠ [] := by
  intro h
  have hnil : (toString n).toList = [] := List.map_eq_nil_iff.mp h
  cases n with
  | ofNat m => exact Nat.toDigits_ne_nil ((toString_natCast m).symm.trans hnil)
  | negSucc m => exact absurd ((toString_negSucc m).symm.trans hnil) (List.cons_ne_nil _ _)

theorem toDigits_injective : Function.Injective (Nat.toDigits 10) := by
  intro m n h
  rw [← Nat.ofDigitChars_ten_toDigits (n := m), h, Nat.ofDigitChars_ten_toDigits]

theorem toDigits_ne_minus (m : ℕ) (s : List Char) : Nat.toDigits 10 m ≠ '-' :: s := by
  intro h
  have hdigit : '-'.isDigit := Nat.isDigit_of_mem_toDigits (b := 10) (by decide) (by decide)
    (h ▸ List.mem_cons_self)
  exact absurd hdigit (by decide)

theorem numberText_injective : Function.Injective fun n : ℤ => js (toString n) := by
  intro m n h
  have htext := congrArg String.toList (js_injective h)
  cases m with
  | ofNat m =>
    cases n with
    | ofNat n =>
      have := toDigits_injective ((toString_natCast m).symm.trans (htext.trans (toString_natCast n)))
      rw [this]
    | negSucc n =>
      exact absurd ((toString_natCast m).symm.trans (htext.trans (toString_negSucc n)))
        (toDigits_ne_minus _ _)
  | negSucc m =>
    cases n with
    | ofNat n =>
      exact absurd ((toString_natCast n).symm.trans (htext.symm.trans (toString_negSucc m)))
        (toDigits_ne_minus _ _)
    | negSucc n =>
      have := (toString_negSucc m).symm.trans (htext.trans (toString_negSucc n))
      have := toDigits_injective (List.tail_eq_of_cons_eq this)
      rw [Nat.succ.inj this]

end Number

section Value
open PrefixFree

/-- What may follow a value. -/
def ends : Set JsString :=
  {s | ∀ c ∈ s.head?, c = .scalar ',' ∨ c = .scalar ']' ∨ c = .scalar '\x7d'}

theorem separator_ends (s : JsString) : .scalar ',' :: s ∈ ends := by simp [ends]

theorem bracket_ends (s : JsString) : .scalar ']' :: s ∈ ends := by simp [ends]

theorem brace_ends (s : JsString) : .scalar '\x7d' :: s ∈ ends := by simp [ends]

theorem ends_not_number {s : JsString} (h : s ∈ ends) : ∀ c ∈ s.head?, isNumberPoint c = false := by
  intro c hc
  rcases h c hc with rfl | rfl | rfl <;> rfl

inductive JsonKind where
  | undefined
  | bool (b : Bool)
  | number
  | string
  | array
  | object
  | other
  deriving DecidableEq

def JsonValue.kind : JsonValue → JsonKind
  | .undefined => .undefined
  | .bool b => .bool b
  | .number _ => .number
  | .string _ => .string
  | .array _ => .array
  | .object _ => .object

/-- The kind of value that starts with a code point. -/
def kindOf (c : CodePoint) : JsonKind :=
  if isNumberPoint c then .number
  else if c = .scalar '"' then .string
  else if c = .scalar '[' then .array
  else if c = .scalar '\x7b' then .object
  else if c = .scalar 't' then .bool true
  else if c = .scalar 'f' then .bool false
  else if c = .scalar 'u' then .undefined
  else .other

theorem kindOf_serialize (p : Platform) (v : JsonValue) (s : JsString) :
    (stableSerialize p v ++ s).head?.map kindOf = some v.kind := by
  cases v with
  | undefined => rfl
  | bool b => cases b <;> rfl
  | number n =>
    rw [stableSerialize]
    cases hn : js (toString n) with
    | nil => exact absurd hn (numberText_ne_nil n)
    | cons c r =>
      have hc : isNumberPoint c = true := numberText_symbols n c (hn ▸ List.mem_cons_self)
      simp [kindOf, hc, JsonValue.kind]
  | string t => rfl
  | array items => rfl
  | object entries => rfl

theorem kind_eq {p : Platform} {v w : JsonValue} {s t : JsString}
    (h : stableSerialize p v ++ s = stableSerialize p w ++ t) : v.kind = w.kind := by
  have hkind := kindOf_serialize p v s
  rw [h, kindOf_serialize] at hkind
  exact (Option.some.inj hkind).symm

theorem serialize_not_end {p : Platform} {v : JsonValue} {c : CodePoint}
    (hc : kindOf c = .other) (s t : JsString) : stableSerialize p v ++ s ≠ c :: t := by
  intro h
  have hkind := kindOf_serialize p v s
  rw [h, List.head?_cons, Option.map_some, hc] at hkind
  cases v <;> exact absurd hkind (by simp [JsonValue.kind])

/-- The text of one entry of an object. -/
def entryText (e : JsString × JsString) : JsString := quote e.1 ++ js ":" ++ e.2

theorem entryText_injective : Function.Injective entryText := by
  rintro ⟨k, u⟩ ⟨l, v⟩ h
  have h' : quote k ++ (.scalar ':' :: u) = quote l ++ (.scalar ':' :: v) := by
    simpa [entryText, js, ofText] using h
  obtain ⟨rfl, hrest⟩ := quote_eq h'
  rw [List.tail_eq_of_cons_eq hrest]

/-- The sorted entries of an object as they are serialised. -/
def sortedEntries (p : Platform) (entries : List (JsString × JsonValue)) :
    List (JsString × JsString) :=
  sortBy (fun l r => p.localeCompare l.1 r.1) (serializeEntries p entries)

theorem serialize_object (p : Platform) (entries : List (JsString × JsonValue)) (s : JsString) :
    stableSerialize p (.object entries) ++ s = .scalar '\x7b' ::
      ([.scalar ','].intercalate ((sortedEntries p entries).map entryText) ++
        .scalar '\x7d' :: s) := by
  have htext : stableSerialize p (.object entries) =
      js "\x7b" ++ join (js ",") ((sortedEntries p entries).map entryText) ++ js "\x7d" := by
    rw [stableSerialize]
    rfl
  rw [htext]
  simp [join, js, ofText]

variable {p : Platform}

theorem mem_serializeItems {items : List JsonValue} {u : JsString}
    (h : u ∈ serializeItems p items) : ∃ v, u = stableSerialize p v := by
  induction items with
  | nil => cases h
  | cons item items ih =>
    rw [serializeItems] at h
    rcases List.mem_cons.mp h with rfl | h
    · exact ⟨item, rfl⟩
    · exact ih h

theorem mem_serializeEntries {entries : List (JsString × JsonValue)} {e : JsString × JsString}
    (h : e ∈ serializeEntries p entries) : ∃ v, e.2 = stableSerialize p v := by
  induction entries with
  | nil => cases h
  | cons entry entries ih =>
    rw [serializeEntries] at h
    rcases List.mem_cons.mp h with rfl | h
    · exact ⟨entry.2, rfl⟩
    · exact ih h

def entryTexts (p : Platform) : Set JsString :=
  {u | ∃ k v, u = entryText (k, stableSerialize p v)}

theorem items_eq {items others : List JsonValue} {s t : JsString}
    (hread : ∀ u ∈ serializeItems p items, ReadAlone (Set.range (stableSerialize p)) ends u)
    (h : stableSerialize p (.array items) ++ s = stableSerialize p (.array others) ++ t) :
    serializeItems p items = serializeItems p others ∧ s = t := by
  have hclosed : [.scalar ','].intercalate (serializeItems p items) ++ .scalar ']' :: s =
      [.scalar ','].intercalate (serializeItems p others) ++ .scalar ']' :: t := by
    simpa [stableSerialize, join, js, ofText] using h
  have hstart : ∀ w ∈ Set.range (stableSerialize p), ∀ r q, w ++ r ≠ .scalar ']' :: q := by
    rintro _ ⟨v, rfl⟩ r q
    exact serialize_not_end (by decide) r q
  refine separated_eq (by decide) separator_ends bracket_ends hstart ?_ ?_ hclosed
  · intro u hu
    obtain ⟨v, hv⟩ := mem_serializeItems hu
    exact ⟨⟨v, hv.symm⟩, hread u hu⟩
  · intro u hu
    obtain ⟨v, hv⟩ := mem_serializeItems hu
    exact ⟨v, hv.symm⟩

theorem entries_eq {entries others : List (JsString × JsonValue)} {s t : JsString}
    (hread : ∀ e ∈ serializeEntries p entries,
      ReadAlone (Set.range (stableSerialize p)) ends e.2)
    (h : stableSerialize p (.object entries) ++ s = stableSerialize p (.object others) ++ t) :
    sortedEntries p entries = sortedEntries p others ∧ s = t := by
  rw [serialize_object, serialize_object] at h
  have hclosed := List.tail_eq_of_cons_eq h
  have hmem (es : List (JsString × JsonValue)) :
      ∀ u ∈ (sortedEntries p es).map entryText, ∃ e ∈ serializeEntries p es, u = entryText e := by
    intro u hu
    obtain ⟨e, he, rfl⟩ := List.mem_map.mp hu
    exact ⟨e, mem_sortBy.mp he, rfl⟩
  have hwords (es : List (JsString × JsonValue)) :
      ∀ u ∈ (sortedEntries p es).map entryText, u ∈ entryTexts p := by
    intro u hu
    obtain ⟨e, he, rfl⟩ := hmem es u hu
    obtain ⟨v, hv⟩ := mem_serializeEntries he
    exact ⟨e.1, v, by rw [← hv]⟩
  have hstart : ∀ w ∈ entryTexts p, ∀ r q, w ++ r ≠ .scalar '\x7d' :: q := by
    rintro _ ⟨k, v, rfl⟩ r q
    simp [entryText, quote, js, ofText]
  have halone : ∀ u ∈ (sortedEntries p entries).map entryText,
      ReadAlone (entryTexts p) ends u := by
    intro u hu
    obtain ⟨⟨k, text⟩, he, rfl⟩ := hmem entries u hu
    rintro _ ⟨l, v, rfl⟩ r hr q hq hrq
    have hquoted : quote k ++ (.scalar ':' :: (text ++ r)) =
        quote l ++ (.scalar ':' :: (stableSerialize p v ++ q)) := by
      simpa [entryText, js, ofText] using hrq
    obtain ⟨rfl, hrest⟩ := quote_eq hquoted
    obtain ⟨rfl, rfl⟩ := hread _ he _ ⟨v, rfl⟩ r hr q hq (List.tail_eq_of_cons_eq hrest)
    exact ⟨rfl, rfl⟩
  obtain ⟨htexts, hst⟩ := separated_eq (by decide) separator_ends brace_ends hstart
    (fun u hu => ⟨hwords entries u hu, halone u hu⟩) (hwords others) hclosed
  exact ⟨List.map_injective_iff.mpr entryText_injective htexts, hst⟩

mutual

/-- A serialisation is read alone where a separator or a closing bracket follows. -/
theorem readAlone_serialize (p : Platform) :
    (v : JsonValue) → ReadAlone (Set.range (stableSerialize p)) ends (stableSerialize p v)
  | .undefined => by
    rintro _ ⟨w, rfl⟩ s - t - h
    have hkind := kind_eq h
    cases w with
    | undefined => exact ⟨rfl, List.append_cancel_left h⟩
    | _ => cases hkind
  | .bool b => by
    rintro _ ⟨w, rfl⟩ s - t - h
    have hkind := kind_eq h
    cases w with
    | bool c =>
      obtain rfl : b = c := JsonKind.bool.inj hkind
      exact ⟨rfl, List.append_cancel_left h⟩
    | _ => cases hkind
  | .number m => by
    rintro _ ⟨w, rfl⟩ s hs t ht h
    have hkind := kind_eq h
    cases w with
    | number n =>
      exact run_eq (numberText_symbols m) (numberText_symbols n) (ends_not_number hs)
        (ends_not_number ht) h
    | _ => cases hkind
  | .string u => by
    rintro _ ⟨w, rfl⟩ s - t - h
    have hkind := kind_eq h
    cases w with
    | string v =>
      obtain ⟨rfl, hst⟩ := quote_eq h
      exact ⟨rfl, hst⟩
    | _ => cases hkind
  | .array items => by
    rintro _ ⟨w, rfl⟩ s - t - h
    have hkind := kind_eq h
    cases w with
    | array others =>
      obtain ⟨hitems, hst⟩ := items_eq (readAlone_items p items) h
      exact ⟨by rw [stableSerialize, hitems, stableSerialize], hst⟩
    | _ => cases hkind
  | .object entries => by
    rintro _ ⟨w, rfl⟩ s - t - h
    have hkind := kind_eq h
    cases w with
    | object others =>
      obtain ⟨hentries, hst⟩ := entries_eq (readAlone_entries p entries) h
      rw [hst] at h
      exact ⟨List.append_cancel_right h, hst⟩
    | _ => cases hkind

theorem readAlone_items (p : Platform) : (items : List JsonValue) →
    ∀ u ∈ serializeItems p items, ReadAlone (Set.range (stableSerialize p)) ends u
  | [] => nofun
  | item :: items => by
    intro u hu
    rw [serializeItems] at hu
    rcases List.mem_cons.mp hu with rfl | hu
    · exact readAlone_serialize p item
    · exact readAlone_items p items u hu

theorem readAlone_entries (p : Platform) : (entries : List (JsString × JsonValue)) →
    ∀ e ∈ serializeEntries p entries, ReadAlone (Set.range (stableSerialize p)) ends e.2
  | [] => nofun
  | (key, value) :: entries => by
    intro e he
    rw [serializeEntries] at he
    rcases List.mem_cons.mp he with rfl | he
    · exact readAlone_serialize p value
    · exact readAlone_entries p entries e he

end

end Value

end Inventory
