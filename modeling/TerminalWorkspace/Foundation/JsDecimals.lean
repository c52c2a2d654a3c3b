import TerminalWorkspace.Foundation.JsNumbers

/-! JavaScript numbers, each kept by the decimal that denotes it in the fewest digits, and
their text, which tells any two of them apart. -/
namespace JsNumbers
open JsText

section Numbers

/-- The digits from the first to the last that is not zero, and the place of the point: at
`0`, the value is nought point the digits. -/
structure Decimal where
  digits : List Char
  point : ℤ
  nonempty : digits ≠ []
  digit : ∀ c ∈ digits, c.isDigit = true
  first : ∀ c ∈ digits.head?, c ≠ '0'
  last : ∀ c ∈ digits.getLast?, c ≠ '0'

/-- The two zeros, which `===` takes for one, are one number. -/
inductive Number where
  | nan
  | infinite (negative : Bool)
  | zero
  | decimal (negative : Bool) (value : Decimal)

def exponentText (exponent : ℤ) : List Char :=
  'e' :: (if exponent < 0 then '-' else '+') :: Nat.toDigits 10 exponent.natAbs

/-- `String(number)` of a number that is greater than zero. -/
def Decimal.text (value : Decimal) : List Char :=
  let count : ℤ := value.digits.length
  if count ≤ value.point ∧ value.point ≤ 21 then
    value.digits ++ List.replicate (value.point - count).toNat '0'
  else if 0 < value.point ∧ value.point ≤ 21 then
    value.digits.take value.point.toNat ++ '.' :: value.digits.drop value.point.toNat
  else if -6 < value.point ∧ value.point ≤ 0 then
    '0' :: '.' :: List.replicate (-value.point).toNat '0' ++ value.digits
  else
    match value.digits with
    | first :: second :: rest =>
      first :: '.' :: second :: rest ++ exponentText (value.point - 1)
    | short => short ++ exponentText (value.point - 1)

/-- `String(number)`. -/
def Number.text : Number → List Char
  | .nan => "NaN".toList
  | .infinite negative => (if negative then ['-'] else []) ++ "Infinity".toList
  | .zero => ['0']
  | .decimal negative value => (if negative then ['-'] else []) ++ value.text

/-- The first digit of a number is not zero. -/
theorem head_toDigits {n : ℕ} (h : 0 < n) : ∀ c ∈ (Nat.toDigits 10 n).head?, c ≠ '0' := by
  induction n using Nat.strong_induction_on with
  | _ n ih =>
    intro c hc
    rcases lt_or_ge n 10 with hlt | hge
    · rw [Nat.toDigits_of_lt_base hlt, List.head?_cons, Option.mem_some_iff] at hc
      have hdigits : ∀ d < 10, 0 < d → Nat.digitChar d ≠ '0' := by decide
      exact hc ▸ hdigits n hlt h
    · rw [Nat.toDigits_of_base_le (by decide) hge,
        List.head?_append_of_ne_nil _ Nat.toDigits_ne_nil] at hc
      exact ih (n / 10) (by omega) (by omega) c hc

theorem toDigits_not_zeros {n : ℕ} (h : 0 < n) : (Nat.toDigits 10 n).rdropWhile (· = '0') ≠ [] := by
  intro hnil
  have hfirst := head_toDigits h
  cases hdigits : Nat.toDigits 10 n with
  | nil => exact Nat.toDigits_ne_nil hdigits
  | cons c digits =>
    rw [hdigits] at hnil hfirst
    have hzero := List.rdropWhile_eq_nil_iff.mp hnil c List.mem_cons_self
    exact hfirst c rfl (of_decide_eq_true hzero)

/-- A count of things, as a number. -/
def Decimal.ofPos (n : ℕ) (h : 0 < n) : Decimal where
  digits := (Nat.toDigits 10 n).rdropWhile (· = '0')
  point := (Nat.toDigits 10 n).length
  nonempty := toDigits_not_zeros h
  digit := fun c hc => Nat.isDigit_of_mem_toDigits (by decide) (by decide)
    ((List.rdropWhile_prefix _ _).subset hc)
  first := by
    obtain ⟨zeros, hzeros⟩ := List.rdropWhile_prefix (· = '0') (Nat.toDigits 10 n)
    have hhead := head_toDigits h
    rw [← hzeros, List.head?_append_of_ne_nil _ (toDigits_not_zeros h)] at hhead
    exact hhead
  last := by
    intro c hc
    have hlast := List.rdropWhile_last_not (· = '0') (Nat.toDigits 10 n) (toDigits_not_zeros h)
    rw [List.getLast?_eq_getLast_of_ne_nil (toDigits_not_zeros h), Option.mem_some_iff] at hc
    rw [hc] at hlast
    simpa using hlast

def Number.ofNat (n : ℕ) : Number :=
  if h : 0 < n then .decimal false (.ofPos n h) else .zero

end Numbers

section Reading

def readExponent : List Char → ℤ
  | '+' :: digits => Nat.ofDigitChars 10 digits 0
  | '-' :: digits => -(Nat.ofDigitChars 10 digits 0 : ℕ)
  | _ => 0

/-- The digits of a decimal and the place of its point, from its text. -/
def readDecimal (s : List Char) : List Char × ℤ :=
  let mantissa := s.takeWhile (· ≠ 'e')
  let whole := mantissa.takeWhile (· ≠ '.')
  let digits := whole ++ (mantissa.dropWhile (· ≠ '.')).tail
  ((digits.dropWhile (· = '0')).rdropWhile (· = '0'),
    whole.length - (digits.takeWhile (· = '0')).length + readExponent (s.dropWhile (· ≠ 'e')).tail)

theorem readExponent_text (exponent : ℤ) :
    readExponent (exponentText exponent).tail = exponent := by
  rw [exponentText, List.tail_cons]
  split_ifs with h
  · rw [readExponent, Nat.ofDigitChars_ten_toDigits]
    omega
  · rw [readExponent, Nat.ofDigitChars_ten_toDigits]
    omega

theorem rdropWhile_append_zeros {digits : List Char} (n : ℕ)
    (h : ∀ c ∈ digits.getLast?, c ≠ '0') :
    (digits ++ List.replicate n '0').rdropWhile (· = '0') = digits := by
  induction n with
  | zero =>
    rw [List.replicate_zero, List.append_nil, List.rdropWhile_eq_self_iff]
    intro hne
    simpa using h _ (List.getLast?_eq_getLast_of_ne_nil hne)
  | succ n ih =>
    rw [List.replicate_succ', ← List.append_assoc, List.rdropWhile_concat_pos _ _ _ (by simp), ih]

variable (value : Decimal)

theorem Decimal.ne_of_mem {c d : Char} (hd : d.isDigit = false) (hc : c ∈ value.digits) :
    c ≠ d := by
  rintro rfl
  rw [value.digit c hc] at hd
  cases hd

theorem Decimal.dropWhile_digits (s : List Char) :
    (value.digits ++ s).dropWhile (· = '0') = value.digits ++ s ∧
      (value.digits ++ s).takeWhile (· = '0') = [] := by
  have hfirst := value.first
  cases hdigits : value.digits with
  | nil => exact absurd hdigits value.nonempty
  | cons c digits =>
    rw [hdigits] at hfirst
    have hc : ¬c = '0' := hfirst c rfl
    simp [hc]

/-- A run of characters ends before the first that breaks it. -/
theorem span_append {s t : List Char} {stop : Char} (hs : ∀ c ∈ s, c ≠ stop)
    (ht : t = [] ∨ t.head? = some stop) :
    (s ++ t).takeWhile (· ≠ stop) = s ∧ (s ++ t).dropWhile (· ≠ stop) = t := by
  have hrun : ∀ c ∈ s, decide (c ≠ stop) = true := fun c hc => decide_eq_true (hs c hc)
  rw [List.takeWhile_append_of_pos hrun, List.dropWhile_append_of_pos hrun]
  rcases ht with rfl | ht
  · simp
  · obtain ⟨rest, rfl⟩ := List.head?_eq_some_iff.mp ht
    simp

/-- A text is read by its parts: whole places, places behind the point, exponent. -/
theorem readDecimal_parts (whole rest exponent : List Char)
    (hwhole : ∀ c ∈ whole, c ≠ 'e' ∧ c ≠ '.') (hrest : ∀ c ∈ rest, c ≠ 'e')
    (hpoint : rest = [] ∨ rest.head? = some '.')
    (hexponent : exponent = [] ∨ exponent.head? = some 'e') :
    readDecimal (whole ++ rest ++ exponent) =
      (((whole ++ rest.tail).dropWhile (· = '0')).rdropWhile (· = '0'),
        whole.length - ((whole ++ rest.tail).takeWhile (· = '0')).length +
          readExponent exponent.tail) := by
  have hmantissa : ∀ c ∈ whole ++ rest, c ≠ 'e' := fun c hc =>
    (List.mem_append.mp hc).elim (fun hc => (hwhole c hc).1) (hrest c)
  obtain ⟨htake, hdrop⟩ := span_append hmantissa hexponent
  obtain ⟨hwholes, hplaces⟩ := span_append (fun c hc => (hwhole c hc).2) hpoint
  simp only [readDecimal, htake, hdrop, hwholes, hplaces]

theorem Decimal.digits_plain {c : Char} (hc : c ∈ value.digits) : c ≠ 'e' ∧ c ≠ '.' :=
  ⟨value.ne_of_mem (by decide) hc, value.ne_of_mem (by decide) hc⟩

theorem Decimal.rdropWhile_zeros (n : ℕ) :
    (value.digits ++ List.replicate n '0').rdropWhile (· = '0') = value.digits :=
  rdropWhile_append_zeros n value.last

theorem Decimal.rdropWhile_digits : value.digits.rdropWhile (· = '0') = value.digits := by
  simpa using value.rdropWhile_zeros 0

theorem Decimal.read_whole (places : ℕ) :
    readDecimal (value.digits ++ List.replicate places '0') =
      (value.digits, (value.digits.length : ℤ) + places) := by
  have hread := readDecimal_parts (value.digits ++ List.replicate places '0') [] []
    (fun c hc => ?_) (by simp) (.inl rfl) (.inl rfl)
  · obtain ⟨hdrop, htake⟩ := value.dropWhile_digits (List.replicate places '0')
    simpa [hdrop, htake, value.rdropWhile_zeros, readExponent] using hread
  · rcases List.mem_append.mp hc with hc | hc
    · exact value.digits_plain hc
    · rw [List.eq_of_mem_replicate hc]
      decide

theorem Decimal.read_split (places : ℕ) (exponent : List Char)
    (hexponent : exponent = [] ∨ exponent.head? = some 'e') (hplaces : places ≤ value.digits.length) :
    readDecimal (value.digits.take places ++ '.' :: value.digits.drop places ++ exponent) =
      (value.digits, places + readExponent exponent.tail) := by
  have hread := readDecimal_parts (value.digits.take places) ('.' :: value.digits.drop places) exponent
    (fun c hc => value.digits_plain (List.mem_of_mem_take hc)) (fun c hc => ?_) (.inr rfl) hexponent
  · have hdigits := value.dropWhile_digits []
    rw [List.append_nil] at hdigits
    rw [hread, List.tail_cons, List.take_append_drop, hdigits.1, hdigits.2,
      value.rdropWhile_digits, List.length_take_of_le hplaces]
    simp
  · rcases List.mem_cons.mp hc with rfl | hc
    · decide
    · exact (value.digits_plain (List.mem_of_mem_drop hc)).1

theorem Decimal.read_small (zeros : ℕ) :
    readDecimal ('0' :: '.' :: List.replicate zeros '0' ++ value.digits) =
      (value.digits, -(zeros : ℤ)) := by
  have hread := readDecimal_parts ['0'] ('.' :: List.replicate zeros '0' ++ value.digits) []
    (JsText.forall_mem_of_all (by decide)) (fun c hc => ?_) (.inr rfl) (.inl rfl)
  · obtain ⟨hdrop, htake⟩ := value.dropWhile_digits []
    rw [List.append_nil] at hdrop htake
    have hzeros : ∀ c ∈ '0' :: List.replicate zeros '0', decide (c = '0') = true := by
      simp [List.mem_replicate]
    have hshape : ['0'] ++ ('.' :: List.replicate zeros '0' ++ value.digits).tail =
        '0' :: List.replicate zeros '0' ++ value.digits := rfl
    rw [hshape, List.dropWhile_append_of_pos hzeros, List.takeWhile_append_of_pos hzeros, hdrop,
      htake, value.rdropWhile_digits, List.append_nil] at hread
    rw [List.append_nil] at hread
    refine hread.trans (Prod.ext rfl ?_)
    simp [readExponent]
  · rcases List.mem_append.mp hc with hc | hc
    · rcases List.mem_cons.mp hc with rfl | hc
      · decide
      · rw [List.eq_of_mem_replicate hc]
        decide
    · exact (value.digits_plain hc).1

theorem Decimal.read_text : readDecimal value.text = (value.digits, value.point) := by
  simp only [Decimal.text]
  split_ifs with hwhole hsplit hsmall
  · rw [value.read_whole]
    congr 1
    omega
  · have hplaces : value.point.toNat ≤ value.digits.length := by omega
    have hread := value.read_split _ _ (.inl rfl) hplaces
    rw [List.append_nil] at hread
    rw [hread]
    congr 1
    simp only [List.tail_nil, readExponent]
    omega
  · rw [value.read_small]
    congr 1
    omega
  · have hexponent := readExponent_text (value.point - 1)
    split
    · rename_i first second rest hdigits
      have hread := value.read_split 1 (exponentText (value.point - 1)) (.inr rfl) (by simp [hdigits])
      rw [hexponent, hdigits] at hread
      rw [hdigits]
      refine hread.trans (Prod.ext rfl ?_)
      push_cast
      omega
    · rename_i short hshape
      have hread := readDecimal_parts value.digits [] (exponentText (value.point - 1))
        (fun c hc => value.digits_plain hc) (by simp)
        (.inl rfl) (.inr rfl)
      have hzeros := value.dropWhile_digits []
      rw [List.append_nil] at hzeros hread
      rw [List.tail_nil, List.append_nil, hzeros.1, hzeros.2, value.rdropWhile_digits,
        hexponent] at hread
      have hone : value.digits.length = 1 := by
        cases hdigits : value.digits with
        | nil => exact absurd hdigits value.nonempty
        | cons first digits =>
          cases digits with
          | nil => rfl
          | cons second rest => exact absurd hdigits (hshape first second rest)
      refine hread.trans (Prod.ext rfl ?_)
      simp only [hone, List.length_nil]
      omega

end Reading

section Texts

theorem Decimal.text_injective : Function.Injective Decimal.text := by
  intro first second h
  have hread : (first.digits, first.point) = (second.digits, second.point) := by
    rw [← first.read_text, ← second.read_text, h]
  cases first
  cases second
  simp_all

/-- The text of a number that is greater than zero begins with a digit. -/
theorem Decimal.text_head (value : Decimal) : ∃ c rest, value.text = c :: rest ∧ c.isDigit = true := by
  have hdigit := value.digit
  cases hdigits : value.digits with
  | nil => exact absurd hdigits value.nonempty
  | cons first digits =>
    rw [hdigits] at hdigit
    have hfirst := hdigit first List.mem_cons_self
    simp only [Decimal.text, hdigits]
    split_ifs with hwhole hsplit hsmall
    · exact ⟨_, _, rfl, hfirst⟩
    · obtain ⟨places, hplaces⟩ : ∃ places, value.point.toNat = places + 1 :=
        ⟨value.point.toNat - 1, by omega⟩
      rw [hplaces, List.take_succ_cons]
      exact ⟨_, _, rfl, hfirst⟩
    · exact ⟨_, _, rfl, by decide⟩
    · cases digits <;> exact ⟨_, _, rfl, hfirst⟩

def numberMarks : List Char := "NaInfinity.e+-".toList

theorem exponentText_plain (exponent : ℤ) :
    ∀ c ∈ exponentText exponent, c.isDigit = true ∨ c ∈ numberMarks := by
  intro c hc
  rcases List.mem_cons.mp hc with rfl | hc
  · exact .inr (by decide)
  · rcases List.mem_cons.mp hc with rfl | hc
    · split_ifs <;> exact .inr (by decide)
    · exact .inl (Nat.isDigit_of_mem_toDigits (by decide) (by decide) hc)

theorem Decimal.text_plain (value : Decimal) :
    ∀ c ∈ value.text, c.isDigit = true ∨ c ∈ numberMarks := by
  have hzeros : ∀ n, ∀ c ∈ List.replicate n '0', c.isDigit = true := fun n c hc =>
    List.eq_of_mem_replicate hc ▸ by decide
  have hpoint : '.' ∈ numberMarks := by decide
  have hexponent := exponentText_plain (value.point - 1)
  intro c hc
  simp only [Decimal.text] at hc
  split_ifs at hc
  · exact .inl ((List.mem_append.mp hc).elim (value.digit c) (hzeros _ c))
  · rcases List.mem_append.mp hc with hc | hc
    · exact .inl (value.digit c (List.mem_of_mem_take hc))
    · rcases List.mem_cons.mp hc with rfl | hc
      · exact .inr hpoint
      · exact .inl (value.digit c (List.mem_of_mem_drop hc))
  · rcases List.mem_append.mp hc with hc | hc
    · rcases List.mem_cons.mp hc with rfl | hc
      · exact .inl (by decide)
      · rcases List.mem_cons.mp hc with rfl | hc
        · exact .inr hpoint
        · exact .inl (hzeros _ c hc)
    · exact .inl (value.digit c hc)
  · split at hc
    · rename_i first second rest hdigits
      rcases List.mem_append.mp hc with hc | hc
      · have hdigit := value.digit
        rw [hdigits] at hdigit
        simp only [List.mem_cons] at hc hdigit
        rcases hc with rfl | rfl | rfl | hc
        · exact .inl (hdigit _ (.inl rfl))
        · exact .inr hpoint
        · exact .inl (hdigit _ (.inr (.inl rfl)))
        · exact .inl (hdigit _ (.inr (.inr hc)))
      · exact hexponent c hc
    · exact (List.mem_append.mp hc).elim (fun hc => .inl (value.digit c hc)) (hexponent c)

/-- Numbers are written with digits, the marks of a decimal, and the letters of two words. -/
theorem Number.text_plain (n : Number) : ∀ c ∈ n.text, c.isDigit = true ∨ c ∈ numberMarks := by
  have hsign : ∀ negative : Bool, ∀ c ∈ (if negative then ['-'] else []), c ∈ numberMarks := by
    intro negative
    cases negative <;> exact JsText.forall_mem_of_all (by decide)
  cases n with
  | nan => exact JsText.forall_mem_of_all (by decide)
  | infinite negative => cases negative <;> exact JsText.forall_mem_of_all (by decide)
  | zero => exact JsText.forall_mem_of_all (by decide)
  | decimal negative value =>
    intro c hc
    exact (List.mem_append.mp hc).elim (fun hc => .inr (hsign negative c hc)) (value.text_plain c)

theorem Decimal.text_head_ne (value : Decimal) :
    ∃ c rest, value.text = c :: rest ∧ c ≠ 'N' ∧ c ≠ 'I' ∧ c ≠ '-' := by
  obtain ⟨c, rest, htext, hdigit⟩ := value.text_head
  refine ⟨c, rest, htext, ?_, ?_, ?_⟩ <;> rintro rfl <;> exact absurd hdigit (by decide)

theorem Decimal.text_ne_zero (value : Decimal) : value.text ≠ ['0'] := by
  intro h
  have hread := value.read_text
  rw [h] at hread
  exact value.nonempty (congrArg Prod.fst hread).symm

theorem Number.decimal_text_ne (negative : Bool) (value : Decimal) :
    (Number.decimal negative value).text ≠ Number.nan.text ∧
      (∀ b, (Number.decimal negative value).text ≠ (Number.infinite b).text) ∧
        (Number.decimal negative value).text ≠ Number.zero.text := by
  obtain ⟨c, rest, htext, hn, hi, hminus⟩ := value.text_head_ne
  have hzero := value.text_ne_zero
  rw [htext] at hzero
  have hnan : Number.nan.text = ['N', 'a', 'N'] := rfl
  have hinfinite : ∀ b, ∃ rest, Number.text (.infinite b) = if b then '-' :: 'I' :: rest
      else 'I' :: rest := by
    intro b
    cases b <;> exact ⟨_, rfl⟩
  cases negative
  · have hshape : Number.text (.decimal false value) = c :: rest := htext
    refine ⟨?_, fun b => ?_, ?_⟩
    · rw [hshape, hnan]
      exact fun h => hn (List.cons.inj h).1
    · obtain ⟨rest', hb⟩ := hinfinite b
      rw [hshape, hb]
      split_ifs
      · exact fun h => hminus (List.cons.inj h).1
      · exact fun h => hi (List.cons.inj h).1
    · rw [hshape]
      exact hzero
  · have hshape : Number.text (.decimal true value) = '-' :: c :: rest := congrArg _ htext
    refine ⟨?_, fun b => ?_, ?_⟩
    · rw [hshape, hnan]
      exact fun h => absurd (List.cons.inj h).1 (by decide)
    · obtain ⟨rest', hb⟩ := hinfinite b
      rw [hshape, hb]
      split_ifs
      · exact fun h => hi (List.cons.inj (List.cons.inj h).2).1
      · exact fun h => absurd (List.cons.inj h).1 (by decide)
    · rw [hshape]
      exact fun h => absurd (List.cons.inj h).1 (by decide)

/-- Numbers have texts of their own. -/
theorem Number.text_injective : Function.Injective Number.text := by
  intro first second h
  cases first with
  | nan =>
    cases second with
    | nan => rfl
    | infinite b => cases b <;> exact absurd h (by decide)
    | zero => exact absurd h (by decide)
    | decimal b value => exact absurd h.symm (Number.decimal_text_ne b value).1
  | infinite a =>
    cases second with
    | nan => cases a <;> exact absurd h (by decide)
    | infinite b => cases a <;> cases b <;> first | rfl | exact absurd h (by decide)
    | zero => cases a <;> exact absurd h (by decide)
    | decimal b value => exact absurd h.symm ((Number.decimal_text_ne b value).2.1 a)
  | zero =>
    cases second with
    | nan => exact absurd h (by decide)
    | infinite b => cases b <;> exact absurd h (by decide)
    | zero => rfl
    | decimal b value => exact absurd h.symm (Number.decimal_text_ne b value).2.2
  | decimal a value =>
    cases second with
    | nan => exact absurd h (Number.decimal_text_ne a value).1
    | infinite b => exact absurd h ((Number.decimal_text_ne a value).2.1 b)
    | zero => exact absurd h (Number.decimal_text_ne a value).2.2
    | decimal b other =>
      obtain ⟨c, rest, htext, -, -, hminus⟩ := value.text_head_ne
      obtain ⟨c', rest', htext', -, -, hminus'⟩ := other.text_head_ne
      cases a <;> cases b
      · exact congrArg _ (Decimal.text_injective h)
      · exact absurd h (by simp [Number.text, htext, hminus])
      · exact absurd h (by simp [Number.text, htext', hminus'.symm])
      · exact congrArg _ (Decimal.text_injective (List.cons.inj h).2)

end Texts

end JsNumbers
