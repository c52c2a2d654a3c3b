import TerminalWorkspace.VaultStores.Hosts

/-! Ports and their text. A number of at most twenty-one places is read as it was written; a
larger one is written with an exponent, of which no more than a digit is read. -/
namespace VaultStores
open JsText JsNumbers

theorem digitOf_scalar {c : Char} (h : c.isDigit = true) :
    digitOf (.scalar c) = some (c.toNat - '0'.toNat) := if_pos h

theorem foldl_digits {digits : List Char} (h : ∀ c ∈ digits, c.isDigit = true) (n : ℕ) :
    List.foldl (fun n d : ℤ => 10 * n + d) n ((ofText digits).filterMap digitOf : List ℕ) =
      (Nat.ofDigitChars 10 digits n : ℕ) := by
  induction digits generalizing n with
  | nil => rfl
  | cons c digits ih =>
    have hrest := ih (fun d hd => h d (List.mem_cons_of_mem _ hd))
      (10 * n + (c.toNat - '0'.toNat))
    rw [ofText, List.map_cons, List.filterMap_cons_some (digitOf_scalar (h c List.mem_cons_self)),
      Nat.ofDigitChars_cons, ← hrest]
    push_cast
    rfl

theorem not_space_of_isDigit {c : Char} (h : c.isDigit = true) : isSpace (.scalar c) = false := by
  simp only [Char.isDigit, ge_iff_le, Bool.and_eq_true, decide_eq_true_eq] at h
  have hlow : 48 ≤ c.toNat := h.1
  have hhigh : c.toNat ≤ 57 := h.2
  have hcodes : ∀ n < 58, 48 ≤ n → n ∉ spaceCodes := by decide
  simpa [isSpace, isSpaceChar] using hcodes _ (by omega) hlow

theorem takeWhile_digits {digits rest : List Char} (h : ∀ c ∈ digits, c.isDigit = true)
    (hrest : ∀ c ∈ rest.head?, c.isDigit = false) :
    (ofText (digits ++ rest)).takeWhile (fun c => (digitOf c).isSome) = ofText digits := by
  have hdigits : ∀ c ∈ ofText digits, (digitOf c).isSome = true := by
    intro c hc
    obtain ⟨d, hd, rfl⟩ := List.mem_map.mp hc
    rw [digitOf_scalar (h d hd), Option.isSome_some]
  have hstop : (ofText rest).takeWhile (fun c => (digitOf c).isSome) = [] := by
    cases rest with
    | nil => rfl
    | cons c rest => simp [ofText, digitOf, hrest c rfl]
  rw [ofText_append, List.takeWhile_append_of_pos hdigits, hstop, List.append_nil]

/-- An integer is read up to the first character that is no digit. -/
theorem parseInt_digits {digits : List Char} (rest : List Char) (hne : digits ≠ [])
    (h : ∀ c ∈ digits, c.isDigit = true) (hrest : ∀ c ∈ rest.head?, c.isDigit = false) :
    parseInt (ofText (digits ++ rest)) = some ((Nat.ofDigitChars 10 digits 0 : ℕ) : ℤ) ∧
      parseInt (ofText ('-' :: (digits ++ rest))) =
        some (-((Nat.ofDigitChars 10 digits 0 : ℕ) : ℤ)) := by
  have htake := takeWhile_digits h hrest
  have hvalue := foldl_digits h 0
  cases digits with
  | nil => exact absurd rfl hne
  | cons c digits =>
    have hspace := not_space_of_isDigit (h c List.mem_cons_self)
    have hminus : c ≠ '-' := by
      rintro rfl
      exact absurd (h '-' List.mem_cons_self) (by decide)
    have hplus : c ≠ '+' := by
      rintro rfl
      exact absurd (h '+' List.mem_cons_self) (by decide)
    have hfirst : ofText (c :: digits) = .scalar c :: ofText digits := rfl
    rw [hfirst] at htake hvalue
    constructor
    · have hdrop : (ofText (c :: digits ++ rest)).dropWhile isSpace =
          ofText (c :: digits ++ rest) := List.dropWhile_cons_of_neg (by rw [hspace]; simp)
      have hhead : (ofText (c :: digits ++ rest)).head? = some (.scalar c) := rfl
      simp only [parseInt, hdrop, hhead, Option.some.injEq, CodePoint.scalar.injEq, hminus, hplus,
        decide_false, Bool.or_self, Bool.false_eq_true, if_false, htake, hvalue]
      exact hvalue
    · have hdrop : (ofText ('-' :: (c :: digits ++ rest))).dropWhile isSpace =
          ofText ('-' :: (c :: digits ++ rest)) := List.dropWhile_cons_of_neg (by decide)
      have hhead : (ofText ('-' :: (c :: digits ++ rest))).head? = some (.scalar '-') := rfl
      have htail : (ofText ('-' :: (c :: digits ++ rest))).tail = ofText (c :: digits ++ rest) := rfl
      simp only [parseInt, hdrop, hhead, htail, decide_true, Bool.true_or, if_true, htake]
      exact congrArg (fun n : ℤ => some (-n)) hvalue

theorem parseInt_of_not_number {c : Char} (rest : List Char) (hspace : isSpace (.scalar c) = false)
    (hdigit : c.isDigit = false) (hminus : c ≠ '-') (hplus : c ≠ '+') :
    parseInt (ofText (c :: rest)) = none ∧ parseInt (ofText ('-' :: c :: rest)) = none := by
  have htake : (ofText (c :: rest)).takeWhile (fun c => (digitOf c).isSome) = [] :=
    List.takeWhile_cons_of_neg (by simp [digitOf, hdigit])
  constructor
  · have hdrop : (ofText (c :: rest)).dropWhile isSpace = ofText (c :: rest) :=
      List.dropWhile_cons_of_neg (by rw [hspace]; simp)
    have hhead : (ofText (c :: rest)).head? = some (.scalar c) := rfl
    simp only [parseInt, hdrop, hhead, Option.some.injEq, CodePoint.scalar.injEq, hminus, hplus,
      decide_false, Bool.or_self, Bool.false_eq_true, if_false, htake]
  · have hdrop : (ofText ('-' :: c :: rest)).dropWhile isSpace = ofText ('-' :: c :: rest) :=
      List.dropWhile_cons_of_neg (by decide)
    have hhead : (ofText ('-' :: c :: rest)).head? = some (.scalar '-') := rfl
    have htail : (ofText ('-' :: c :: rest)).tail = ofText (c :: rest) := rfl
    simp only [parseInt, hdrop, hhead, htail, decide_true, Bool.true_or, if_true, htake]

theorem magnitudeText_of_lt {x : ℕ} (hx : magnitude x = x) (hsmall : x < 10 ^ 21) :
    magnitudeText x = Nat.toDigits 10 (shortestDecimal x) := by
  have hbound : (10 ^ 21 : ℕ) ≤ infinite := by decide +kernel
  have hfinite : x ≠ infinite := (hsmall.trans_le hbound).ne
  have hplaces : (Nat.toDigits 10 (shortestDecimal x)).length ≤ 21 :=
    (Nat.length_toDigits_le_iff (by decide) (by decide)).mpr
      ((shortestDecimal_lt_iff hx (by decide +kernel)).mpr hsmall)
  simp only [magnitudeText, if_neg hfinite, if_pos hplaces]

theorem magnitudeText_of_ge {x : ℕ} (hx : magnitude x = x) (hlarge : 10 ^ 21 ≤ x) :
    magnitudeText x = "Infinity".toList ∨
      magnitudeText x = exponential (Nat.toDigits 10 (shortestDecimal x)) := by
  have hplaces : ¬(Nat.toDigits 10 (shortestDecimal x)).length ≤ 21 := fun hshort =>
    absurd ((shortestDecimal_lt_iff hx (by decide +kernel)).mp
      ((Nat.length_toDigits_le_iff (by decide) (by decide)).mp hshort)) (not_lt.mpr hlarge)
  simp only [magnitudeText, if_neg hplaces]
  split_ifs
  · exact .inl rfl
  · exact .inr rfl

theorem ofDigitChars_singleton_lt {c : Char} (h : c.isDigit = true) :
    Nat.ofDigitChars 10 [c] 0 < 10 := by
  simp only [Char.isDigit, ge_iff_le, Bool.and_eq_true, decide_eq_true_eq] at h
  have hhigh : c.toNat ≤ 57 := h.2
  have hzero : '0'.toNat = 48 := rfl
  rw [Nat.ofDigitChars_cons, Nat.ofDigitChars_nil, hzero]
  omega

/-- Of a text with an exponent no more than the first digit is read. -/
theorem parseInt_exponential {digits : List Char} (h : ∀ c ∈ digits, c.isDigit = true) :
    (∀ n ∈ parseInt (ofText (exponential digits)), n.natAbs < 10) ∧
      ∀ n ∈ parseInt (ofText ('-' :: exponential digits)), n.natAbs < 10 := by
  have hdigit : ∀ c ∈ digits.rdropWhile (· = '0'), c.isDigit = true :=
    fun c hc => h c ((List.rdropWhile_prefix _ _).subset hc)
  have hfirst : ∀ {c : Char} {rest : List Char}, c ∈ digits.rdropWhile (· = '0') →
      (∀ d ∈ rest.head?, d.isDigit = false) → (∀ n ∈ parseInt (ofText (c :: rest)), n.natAbs < 10) ∧
        ∀ n ∈ parseInt (ofText ('-' :: c :: rest)), n.natAbs < 10 := by
    intro c rest hc hrest
    have hread := parseInt_digits _ (List.cons_ne_nil c []) (by simpa using hdigit c hc) hrest
    rw [List.cons_append, List.nil_append] at hread
    have hlt := ofDigitChars_singleton_lt (hdigit c hc)
    constructor
    · intro n hn
      rw [hread.1] at hn
      obtain rfl := Option.some.inj hn
      omega
    · intro n hn
      rw [hread.2] at hn
      obtain rfl := Option.some.inj hn
      omega
  simp only [exponential]
  split
  · rename_i first second rest hshape
    exact hfirst (by simp [hshape]) (by simp)
  · rename_i short hshape
    match hshort : digits.rdropWhile (· = '0'), hshape with
    | [], _ =>
      have hread := parseInt_of_not_number (c := 'e')
        ('+' :: Nat.toDigits 10 (digits.length - 1)) (by decide) (by decide) (by decide)
        (by decide)
      simp [hread.1, hread.2]
    | [first], _ => exact hfirst (by simp [hshort]) (by simp)
    | first :: second :: rest, hshape => exact absurd rfl (hshape first second rest)

theorem toNumber_neg (n : ℕ) : toNumber (-n) = -magnitude n := by
  rcases Nat.eq_zero_or_pos n with rfl | hpos
  · decide +kernel
  · rw [toNumber_of_neg (by omega), Int.natAbs_neg, Int.natAbs_natCast]

/-- A number of at most twenty-one places comes back from its text. -/
theorem parseInt_numberString {z : ℤ} (hz : toNumber z = z) (hsmall : z.natAbs < 10 ^ 21) :
    (parseInt (numberString z)).map toNumber = some z := by
  have hx : magnitude z.natAbs = z.natAbs := by rw [← natAbs_toNumber, hz]
  have hread := parseInt_digits []
    (show Nat.toDigits 10 (shortestDecimal z.natAbs) ≠ [] from Nat.toDigits_ne_nil)
    (fun c hc => Nat.isDigit_of_mem_toDigits (b := 10) (by decide) (by decide) hc) (by simp)
  rw [List.append_nil, Nat.ofDigitChars_ten_toDigits, ← magnitudeText_of_lt hx hsmall] at hread
  have hshort := magnitude_shortestDecimal hx
  cases z with
  | ofNat n =>
    have htext : numberString (.ofNat n) = ofText (magnitudeText (Int.ofNat n).natAbs) := rfl
    rw [htext, hread.1, Option.map_some, toNumber_of_nonneg (Int.natCast_nonneg _),
      Int.natAbs_natCast, hshort]
    rfl
  | negSucc n =>
    have htext : numberString (.negSucc n) = ofText ('-' :: magnitudeText (Int.negSucc n).natAbs) :=
      rfl
    rw [htext, hread.2, Option.map_some, toNumber_neg, hshort]
    rfl

theorem parseInt_numberString_large {z : ℤ} (hz : toNumber z = z) (hlarge : 10 ^ 21 ≤ z.natAbs) :
    ∀ n ∈ parseInt (numberString z), n.natAbs < 10 := by
  have hx : magnitude z.natAbs = z.natAbs := by rw [← natAbs_toNumber, hz]
  have hread : (∀ n ∈ parseInt (ofText (magnitudeText z.natAbs)), n.natAbs < 10) ∧
      ∀ n ∈ parseInt (ofText ('-' :: magnitudeText z.natAbs)), n.natAbs < 10 := by
    rcases magnitudeText_of_ge hx hlarge with h | h
    · have hinfinity : "Infinity".toList = 'I' :: "nfinity".toList := rfl
      have hnone := parseInt_of_not_number (c := 'I') "nfinity".toList (by decide)
        (by decide) (by decide) (by decide)
      rw [h, hinfinity, hnone.1, hnone.2]
      simp
    · rw [h]
      exact parseInt_exponential fun c hc =>
        Nat.isDigit_of_mem_toDigits (by decide) (by decide) hc
  cases z with
  | ofNat n => exact hread.1
  | negSucc n => exact hread.2

end VaultStores
