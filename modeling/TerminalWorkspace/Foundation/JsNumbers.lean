import TerminalWorkspace.Foundation.JsText
import Mathlib.Data.Nat.Log
import Mathlib.Data.Nat.Digits.Lemmas
import Mathlib.Data.List.DropRight

/-! JavaScript numbers that are integers, and how they are written. `2 ^ 1024`, which is no
number of that kind, stands for the infinite one. -/
namespace JsNumbers
open JsText

section Rounding

/-- The number nearest to an integer, ties to the even one, and `none` where it is infinite. -/
def nearestNumber (n : ℕ) : Option ℕ :=
  let step := 2 ^ (n.log2 - 52)
  let rest := 2 * (n % step)
  let quotient := if step < rest ∨ step = rest ∧ n / step % 2 = 1 then n / step + 1 else n / step
  if quotient * step < 2 ^ 1024 then some (quotient * step) else none

def infinite : ℕ := 2 ^ 1024

def magnitude (n : ℕ) : ℕ := (nearestNumber n).getD infinite

/-- The number that an integer literal denotes. -/
def toNumber (z : ℤ) : ℤ := if z < 0 then -magnitude z.natAbs else magnitude z.natAbs

theorem nearestNumber_of_dvd {n : ℕ} (hstep : 2 ^ (n.log2 - 52) ∣ n) (hn : n < infinite) :
    nearestNumber n = some n := by
  have hrest : n % 2 ^ (n.log2 - 52) = 0 := Nat.mod_eq_zero_of_dvd hstep
  have hpos : 0 < 2 ^ (n.log2 - 52) := Nat.two_pow_pos _
  have hsame : n / 2 ^ (n.log2 - 52) * 2 ^ (n.log2 - 52) = n := Nat.div_mul_cancel hstep
  have hquotient : ¬(2 ^ (n.log2 - 52) < 2 * 0 ∨
      2 ^ (n.log2 - 52) = 2 * 0 ∧ n / 2 ^ (n.log2 - 52) % 2 = 1) := by omega
  simp only [nearestNumber, hrest, if_neg hquotient, hsame]
  exact if_pos hn

/-- Numbers have at most fifty-three significant bits. -/
theorem nearestNumber_mul {q e : ℕ} (hq : q ≤ 2 ^ 53) (hn : q * 2 ^ e < infinite) :
    nearestNumber (q * 2 ^ e) = some (q * 2 ^ e) := by
  refine nearestNumber_of_dvd ?_ hn
  rcases hq.lt_or_eq with hlt | rfl
  · rcases Nat.eq_zero_or_pos q with rfl | hpos
    · simp
    · have hlog : (q * 2 ^ e).log2 < 53 + e := by
        have hbits : q * 2 ^ e < 2 ^ 53 * 2 ^ e :=
          Nat.mul_lt_mul_of_pos_right hlt (Nat.two_pow_pos e)
        rw [← pow_add] at hbits
        exact (Nat.log2_lt (Nat.mul_pos hpos (Nat.two_pow_pos e)).ne').mpr hbits
      exact (Nat.pow_dvd_pow 2 (by omega)).mul_left q
  · have hpower : 2 ^ 53 * 2 ^ e = 2 ^ (53 + e) := (pow_add 2 53 e).symm
    rw [hpower, Nat.log2_two_pow]
    exact Nat.pow_dvd_pow 2 (by omega)

theorem lt_of_nearestNumber {n m : ℕ} (h : nearestNumber n = some m) : m < infinite := by
  simp only [nearestNumber, Option.ite_none_right_eq_some] at h
  exact Option.some.inj h.2 ▸ h.1

theorem nearestNumber_idem {n m : ℕ} (h : nearestNumber n = some m) : nearestNumber m = some m := by
  have hfinite := lt_of_nearestNumber h
  have hpos : 0 < 2 ^ (n.log2 - 52) := Nat.two_pow_pos _
  have hlow : n / 2 ^ (n.log2 - 52) < 2 ^ 53 := by
    refine (Nat.div_lt_iff_lt_mul hpos).mpr (Nat.lt_log2_self.trans_le ?_)
    rw [← pow_add]
    exact Nat.pow_le_pow_right (by decide) (by omega)
  simp only [nearestNumber, Option.ite_none_right_eq_some] at h
  obtain ⟨-, h⟩ := h
  obtain rfl := Option.some.inj h
  refine nearestNumber_mul ?_ hfinite
  split_ifs <;> omega

theorem magnitude_of_none {n : ℕ} (h : nearestNumber n = none) : magnitude n = infinite := by
  rw [magnitude, h, Option.getD_none]

theorem magnitude_of_some {n m : ℕ} (h : nearestNumber n = some m) : magnitude n = m := by
  rw [magnitude, h, Option.getD_some]

theorem nearestNumber_infinite : nearestNumber infinite = none := by decide +kernel

theorem magnitude_idem (n : ℕ) : magnitude (magnitude n) = magnitude n := by
  cases h : nearestNumber n with
  | none => rw [magnitude_of_none h, magnitude_of_none nearestNumber_infinite]
  | some m => rw [magnitude_of_some h, magnitude_of_some (nearestNumber_idem h)]

theorem toNumber_of_neg {z : ℤ} (h : z < 0) : toNumber z = -magnitude z.natAbs := if_pos h

theorem toNumber_of_nonneg {z : ℤ} (h : 0 ≤ z) : toNumber z = magnitude z.natAbs :=
  if_neg (not_lt.mpr h)

theorem natAbs_toNumber (z : ℤ) : (toNumber z).natAbs = magnitude z.natAbs := by
  rw [toNumber]
  split_ifs
  · rw [Int.natAbs_neg, Int.natAbs_natCast]
  · rw [Int.natAbs_natCast]

theorem magnitude_pos {n : ℕ} (h : 0 < n) : 0 < magnitude n := by
  cases hn : nearestNumber n with
  | none =>
    rw [magnitude_of_none hn]
    exact Nat.two_pow_pos 1024
  | some m =>
    have hstep : 2 ^ (n.log2 - 52) ≤ n :=
      (Nat.pow_le_pow_right (by decide) (Nat.sub_le _ _)).trans (Nat.log2_self_le h.ne')
    have hquotient : 0 < n / 2 ^ (n.log2 - 52) := Nat.div_pos hstep (Nat.two_pow_pos _)
    rw [magnitude_of_some hn]
    simp only [nearestNumber, Option.ite_none_right_eq_some] at hn
    obtain ⟨-, hn⟩ := hn
    obtain rfl := Option.some.inj hn
    refine Nat.mul_pos ?_ (Nat.two_pow_pos _)
    split_ifs <;> omega

theorem toNumber_idem (z : ℤ) : toNumber (toNumber z) = toNumber z := by
  rcases lt_or_ge z 0 with hz | hz
  · have hneg : toNumber z < 0 := by
      have := magnitude_pos (Int.natAbs_pos.mpr hz.ne)
      rw [toNumber_of_neg hz]
      omega
    rw [toNumber_of_neg hneg, natAbs_toNumber, magnitude_idem, toNumber_of_neg hz]
  · have hnonneg : 0 ≤ toNumber z := by
      rw [toNumber_of_nonneg hz]
      exact Int.natCast_nonneg _
    rw [toNumber_of_nonneg hnonneg, natAbs_toNumber, magnitude_idem, toNumber_of_nonneg hz]

end Rounding

section Writing

/-- The multiples of a unit next to a number, the nearer one first, of two as near the even
one. -/
def neighbours (x unit : ℕ) : List ℕ :=
  let lower := x / unit * unit
  let upper := lower + unit
  if x - lower < upper - x ∨ x - lower = upper - x ∧ x / unit % 2 = 0 then [lower, upper]
  else [upper, lower]

/-- The decimal with the fewest digits of those that denote the number. -/
def shortestDecimal (x : ℕ) : ℕ :=
  (((List.range (Nat.log 10 x + 1)).reverse.flatMap fun place => neighbours x (10 ^ place)).find?
    fun decimal => magnitude decimal = x).getD x

/-- One digit before the point, and the places that follow it after the `e`. -/
def exponential (digits : List Char) : List Char :=
  let significand :=
    match digits.rdropWhile (· = '0') with
    | first :: second :: rest => first :: '.' :: second :: rest
    | short => short
  significand ++ 'e' :: '+' :: Nat.toDigits 10 (digits.length - 1)

def magnitudeText (x : ℕ) : List Char :=
  let digits := Nat.toDigits 10 (shortestDecimal x)
  if x = infinite then "Infinity".toList
  else if digits.length ≤ 21 then digits
  else exponential digits

/-- `String(number)`. -/
def numberString : ℤ → JsString
  | .ofNat n => ofText (magnitudeText n)
  | .negSucc n => ofText ('-' :: magnitudeText (n + 1))

theorem magnitude_shortestDecimal {x : ℕ} (hx : magnitude x = x) :
    magnitude (shortestDecimal x) = x := by
  rw [shortestDecimal]
  cases h : List.find? _ _ with
  | none => exact hx
  | some decimal => simpa using List.find?_some h

theorem shortestDecimal_cases (x : ℕ) :
    shortestDecimal x = x ∨
      ∃ place ≤ Nat.log 10 x, shortestDecimal x ∈ neighbours x (10 ^ place) := by
  rw [shortestDecimal]
  cases h : List.find? _ _ with
  | none => exact .inl rfl
  | some decimal =>
    obtain ⟨place, hplace, hdecimal⟩ := List.mem_flatMap.mp (List.mem_of_find?_eq_some h)
    exact .inr ⟨place, Nat.lt_succ_iff.mp (List.mem_range.mp (List.mem_reverse.mp hplace)), hdecimal⟩

theorem mem_neighbours {x unit decimal : ℕ} (h : decimal ∈ neighbours x unit) :
    decimal = x / unit * unit ∨ decimal = x / unit * unit + unit := by
  simp only [neighbours] at h
  split_ifs at h <;> simp only [List.mem_cons, List.not_mem_nil, or_false] at h <;> tauto

/-- A number has its places before the point as long as its text has. -/
theorem shortestDecimal_lt_iff {x places : ℕ} (hx : magnitude x = x)
    (hpower : magnitude (10 ^ places) = 10 ^ places) :
    shortestDecimal x < 10 ^ places ↔ x < 10 ^ places := by
  have hshort := magnitude_shortestDecimal hx
  rcases shortestDecimal_cases x with heq | ⟨place, hplace, hdecimal⟩
  · rw [heq]
  · rcases Nat.eq_zero_or_pos x with rfl | hpos
    · have hzero : shortestDecimal 0 = 0 := by decide +kernel
      rw [hzero]
    have hunit : 0 < 10 ^ place := Nat.pow_pos (by decide)
    have hlower : 10 ^ place ≤ x :=
      (Nat.pow_le_pow_right (by decide) hplace).trans (Nat.pow_log_le_self 10 hpos.ne')
    constructor
    · refine lt_imp_lt_of_le_imp_le fun hlarge => ?_
      have hfirst : 10 ^ places ≤ x / 10 ^ place * 10 ^ place := by
        rcases le_total place places with hle | hle
        · rw [← Nat.pow_sub_mul_pow 10 hle] at hlarge ⊢
          exact Nat.mul_le_mul_right _ ((Nat.le_div_iff_mul_le hunit).mpr hlarge)
        · exact (Nat.pow_le_pow_right (by decide) hle).trans
            (Nat.le_mul_of_pos_left _ (Nat.div_pos hlower hunit))
      rcases mem_neighbours hdecimal with h | h <;> omega
    · intro hsmall
      have hle : place ≤ places :=
        ((Nat.pow_lt_pow_iff_right (by decide)).mp (hlower.trans_lt hsmall)).le
      have hnext : (x / 10 ^ place + 1) * 10 ^ place ≤ 10 ^ places := by
        rw [← Nat.pow_sub_mul_pow 10 hle] at hsmall ⊢
        exact Nat.mul_le_mul_right _ ((Nat.div_lt_iff_lt_mul hunit).mpr hsmall)
      rw [Nat.add_one_mul] at hnext
      refine lt_of_le_of_ne ?_ fun heq => ?_
      · rcases mem_neighbours hdecimal with h | h <;> omega
      · rw [heq, hpower] at hshort
        omega

end Writing

end JsNumbers
