import Mathlib.Data.List.Basic
import Mathlib.Tactic.IntervalCases

/-! Padded base64 over the standard alphabet: three bytes become four digits. -/
namespace Base64

def digit (n : ℕ) : Char :=
  if n < 26 then Char.ofNat (65 + n)
  else if n < 52 then Char.ofNat (71 + n)
  else if n < 62 then Char.ofNat (n - 4)
  else if n = 62 then '+'
  else '/'

def digitValue (c : Char) : ℕ :=
  if 65 ≤ c.toNat ∧ c.toNat ≤ 90 then c.toNat - 65
  else if 97 ≤ c.toNat ∧ c.toNat ≤ 122 then c.toNat - 71
  else if 48 ≤ c.toNat ∧ c.toNat ≤ 57 then c.toNat + 4
  else if c = '+' then 62
  else 63

/-- The characters an encoding can contain. -/
def IsBase64Char (c : Char) : Prop := c = '=' ∨ ∃ n < 64, c = digit n

def encode : List UInt8 → List Char
  | [] => []
  | [a] => [digit (a.toNat / 4), digit (a.toNat % 4 * 16), '=', '=']
  | [a, b] =>
    [digit (a.toNat / 4), digit (a.toNat % 4 * 16 + b.toNat / 16),
      digit (b.toNat % 16 * 4), '=']
  | a :: b :: c :: rest =>
    digit (a.toNat / 4) :: digit (a.toNat % 4 * 16 + b.toNat / 16) ::
      digit (b.toNat % 16 * 4 + c.toNat / 64) :: digit (c.toNat % 64) :: encode rest

/-- Reads back what `encode` writes. -/
def decode : List Char → List UInt8
  | w :: x :: y :: z :: rest =>
    let first := UInt8.ofNat (digitValue w * 4 + digitValue x / 16)
    let second := UInt8.ofNat (digitValue x % 16 * 16 + digitValue y / 4)
    if y = '=' then [first]
    else if z = '=' then [first, second]
    else first :: second :: UInt8.ofNat (digitValue y % 4 * 64 + digitValue z) :: decode rest
  | _ => []

theorem digitValue_digit {n : ℕ} (h : n < 64) : digitValue (digit n) = n := by
  revert n
  decide

theorem digit_ne_pad {n : ℕ} (h : n < 64) : digit n ≠ '=' := by
  revert n
  decide

private theorem ofNat_eq {n : ℕ} (x : UInt8) (h : n = x.toNat) : UInt8.ofNat n = x := by
  subst h
  exact UInt8.ofNat_toNat

@[simp] theorem decode_encode (bytes : List UInt8) : decode (encode bytes) = bytes := by
  fun_induction encode bytes with
  | case1 => rfl
  | case2 a =>
    have ha := a.toNat_lt
    rw [decode, if_pos rfl, digitValue_digit (by omega), digitValue_digit (by omega)]
    exact congrArg (fun x => [x]) (ofNat_eq a (by omega))
  | case3 a b =>
    have ha := a.toNat_lt
    have hb := b.toNat_lt
    rw [decode, if_neg (digit_ne_pad (by omega)), if_pos rfl, digitValue_digit (by omega),
      digitValue_digit (by omega), digitValue_digit (by omega)]
    rw [ofNat_eq a (by omega), ofNat_eq b (by omega)]
  | case4 a b c rest ih =>
    have ha := a.toNat_lt
    have hb := b.toNat_lt
    have hc := c.toNat_lt
    rw [decode, if_neg (digit_ne_pad (by omega)), if_neg (digit_ne_pad (by omega)),
      digitValue_digit (by omega), digitValue_digit (by omega), digitValue_digit (by omega),
      digitValue_digit (by omega), ih]
    rw [ofNat_eq a (by omega), ofNat_eq b (by omega), ofNat_eq c (by omega)]

theorem encode_injective : Function.Injective encode :=
  Function.LeftInverse.injective decode_encode

theorem encode_chars (bytes : List UInt8) : ∀ c ∈ encode bytes, IsBase64Char c := by
  have hdigit {n : ℕ} (h : n < 64) : IsBase64Char (digit n) := Or.inr ⟨n, h, rfl⟩
  fun_induction encode bytes with
  | case1 => simp
  | case2 a =>
    have ha := a.toNat_lt
    simp only [List.forall_mem_cons, List.not_mem_nil, false_implies, implies_true, and_true]
    exact ⟨hdigit (by omega), hdigit (by omega), .inl rfl, .inl rfl⟩
  | case3 a b =>
    have ha := a.toNat_lt
    have hb := b.toNat_lt
    simp only [List.forall_mem_cons, List.not_mem_nil, false_implies, implies_true, and_true]
    exact ⟨hdigit (by omega), hdigit (by omega), hdigit (by omega), .inl rfl⟩
  | case4 a b c rest ih =>
    have ha := a.toNat_lt
    have hb := b.toNat_lt
    have hc := c.toNat_lt
    simp only [List.forall_mem_cons]
    exact ⟨hdigit (by omega), hdigit (by omega), hdigit (by omega), hdigit (by omega), ih⟩

theorem length_le_encode (bytes : List UInt8) : bytes.length ≤ (encode bytes).length := by
  fun_induction encode bytes with
  | case1 => simp
  | case2 => simp
  | case3 => simp
  | case4 a b c rest ih =>
    simp only [List.length_cons]
    omega

end Base64
