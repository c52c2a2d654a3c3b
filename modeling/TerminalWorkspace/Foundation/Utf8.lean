import Mathlib.Data.List.Basic
import Mathlib.Tactic.Ring

/-! Byte-at-a-time UTF-8 decoding. An ill-formed sequence is reported as one
error for each maximal subpart, and the offending byte is read again from the
start, so that a strict and a replacing decoder share one machine. -/
namespace Utf8

/-- Continuation bytes still owed, the range of the next one, the bits read so far. -/
structure Pending where
  needed : ℕ
  lower : ℕ
  upper : ℕ
  acc : ℕ
  deriving DecidableEq, Repr

/-- A piece of decoder output: a scalar value, or an error. -/
abbrev Item := Option Char

/-- Read the first byte of a sequence. -/
def start (b : ℕ) : List Item × Option Pending :=
  if b ≤ 0x7F then ([some (Char.ofNat b)], none)
  else if 0xC2 ≤ b ∧ b ≤ 0xDF then ([], some ⟨1, 0x80, 0xBF, b - 0xC0⟩)
  else if 0xE0 ≤ b ∧ b ≤ 0xEF then
    ([], some ⟨2, if b = 0xE0 then 0xA0 else 0x80, if b = 0xED then 0x9F else 0xBF, b - 0xE0⟩)
  else if 0xF0 ≤ b ∧ b ≤ 0xF4 then
    ([], some ⟨3, if b = 0xF0 then 0x90 else 0x80, if b = 0xF4 then 0x8F else 0xBF, b - 0xF0⟩)
  else ([none], none)

def step : Option Pending → ℕ → List Item × Option Pending
  | none, b => start b
  | some p, b =>
    if p.lower ≤ b ∧ b ≤ p.upper then
      let acc := p.acc * 64 + (b - 0x80)
      if p.needed = 1 then ([some (Char.ofNat acc)], none)
      else ([], some ⟨p.needed - 1, 0x80, 0xBF, acc⟩)
    else
      -- the bad byte ends the maximal subpart and starts a sequence of its own
      (none :: (start b).1, (start b).2)

/-- Feed a whole chunk, returning what it emitted and what it left pending. -/
def feed : Option Pending → List UInt8 → List Item × Option Pending
  | s, [] => ([], s)
  | s, b :: bs =>
    let r := step s b.toNat
    let rest := feed r.2 bs
    (r.1 ++ rest.1, rest.2)

/-- The end of the input turns an unfinished sequence into one error. -/
def flush : Option Pending → List Item
  | none => []
  | some _ => [none]

def items (bytes : List UInt8) : List Item :=
  let r := feed none bytes
  r.1 ++ flush r.2

/-- Fatal decoding: any error rejects the whole input. -/
def decodeStrict (bytes : List UInt8) : Option (List Char) := (items bytes).mapM id

/-- Replacing decoding: every error becomes U+FFFD. -/
def decodeLossy (bytes : List UInt8) : List Char :=
  (items bytes).map (·.getD (Char.ofNat 0xFFFD))

/-- The text of decoder output, with U+FFFD for every error. -/
def render (items : List Item) : List Char := items.map (·.getD (Char.ofNat 0xFFFD))

def encode (s : List Char) : List UInt8 := s.flatMap String.utf8EncodeChar

@[simp] theorem encode_nil : encode [] = [] := rfl

@[simp] theorem encode_append (s t : List Char) : encode (s ++ t) = encode s ++ encode t := by
  simp [encode]

@[simp] theorem encode_cons (c : Char) (s : List Char) :
    encode (c :: s) = String.utf8EncodeChar c ++ encode s := rfl

theorem feed_append (s : Option Pending) (a b : List UInt8) :
    feed s (a ++ b) =
      ((feed s a).1 ++ (feed (feed s a).2 b).1, (feed (feed s a).2 b).2) := by
  induction a generalizing s with
  | nil => simp [feed]
  | cons x a ih => simp [feed, ih]

/-- The bytes of the sequence that is unfinished after `bytes`, where `held` are those of the
sequence unfinished before. -/
def hold : Option Pending → List UInt8 → List UInt8 → List UInt8
  | _, held, [] => held
  | s, held, b :: bs =>
    let r := step s b.toNat
    hold r.2 (if r.2.isNone then [] else if r.1 = [] then held ++ [b] else [b]) bs

private theorem start_fst_of_pending {b : ℕ} (h : (start b).2.isSome) : (start b).1 = [] := by
  unfold start at h ⊢
  split_ifs at h ⊢ <;> simp_all

/-- The bytes held back bring the machine back to where it stopped. -/
theorem feed_hold (s : Option Pending) (held bytes : List UInt8) (hheld : feed none held = ([], s)) :
    feed none (hold s held bytes) = ([], (feed s bytes).2) := by
  induction bytes generalizing s held with
  | nil => simpa [hold, feed] using hheld
  | cons b bs ih =>
    refine ih _ _ ?_
    split_ifs with hnone hquiet
    · simp [feed, Option.isNone_iff_eq_none.mp hnone]
    · simp [feed_append, hheld, feed, hquiet]
    · have hsome : (step s b.toNat).2.isSome := by
        rwa [← Option.not_isNone, Bool.not_eq_true', Bool.eq_false_iff]
      -- only an error that starts a new sequence both emits and leaves something pending
      have hstart : step s b.toNat = (none :: (start b.toNat).1, (start b.toNat).2) := by
        cases s with
        | none => exact absurd (start_fst_of_pending hsome) hquiet
        | some p =>
          simp only [step] at hsome hquiet ⊢
          split_ifs at hsome hquiet ⊢
          · cases hsome
          · exact absurd rfl hquiet
          · rfl
      rw [hstart] at hsome ⊢
      simp [feed, step, start_fst_of_pending hsome]

private theorem step_pending {s : Option Pending} {b : ℕ} (h : (step s b).1 = []) :
    (step s b).2.isSome := by
  have hstart : (start b).1 = [] → (start b).2.isSome := by
    unfold start
    split_ifs <;> simp
  cases s with
  | none => exact hstart h
  | some p =>
    simp only [step] at h ⊢
    split_ifs at h ⊢
    rfl

/-- Bytes that emit nothing leave something pending. -/
theorem feed_pending {bytes : List UInt8} {s : Option Pending} (h : feed none bytes = ([], s)) :
    s = none ↔ bytes = [] := by
  have hfeed : ∀ (s : Option Pending) (bytes : List UInt8), bytes ≠ [] → (feed s bytes).1 = [] →
      (feed s bytes).2.isSome := by
    intro s bytes
    induction bytes generalizing s with
    | nil => exact fun hne => absurd rfl hne
    | cons b bs ih =>
      intro _ hquiet
      obtain ⟨hstep, hrest⟩ := List.append_eq_nil_iff.mp hquiet
      by_cases hbs : bs = []
      · subst hbs
        exact step_pending hstep
      · exact ih _ hbs hrest
  constructor
  · rintro rfl
    by_contra hne
    have hsome := hfeed none bytes hne (by rw [h])
    rw [h] at hsome
    cases hsome
  · rintro rfl
    exact (Prod.ext_iff.mp h).2.symm

private theorem scalar_ranges (c : Char) :
    c.val.toNat < 0xD800 ∨ 0xDFFF < c.val.toNat ∧ c.val.toNat < 0x110000 := by
  simpa [UInt32.isValidChar, Nat.isValidChar] using c.valid

private theorem start_two {b : ℕ} (h : 0xC2 ≤ b ∧ b ≤ 0xDF) :
    start b = ([], some ⟨1, 0x80, 0xBF, b - 0xC0⟩) := by
  rw [start, if_neg (by omega), if_pos h]

private theorem start_three {b : ℕ} (h : 0xE0 ≤ b ∧ b ≤ 0xEF) :
    start b = ([], some ⟨2, if b = 0xE0 then 0xA0 else 0x80,
      if b = 0xED then 0x9F else 0xBF, b - 0xE0⟩) := by
  rw [start, if_neg (by omega), if_neg (by omega), if_pos h]

private theorem start_four {b : ℕ} (h : 0xF0 ≤ b ∧ b ≤ 0xF4) :
    start b = ([], some ⟨3, if b = 0xF0 then 0x90 else 0x80,
      if b = 0xF4 then 0x8F else 0xBF, b - 0xF0⟩) := by
  rw [start, if_neg (by omega), if_neg (by omega), if_neg (by omega), if_pos h]

private theorem step_last {l u a b : ℕ} (h : l ≤ b ∧ b ≤ u) :
    step (some ⟨1, l, u, a⟩) b = ([some (Char.ofNat (a * 64 + (b - 0x80)))], none) := by
  simp [step, h]

private theorem step_more {n l u a b : ℕ} (hn : n ≠ 0) (h : l ≤ b ∧ b ≤ u) :
    step (some ⟨n + 1, l, u, a⟩) b = ([], some ⟨n, 0x80, 0xBF, a * 64 + (b - 0x80)⟩) := by
  simp [step, h, hn]

private theorem toNat_ofNat {n : ℕ} (h : n < 256) : (UInt8.ofNat n).toNat = n := by
  simp [UInt8.toNat_ofNat', Nat.mod_eq_of_lt h]

/-- The machine reads a well-formed character back and is idle again. -/
theorem feed_encodeChar (c : Char) :
    feed none (String.utf8EncodeChar c) = ([some c], none) := by
  have hv := scalar_ranges c
  have hc : Char.ofNat c.val.toNat = c := Char.ofNat_toNat c
  unfold String.utf8EncodeChar
  generalize c.val.toNat = v at hv hc ⊢
  simp only
  split_ifs with h1 h2 h3
  · simp [feed, step, start, toNat_ofNat (by omega : v < 256), h1, hc]
  · rw [feed, toNat_ofNat (by omega), step, start_two (by omega), feed,
      toNat_ofNat (by omega), step_last (by omega), feed]
    have hacc : (v / 64 % 0x20 + 0xc0 - 0xC0) * 64 + (v % 0x40 + 0x80 - 0x80) = v := by omega
    rw [hacc, hc]
    rfl
  · rw [feed, toNat_ofNat (by omega), step, start_three (by omega), feed,
      toNat_ofNat (by omega), step_more (by omega) (by split_ifs <;> omega), feed,
      toNat_ofNat (by omega), step_last (by omega), feed]
    have hacc : ((v / 4096 % 0x10 + 0xe0 - 0xE0) * 64 + (v / 64 % 0x40 + 0x80 - 0x80)) * 64 +
        (v % 0x40 + 0x80 - 0x80) = v := by omega
    rw [hacc, hc]
    rfl
  · rw [feed, toNat_ofNat (by omega), step, start_four (by omega), feed,
      toNat_ofNat (by omega), step_more (by omega) (by split_ifs <;> omega), feed,
      toNat_ofNat (by omega), step_more (by omega) (by omega), feed,
      toNat_ofNat (by omega), step_last (by omega), feed]
    have hacc : (((v / 262144 % 0x08 + 0xf0 - 0xF0) * 64 + (v / 4096 % 0x40 + 0x80 - 0x80)) * 64 +
        (v / 64 % 0x40 + 0x80 - 0x80)) * 64 + (v % 0x40 + 0x80 - 0x80) = v := by omega
    rw [hacc, hc]
    rfl

theorem feed_encode (s : List Char) : feed none (encode s) = (s.map some, none) := by
  induction s with
  | nil => rfl
  | cons c s ih => simp [feed_append, feed_encodeChar, ih]

theorem mapM_id_eq_some {l : List Item} {s : List Char} :
    l.mapM id = some s ↔ l = s.map some := by
  induction l generalizing s with
  | nil => cases s <;> simp
  | cons x l ih =>
    cases x with
    | none => cases s <;> simp
    | some c =>
      cases s with
      | nil => simp [Option.bind_eq_some_iff]
      | cons d s => simp [← ih, Option.bind_eq_some_iff, and_comm]

theorem decodeStrict_eq_some {bytes : List UInt8} {s : List Char} :
    decodeStrict bytes = some s ↔ feed none bytes = (s.map some, none) := by
  rw [decodeStrict, mapM_id_eq_some, items]
  cases h : (feed none bytes).2 with
  | none => simp [flush, Prod.ext_iff, h]
  | some p =>
    simp only [flush, Prod.ext_iff, h, reduceCtorEq, and_false, iff_false]
    intro he
    have hmem : (none : Item) ∈ s.map some := he ▸ List.mem_append_right _ (by simp)
    simp at hmem

@[simp] theorem decodeStrict_encode (s : List Char) : decodeStrict (encode s) = some s :=
  decodeStrict_eq_some.mpr (feed_encode s)

@[simp] theorem decodeLossy_encode (s : List Char) : decodeLossy (encode s) = s := by
  have hitems : items (encode s) = s.map some := by simp [items, feed_encode, flush]
  rw [decodeLossy, hitems, List.map_map]
  exact List.map_id s

theorem encode_injective : Function.Injective encode :=
  Function.LeftInverse.injective decodeLossy_encode

/-- A well-formed prefix decodes on its own, whatever follows it. -/
theorem decodeStrict_append {a : List UInt8} {s : List Char} (h : decodeStrict a = some s)
    (b : List UInt8) : decodeStrict (a ++ b) = (decodeStrict b).map (s ++ ·) := by
  have ha := decodeStrict_eq_some.mp h
  have hitems : items (a ++ b) = s.map some ++ items b := by simp [items, feed_append, ha]
  cases hb : decodeStrict b with
  | none =>
    rw [Option.map_none, ← Option.not_isSome_iff_eq_none, Option.isSome_iff_exists]
    rintro ⟨t, ht⟩
    rw [decodeStrict, mapM_id_eq_some, hitems] at ht
    obtain ⟨t₁, t₂, rfl, -, ht₂⟩ := List.append_eq_map_iff.mp ht
    have hb' : decodeStrict b = some t₂ := mapM_id_eq_some.mpr ht₂.symm
    simp [hb] at hb'
  | some t =>
    rw [Option.map_some, decodeStrict, mapM_id_eq_some, hitems, List.map_append]
    exact congrArg _ (mapM_id_eq_some.mp hb)

private theorem start_lower {b : ℕ} : ∀ p ∈ (start b).2, 0x80 ≤ p.lower := by
  unfold start
  split_ifs <;> simp

/-- A pending sequence waits for a byte outside ASCII. -/
private theorem feed_lower {s : Option Pending} (hs : ∀ p ∈ s, 0x80 ≤ p.lower)
    (bytes : List UInt8) : ∀ p ∈ (feed s bytes).2, 0x80 ≤ p.lower := by
  induction bytes generalizing s with
  | nil => exact hs
  | cons b bs ih =>
    apply ih
    cases s with
    | none => exact start_lower
    | some p =>
      rw [step]
      split_ifs
      · simp
      · simp
      · exact start_lower

/-- An ASCII byte at the end is a character of its own. -/
theorem decodeStrict_concat_ascii {a : List UInt8} {b : UInt8} (hb : b.toNat < 0x80)
    {t : List Char} (h : decodeStrict (a ++ [b]) = some t) :
    ∃ s, decodeStrict a = some s ∧ t = s ++ [Char.ofNat b.toNat] := by
  rw [decodeStrict_eq_some, feed_append] at h
  have hstart : start b.toNat = ([some (Char.ofNat b.toNat)], none) := by
    rw [start, if_pos (by omega)]
  have hfeed := Prod.ext_iff.mp h
  cases hp : (feed none a).2 with
  | none =>
    simp only [hp, feed, step, hstart, List.append_nil] at hfeed
    obtain ⟨s, u, rfl, hs, hu⟩ := List.append_eq_map_iff.mp hfeed.1
    refine ⟨s, decodeStrict_eq_some.mpr (Prod.ext hs.symm hp), congrArg _ ?_⟩
    exact List.map_injective_iff.mpr (Option.some_injective _) hu
  | some p =>
    have hlow := feed_lower (by simp) a p hp
    simp only [hp, feed, step, if_neg (show ¬(p.lower ≤ b.toNat ∧ b.toNat ≤ p.upper) by omega),
      hstart] at hfeed
    have hmem : (none : Item) ∈ t.map some := by
      rw [← hfeed.1]
      simp
    simp at hmem

private theorem step_length (s : Option Pending) (b : ℕ) :
    (step s b).1.length + (flush (step s b).2).length ≤ (flush s).length + 1 := by
  have hstart (b : ℕ) : (start b).1.length + (flush (start b).2).length = 1 := by
    unfold start
    split_ifs <;> rfl
  cases s with
  | none => exact (hstart b).le
  | some p =>
    rw [step]
    split_ifs
    · simp [flush]
    · simp [flush]
    · have hb := hstart b
      have hp : (flush (some p)).length = 1 := rfl
      simp only [List.length_cons, hp]
      omega

/-- Replacing decoding never makes text longer than its bytes. -/
theorem decodeLossy_length_le (bytes : List UInt8) :
    (decodeLossy bytes).length ≤ bytes.length := by
  have h (s : Option Pending) : (feed s bytes).1.length + (flush (feed s bytes).2).length ≤
      (flush s).length + bytes.length := by
    induction bytes generalizing s with
    | nil => simp [feed]
    | cons b bs ih =>
      have h1 := step_length s b.toNat
      have h2 := ih (step s b.toNat).2
      simp only [feed, List.length_append, List.length_cons]
      omega
  simpa [decodeLossy, items, flush] using h none

end Utf8
