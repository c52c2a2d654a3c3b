import TerminalWorkspace.Foundation.Utf8

/-! Strict decoding that says where it stops: how many bytes are characters, and how many make
up the error that follows them, or that the bytes end inside a sequence. -/
namespace Utf8

structure Utf8Error where
  validUpTo : ℕ
  errorLen : Option ℕ
  deriving DecidableEq, Repr

/-- Where reading stops, after `valid` bytes of characters and `held` of an unfinished one. -/
def stop : Option Pending → ℕ → ℕ → List UInt8 → Option Utf8Error
  | s, valid, _, [] => s.map fun _ => ⟨valid, none⟩
  | s, valid, held, b :: bs =>
    match step s b.toNat with
    | ([], next) => stop next valid (held + 1) bs
    | (some _ :: _, next) => stop next (valid + held + 1) 0 bs
    | (none :: _, _) => some ⟨valid, some (max held 1)⟩

def fromUtf8 (bytes : List UInt8) : Except Utf8Error (List Char) :=
  match stop none 0 0 bytes with
  | none => .ok (decodeLossy bytes)
  | some error => .error error

/-- All bytes are characters, or some are, before the bytes end inside a sequence or go on with
an error that leaves the rest to be read from the start. -/
inductive Verdict : List UInt8 → Option Utf8Error → Prop
  | valid {bytes : List UInt8} {text : List Char} (h : feed none bytes = (text.map some, none)) :
    Verdict bytes none
  | cut {good held : List UInt8} {text : List Char} {p : Pending}
    (hgood : feed none good = (text.map some, none)) (hheld : feed none held = ([], some p)) :
    Verdict (good ++ held) (some ⟨good.length, none⟩)
  | wrong {good bad rest : List UInt8} {text : List Char}
    (hgood : feed none good = (text.map some, none)) (hbad : bad ≠ [])
    (hfeed : feed none (bad ++ rest) = (none :: (feed none rest).1, (feed none rest).2))
    (hhold : hold none [] (bad ++ rest) = hold none [] rest) :
    Verdict (good ++ (bad ++ rest)) (some ⟨good.length, some bad.length⟩)

section Steps
variable {s : Option Pending} {held bytes : List UInt8}

theorem start_cases (b : ℕ) : (∃ c, start b = ([some c], none)) ∨
    (∃ p, start b = ([], some p) ∧ 1 ≤ p.needed ∧ p.needed ≤ 3) ∨ start b = ([none], none) := by
  rw [start]
  by_cases hone : b ≤ 0x7F
  · exact .inl ⟨Char.ofNat b, if_pos hone⟩
  rw [if_neg hone]
  by_cases htwo : 0xC2 ≤ b ∧ b ≤ 0xDF
  · exact .inr (.inl ⟨_, if_pos htwo, le_rfl, Nat.le_of_ble_eq_true rfl⟩)
  rw [if_neg htwo]
  by_cases hthree : 0xE0 ≤ b ∧ b ≤ 0xEF
  · exact .inr (.inl ⟨_, if_pos hthree, Nat.le_of_ble_eq_true rfl, Nat.le_of_ble_eq_true rfl⟩)
  rw [if_neg hthree]
  by_cases hfour : 0xF0 ≤ b ∧ b ≤ 0xF4
  · exact .inr (.inl ⟨_, if_pos hfour, Nat.le_of_ble_eq_true rfl, le_rfl⟩)
  · exact .inr (.inr (if_neg hfour))

/-- A byte ends a character, goes on with one, or is or follows an error. -/
theorem step_cases (s : Option Pending) (b : ℕ) : (∃ c, step s b = ([some c], none)) ∨
    (∃ p, step s b = ([], some p)) ∨ (s = none ∧ step s b = ([none], none)) ∨
      ∃ p, s = some p ∧ step s b = (none :: (start b).1, (start b).2) := by
  cases s with
  | none =>
    rcases start_cases b with hchar | ⟨p, hp, -⟩ | hwrong
    · exact .inl hchar
    · exact .inr (.inl ⟨p, hp⟩)
    · exact .inr (.inr (.inl ⟨rfl, hwrong⟩))
  | some p =>
    by_cases hrange : p.lower ≤ b ∧ b ≤ p.upper
    · by_cases hlast : p.needed = 1
      · exact .inl ⟨_, by rw [step, if_pos hrange, if_pos hlast]⟩
      · exact .inr (.inl ⟨_, by rw [step, if_pos hrange, if_neg hlast]⟩)
    · exact .inr (.inr (.inr ⟨p, rfl, by rw [step, if_neg hrange]⟩))

theorem hold_append (s : Option Pending) (held a b : List UInt8) :
    hold s held (a ++ b) = hold (feed s a).2 (hold s held a) b := by
  induction a generalizing s held with
  | nil => rfl
  | cons x a ih => exact ih _ _

/-- Bytes that emit nothing are all held. -/
theorem hold_of_quiet (hquiet : (feed s bytes).1 = []) : hold s held bytes = held ++ bytes := by
  induction bytes generalizing s held with
  | nil => exact (List.append_nil held).symm
  | cons b bs ih =>
    obtain ⟨hstep, hrest⟩ := List.append_eq_nil_iff.mp hquiet
    obtain ⟨p, hp⟩ : ∃ p, step s b.toNat = ([], some p) := by
      rcases step_cases s b.toNat with ⟨c, h⟩ | h | ⟨-, h⟩ | ⟨p, -, h⟩
      · simp [h] at hstep
      · exact h
      · simp [h] at hstep
      · simp [h] at hstep
    rw [hold, ih hrest]
    simp [hp]

/-- The held bytes and those still owed make up one character. -/
def Owed (s : Option Pending) (held : List UInt8) : Prop :=
  match s with
  | none => held = []
  | some p => 1 ≤ p.needed ∧ held.length + p.needed ≤ 4

theorem owed_start (b : UInt8) :
    Owed (start b.toNat).2 (if (start b.toNat).2.isNone then [] else [b]) := by
  rcases start_cases b.toNat with ⟨c, hc⟩ | ⟨p, hp, hone, hthree⟩ | hwrong
  · rw [hc]
    rfl
  · rw [hp]
    refine ⟨hone, ?_⟩
    simp only [Option.isNone_some, Bool.false_eq_true, if_false, List.length_singleton]
    omega
  · rw [hwrong]
    rfl

theorem owed_step (h : Owed s held) (b : UInt8) :
    Owed (step s b.toNat).2 (if (step s b.toNat).2.isNone then []
      else if (step s b.toNat).1 = [] then held ++ [b] else [b]) := by
  cases s with
  | none =>
    obtain rfl : held = [] := h
    have hboth : (if (start b.toNat).1 = [] then [] ++ [b] else [b]) = [b] := by
      split_ifs <;> rfl
    rw [step, hboth]
    exact owed_start b
  | some p =>
    obtain ⟨hone, hfour⟩ := h
    by_cases hrange : p.lower ≤ b.toNat ∧ b.toNat ≤ p.upper
    · by_cases hlast : p.needed = 1
      · simp [step, hrange, hlast, Owed]
      · simp only [step, if_pos hrange, if_neg hlast, Option.isNone_some, Bool.false_eq_true,
          if_false, if_true, Owed, List.length_append, List.length_singleton]
        omega
    · simpa [step, hrange] using owed_start b

theorem owed_hold (h : Owed s held) : Owed (feed s bytes).2 (hold s held bytes) := by
  induction bytes generalizing s held with
  | nil => exact h
  | cons b bs ih => exact ih (owed_step h b)

/-- At most three bytes are held. -/
theorem length_hold_le (bytes : List UInt8) : (hold none [] bytes).length ≤ 3 := by
  have howed : Owed (feed none bytes).2 (hold none [] bytes) := owed_hold rfl
  cases hs : (feed none bytes).2 with
  | none =>
    rw [hs] at howed
    rw [show hold none [] bytes = [] from howed]
    exact Nat.zero_le 3
  | some p =>
    rw [hs] at howed
    obtain ⟨hone, hfour⟩ := howed
    omega

end Steps

section Verdict

theorem feed_char {good held : List UInt8} {text : List Char} {s : Option Pending} {c : Char}
    {b : UInt8}
    (hgood : feed none good = (text.map some, none)) (hheld : feed none held = ([], s))
    (hstep : step s b.toNat = ([some c], none)) :
    feed none (good ++ held ++ [b]) = ((text ++ [c]).map some, none) := by
  simp [feed_append, hgood, hheld, feed, hstep]

theorem verdict_stop (bytes : List UInt8) : ∀ (s : Option Pending) (good held : List UInt8)
    (text : List Char), feed none good = (text.map some, none) → feed none held = ([], s) →
      Verdict (good ++ (held ++ bytes)) (stop s good.length held.length bytes) := by
  induction bytes with
  | nil =>
    intro s good held text hgood hheld
    rw [List.append_nil]
    cases s with
    | none =>
      rw [(feed_pending hheld).mp rfl, List.append_nil]
      exact .valid hgood
    | some p => exact .cut hgood hheld
  | cons b bs ih =>
    intro s good held text hgood hheld
    rcases step_cases s b.toNat with ⟨c, hstep⟩ | ⟨p, hstep⟩ | ⟨rfl, hstep⟩ | ⟨p, rfl, hstep⟩
    · have hnext := ih _ _ [] _ (feed_char hgood hheld hstep) rfl
      simpa [stop, hstep, Nat.add_assoc] using hnext
    · have hmore : feed none (held ++ [b]) = ([], some p) := by
        simp [feed_append, hheld, feed, hstep]
      have hnext := ih _ _ _ _ hgood hmore
      simpa [stop, hstep] using hnext
    · obtain rfl := (feed_pending hheld).mp rfl
      have hwrong : Verdict (good ++ ([b] ++ bs)) (some ⟨good.length, some [b].length⟩) :=
        .wrong hgood (List.cons_ne_nil _ _) (by simp [feed, hstep]) (by simp [hold, hstep])
      simpa [stop, hstep] using hwrong
    · have hne : held ≠ [] := fun h => by cases (feed_pending hheld).mpr h
      have hnone : step none b.toNat = start b.toNat := rfl
      have hlength : max held.length 1 = held.length :=
        max_eq_left (List.length_pos_iff.mpr hne)
      have hwrong : Verdict (good ++ (held ++ b :: bs)) (some ⟨good.length, some held.length⟩) := by
        refine .wrong hgood hne ?_ ?_
        · simp [feed_append, hheld, feed, hstep, hnone]
        · rw [hold_append, hheld]
          simp [hold, hstep, hnone]
      simpa [stop, hstep, hlength] using hwrong

theorem verdict (bytes : List UInt8) : Verdict bytes (stop none 0 0 bytes) :=
  verdict_stop bytes _ [] [] [] rfl rfl

theorem render_map_some (text : List Char) : render (text.map some) = text := by
  rw [render, List.map_map]
  exact List.map_id text

theorem hold_of_idle {bytes : List UInt8} (h : (feed none bytes).2 = none) :
    hold none [] bytes = [] := by
  have hfeed := feed_hold none [] bytes rfl
  rw [h] at hfeed
  exact (feed_pending hfeed).mp rfl

theorem decodeLossy_of_feed {bytes : List UInt8} {text : List Char}
    (h : feed none bytes = (text.map some, none)) : decodeLossy bytes = text := by
  rw [decodeLossy, items, h, flush, List.append_nil, List.map_map]
  exact List.map_id text

theorem fromUtf8_cases (bytes : List UInt8) :
    (∃ text, fromUtf8 bytes = .ok text ∧ feed none bytes = (text.map some, none)) ∨
      ∃ error, fromUtf8 bytes = .error error ∧ Verdict bytes (some error) := by
  have hverdict := verdict bytes
  rw [fromUtf8]
  cases hstop : stop none 0 0 bytes with
  | none =>
    rw [hstop] at hverdict
    cases hverdict with
    | @valid bytes text h => exact .inl ⟨text, by rw [decodeLossy_of_feed h], h⟩
  | some error => exact .inr ⟨error, rfl, hstop ▸ hverdict⟩

theorem verdict_of_error {bytes : List UInt8} {error : Utf8Error}
    (h : fromUtf8 bytes = .error error) : Verdict bytes (some error) := by
  rcases fromUtf8_cases bytes with ⟨text, hok, -⟩ | ⟨other, hother, hverdict⟩
  · cases h.symm.trans hok
  · cases h.symm.trans hother
    exact hverdict

theorem feed_of_ok {bytes : List UInt8} {text : List Char} (h : fromUtf8 bytes = .ok text) :
    feed none bytes = (text.map some, none) := by
  rcases fromUtf8_cases bytes with ⟨other, hok, hfeed⟩ | ⟨error, herror, -⟩
  · cases h.symm.trans hok
    exact hfeed
  · cases h.symm.trans herror

section Errors
variable {bytes : List UInt8} {error : Utf8Error} {bad : ℕ}

theorem hold_append_of_idle {a : List UInt8} (h : (feed none a).2 = none) (b : List UInt8) :
    hold none [] (a ++ b) = hold none [] b := by
  rw [hold_append, h, hold_of_idle h]

/-- Past an error there are fewer bytes to read. -/
theorem length_drop_lt (h : fromUtf8 bytes = .error error) (hbad : error.errorLen = some bad) :
    (bytes.drop (error.validUpTo + bad)).length < bytes.length := by
  cases verdict_of_error h with
  | cut => cases hbad
  | @wrong good wrong rest text hgood hne =>
    obtain rfl := Option.some.inj hbad
    have hpos := List.length_pos_iff.mpr hne
    simp only [List.length_drop, List.length_append]
    omega

/-- An error stands between characters and a rest that is read from the start. -/
theorem feed_of_wrong (h : fromUtf8 bytes = .error error) (hbad : error.errorLen = some bad) :
    ∃ text : List Char, feed none (bytes.take error.validUpTo) = (text.map some, none) ∧
      feed none bytes =
        (text.map some ++ none :: (feed none (bytes.drop (error.validUpTo + bad))).1,
          (feed none (bytes.drop (error.validUpTo + bad))).2) ∧
      hold none [] bytes = hold none [] (bytes.drop (error.validUpTo + bad)) := by
  cases verdict_of_error h with
  | cut => cases hbad
  | @wrong good wrong rest text hgood hne hfeed hhold =>
    obtain rfl := Option.some.inj hbad
    have hdrop : (good ++ (wrong ++ rest)).drop (good.length + wrong.length) = rest := by
      rw [← List.append_assoc, ← List.length_append, List.drop_left]
    rw [hdrop, List.take_left]
    refine ⟨text, hgood, ?_, ?_⟩
    · rw [feed_append, hgood, hfeed]
    · rw [hold_append_of_idle (by rw [hgood]), hhold]

/-- Bytes that end inside a sequence are characters before it. -/
theorem feed_of_cut (h : fromUtf8 bytes = .error error) (hcut : error.errorLen = none) :
    ∃ text : List Char, feed none (bytes.take error.validUpTo) = (text.map some, none) ∧
      (feed none bytes).1 = text.map some ∧
      hold none [] bytes = bytes.drop error.validUpTo := by
  cases verdict_of_error h with
  | wrong => cases hcut
  | @cut good held text p hgood hheld =>
    rw [List.take_left, List.drop_left]
    refine ⟨text, hgood, ?_, ?_⟩
    · rw [feed_append, hgood, hheld, List.append_nil]
    · rw [hold_append_of_idle (by rw [hgood]), hold_of_quiet (by rw [hheld]), List.nil_append]

end Errors

end Verdict

end Utf8
