import Mathlib.Data.Rat.Floor
import Mathlib.Tactic.Linarith
import Mathlib.Tactic.Positivity
import TerminalWorkspace.Foundation.Calendar
import TerminalWorkspace.Foundation.JsText

/-! Timestamps in the extended format of ISO 8601, with any number of fraction digits and any
offset from UTC: the instants that they denote, and the order of their texts. -/
namespace Timestamps
open Calendar JsText

section Text

/-- A number in a field of fixed width. -/
def pad : ℕ → ℕ → List Char
  | 0, _ => []
  | width + 1, n => pad width (n / 10) ++ [Nat.digitChar (n % 10)]

inductive Zone where
  | utc
  | offset (ahead : Bool) (hour : Fin 24) (minute : Fin 60)
  deriving DecidableEq

/-- How far the clocks of a zone are ahead. -/
def Zone.seconds : Zone → ℤ
  | .utc => 0
  | .offset true hour minute => 3600 * hour + 60 * minute
  | .offset false hour minute => -(3600 * hour + 60 * minute)

def Zone.text : Zone → List Char
  | .utc => ['Z']
  | .offset ahead hour minute =>
    (if ahead then '+' else '-') :: pad 2 hour ++ ':' :: pad 2 minute

structure Timestamp where
  date : Date
  hour : Fin 24
  minute : Fin 60
  second : Fin 60
  fraction : List (Fin 10)
  zone : Zone

variable (t : Timestamp)

/-- The date and the time of day, to the second. -/
def Timestamp.clockText : List Char :=
  pad 4 t.date.year ++ '-' :: pad 2 (t.date.month + 1) ++ '-' :: pad 2 (t.date.day + 1) ++
    'T' :: pad 2 t.hour ++ ':' :: pad 2 t.minute ++ ':' :: pad 2 t.second

def fractionText (digits : List (Fin 10)) : List Char :=
  if digits = [] then [] else '.' :: digits.map fun digit : Fin 10 => Nat.digitChar digit

def Timestamp.text : JsString := ofText (t.clockText ++ (fractionText t.fraction ++ t.zone.text))

end Text

section Instants

def fractionValue : List (Fin 10) → ℚ
  | [] => 0
  | digit :: digits => (digit + fractionValue digits) / 10

variable (t : Timestamp)

/-- The seconds that the date and the time of day count, whatever the zone. -/
def Timestamp.clock : ℕ :=
  t.date.dayNumber * 86400 + t.hour * 3600 + t.minute * 60 + t.second

def Timestamp.instant : ℚ := t.clock + fractionValue t.fraction - t.zone.seconds

/-- The second before which every clock stands. -/
def clockEnd : ℕ := yearStart 10000 * 86400

theorem Timestamp.clock_lt : t.clock < clockEnd := by
  have hnext : (t.date.dayNumber + 1) * 86400 ≤ clockEnd :=
    Nat.mul_le_mul_right 86400 t.date.dayNumber_lt_end
  refine lt_of_lt_of_le ?_ hnext
  rw [Timestamp.clock]
  omega

/-- Every second of those years is shown by a clock. -/
theorem exists_clock {n : ℕ} (h : n < clockEnd) (fraction : List (Fin 10)) (zone : Zone) :
    ∃ t : Timestamp, t.clock = n ∧ t.fraction = fraction ∧ t.zone = zone := by
  obtain ⟨date, hdate⟩ := exists_date (Nat.div_lt_of_lt_mul (by rwa [mul_comm]))
  refine ⟨⟨date, ⟨n % 86400 / 3600, by omega⟩, ⟨n % 3600 / 60, by omega⟩, ⟨n % 60, by omega⟩,
    fraction, zone⟩, ?_, rfl, rfl⟩
  simp only [Timestamp.clock, hdate]
  omega

theorem fractionValue_nonneg (digits : List (Fin 10)) : 0 ≤ fractionValue digits := by
  induction digits with
  | nil => exact le_rfl
  | cons digit digits ih =>
    rw [fractionValue]
    positivity

theorem fractionValue_lt_one (digits : List (Fin 10)) : fractionValue digits < 1 := by
  induction digits with
  | nil => exact zero_lt_one
  | cons digit digits ih =>
    have hdigit : ((digit : ℕ) : ℚ) ≤ 9 := by exact_mod_cast Nat.lt_succ_iff.mp digit.isLt
    rw [fractionValue, div_lt_one (by norm_num)]
    linarith

/-- Zeros at the end of a fraction do not change it. -/
theorem fractionValue_append_zeros (digits : List (Fin 10)) (n : ℕ) :
    fractionValue (digits ++ List.replicate n 0) = fractionValue digits := by
  have hzeros : fractionValue (List.replicate n 0) = 0 := by
    induction n with
    | zero => rfl
    | succ n ih => simp [List.replicate_succ, fractionValue, ih]
  induction digits with
  | nil => exact hzeros
  | cons digit digits ih => rw [List.cons_append, fractionValue, ih, fractionValue]

theorem Zone.seconds_bounds (zone : Zone) : -86400 < zone.seconds ∧ zone.seconds < 86400 := by
  cases zone with
  | utc => decide
  | offset ahead hour minute => cases ahead <;> simp only [Zone.seconds] <;> omega

end Instants

section Order

def codes (s : List Char) : List ℕ := s.map Char.toNat

/-- Texts of two bytes a character are compared by their characters. -/
theorem before_ofText {s t : List Char} (hs : ∀ c ∈ s, c.toNat < 0x10000)
    (ht : ∀ c ∈ t, c.toNat < 0x10000) : before (ofText s) (ofText t) = true ↔ codes s < codes t := by
  have hunits : ∀ s : List Char, (∀ c ∈ s, c.toNat < 0x10000) →
      (ofText s).flatMap CodePoint.units = codes s := by
    intro s hs
    induction s with
    | nil => rfl
    | cons c s ih =>
      have hc : CodePoint.units (.scalar c) = [c.toNat] := if_pos (hs c List.mem_cons_self)
      have hrest := ih fun d hd => hs d (List.mem_cons_of_mem _ hd)
      rw [ofText] at hrest ⊢
      rw [List.map_cons, List.flatMap_cons, hc, hrest, codes, codes, List.map_cons,
        List.singleton_append]
  rw [before, hunits s hs, hunits t ht, decide_eq_true_eq]

theorem append_lt_append_iff {a b s t : List ℕ} (h : a.length = b.length) :
    a ++ s < b ++ t ↔ a < b ∨ a = b ∧ s < t := by
  induction a generalizing b with
  | nil =>
    obtain rfl := List.eq_nil_of_length_eq_zero h.symm
    simp
  | cons x a ih =>
    cases b with
    | nil => cases h
    | cons y b =>
      simp only [List.cons_append, List.cons_lt_cons_iff, ih (Nat.succ.inj h), List.cons.injEq]
      tauto

theorem length_pad (width n : ℕ) : (pad width n).length = width := by
  induction width generalizing n with
  | zero => rfl
  | succ width ih => rw [pad, List.length_append, ih, List.length_singleton]

theorem code_digit {d : ℕ} (h : d < 10) : (Nat.digitChar d).toNat = 48 + d :=
  Nat.toNat_digitChar_of_lt_ten h

theorem codes_append (s t : List Char) : codes (s ++ t) = codes s ++ codes t := List.map_append

theorem length_codes (s : List Char) : (codes s).length = s.length := List.length_map _

/-- Numbers in a field of one width are in the order of their digits. -/
theorem pad_order {width m n : ℕ} (hm : m < 10 ^ width) (hn : n < 10 ^ width) :
    (codes (pad width m) < codes (pad width n) ↔ m < n) ∧
      (codes (pad width m) = codes (pad width n) ↔ m = n) := by
  induction width generalizing m n with
  | zero =>
    obtain rfl : m = 0 := by omega
    obtain rfl : n = 0 := by omega
    simp [pad, codes]
  | succ width ih =>
    have hlength : (codes (pad width (m / 10))).length = (codes (pad width (n / 10))).length := by
      rw [length_codes, length_codes, length_pad, length_pad]
    obtain ⟨hlt, heq⟩ := ih (m := m / 10) (n := n / 10) (by rw [pow_succ] at hm; omega)
      (by rw [pow_succ] at hn; omega)
    have hdigits : ∀ k, codes [Nat.digitChar (k % 10)] = [48 + k % 10] := fun k =>
      congrArg (fun code => [code]) (code_digit (Nat.mod_lt k (by decide)))
    constructor
    · rw [pad, pad, codes_append, codes_append, append_lt_append_iff hlength, hlt, heq, hdigits,
        hdigits, List.cons_lt_cons_iff]
      simp only [List.not_lt_nil, and_false, or_false]
      omega
    · rw [pad, pad, codes_append, codes_append, List.append_eq_append_iff_of_size_eq_left hlength,
        heq, hdigits, hdigits, List.singleton_inj]
      omega

/-- Texts that begin with a number are compared by it, and then by what follows. -/
theorem field_lt {width m n : ℕ} {s t : List Char} (hm : m < 10 ^ width) (hn : n < 10 ^ width) :
    codes (pad width m ++ s) < codes (pad width n ++ t) ↔ m < n ∨ m = n ∧ codes s < codes t := by
  have hlength : (codes (pad width m)).length = (codes (pad width n)).length := by
    rw [length_codes, length_codes, length_pad, length_pad]
  obtain ⟨hlt, heq⟩ := pad_order hm hn
  rw [codes_append, codes_append, append_lt_append_iff hlength, hlt, heq]

theorem codes_cons_lt {c : Char} {s t : List Char} :
    codes (c :: s) < codes (c :: t) ↔ codes s < codes t := by
  simp [codes, List.cons_lt_cons_iff]

variable {a b : Timestamp}

/-- One clock is before the other, at the first of the fields in which they differ. -/
def ClockBefore (a b : Timestamp) (rest : Prop) : Prop :=
  a.date.year < b.date.year ∨ a.date.year = b.date.year ∧
    (a.date.month < b.date.month ∨ a.date.month = b.date.month ∧
      (a.date.day < b.date.day ∨ a.date.day = b.date.day ∧
        ((a.hour : ℕ) < b.hour ∨ (a.hour : ℕ) = b.hour ∧
          ((a.minute : ℕ) < b.minute ∨ (a.minute : ℕ) = b.minute ∧
            ((a.second : ℕ) < b.second ∨ (a.second : ℕ) = b.second ∧ rest)))))

theorem Date.day_lt_hundred (date : Date) : date.day + 1 < 10 ^ 2 := by
  have hday := date.day_lt
  have hlength : daysInMonth date.year date.month ≤ 31 := by
    unfold daysInMonth
    split
    · split_ifs <;> decide
    all_goals decide
  omega

theorem clockText_lt (s t : List Char) :
    codes (a.clockText ++ s) < codes (b.clockText ++ t) ↔
      ClockBefore a b (codes s < codes t) := by
  have hmonth := a.date.month_lt
  have hmonth' := b.date.month_lt
  simp only [Timestamp.clockText, List.append_assoc, List.cons_append]
  rw [field_lt a.date.year_lt b.date.year_lt, codes_cons_lt, field_lt (by omega) (by omega),
    codes_cons_lt, field_lt (Date.day_lt_hundred _) (Date.day_lt_hundred _), codes_cons_lt,
    field_lt (by omega) (by omega), codes_cons_lt, field_lt (by omega) (by omega), codes_cons_lt,
    field_lt (by omega) (by omega)]
  simp only [Nat.add_lt_add_iff_right, Nat.add_right_cancel_iff, ClockBefore]

theorem clockBefore_iff (rest : Prop) :
    ClockBefore a b rest ↔ a.clock < b.clock ∨ a.clock = b.clock ∧ rest := by
  have hbefore := Date.dayNumber_lt a.date b.date
  have hafter := Date.dayNumber_lt b.date a.date
  have hsame : a.date.year = b.date.year → a.date.month = b.date.month →
      a.date.day = b.date.day → a.date.dayNumber = b.date.dayNumber := by
    intro hyear hmonth hday
    rw [Date.dayNumber, Date.dayNumber, hyear, hmonth, hday]
  simp only [ClockBefore, Timestamp.clock]
  by_cases hrest : rest
  · simp only [hrest, and_true]
    omega
  · simp only [hrest, and_false, or_false]
    omega

theorem pad_narrow (width n : ℕ) : ∀ c ∈ pad width n, c.toNat < 0x10000 := by
  induction width generalizing n with
  | zero => simp [pad]
  | succ width ih =>
    intro c hc
    rcases List.mem_append.mp hc with hc | hc
    · exact ih _ c hc
    · rw [List.mem_singleton.mp hc, code_digit (Nat.mod_lt n (by decide))]
      omega

theorem Timestamp.text_narrow (t : Timestamp) :
    ∀ c ∈ t.clockText ++ (fractionText t.fraction ++ t.zone.text), c.toNat < 0x10000 := by
  have hfraction : ∀ c ∈ fractionText t.fraction, c.toNat < 0x10000 := by
    intro c hc
    rw [fractionText] at hc
    split_ifs at hc
    · exact absurd hc List.not_mem_nil
    · rcases List.mem_cons.mp hc with rfl | hc
      · decide
      · obtain ⟨digit, -, rfl⟩ := List.mem_map.mp hc
        rw [code_digit digit.isLt]
        omega
  have hzone : ∀ c ∈ t.zone.text, c.toNat < 0x10000 := by
    cases t.zone with
    | utc => exact JsText.forall_mem_of_all (by decide)
    | offset ahead hour minute =>
      cases ahead <;>
        simpa [Zone.text, or_imp, forall_and] using ⟨pad_narrow 2 hour, pad_narrow 2 minute⟩
  have hclock : ∀ c ∈ t.clockText, c.toNat < 0x10000 := by
    intro c hc
    simp only [Timestamp.clockText, List.mem_append, List.mem_cons] at hc
    rcases hc with ((((hc | rfl | hc) | rfl | hc) | rfl | hc) | rfl | hc) | rfl | hc
    all_goals first | exact pad_narrow _ _ _ hc | decide
  simp only [List.mem_append]
  exact fun c hc => hc.elim (hclock c) fun hc => hc.elim (hfraction c) (hzone c)

/-- Timestamps are written in the order of their clocks, and of what follows. -/
theorem before_text_iff :
    before a.text b.text = true ↔
      a.clock < b.clock ∨ a.clock = b.clock ∧
        codes (fractionText a.fraction ++ a.zone.text) <
          codes (fractionText b.fraction ++ b.zone.text) := by
  rw [Timestamp.text, Timestamp.text, before_ofText a.text_narrow b.text_narrow, clockText_lt,
    clockBefore_iff]

end Order

section Alignment

/-- Fractions of one length are in the order of their digits. -/
theorem digits_lt {ds es : List (Fin 10)} (h : ds.length = es.length) :
    codes (ds.map fun digit : Fin 10 => Nat.digitChar digit) <
        codes (es.map fun digit : Fin 10 => Nat.digitChar digit) ↔
      fractionValue ds < fractionValue es := by
  induction ds generalizing es with
  | nil =>
    obtain rfl := List.eq_nil_of_length_eq_zero h.symm
    simp [codes]
  | cons d ds ih =>
    cases es with
    | nil => cases h
    | cons e es =>
      have hds := fractionValue_nonneg ds
      have hes := fractionValue_nonneg es
      have hds' := fractionValue_lt_one ds
      have hes' := fractionValue_lt_one es
      have hrest := ih (Nat.succ.inj h)
      simp only [codes, List.map_cons, List.cons_lt_cons_iff, code_digit (Fin.isLt _),
        fractionValue] at hrest ⊢
      rw [hrest, div_lt_div_iff_of_pos_right (by norm_num)]
      rcases lt_trichotomy (d : ℕ) e with hlt | heq | hgt
      · have hcast : ((d : ℕ) : ℚ) + 1 ≤ (e : ℕ) := by exact_mod_cast hlt
        exact iff_of_true (.inl (by omega)) (by linarith)
      · rw [heq]
        simp
      · have hcast : ((e : ℕ) : ℚ) + 1 ≤ (d : ℕ) := by exact_mod_cast hgt
        exact iff_of_false (by omega) (by linarith)

theorem fractionText_lt {ds es : List (Fin 10)} (h : ds.length = es.length) (s : List Char) :
    codes (fractionText ds ++ s) < codes (fractionText es ++ s) ↔
      fractionValue ds < fractionValue es := by
  have hlength : (codes (fractionText ds)).length = (codes (fractionText es)).length := by
    cases ds <;> cases es <;> simp_all [fractionText, codes]
  have hirrefl : ¬codes s < codes s := lt_irrefl _
  rw [codes_append, codes_append, append_lt_append_iff hlength, ← digits_lt h]
  simp only [hirrefl, and_false, or_false]
  cases ds with
  | nil =>
    obtain rfl := List.eq_nil_of_length_eq_zero h.symm
    rfl
  | cons d ds =>
    cases es with
    | nil => cases h
    | cons e es => simp only [fractionText, List.cons_ne_nil, if_false, codes_cons_lt]

variable (a b t : Timestamp)

/-- What the clocks of a zone show at the instant of a timestamp. -/
def Timestamp.clockIn (zone : Zone) : ℤ := t.clock - t.zone.seconds + zone.seconds

/-- The clocks of a zone can show the instant of a timestamp. -/
def Timestamp.ShownIn (zone : Zone) : Prop := 0 ≤ t.clockIn zone ∧ t.clockIn zone < clockEnd

/-- A timestamp for the same instant, with further zeros in its fraction. -/
theorem exists_spelling {zone : Zone} (h : t.ShownIn zone) (zeros : ℕ) :
    ∃ s : Timestamp, s.instant = t.instant ∧ s.zone = zone ∧
      s.fraction = t.fraction ++ List.replicate zeros 0 := by
  obtain ⟨n, hn⟩ := Int.eq_ofNat_of_zero_le h.1
  obtain ⟨s, hclock, hfraction, hzone⟩ :=
    exists_clock (by have := h.2; omega : n < clockEnd) (t.fraction ++ List.replicate zeros 0) zone
  refine ⟨s, ?_, hzone, hfraction⟩
  have hcast : (n : ℚ) = t.clock - t.zone.seconds + zone.seconds := by
    exact_mod_cast hn.symm
  rw [Timestamp.instant, Timestamp.instant, hclock, hfraction, hzone, fractionValue_append_zeros,
    hcast]
  ring

/-- In one zone and with fractions of one length, texts are in the order of the instants. -/
theorem before_iff_of_same {a b : Timestamp} (hzone : a.zone = b.zone)
    (hlength : a.fraction.length = b.fraction.length) :
    before a.text b.text = true ↔ a.instant < b.instant := by
  have ha := fractionValue_nonneg a.fraction
  have hb := fractionValue_nonneg b.fraction
  have ha' := fractionValue_lt_one a.fraction
  have hb' := fractionValue_lt_one b.fraction
  rw [before_text_iff, hzone, fractionText_lt hlength, Timestamp.instant, Timestamp.instant, hzone,
    sub_lt_sub_iff_right]
  rcases lt_trichotomy a.clock b.clock with hlt | heq | hgt
  · have hcast : (a.clock : ℚ) + 1 ≤ b.clock := by exact_mod_cast hlt
    exact iff_of_true (.inl hlt) (by linarith)
  · simp [heq]
  · have hcast : (b.clock : ℚ) + 1 ≤ a.clock := by exact_mod_cast hgt
    exact iff_of_false (by omega) (by linarith)

/-- Clocks that are two days apart show the order of the instants. -/
theorem before_iff_of_far {a b : Timestamp}
    (h : a.clock + 172801 ≤ b.clock ∨ b.clock + 172801 ≤ a.clock) :
    before a.text b.text = true ↔ a.instant < b.instant := by
  have ha := fractionValue_nonneg a.fraction
  have hb := fractionValue_nonneg b.fraction
  have ha' := fractionValue_lt_one a.fraction
  have hb' := fractionValue_lt_one b.fraction
  have hza : -86400 < (a.zone.seconds : ℚ) ∧ (a.zone.seconds : ℚ) < 86400 := by
    exact_mod_cast a.zone.seconds_bounds
  have hzb : -86400 < (b.zone.seconds : ℚ) ∧ (b.zone.seconds : ℚ) < 86400 := by
    exact_mod_cast b.zone.seconds_bounds
  rw [before_text_iff, Timestamp.instant, Timestamp.instant]
  rcases h with h | h
  · have hcast : (a.clock : ℚ) + 172801 ≤ b.clock := by exact_mod_cast h
    exact iff_of_true (.inl (by omega)) (by linarith)
  · have hcast : (b.clock : ℚ) + 172801 ≤ a.clock := by exact_mod_cast h
    exact iff_of_false (by omega) (by linarith)

/-- The order of their texts is that of their instants. -/
def InOrder (a b : Timestamp) : Prop :=
  (before a.text b.text = true ↔ a.instant < b.instant) ∧
    (before b.text a.text = true ↔ b.instant < a.instant)

theorem InOrder.symm {a b : Timestamp} (h : InOrder a b) : InOrder b a := ⟨h.2, h.1⟩

theorem shownIn_self : t.ShownIn t.zone := by
  have hclock := t.clock_lt
  simp only [Timestamp.ShownIn, Timestamp.clockIn]
  omega

theorem exists_inOrder_of_shown {a b : Timestamp} (h : b.ShownIn a.zone) :
    ∃ a' b' : Timestamp, a'.instant = a.instant ∧ b'.instant = b.instant ∧ InOrder a' b' := by
  obtain ⟨a', ha, hza, hfa⟩ := exists_spelling a (shownIn_self a) b.fraction.length
  obtain ⟨b', hb, hzb, hfb⟩ := exists_spelling b h a.fraction.length
  have hzone : a'.zone = b'.zone := hza.trans hzb.symm
  have hlength : a'.fraction.length = b'.fraction.length := by
    simp [hfa, hfb, Nat.add_comm]
  exact ⟨a', b', ha, hb, before_iff_of_same hzone hlength,
    before_iff_of_same hzone.symm hlength.symm⟩

/-- Any two instants can be written so that their texts are in order. -/
theorem exists_inOrder :
    ∃ a' b' : Timestamp, a'.instant = a.instant ∧ b'.instant = b.instant ∧ InOrder a' b' := by
  by_cases hb : b.ShownIn a.zone
  · exact exists_inOrder_of_shown hb
  · by_cases ha : a.ShownIn b.zone
    · obtain ⟨b', a', hb', ha', horder⟩ := exists_inOrder_of_shown ha
      exact ⟨a', b', ha', hb', horder.symm⟩
    · have hfar : a.clock + 172801 ≤ b.clock ∨ b.clock + 172801 ≤ a.clock := by
        have hlarge : 518401 ≤ clockEnd := by decide +kernel
        have hza := a.zone.seconds_bounds
        have hzb := b.zone.seconds_bounds
        have hca := a.clock_lt
        have hcb := b.clock_lt
        simp only [Timestamp.ShownIn, Timestamp.clockIn] at ha hb
        generalize clockEnd = last at *
        omega
      exact ⟨a, b, rfl, rfl, before_iff_of_far hfar, before_iff_of_far hfar.symm⟩

end Alignment

section Respelling

/-- The largest offset, of 23 hours and 59 minutes. -/
def offsetEnd : ℤ := 86340

theorem Zone.seconds_le (zone : Zone) :
    -offsetEnd ≤ zone.seconds ∧ zone.seconds ≤ offsetEnd := by
  cases zone with
  | utc => decide
  | offset ahead hour minute => cases ahead <;> simp only [Zone.seconds, offsetEnd] <;> omega

theorem Zone.text_of_last {zone : Zone} (h : zone.seconds = offsetEnd) :
    ∃ s, zone.text = '+' :: s := by
  cases zone with
  | utc => exact absurd h (by decide)
  | offset ahead hour minute =>
    cases ahead with
    | true => exact ⟨_, rfl⟩
    | false =>
      simp only [Zone.seconds, offsetEnd] at h
      omega

/-- The digits of a smaller fraction come first, where only an offset can follow them. -/
theorem digits_lt_of_lt {ds es : List (Fin 10)} (h : fractionValue ds < fractionValue es)
    (s t : List Char) :
    codes ((ds.map fun digit : Fin 10 => Nat.digitChar digit) ++ '+' :: s) <
      codes ((es.map fun digit : Fin 10 => Nat.digitChar digit) ++ t) := by
  induction ds generalizing es with
  | nil =>
    cases es with
    | nil => exact absurd h (lt_irrefl _)
    | cons e es =>
      simp only [codes, List.map_nil, List.nil_append, List.map_cons, List.cons_append,
        List.cons_lt_cons_iff, code_digit e.isLt]
      exact .inl (by simp only [Char.reduceToNat]; omega)
  | cons d ds ih =>
    cases es with
    | nil => exact absurd h (not_lt.mpr (fractionValue_nonneg _))
    | cons e es =>
      have hds := fractionValue_nonneg ds
      have hes := fractionValue_lt_one es
      simp only [fractionValue] at h
      rw [div_lt_div_iff_of_pos_right (by norm_num)] at h
      simp only [codes, List.map_cons, List.cons_append, List.cons_lt_cons_iff,
        code_digit (Fin.isLt _)]
      rcases lt_trichotomy (d : ℕ) e with hlt | heq | hgt
      · exact .inl (by omega)
      · refine .inr ⟨by omega, ih ?_⟩
        rw [heq] at h
        linarith
      · have hcast : ((e : ℕ) : ℚ) + 1 ≤ (d : ℕ) := by exact_mod_cast hgt
        exact absurd h (by linarith)

theorem fractionText_lt_of_lt {ds es : List (Fin 10)} (h : fractionValue ds < fractionValue es)
    (s t : List Char) :
    codes (fractionText ds ++ '+' :: s) < codes (fractionText es ++ t) := by
  cases es with
  | nil => exact absurd h (not_lt.mpr (fractionValue_nonneg _))
  | cons e es =>
    have hrest := digits_lt_of_lt h s t
    cases ds with
    | nil =>
      simp only [fractionText, if_true, List.cons_ne_nil, if_false, codes, List.nil_append,
        List.cons_append, List.map_cons, List.cons_lt_cons_iff]
      exact .inl (by decide)
    | cons d ds =>
      simp only [fractionText, List.cons_ne_nil, if_false, List.cons_append]
      exact codes_cons_lt.mpr hrest

/-- Fractions of one length are told apart by their digits, whatever follows. -/
theorem fractionText_lt_of_length {ds es : List (Fin 10)} (hlength : ds.length = es.length)
    (h : fractionValue ds < fractionValue es) (s t : List Char) :
    codes (fractionText ds ++ s) < codes (fractionText es ++ t) := by
  have hcodes : (codes (fractionText ds)).length = (codes (fractionText es)).length := by
    cases ds <;> cases es <;> simp_all [fractionText, codes]
  have hlt := (fractionText_lt hlength []).mpr h
  rw [List.append_nil, List.append_nil] at hlt
  rw [codes_append, codes_append, append_lt_append_iff hcodes]
  exact .inl hlt

/-- An offset behind comes before another digit. -/
theorem fractionText_lt_zero (ds : List (Fin 10)) (s t : List Char) :
    codes (fractionText ds ++ '-' :: s) < codes (fractionText (ds ++ [0]) ++ t) := by
  have hdigits : ∀ ds : List (Fin 10),
      codes ((ds.map fun digit : Fin 10 => Nat.digitChar digit) ++ '-' :: s) <
        codes (((ds ++ [0]).map fun digit : Fin 10 => Nat.digitChar digit) ++ t) := by
    intro ds
    induction ds with
    | nil =>
      simp only [codes, List.map_nil, List.nil_append, List.map_cons, List.cons_append,
        List.cons_lt_cons_iff]
      exact .inl (by decide)
    | cons d ds ih => exact codes_cons_lt.mpr ih
  cases ds with
  | nil =>
    simp only [fractionText, if_true, List.nil_append, List.cons_ne_nil, if_false, codes,
      List.cons_append, List.map_cons, List.cons_lt_cons_iff]
    exact .inl (by decide)
  | cons d ds =>
    simp only [fractionText, List.cons_ne_nil, if_false, List.cons_append]
    exact codes_cons_lt.mpr (hdigits (d :: ds))

theorem eq_of_fractionValue {ds es : List (Fin 10)} (hlength : ds.length = es.length)
    (h : fractionValue ds = fractionValue es) : ds = es := by
  induction ds generalizing es with
  | nil => exact (List.eq_nil_of_length_eq_zero hlength.symm).symm
  | cons d ds ih =>
    cases es with
    | nil => cases hlength
    | cons e es =>
      have hds := fractionValue_nonneg ds
      have hes := fractionValue_nonneg es
      have hds' := fractionValue_lt_one ds
      have hes' := fractionValue_lt_one es
      rw [fractionValue, fractionValue, div_left_inj' (by norm_num)] at h
      rcases lt_trichotomy (d : ℕ) e with hlt | heq | hgt
      · have hcast : ((d : ℕ) : ℚ) + 1 ≤ (e : ℕ) := by exact_mod_cast hlt
        exact absurd h (by linarith)
      · rw [heq, add_right_inj] at h
        rw [Fin.ext heq, ih (Nat.succ.inj hlength) h]
      · have hcast : ((e : ℕ) : ℚ) + 1 ≤ (d : ℕ) := by exact_mod_cast hgt
        exact absurd h (by linarith)

variable {a b : Timestamp}

theorem clock_add (t : Timestamp) :
    (t.clock : ℚ) + fractionValue t.fraction = t.instant + t.zone.seconds := by
  rw [Timestamp.instant]
  ring

/-- Instants that no two offsets can bring together are written in their order. -/
theorem before_of_far (h : a.instant + 2 * offsetEnd < b.instant) :
    before a.text b.text = true := by
  have ha := fractionValue_nonneg a.fraction
  have hb := fractionValue_nonneg b.fraction
  have ha' := fractionValue_lt_one a.fraction
  have hb' := fractionValue_lt_one b.fraction
  have hza : (a.zone.seconds : ℚ) ≤ offsetEnd := by exact_mod_cast a.zone.seconds_le.2
  have hzb : -(offsetEnd : ℚ) ≤ b.zone.seconds := by exact_mod_cast b.zone.seconds_le.1
  have hca := clock_add a
  have hcb := clock_add b
  rw [before_text_iff]
  rcases lt_trichotomy a.clock b.clock with hlt | heq | hgt
  · exact .inl hlt
  · refine .inr ⟨heq, ?_⟩
    have hcast : (a.clock : ℚ) = b.clock := by exact_mod_cast heq
    -- the clocks are together, so both offsets are the largest
    have hlast : a.zone.seconds = offsetEnd := by
      have hgap : (offsetEnd : ℚ) - 1 < a.zone.seconds := by linarith
      have hint : offsetEnd - 1 < a.zone.seconds := by exact_mod_cast hgap
      have hle := a.zone.seconds_le.2
      omega
    obtain ⟨s, hs⟩ := Zone.text_of_last hlast
    rw [hs]
    exact fractionText_lt_of_lt (by linarith) s _
  · have hcast : (b.clock : ℚ) + 1 ≤ a.clock := by exact_mod_cast hgt
    exact absurd h (by linarith)

/-- The clocks of every zone can show the instant. -/
def Timestamp.Inner (t : Timestamp) : Prop := ∀ zone, t.ShownIn zone

theorem inner_iff (t : Timestamp) : t.Inner ↔
    offsetEnd ≤ t.clock - t.zone.seconds ∧ t.clock - t.zone.seconds + offsetEnd < clockEnd := by
  constructor
  · intro h
    have hahead := (h (.offset true 23 59)).2
    have hbehind := (h (.offset false 23 59)).1
    have hseconds : (Zone.offset true 23 59).seconds = offsetEnd ∧
        (Zone.offset false 23 59).seconds = -offsetEnd := by decide
    rw [Timestamp.clockIn, hseconds.1] at hahead
    rw [Timestamp.clockIn, hseconds.2] at hbehind
    exact ⟨by linarith, hahead⟩
  · rintro ⟨hfirst, hlast⟩ zone
    have hzone := zone.seconds_le
    simp only [Timestamp.ShownIn, Timestamp.clockIn]
    exact ⟨by linarith, by linarith⟩

/-- Instants that offsets can bring together can be written against their order. -/
theorem exists_misordered (ha : a.Inner) (hb : b.Inner) (hle : a.instant ≤ b.instant)
    (hclose : b.instant ≤ a.instant + 2 * offsetEnd) :
    ∃ a' b' : Timestamp, a'.instant = a.instant ∧ b'.instant = b.instant ∧
      before b'.text a'.text = true := by
  obtain ⟨extra, hextra⟩ : ∃ extra,
      extra = if fractionValue a.fraction = fractionValue b.fraction then 1 else 0 := ⟨_, rfl⟩
  obtain ⟨a', hia, hza, hfa⟩ := exists_spelling a (ha (.offset true 23 59))
    (b.fraction.length + extra)
  obtain ⟨b', hib, hzb, hfb⟩ := exists_spelling b (hb (.offset false 23 59)) a.fraction.length
  refine ⟨a', b', hia, hib, ?_⟩
  have hva : fractionValue a'.fraction = fractionValue a.fraction := by
    rw [hfa, fractionValue_append_zeros]
  have hvb : fractionValue b'.fraction = fractionValue b.fraction := by
    rw [hfb, fractionValue_append_zeros]
  have hclocks : (b'.clock : ℚ) + fractionValue b.fraction ≤
      a'.clock + fractionValue a.fraction := by
    have hseconds : ((Zone.offset true 23 59).seconds : ℚ) = offsetEnd ∧
        ((Zone.offset false 23 59).seconds : ℚ) = -offsetEnd := by decide
    have hca := clock_add a'
    have hcb := clock_add b'
    rw [hia, hza, hva, hseconds.1] at hca
    rw [hib, hzb, hvb, hseconds.2] at hcb
    linarith
  have hb0 := fractionValue_nonneg b.fraction
  have ha1 := fractionValue_lt_one a.fraction
  rw [before_text_iff]
  rcases lt_trichotomy b'.clock a'.clock with hlt | heq | hgt
  · exact .inl hlt
  · refine .inr ⟨heq, ?_⟩
    have hcast : (b'.clock : ℚ) = a'.clock := by exact_mod_cast heq
    have hfractions : fractionValue b.fraction ≤ fractionValue a.fraction := by linarith
    rcases hfractions.lt_or_eq with hlt | hsame
    · rw [if_neg hlt.ne'] at hextra
      refine fractionText_lt_of_length ?_ (by rwa [hva, hvb]) _ _
      simp [hfa, hfb, hextra, Nat.add_comm]
    · rw [if_pos hsame.symm] at hextra
      have hdigits : a.fraction ++ List.replicate b.fraction.length 0 = b'.fraction := by
        refine eq_of_fractionValue ?_ ?_
        · simp [hfb, Nat.add_comm]
        · rw [fractionValue_append_zeros, hvb, hsame]
      rw [hfa, hextra, List.replicate_succ', ← List.append_assoc, hdigits, hzb]
      exact fractionText_lt_zero _ _ _
  · have hcast : (a'.clock : ℚ) + 1 ≤ b'.clock := by exact_mod_cast hgt
    exact absurd hclocks (by linarith)

/-- However two instants are written, the texts come in their order. -/
def Robust (a b : Timestamp) : Prop :=
  ∀ a' b' : Timestamp, a'.instant = a.instant → b'.instant = b.instant →
    (before a'.text b'.text = true ↔ a.instant < b.instant)

/-- Instants that no two offsets can bring together, as far as their years leave all offsets. -/
def Apart (a b : Timestamp) : Prop :=
  (a.Inner ∧ b.Inner → 2 * offsetEnd < |a.instant - b.instant|) ∧
    (¬(a.Inner ∧ b.Inner) → Robust a b)

theorem before_asymm {s t : JsString} (h : before s t = true) : ¬before t s = true := by
  simp only [before, decide_eq_true_eq] at h ⊢
  exact lt_asymm h

theorem robust_of_far (h : 2 * offsetEnd < |a.instant - b.instant|) : Robust a b := by
  intro a' b' ha hb
  have hpos : (0 : ℚ) < offsetEnd := by decide
  rcases lt_abs.mp h with h | h
  · have hafter : before b'.text a'.text = true := before_of_far (by rw [ha, hb]; linarith)
    exact iff_of_false (before_asymm hafter) (by linarith)
  · exact iff_of_true (before_of_far (by rw [ha, hb]; linarith)) (by linarith)

theorem far_of_robust (ha : a.Inner) (hb : b.Inner) (h : Robust a b) :
    2 * offsetEnd < |a.instant - b.instant| := by
  by_contra hclose
  have hbounds := abs_le.mp (not_lt.mp hclose)
  rcases lt_or_ge a.instant b.instant with hlt | hge
  · obtain ⟨a', b', hia, hib, hbefore⟩ := exists_misordered ha hb hlt.le (by linarith)
    exact before_asymm hbefore ((h a' b' hia hib).mpr hlt)
  · obtain ⟨b', a', hib, hia, hbefore⟩ := exists_misordered hb ha hge (by linarith)
    exact absurd ((h a' b' hia hib).mp hbefore) (not_lt.mpr hge)

theorem robust_iff : Robust a b ↔ Apart a b := by
  constructor
  · exact fun h => ⟨fun hinner => far_of_robust hinner.1 hinner.2 h, fun _ => h⟩
  · intro h
    by_cases hinner : a.Inner ∧ b.Inner
    · exact robust_of_far (h.1 hinner)
    · exact h.2 hinner

end Respelling

end Timestamps
