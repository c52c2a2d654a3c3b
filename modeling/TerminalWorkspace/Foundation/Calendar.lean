import Mathlib.Order.Monotone.Basic
import Mathlib.Tactic.Ring
import Mathlib.Tactic.SplitIfs
import Mathlib.Tactic.NormNum

/-! The civil calendar. A date is counted in days from the first of January of the year
zero; months and days of a month are counted from zero. -/
namespace Calendar

section Segments
variable {start width : ℕ → ℕ} (hstep : ∀ k, start (k + 1) = start k + width k)
include hstep

/-- Segments that follow one another do not overlap. -/
theorem segment_end_le {k l : ℕ} (h : k < l) : start k + width k ≤ start l := by
  have hmono : Monotone start := monotone_nat_of_le_succ fun k => by rw [hstep]; omega
  rw [← hstep]
  exact hmono h

/-- A place before the end lies in one of the segments. -/
theorem exists_segment (hzero : start 0 = 0) {n l : ℕ} (h : n < start l) :
    ∃ k < l, ∃ r < width k, n = start k + r := by
  induction l with
  | zero => omega
  | succ l ih =>
    rcases lt_or_ge n (start l) with hlt | hge
    · obtain ⟨k, hk, r, hr, hn⟩ := ih hlt
      exact ⟨k, hk.trans (Nat.lt_succ_self l), r, hr, hn⟩
    · rw [hstep] at h
      exact ⟨l, Nat.lt_succ_self l, n - start l, by omega, by omega⟩

end Segments

section Dates

def isLeap (year : ℕ) : Bool := year % 4 = 0 && (year % 100 ≠ 0 || year % 400 = 0)

def daysInMonth (year month : ℕ) : ℕ :=
  match month with
  | 1 => if isLeap year then 29 else 28
  | 3 | 5 | 8 | 10 => 30
  | _ => 31

def daysInYear (year : ℕ) : ℕ := if isLeap year then 366 else 365

def yearStart (year : ℕ) : ℕ :=
  365 * year + (year + 3) / 4 + (year + 399) / 400 - (year + 99) / 100

def monthStart (year : ℕ) : ℕ → ℕ
  | 0 => 0
  | month + 1 => monthStart year month + daysInMonth year month

/-- A date of the years that four digits can write. -/
structure Date where
  year : ℕ
  month : ℕ
  day : ℕ
  year_lt : year < 10000
  month_lt : month < 12
  day_lt : day < daysInMonth year month
  deriving DecidableEq

def Date.dayNumber (date : Date) : ℕ :=
  yearStart date.year + monthStart date.year date.month + date.day

/-- How many multiples lie in front of a year, counted one year on. -/
theorem multiples_succ {m : ℕ} (hm : 0 < m) (year : ℕ) :
    (year + m) / m = (year + (m - 1)) / m + if year % m = 0 then 1 else 0 := by
  have hpred : year + (m - 1) + 1 = year + m := by omega
  have hdvd : m ∣ year + m ↔ year % m = 0 := by
    rw [Nat.dvd_add_self_right, Nat.dvd_iff_mod_eq_zero]
  have hsucc := Nat.succ_div (a := year + (m - 1)) (b := m)
  rwa [hpred, if_congr hdvd rfl rfl] at hsucc

theorem yearStart_succ (year : ℕ) : yearStart (year + 1) = yearStart year + daysInYear year := by
  have hfour : (year + 4) / 4 = (year + 3) / 4 + _ := multiples_succ (by decide) year
  have hcentury : (year + 100) / 100 = (year + 99) / 100 + _ := multiples_succ (by decide) year
  have hcycle : (year + 400) / 400 = (year + 399) / 400 + _ := multiples_succ (by decide) year
  have hle : (year + 99) / 100 ≤ (year + 3) / 4 := by omega
  have hnested : (year % 400 = 0 → year % 100 = 0) ∧ (year % 100 = 0 → year % 4 = 0) := by omega
  rw [yearStart, yearStart, show year + 1 + 3 = year + 4 by omega,
    show year + 1 + 399 = year + 400 by omega, show year + 1 + 99 = year + 100 by omega, hfour,
    hcentury, hcycle]
  generalize (year + 3) / 4 = fours at hle
  generalize (year + 99) / 100 = centuries at hle
  generalize (year + 399) / 400 = cycles
  simp only [daysInYear, isLeap, Bool.and_eq_true, Bool.or_eq_true, decide_eq_true_eq]
  generalize year % 4 = four at hnested
  generalize year % 100 = hundred at hnested
  generalize year % 400 = rest at hnested
  split_ifs <;> omega

theorem monthStart_twelve (year : ℕ) : monthStart year 12 = daysInYear year := by
  simp only [monthStart, daysInMonth, daysInYear]
  split_ifs <;> rfl

theorem Date.month_end_le (date : Date) :
    monthStart date.year date.month + date.day < daysInYear date.year := by
  have hend := @segment_end_le (monthStart date.year) _ (fun _ => rfl) _ _ date.month_lt
  have hday := date.day_lt
  rw [monthStart_twelve] at hend
  omega

/-- Later dates have greater numbers. -/
theorem Date.dayNumber_lt (first second : Date)
    (h : first.year < second.year ∨
      first.year = second.year ∧
        (first.month < second.month ∨ first.month = second.month ∧ first.day < second.day)) :
    first.dayNumber < second.dayNumber := by
  have hfirst := first.month_end_le
  rw [Date.dayNumber, Date.dayNumber]
  rcases h with hyear | ⟨hyear, hmonth | ⟨hmonth, hday⟩⟩
  · have hend := segment_end_le yearStart_succ hyear
    omega
  · have hend := @segment_end_le (monthStart first.year) _ (fun _ => rfl) _ _ hmonth
    have hday := first.day_lt
    rw [← hyear]
    omega
  · rw [← hyear, ← hmonth]
    omega

theorem Date.dayNumber_lt_end (date : Date) : date.dayNumber < yearStart 10000 := by
  have hmonth := date.month_end_le
  have hend := segment_end_le yearStart_succ date.year_lt
  rw [Date.dayNumber]
  omega

/-- Every day of those years has a date. -/
theorem exists_date {n : ℕ} (h : n < yearStart 10000) : ∃ date : Date, date.dayNumber = n := by
  obtain ⟨year, hyear, r, hr, hn⟩ := exists_segment yearStart_succ rfl h
  rw [← monthStart_twelve] at hr
  obtain ⟨month, hmonth, day, hday, hr⟩ := exists_segment (fun _ => rfl) rfl hr
  exact ⟨⟨year, month, day, hyear, hmonth, hday⟩, by simp only [Date.dayNumber]; omega⟩

end Dates

end Calendar
