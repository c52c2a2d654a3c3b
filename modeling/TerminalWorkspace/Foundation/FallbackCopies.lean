import Mathlib.Data.Option.Basic

/-! A value that is kept in a store, in a copy beside it, and under a legacy name that nobody
writes. A read answers from the store, and where that fails or holds nothing from the copies. -/
namespace FallbackCopies

/-- What the store answers and what the copies hold. -/
structure Copies (ν α : Type*) where
  stored : Option α
  current : Option ν
  legacy : Option ν

def Copies.fallback {ν α : Type*} (c : Copies ν α) : Option ν := c.current.or c.legacy

/-- Carrying the legacy value forward does not change what is fallen back to. -/
theorem Copies.fallback_forward {ν α : Type*} (c : Copies ν α) :
    Copies.fallback { c with current := c.fallback } = c.fallback := by
  obtain ⟨stored, current, legacy⟩ := c
  cases current with
  | some v => rfl
  | none => cases legacy <;> rfl

/-- How answers stand for values: a copy answers with its own text, and the store with anything
that agrees. A vacant answer stands for no value as well. -/
structure Medium (ν α : Type*) where
  text : ν → α
  Agrees : α → ν → Prop
  Vacant : α → Prop
  /-- What the store may answer once the value is written. -/
  Written : ν → Option α → Prop
  agrees_text : ∀ v, Agrees (text v) v
  agrees_of_written : ∀ {v o}, Written v o → ∀ a ∈ o, Agrees a v
  eq_none_of_vacant : ∀ {v o}, Written v o → Vacant (text v) → o = none

/-- What the calls so far promise the next read. -/
inductive Expectation (ν : Type*) where
  | unknown
  | value (v : ν)
  | removed
  deriving DecidableEq

variable {ν α : Type*} (m : Medium ν α)

/-- A read may find the store out of order at any time. -/
inductive Reads (c : Copies ν α) : Option α → Copies ν α → Prop where
  | stored (a : α) (holds : c.stored = some a) : Reads c (some a) c
  | fallback : Reads c (c.fallback.map m.text) { c with current := c.fallback }
  | copied (v : ν) (o : Option α) (empty : c.stored = none) (found : c.fallback = some v)
      (written : m.Written v o) : Reads c (some (m.text v)) { c with stored := o, current := some v }

def Meets : Expectation ν → Option α → Prop
  | .unknown, _ => True
  | .value v, answer => ∃ a ∈ answer, m.Agrees a v
  | .removed, answer => ∀ a ∈ answer, m.Vacant a

/-- The copies that bear the expectation out. -/
def Supports : Expectation ν → Copies ν α → Prop
  | .unknown, _ => True
  | .value v, c => c.current = some v ∧ ∀ a ∈ c.stored, m.Agrees a v
  | .removed, c => c.stored = none ∧ ∀ v ∈ c.fallback, m.Vacant (m.text v)

variable {m} {e : Expectation ν} {c c' : Copies ν α} {answer : Option α}

/-- A read answers as expected, and the next one will. -/
theorem Supports.reads (h : Supports m e c) (hreads : Reads m c answer c') :
    Meets m e answer ∧ Supports m e c' := by
  cases e with
  | unknown => exact ⟨trivial, trivial⟩
  | value v =>
    obtain ⟨hcurrent, hstored⟩ := h
    have hfallback : c.fallback = some v := by rw [Copies.fallback, hcurrent, Option.some_or]
    cases hreads with
    | stored a holds => exact ⟨⟨a, rfl, hstored a holds⟩, hcurrent, hstored⟩
    | fallback =>
      rw [hfallback]
      exact ⟨⟨m.text v, rfl, m.agrees_text v⟩, rfl, hstored⟩
    | copied u o empty found written =>
      obtain rfl : u = v := Option.some.inj (found.symm.trans hfallback)
      exact ⟨⟨m.text u, rfl, m.agrees_text u⟩, rfl, m.agrees_of_written written⟩
  | removed =>
    obtain ⟨hstored, hvacant⟩ := h
    cases hreads with
    | stored a holds => exact absurd (hstored.symm.trans holds) nofun
    | fallback =>
      refine ⟨fun a ha => ?_, hstored, fun v hv => hvacant v (c.fallback_forward ▸ hv)⟩
      obtain ⟨v, hv, rfl⟩ := Option.map_eq_some_iff.mp ha
      exact hvacant v hv
    | copied v o empty found written =>
      have hv := hvacant v found
      refine ⟨fun a ha => ?_, m.eq_none_of_vacant written hv, fun u hu => ?_⟩
      · exact Option.some.inj ha ▸ hv
      · exact Option.some.inj hu ▸ hv

/-- The copies after a value was written. -/
theorem supports_written {v : ν} {o : Option α} (h : m.Written v o) :
    Supports m (.value v) { c with stored := o, current := some v } :=
  ⟨rfl, m.agrees_of_written h⟩

/-- The copies after a removal, if there is nothing to fall back to. -/
theorem supports_removed (h : ∀ v ∈ c.legacy, m.Vacant (m.text v)) :
    Supports m .removed { c with stored := none, current := none } :=
  ⟨rfl, h⟩

/-- A read that finds nothing in the store answers with what it falls back to. -/
theorem Reads.eq_text {v : ν} (hreads : Reads m c answer c') (hstored : c.stored = none)
    (hfallback : c.fallback = some v) : answer = some (m.text v) := by
  cases hreads with
  | stored a holds => exact absurd (hstored.symm.trans holds) nofun
  | fallback => rw [hfallback, Option.map_some]
  | copied u o empty found written => rw [Option.some.inj (found.symm.trans hfallback)]

end FallbackCopies
