import Mathlib.Data.List.Basic
import Mathlib.Data.List.Forall2

/-! Taking a computation that may fail apart, once it has succeeded. -/
namespace Fallible

variable {ε ε' : Type*} {α β : Type}

theorem bind_eq_ok {x : Except ε α} {f : α → Except ε β} {b : β} :
    x >>= f = .ok b ↔ ∃ a, x = .ok a ∧ f a = .ok b := by
  constructor
  · intro h
    cases x with
    | error e => cases h
    | ok a => exact ⟨a, rfl, h⟩
  · rintro ⟨a, rfl, h⟩
    exact h

/-- What follows either branch has run. -/
theorem eq_ok_of_ite_bind {p : Prop} [Decidable p] {x y : Except ε α} {f : α → Except ε β}
    {b : β} (h : (if p then x >>= f else y >>= f) = .ok b) : ∃ a, f a = .ok b := by
  split at h
  · obtain ⟨a, -, ha⟩ := bind_eq_ok.mp h
    exact ⟨a, ha⟩
  · obtain ⟨a, -, ha⟩ := bind_eq_ok.mp h
    exact ⟨a, ha⟩

theorem map_eq_ok {x : Except ε α} {f : α → β} {b : β} :
    x.map f = .ok b ↔ ∃ a, x = .ok a ∧ f a = b := by
  cases x with
  | error e => exact iff_of_false nofun fun ⟨_, hok, _⟩ => nomatch hok
  | ok a => simp [Except.map]

theorem mapError_eq_ok {x : Except ε α} {f : ε → ε'} {a : α} :
    x.mapError f = .ok a ↔ x = .ok a := by
  cases x with
  | error e => exact iff_of_false nofun nofun
  | ok b => simp [Except.mapError]

/-- A check that was passed. -/
theorem throwIf_eq_ok {p : Prop} [Decidable p] {e : ε} {next : Unit → Except ε α} {a : α} :
    (if p then (throw e : Except ε Unit) >>= next else next ()) = .ok a ↔
      ¬ p ∧ next () = .ok a := by
  by_cases hp : p
  · rw [if_pos hp]
    exact iff_of_false nofun fun h => h.1 hp
  · rw [if_neg hp]
    exact ⟨fun h => ⟨hp, h⟩, And.right⟩

theorem throwIf_eq_ok_unit {p : Prop} [Decidable p] {e : ε} :
    (if p then (throw e : Except ε Unit) else pure ()) = .ok () ↔ ¬ p := by
  by_cases hp : p
  · rw [if_pos hp]
    exact iff_of_false nofun fun h => h hp
  · rw [if_neg hp]
    exact ⟨fun _ => hp, fun _ => rfl⟩

end Fallible

/-! Computations that write a trace of events and may throw. What a computation has written
stays written when it throws. -/
namespace Traced

structure Attempt (ε τ α : Type) where
  trace : List τ
  outcome : Except ε α

variable {ε τ α β : Type}

namespace Attempt

protected def pure (a : α) : Attempt ε τ α := ⟨[], .ok a⟩

def throwing (e : ε) : Attempt ε τ α := ⟨[], .error e⟩

/-- One event is written. -/
def emit (event : τ) : Attempt ε τ Unit := ⟨[event], .ok ()⟩

protected def bind (x : Attempt ε τ α) (f : α → Attempt ε τ β) : Attempt ε τ β :=
  match x.outcome with
  | .ok a => ⟨x.trace ++ (f a).trace, (f a).outcome⟩
  | .error e => ⟨x.trace, .error e⟩

instance : Monad (Attempt ε τ) where
  pure := Attempt.pure
  bind := Attempt.bind

/-- `try { … } finally { … }`, where the `finally` block writes events and returns. -/
def finallyDo (x : Attempt ε τ α) (final : List τ) : Attempt ε τ α :=
  ⟨x.trace ++ final, x.outcome⟩

/-- `try { … } catch (error) { …; throw error; }`, where the handler writes events. -/
def onError (x : Attempt ε τ α) (handler : List τ) : Attempt ε τ α :=
  match x.outcome with
  | .ok a => ⟨x.trace, .ok a⟩
  | .error e => ⟨x.trace ++ handler, .error e⟩

/-- `catch (error) { throw f(error); }` -/
def mapError (x : Attempt ε τ α) (f : ε → ε) : Attempt ε τ α := ⟨x.trace, x.outcome.mapError f⟩

def Succeeds (x : Attempt ε τ α) : Prop := ∃ a, x.outcome = .ok a

section Laws
variable {x : Attempt ε τ α} {f : α → Attempt ε τ β}

@[simp] theorem pure_trace (a : α) : (pure a : Attempt ε τ α).trace = [] := rfl
@[simp] theorem pure_outcome (a : α) : (pure a : Attempt ε τ α).outcome = .ok a := rfl
@[simp] theorem throwing_trace (e : ε) : (throwing e : Attempt ε τ α).trace = [] := rfl
@[simp] theorem throwing_outcome (e : ε) : (throwing e : Attempt ε τ α).outcome = .error e := rfl

theorem bind_of_ok {a : α} (h : x.outcome = .ok a) :
    x >>= f = ⟨x.trace ++ (f a).trace, (f a).outcome⟩ := by
  change Attempt.bind x f = _
  simp only [Attempt.bind, h]

theorem bind_of_error {e : ε} (h : x.outcome = .error e) : x >>= f = ⟨x.trace, .error e⟩ := by
  change Attempt.bind x f = _
  simp only [Attempt.bind, h]

theorem succeeds_bind : (x >>= f).Succeeds ↔ ∃ a, x.outcome = .ok a ∧ (f a).Succeeds := by
  cases h : x.outcome with
  | ok a => simp [Succeeds, bind_of_ok h]
  | error e => simp [Succeeds, bind_of_error h]

@[simp] theorem finallyDo_trace (final : List τ) :
    (x.finallyDo final).trace = x.trace ++ final := rfl

@[simp] theorem finallyDo_outcome (final : List τ) : (x.finallyDo final).outcome = x.outcome := rfl

@[simp] theorem onError_outcome (handler : List τ) : (x.onError handler).outcome = x.outcome := by
  cases h : x.outcome <;> simp [onError, h]

@[simp] theorem mapError_trace (f : ε → ε) : (x.mapError f).trace = x.trace := rfl

@[simp] theorem succeeds_finallyDo (final : List τ) :
    (x.finallyDo final).Succeeds ↔ x.Succeeds := Iff.rfl

@[simp] theorem succeeds_mapError (f : ε → ε) : (x.mapError f).Succeeds ↔ x.Succeeds := by
  cases h : x.outcome <;> simp [Succeeds, mapError, h, Except.mapError]

@[simp] theorem succeeds_onError (handler : List τ) :
    (x.onError handler).Succeeds ↔ x.Succeeds := by
  simp [Succeeds]

theorem onError_trace_of_ok (handler : List τ) {a : α} (h : x.outcome = .ok a) :
    (x.onError handler).trace = x.trace := by simp [onError, h]

theorem onError_trace_of_error (handler : List τ) {e : ε} (h : x.outcome = .error e) :
    (x.onError handler).trace = x.trace ++ handler := by simp [onError, h]

end Laws

/-- Every event of the trace has the property. -/
def Writes (P : τ → Prop) (x : Attempt ε τ α) : Prop := ∀ event ∈ x.trace, P event

section Writes
variable {P : τ → Prop} {x : Attempt ε τ α} {f : α → Attempt ε τ β}

theorem Writes.of_trace_eq_nil (h : x.trace = []) : x.Writes P := by simp [Writes, h]

theorem Writes.bind (hx : x.Writes P) (hf : ∀ a, x.outcome = .ok a → (f a).Writes P) :
    (x >>= f).Writes P := by
  cases h : x.outcome with
  | ok a =>
    rw [bind_of_ok h]
    exact List.forall_mem_append.mpr ⟨hx, hf a h⟩
  | error e =>
    rw [bind_of_error h]
    exact hx

theorem Writes.finallyDo (hx : x.Writes P) {final : List τ} (hfinal : ∀ event ∈ final, P event) :
    (x.finallyDo final).Writes P := List.forall_mem_append.mpr ⟨hx, hfinal⟩

theorem Writes.onError (hx : x.Writes P) {handler : List τ}
    (hhandler : ∀ event ∈ handler, P event) : (x.onError handler).Writes P := by
  cases h : x.outcome with
  | ok a => simpa [Writes, onError_trace_of_ok handler h] using hx
  | error e =>
    rw [Writes, onError_trace_of_error handler h]
    exact List.forall_mem_append.mpr ⟨hx, hhandler⟩

end Writes
end Attempt
end Traced
