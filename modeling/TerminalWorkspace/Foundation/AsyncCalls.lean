import Mathlib.Data.List.Basic
import Mathlib.Logic.Basic
import Mathlib.Logic.Function.Iterate

/-! Asynchronous functions as they look between their calls. A function waits for one call at a
time, and what it does between two calls touches nothing that another function can see. So the
effect of a call and the run of the function to its next call are one step: any number of functions
can be interleaved call by call. -/
namespace AsyncCalls

/-- A function that has returned, has thrown, or awaits a call. A reply of `none` is a rejection. -/
inductive Program (C : Type) (Reply : C → Type) (ρ : Type) where
  | ret (value : ρ)
  | throw
  | call (c : C) (next : Option (Reply c) → Program C Reply ρ)

namespace Program
variable {C : Type} {Reply : C → Type} {ρ τ : Type}

def bind : Program C Reply ρ → (ρ → Program C Reply τ) → Program C Reply τ
  | .ret value, rest => rest value
  | .throw, _ => .throw
  | .call c next, rest => .call c fun reply => (next reply).bind rest

instance : Monad (Program C Reply) where
  pure := .ret
  bind := bind

/-- Waits for a call, and throws if it is rejected. -/
def await (c : C) : Program C Reply (Reply c) :=
  .call c fun
    | some reply => .ret reply
    | none => .throw

/-- `try { … } catch { … }` around statements that return nothing, with a handler that only logs. -/
def attempt : Program C Reply Unit → Program C Reply Unit
  | .ret value => .ret value
  | .throw => .ret ()
  | .call c next => .call c fun reply => (next reply).attempt

/-- The call that a function awaits. -/
def pending : Program C Reply ρ → Option C
  | .call c _ => some c
  | _ => none

/-- The call that the function awaits takes effect, or fails without an effect. -/
def advance {σ : Type} (execute : σ → (c : C) → σ × Reply c) (fails : Bool) (s : σ) :
    Program C Reply ρ → σ × Program C Reply ρ
  | .call c next =>
    if fails then (s, next none)
    else ((execute s c).1, next (some (execute s c).2))
  | p => (s, p)

/-- Every call the function may still make is one of those allowed. -/
def AllCalls (allowed : C → Prop) : Program C Reply ρ → Prop
  | .call c next => allowed c ∧ ∀ reply, (next reply).AllCalls allowed
  | _ => True

variable {allowed : C → Prop} {p : Program C Reply ρ}

theorem AllCalls.bind {rest : ρ → Program C Reply τ} (h : p.AllCalls allowed)
    (hrest : ∀ value, (rest value).AllCalls allowed) : (p >>= rest).AllCalls allowed := by
  induction p with
  | ret value => exact hrest value
  | throw => trivial
  | call c next ih => exact ⟨h.1, fun reply => ih reply (h.2 reply)⟩

theorem AllCalls.await {c : C} (h : allowed c) :
    (await c : Program C Reply (Reply c)).AllCalls allowed :=
  ⟨h, fun reply => by cases reply <;> trivial⟩

theorem AllCalls.pending {c : C} (h : p.AllCalls allowed) (hpending : p.pending = some c) :
    allowed c := by
  cases p with
  | call d next =>
    obtain rfl := Option.some.inj hpending
    exact h.1
  | ret value => cases hpending
  | throw => cases hpending

theorem AllCalls.advance {σ : Type} {execute : σ → (c : C) → σ × Reply c} {fails : Bool} {s : σ}
    (h : p.AllCalls allowed) : (p.advance execute fails s).2.AllCalls allowed := by
  cases p with
  | call c next =>
    cases fails with
    | true => exact h.2 none
    | false => exact h.2 _
  | ret value => trivial
  | throw => trivial

end Program
end AsyncCalls

/-! An asynchronous function whose calls take place one after the other, with nothing of another
function between them, and what can be said of its end. A call may be rejected, whether or not it
has changed anything. -/
namespace AsyncCalls.Program
variable {C : Type} {Reply : C → Type} {ρ τ σ : Type}

section Settle
variable (execute : σ → (c : C) → σ × Option (Reply c))

def settle (s : σ) : Program C Reply ρ → σ × Option ρ
  | .ret value => (s, some value)
  | .throw => (s, none)
  | .call c next => settle (execute s c).1 (next (execute s c).2)

theorem settle_bind (s : σ) (p : Program C Reply ρ) (f : ρ → Program C Reply τ) :
    settle execute s (p >>= f) =
      match settle execute s p with
      | (s', some value) => settle execute s' (f value)
      | (s', none) => (s', none) := by
  induction p generalizing s with
  | ret value => rfl
  | throw => rfl
  | call c next ih => exact ih _ _

theorem settle_attempt (s : σ) (p : Program C Reply Unit) :
    settle execute s p.attempt = ((settle execute s p).1, some ()) := by
  induction p generalizing s with
  | ret value => rfl
  | throw => rfl
  | call c next ih => exact ih _ _

theorem settle_await (s : σ) (c : C) :
    settle execute s (await c : Program C Reply (Reply c)) = execute s c := by
  change settle execute (execute s c).1 _ = _
  rcases execute s c with ⟨s', _ | reply⟩ <;> rfl

/-- The calls may be executed on a state that is embedded in another one. -/
theorem settle_map {σ' : Type} {execute' : σ' → (c : C) → σ' × Option (Reply c)} {f : σ → σ'}
    (h : ∀ s c, execute' (f s) c = (f (execute s c).1, (execute s c).2)) (s : σ)
    (p : Program C Reply ρ) :
    settle execute' (f s) p = (f (settle execute s p).1, (settle execute s p).2) := by
  induction p generalizing s with
  | ret value => rfl
  | throw => rfl
  | call c next ih =>
    rw [settle, h]
    exact ih _ _

/-- The function has returned with `Q`, or has thrown with `E`. -/
def Ends (Q : ρ → σ → Prop) (E : σ → Prop) : σ × Option ρ → Prop
  | (s, some value) => Q value s
  | (s, none) => E s

/-- From a state with `P` the function returns with `Q`, or throws with `E`. -/
def Settles (P : σ → Prop) (p : Program C Reply ρ) (Q : ρ → σ → Prop) (E : σ → Prop) : Prop :=
  ∀ s, P s → Ends Q E (settle execute s p)

variable {execute} {P : σ → Prop} {Q : ρ → σ → Prop} {R : τ → σ → Prop} {E : σ → Prop}
  {p : Program C Reply ρ}

theorem Ends.imp {Q' : ρ → σ → Prop} {E' : σ → Prop} {r : σ × Option ρ} (h : Ends Q E r)
    (hQ : ∀ value s, Q value s → Q' value s) (hE : ∀ s, E s → E' s) : Ends Q' E' r := by
  obtain ⟨s, _ | value⟩ := r
  · exact hE s h
  · exact hQ value s h

theorem Settles.pure {value : ρ} (h : ∀ s, P s → Q value s) :
    Settles execute P (pure value) Q E := h

theorem Settles.bind {f : ρ → Program C Reply τ} (hp : Settles execute P p Q E)
    (hf : ∀ value, Settles execute (Q value) (f value) R E) :
    Settles execute P (p >>= f) R E := by
  intro s hs
  have hfirst := hp s hs
  rw [settle_bind]
  rcases hsettle : settle execute s p with ⟨s', _ | value⟩
  · rw [hsettle] at hfirst
    exact hfirst
  · rw [hsettle] at hfirst
    exact hf value s' hfirst

/-- With `catch` the function always returns. -/
theorem Settles.attempt {p : Program C Reply Unit} {Q : σ → Prop}
    (h : Settles execute P p (fun _ => Q) Q) : Settles execute P p.attempt (fun _ => Q) E := by
  intro s hs
  have hp := h s hs
  rw [settle_attempt]
  rcases hsettle : settle execute s p with ⟨s', _ | value⟩ <;> rw [hsettle] at hp <;> exact hp

theorem Settles.await {c : C} {Q : Reply c → σ → Prop}
    (h : ∀ s, P s → Ends Q E (execute s c)) : Settles execute P (await c) Q E := by
  intro s hs
  rw [settle_await]
  exact h s hs

theorem Settles.imp {P' : σ → Prop} {Q' : ρ → σ → Prop} {E' : σ → Prop}
    (h : Settles execute P p Q E) (hP : ∀ s, P' s → P s) (hQ : ∀ value s, Q value s → Q' value s)
    (hE : ∀ s, E s → E' s) : Settles execute P' p Q' E' := fun s hs =>
  (h s (hP s hs)).imp hQ hE

end Settle

section Calls
variable (execute : σ → (c : C) → σ × Reply c)

/-- A function that is over. -/
def finished : Option ρ → Program C Reply ρ
  | some value => .ret value
  | none => .throw

/-- If no call fails, the calls can as well be made one at a time. -/
theorem exists_advance_eq_settle (s : σ) (p : Program C Reply ρ) :
    ∃ n, (fun q : σ × Program C Reply ρ => q.2.advance execute false q.1)^[n] (s, p) =
      ((settle (fun s c => ((execute s c).1, some (execute s c).2)) s p).1,
        finished (settle (fun s c => ((execute s c).1, some (execute s c).2)) s p).2) := by
  induction p generalizing s with
  | ret value => exact ⟨0, rfl⟩
  | throw => exact ⟨0, rfl⟩
  | call c next ih =>
    obtain ⟨n, hn⟩ := ih (some (execute s c).2) (execute s c).1
    exact ⟨n + 1, hn⟩

end Calls

end AsyncCalls.Program

/-! Services that answer one call after the other. -/
namespace AnsweredCalls
variable {σ γ δ σ' γ' δ' : Type*}

/-- The state after the calls, and what each of them was answered. -/
def run (call : σ → γ → σ × δ) (s : σ) : List γ → σ × List δ
  | [] => (s, [])
  | c :: calls => ((run call (call s c).1 calls).1, (call s c).2 :: (run call (call s c).1 calls).2)

/-- Services whose steps answer related calls alike answer all of them alike. -/
theorem run_related {call : σ → γ → σ × δ} {call' : σ' → γ' → σ' × δ'} {Related : σ → σ' → Prop}
    {SameCall : γ → γ' → Prop} {SameAnswer : δ → δ' → Prop}
    (hstep : ∀ s s' c c', Related s s' → SameCall c c' →
      Related (call s c).1 (call' s' c').1 ∧ SameAnswer (call s c).2 (call' s' c').2)
    {s : σ} {s' : σ'} {calls : List γ} {calls' : List γ'} (hinit : Related s s')
    (hcalls : List.Forall₂ SameCall calls calls') :
    Related (run call s calls).1 (run call' s' calls').1 ∧
      List.Forall₂ SameAnswer (run call s calls).2 (run call' s' calls').2 := by
  induction hcalls generalizing s s' with
  | nil => exact ⟨hinit, .nil⟩
  | cons hcall _ ih =>
    obtain ⟨hnext, hanswer⟩ := hstep s s' _ _ hinit hcall
    exact ⟨(ih hnext).1, .cons hanswer (ih hnext).2⟩

/-- A service that represents another, step by step, gives its answers. -/
theorem run_represents {call : σ → γ → σ × δ} {model : σ' → γ → σ' × δ} {Represents : σ' → σ → Prop}
    (hstep : ∀ s s' c, Represents s' s →
      Represents (model s' c).1 (call s c).1 ∧ (call s c).2 = (model s' c).2)
    {s : σ} {s' : σ'} (hinit : Represents s' s) (calls : List γ) :
    Represents (run model s' calls).1 (run call s calls).1 ∧
      (run call s calls).2 = (run model s' calls).2 := by
  induction calls generalizing s s' with
  | nil => exact ⟨hinit, rfl⟩
  | cons c calls ih =>
    obtain ⟨hnext, hanswer⟩ := hstep s s' c hinit
    exact ⟨(ih hnext).1, congrArg₂ List.cons hanswer (ih hnext).2⟩

end AnsweredCalls
