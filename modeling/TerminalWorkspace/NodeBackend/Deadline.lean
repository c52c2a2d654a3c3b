import TerminalWorkspace.Foundation.JsText
import TerminalWorkspace.Foundation.Runs

/-! `withDeadline`: an operation raced against one timer that serves an idle budget and, where
there is one, a total budget. Time is in milliseconds. A timer fires at its due time, and the
microtasks are drained before time goes on or a timer fires. -/
namespace NodeDeadline
open JsText

inductive DeadlineState where
  | active
  | timedOut
  | completed
  deriving DecidableEq, Repr

/-- What a cleanup does: it registers cleanups, one after the other, and then returns or
throws. -/
inductive Cleanup where
  | returns
  | throws
  | onTimeout (label : ℕ) (cleanup : Cleanup) (rest : Cleanup)
  deriving DecidableEq, Repr

structure Registration where
  label : ℕ
  cleanup : Cleanup
  deriving DecidableEq, Repr

structure OperationTimeoutError where
  message : JsString
  timeoutMs : ℕ
  statusCode : ℕ
  deriving DecidableEq, Repr

def operationTimeoutError (timeoutMs : ℕ) : OperationTimeoutError where
  message := js "operation did not finish within " ++ ofText (Nat.toDigits 10 timeoutMs) ++ js "ms"
  timeoutMs := timeoutMs
  statusCode := 504

/-- What the returned promise settles with. -/
inductive Settlement (ρ : Type) where
  | operation (outcome : ρ)
  | timeout (error : OperationTimeoutError)
  deriving DecidableEq, Repr

/-- The microtasks between a settlement and the returned promise: the handler of `finally`,
the promise it returns, and the reactions of `Promise.race`. -/
inductive Job (ρ : Type) where
  | observe (outcome : ρ)
  | forward (outcome : ρ)
  | race (settlement : Settlement ρ)
  deriving DecidableEq, Repr

structure Timer where
  due : ℕ
  expiredMs : ℕ
  deriving DecidableEq, Repr

structure Expiry where
  time : ℕ
  timeoutMs : ℕ
  deriving DecidableEq, Repr

/-- The variables of `withDeadline`, the clock and the microtasks, and then the history: the
registrations made before and after the expiry, the labels registered and run (by cleanups
too), when the timer was last armed, and the expiry. -/
structure Deadline (ρ : Type) where
  timeoutMs : ℕ
  totalTimeoutMs : Option ℕ
  startedAt : ℕ
  state : DeadlineState
  cleanups : List Registration
  timer : Option Timer
  now : ℕ
  queue : List (Job ρ)
  outcome : Option ρ
  returned : Option (Settlement ρ)
  early : List Registration
  late : List Registration
  registered : List ℕ
  ran : List ℕ
  armedAt : ℕ
  expiry : Option Expiry
  deriving DecidableEq, Repr

inductive DeadlineEvent (ρ : Type) where
  | onTimeout (registration : Registration)
  | resetDeadline
  | settle (outcome : ρ)
  | microtask
  | tick
  | timerFires
  deriving DecidableEq, Repr

variable {ρ : Type}

namespace Deadline
variable (d : Deadline ρ)

def logRegistered (label : ℕ) : Deadline ρ := { d with registered := d.registered ++ [label] }

def logRun (label : ℕ) : Deadline ρ := { d with ran := d.ran ++ [label] }

def push (registration : Registration) : Deadline ρ :=
  { d with cleanups := d.cleanups ++ [registration] }

/-- A cleanup is called; the flag says that it threw. -/
def call : Cleanup → Deadline ρ → Deadline ρ × Bool
  | .returns, d => (d, false)
  | .throws, d => (d, true)
  | .onTimeout label cleanup rest, d =>
    let d := d.logRegistered label
    call rest (if d.state = .timedOut then (call cleanup (d.logRun label)).1
      else d.push ⟨label, cleanup⟩)

/-- What a cleanup throws is swallowed. -/
def runCleanup (registration : Registration) : Deadline ρ :=
  (call registration.cleanup (d.logRun registration.label)).1

def onTimeout (registration : Registration) : Deadline ρ :=
  let d := d.logRegistered registration.label
  if d.state = .timedOut then d.runCleanup registration else d.push registration

def fire (expiredMs : ℕ) : Deadline ρ :=
  if d.state ≠ .active then d
  else
    let d := { d with
      state := .timedOut
      cleanups := d.cleanups.reverse
      expiry := some ⟨d.now, expiredMs⟩ }
    let d := d.cleanups.foldl runCleanup d
    { d with queue := d.queue ++ [.race (.timeout (operationTimeoutError expiredMs))] }

def setTimer (delay expiredMs : ℕ) : Deadline ρ :=
  { d with timer := some ⟨d.now + delay, expiredMs⟩ }

/-- The idle budget, or what remains of the total one if that is less. -/
def armTimer : Deadline ρ :=
  let d := { d with armedAt := d.now }
  match d.totalTimeoutMs with
  | none => d.setTimer d.timeoutMs d.timeoutMs
  | some totalTimeoutMs =>
    let remainingTotal := totalTimeoutMs - (d.now - d.startedAt)
    if remainingTotal = 0 then d.fire totalTimeoutMs
    else if remainingTotal < d.timeoutMs then d.setTimer remainingTotal totalTimeoutMs
    else d.setTimer d.timeoutMs d.timeoutMs

def resetDeadline : Deadline ρ :=
  if d.state ≠ .active then d else armTimer { d with timer := none }

/-- The handler of `finally`. -/
def observeSettlement (outcome : ρ) : Deadline ρ :=
  { d with
    state := if d.state = .active then .completed else d.state
    timer := none
    queue := d.queue ++ [.forward outcome] }

/-- The first microtask runs; a promise settles only once. -/
def runMicrotask : Deadline ρ :=
  match d.queue with
  | [] => d
  | .observe outcome :: queue => observeSettlement { d with queue } outcome
  | .forward outcome :: queue => { d with queue := queue ++ [.race (.operation outcome)] }
  | .race settlement :: queue => { d with queue, returned := d.returned.or (some settlement) }

def fireTimer : Deadline ρ :=
  match d.timer with
  | some timer => if timer.due ≤ d.now then fire { d with timer := none } timer.expiredMs else d
  | none => d

def step : DeadlineEvent ρ → Deadline ρ
  | .onTimeout registration =>
    if d.state = .timedOut then
      onTimeout { d with late := d.late ++ [registration] } registration
    else onTimeout { d with early := d.early ++ [registration] } registration
  | .resetDeadline => d.resetDeadline
  | .settle outcome =>
    if d.outcome.isSome then d
    else { d with outcome := some outcome, queue := d.queue ++ [.observe outcome] }
  | .microtask => d.runMicrotask
  -- time does not pass a due timer, or a microtask
  | .tick =>
    if d.queue = [] ∧ ∀ timer ∈ d.timer, d.now < timer.due then { d with now := d.now + 1 } else d
  | .timerFires => if d.queue = [] then d.fireTimer else d

end Deadline

def withDeadline (timeoutMs : ℕ) (totalTimeoutMs : Option ℕ) (startedAt : ℕ) : Deadline ρ :=
  Deadline.armTimer
    { timeoutMs, totalTimeoutMs, startedAt, state := .active, cleanups := [], timer := none,
      now := startedAt, queue := [], outcome := none, returned := none, early := [], late := [],
      registered := [], ran := [], armedAt := startedAt, expiry := none }

end NodeDeadline
