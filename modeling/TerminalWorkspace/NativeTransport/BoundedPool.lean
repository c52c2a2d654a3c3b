import Mathlib.Algebra.BigOperators.Group.Multiset.Basic
import TerminalWorkspace.Foundation.Runs

/-! The pool of threads that run a worker over a list of items: they receive the items from one
queue behind a lock, and report the results over another that the caller collects. -/
namespace NativeTransport

section Pool
variable (T R : Type*)

/-- Where a thread of the pool stands: at the lock of the queue, in `recv` behind it, with what
it received and the lock not released yet, in the worker, at `send`, or at its end. -/
inductive ThreadPc where
  | locking
  | receiving
  | releasing (next : Option (ℕ × T))
  | working (index : ℕ) (item : T)
  | sending (index : ℕ) (result : R)
  | exited
  deriving DecidableEq, Repr

/-- Where the caller stands. A slot that is empty at the end would be a panic, and nothing
returned. -/
inductive MainPc where
  | spawning
  | sending (rest : List (ℕ × T))
  | droppingTasks
  | droppingResults
  | collecting
  | joining (joined : ℕ)
  | returned (results : Option (List R))
  deriving DecidableEq, Repr

/-- The variables of `run_bounded` and its threads, with the calls of the worker and the results
received so far. -/
structure Pool where
  items : List T
  concurrency : ℕ
  main : MainPc T R
  threads : List (ThreadPc T R)
  tasks : List (ℕ × T)
  tasksOpen : Bool
  lockHolder : Option ℕ
  results : List (ℕ × R)
  senderHeld : Bool
  slots : List (Option R)
  calls : List (ℕ × T)
  received : List (ℕ × R)
  deriving DecidableEq, Repr

end Pool

inductive PoolActor where
  | main
  | thread (i : ℕ)
  deriving DecidableEq, Repr

namespace Pool
variable {T R : Type*}

def initial (items : List T) (maxConcurrency : ℕ) : Pool T R where
  items
  concurrency := min (max maxConcurrency 1) items.length
  main := if items.length = 0 then .returned (some []) else .spawning
  threads := []
  tasks := []
  tasksOpen := true
  lockHolder := none
  results := []
  senderHeld := true
  slots := []
  calls := []
  received := []

variable (worker : T → R) (s : Pool T R)

def setThread (i : ℕ) (pc : ThreadPc T R) : Pool T R := { s with threads := s.threads.set i pc }

/-- Every clone of the sender of results has been dropped. -/
def ResultsClosed : Prop :=
  s.senderHeld = false ∧ s.threads.all fun
    | .exited => true
    | _ => false

instance : Decidable s.ResultsClosed := inferInstanceAs (Decidable (_ ∧ _))

/-- The caller: a `recv` waits while there is nothing to receive and a sender left, and a `join`
waits for the thread. -/
def stepMain : Option (Pool T R) :=
  match s.main with
  | .spawning =>
    if s.threads.length < s.concurrency then some { s with threads := s.threads ++ [.locking] }
    else some { s with main := .sending (s.items.mapIdx Prod.mk) }
  | .sending (task :: rest) => some { s with tasks := s.tasks ++ [task], main := .sending rest }
  | .sending [] => some { s with main := .droppingTasks }
  | .droppingTasks => some { s with tasksOpen := false, main := .droppingResults }
  | .droppingResults =>
    some { s with
      senderHeld := false
      slots := List.replicate s.items.length none
      main := .collecting }
  | .collecting =>
    match s.results with
    | (index, result) :: rest =>
      some { s with
        results := rest
        slots := s.slots.set index (some result)
        received := s.received ++ [(index, result)] }
    | [] => if s.ResultsClosed then some { s with main := .joining 0 } else none
  | .joining joined =>
    match s.threads[joined]? with
    | some .exited => some { s with main := .joining (joined + 1) }
    | some _ => none
    | none => some { s with main := .returned (s.slots.mapM id) }
  | .returned _ => none

/-- A thread: the lock is held while it waits in `recv`, and released before the worker is
called. -/
def stepThread (i : ℕ) : Option (Pool T R) :=
  match s.threads[i]? with
  | some .locking =>
    if s.lockHolder = none then some { s.setThread i .receiving with lockHolder := some i } else none
  | some .receiving =>
    match s.tasks with
    | task :: rest => some { s.setThread i (.releasing (some task)) with tasks := rest }
    | [] => if s.tasksOpen then none else some (s.setThread i (.releasing none))
  | some (.releasing (some (index, item))) =>
    some { s.setThread i (.working index item) with
      lockHolder := none
      calls := s.calls ++ [(index, item)] }
  | some (.releasing none) => some { s.setThread i .exited with lockHolder := none }
  | some (.working index item) => some (s.setThread i (.sending index (worker item)))
  | some (.sending index result) =>
    some { s.setThread i .locking with results := s.results ++ [(index, result)] }
  | some .exited | none => none

def step : PoolActor → Option (Pool T R)
  | .main => s.stepMain
  | .thread i => s.stepThread worker i

/-- The calls of the worker that have begun and not ended. -/
def inFlight : ℕ := s.threads.countP fun
  | .working _ _ => true
  | _ => false

end Pool
end NativeTransport
