import Mathlib.Tactic.Abel
import TerminalWorkspace.Foundation.Indexed
import TerminalWorkspace.NativeTransport.BoundedPool

/-! Every interleaving of the pool ends, and has then run the worker once on each item and put
each result into its place. -/
namespace NativeTransport
open Interleavings

section Counts
variable {T R : Type*}

/-- The task with which the worker has still to be called. -/
def ThreadPc.taken : ThreadPc T R → Multiset (ℕ × T)
  | .releasing (some task) => {task}
  | _ => 0

/-- The result that has still to be sent. -/
def ThreadPc.due (worker : T → R) : ThreadPc T R → Multiset (ℕ × R)
  | .working index item => {(index, worker item)}
  | .sending index result => {(index, result)}
  | _ => 0

def ThreadPc.Holds : ThreadPc T R → Prop
  | .receiving | .releasing _ => True
  | _ => False

/-- The thread has seen the end of the queue. -/
def ThreadPc.Ends : ThreadPc T R → Prop
  | .releasing none | .exited => True
  | _ => False

/-- The steps that a thread takes at most before it waits for a task again, or ends. -/
def ThreadPc.weight : ThreadPc T R → ℕ
  | .releasing (some _) => 7
  | .working _ _ => 6
  | .sending _ _ => 5
  | .locking => 3
  | .receiving => 2
  | .releasing none => 1
  | .exited => 0

def MainPc.stage : MainPc T R → ℕ
  | .spawning => 0
  | .sending _ => 1
  | .droppingTasks => 2
  | .droppingResults => 3
  | .collecting => 4
  | .joining _ => 5
  | .returned _ => 6

/-- The steps that are left for the caller, and for the tasks it has not sent. -/
def MainPc.weight (concurrency threads items : ℕ) : MainPc T R → ℕ
  | .spawning => 4 * (concurrency - threads) + 7 * items + concurrency + 6
  | .sending rest => 7 * rest.length + concurrency + 5
  | .droppingTasks => concurrency + 4
  | .droppingResults => concurrency + 3
  | .collecting => concurrency + 2
  | .joining joined => concurrency - joined + 1
  | .returned _ => 0

def indexed (items : List T) : List (ℕ × T) := items.mapIdx Prod.mk

def MainPc.unsent (items : List T) : MainPc T R → Multiset (ℕ × T)
  | .spawning => indexed items
  | .sending rest => rest
  | _ => 0

def called (worker : T → R) (task : ℕ × T) : ℕ × R := (task.1, worker task.2)

def fill (slots : List (Option R)) (result : ℕ × R) : List (Option R) :=
  slots.set result.1 (some result.2)

end Counts

section Lists
variable {α M : Type*}

/-- A sum over a list of which one member changes. -/
theorem sum_map_set [AddCommMonoid M] (f : α → M) {l : List α} {i : ℕ} {old : α}
    (h : l[i]? = some old) (new : α) :
    ((l.set i new).map f).sum + f old = (l.map f).sum + f new := by
  induction l generalizing i with
  | nil => cases h
  | cons a l ih =>
    cases i with
    | zero =>
      obtain rfl := Option.some.inj h
      simp only [List.set_cons_zero, List.map_cons, List.sum_cons]
      abel
    | succ i =>
      have hrest := ih (i := i) h
      simp only [List.set_cons_succ, List.map_cons, List.sum_cons, add_assoc, hrest]

theorem sum_map_eq_zero [AddCommMonoid M] {f : α → M} {l : List α} (h : ∀ a ∈ l, f a = 0) :
    (l.map f).sum = 0 := by
  refine List.sum_eq_zero fun x hx => ?_
  obtain ⟨a, ha, rfl⟩ := List.mem_map.mp hx
  exact h a ha

end Lists

namespace Pool
variable {T R : Type*}

/-- What holds of the pool in every interleaving of its threads. -/
structure Sound (worker : T → R) (items : List T) (limit : ℕ) (s : Pool T R) : Prop where
  items_eq : s.items = items
  bounded : s.concurrency ≤ max limit 1
  positive : 0 < s.concurrency
  size : s.threads.length ≤ s.concurrency
  spawned : 0 < s.main.stage → s.threads.length = s.concurrency
  open_iff : s.tasksOpen = true ↔ s.main.stage ≤ 2
  held_iff : s.senderHeld = true ↔ s.main.stage ≤ 3
  lock_iff : ∀ i, s.lockHolder = some i ↔ ∃ pc, s.threads[i]? = some pc ∧ pc.Holds
  drained : ∀ pc ∈ s.threads, pc.Ends → s.tasksOpen = false ∧ s.tasks = []
  tasks_eq : s.main.unsent items + s.tasks + (s.threads.map ThreadPc.taken).sum + s.calls =
    (indexed items : Multiset (ℕ × T))
  results_eq : (s.calls.map (called worker) : Multiset (ℕ × R)) =
    (s.threads.map (ThreadPc.due worker)).sum + s.results + s.received
  unread : s.main.stage ≤ 3 → s.received = []
  slots_eq : 4 ≤ s.main.stage → s.slots = s.received.foldl fill (List.replicate items.length none)
  ended : 5 ≤ s.main.stage → s.results = [] ∧ ∀ pc ∈ s.threads, pc = .exited
  returned : ∀ out, s.main = .returned out → out = s.slots.mapM id

/-- The steps that are left at most. -/
def weight (s : Pool T R) : ℕ :=
  s.main.weight s.concurrency s.threads.length s.items.length +
    (s.threads.map ThreadPc.weight).sum + 6 * s.tasks.length + s.results.length

variable {worker : T → R} {items : List T} {limit : ℕ} {s next : Pool T R}

section Threads
variable {i : ℕ} {old : ThreadPc T R}

/-- The step of a thread: what it may do to the lock and the queues for the pool to stay sound. -/
theorem Sound.setThread (h : Sound worker items limit s) (hi : s.threads[i]? = some old)
    (hold : old ≠ .exited) (pc : ThreadPc T R) {lockHolder : Option ℕ} {tasks calls : List (ℕ × T)}
    {results : List (ℕ × R)} (hself : lockHolder = some i ↔ pc.Holds)
    (hother : ∀ j ≠ i, lockHolder = some j ↔ s.lockHolder = some j)
    (hends : pc.Ends → s.tasksOpen = false ∧ tasks = []) (hempty : s.tasks = [] → tasks = [])
    (htasks : (tasks : Multiset (ℕ × T)) + pc.taken + calls = s.tasks + old.taken + s.calls)
    (hresults : (calls.map (called worker) : Multiset (ℕ × R)) + old.due worker + s.results =
      s.calls.map (called worker) + pc.due worker + results) :
    Sound worker items limit { s.setThread i pc with lockHolder, tasks, calls, results } where
  items_eq := h.items_eq
  bounded := h.bounded
  positive := h.positive
  size := List.length_set.trans_le h.size
  spawned hstage := List.length_set.trans (h.spawned hstage)
  open_iff := h.open_iff
  held_iff := h.held_iff
  lock_iff j := by
    have hlt : i < s.threads.length := (List.getElem?_eq_some_iff.mp hi).1
    by_cases hji : j = i
    · subst hji
      simp [setThread, hlt, hself]
    · rw [hother j hji, h.lock_iff j]
      show _ ↔ ∃ other, (s.threads.set i pc)[j]? = some other ∧ other.Holds
      rw [List.getElem?_set_ne (Ne.symm hji)]
  drained other hmem hend := by
    rcases List.mem_or_eq_of_mem_set hmem with hmem | rfl
    · obtain ⟨hopen, htasks⟩ := h.drained other hmem hend
      exact ⟨hopen, hempty htasks⟩
    · exact hends hend
  tasks_eq := by
    have hsum := sum_map_set ThreadPc.taken hi pc
    refine add_right_cancel (b := old.taken) ?_
    calc s.main.unsent items + tasks + ((s.threads.set i pc).map ThreadPc.taken).sum + calls +
          old.taken
        = s.main.unsent items + (((s.threads.set i pc).map ThreadPc.taken).sum + old.taken) +
            tasks + calls := by abel
      _ = s.main.unsent items + (s.threads.map ThreadPc.taken).sum +
            (tasks + pc.taken + calls) := by rw [hsum]; abel
      _ = indexed items + old.taken := by rw [htasks, ← h.tasks_eq]; abel
  results_eq := by
    have hsum := sum_map_set (ThreadPc.due worker) hi pc
    refine add_right_cancel (b := old.due worker + s.results) ?_
    calc (calls.map (called worker) : Multiset (ℕ × R)) + (old.due worker + s.results)
        = s.calls.map (called worker) + pc.due worker + results := by rw [← hresults]; abel
      _ = (s.threads.map (ThreadPc.due worker)).sum + pc.due worker + results + s.received +
            s.results := by rw [h.results_eq]; abel
      _ = ((s.threads.set i pc).map (ThreadPc.due worker)).sum + results + s.received +
            (old.due worker + s.results) := by rw [← hsum]; abel
  unread := h.unread
  slots_eq := h.slots_eq
  ended hstage := absurd ((h.ended hstage).2 old (List.mem_of_getElem? hi)) hold
  returned := h.returned

theorem Sound.stepThread (h : Sound worker items limit s) (i : ℕ)
    (hs : s.stepThread worker i = some next) : Sound worker items limit next := by
  unfold Pool.stepThread at hs
  split at hs
  · next hi =>
    split_ifs at hs with hfree
    cases hs
    exact h.setThread hi nofun .receiving (by simp [ThreadPc.Holds])
      (fun j hj => by simp [hfree, Ne.symm hj]) nofun id rfl rfl
  · next hi =>
    have hholder : s.lockHolder = some i := (h.lock_iff i).mpr ⟨_, hi, trivial⟩
    split at hs
    · next task rest htasks =>
      cases hs
      refine h.setThread hi nofun (.releasing (some task)) (iff_of_true hholder trivial)
        (fun _ _ => Iff.rfl) nofun (fun hempty => ?_) ?_ rfl
      · cases htasks.symm.trans hempty
      · rw [htasks, ← Multiset.cons_coe, ← Multiset.singleton_add]
        simp only [ThreadPc.taken]
        abel
    · next htasks =>
      split_ifs at hs with hopen
      cases hs
      exact h.setThread hi nofun (.releasing none) (iff_of_true hholder trivial)
        (fun _ _ => Iff.rfl) (fun _ => ⟨by simpa using hopen, htasks⟩) id rfl rfl
  · next index item hi =>
    have hholder : s.lockHolder = some i := (h.lock_iff i).mpr ⟨_, hi, trivial⟩
    cases hs
    refine h.setThread hi nofun (.working index item) (by simp [ThreadPc.Holds])
      (fun j hj => by simp [hholder, Ne.symm hj]) nofun id ?_ ?_
    · simp only [Pool.setThread, ThreadPc.taken, ← Multiset.coe_add, Multiset.coe_singleton]
      abel
    · simp only [Pool.setThread, ThreadPc.due, List.map_append, ← Multiset.coe_add, called]
      simp only [List.map_cons, List.map_nil, Multiset.coe_singleton, called]
      abel
  · next hi =>
    have hholder : s.lockHolder = some i := (h.lock_iff i).mpr ⟨_, hi, trivial⟩
    have hdrained := h.drained _ (List.mem_of_getElem? hi) trivial
    cases hs
    exact h.setThread hi nofun .exited (by simp [ThreadPc.Holds])
      (fun j hj => by simp [hholder, Ne.symm hj]) (fun _ => hdrained) id rfl rfl
  · next index item hi =>
    have hother : ¬ s.lockHolder = some i := by
      rw [h.lock_iff i]
      rintro ⟨pc, hpc, hholds⟩
      obtain rfl := Option.some.inj (hi.symm.trans hpc)
      exact hholds
    cases hs
    exact h.setThread hi nofun (.sending index (worker item)) (iff_of_false hother id)
      (fun _ _ => Iff.rfl) nofun id rfl rfl
  · next index result hi =>
    have hother : ¬ s.lockHolder = some i := by
      rw [h.lock_iff i]
      rintro ⟨pc, hpc, hholds⟩
      obtain rfl := Option.some.inj (hi.symm.trans hpc)
      exact hholds
    cases hs
    refine h.setThread hi nofun .locking (iff_of_false hother id)
      (fun _ _ => Iff.rfl) nofun id rfl ?_
    simp only [Pool.setThread, ThreadPc.due, ← Multiset.coe_add, Multiset.coe_singleton]
    abel
  · cases hs
  · cases hs

end Threads

/-- A step of the caller that leaves the threads as they are. -/
theorem Sound.setMain (h : Sound worker items limit s) (main : MainPc T R) {tasks : List (ℕ × T)}
    {tasksOpen senderHeld : Bool} {results received : List (ℕ × R)} {slots : List (Option R)}
    (hspawned : 0 < main.stage → s.threads.length = s.concurrency)
    (hopen : tasksOpen = true ↔ main.stage ≤ 2) (hheld : senderHeld = true ↔ main.stage ≤ 3)
    (hdrained : s.tasksOpen = false ∧ s.tasks = [] → tasksOpen = false ∧ tasks = [])
    (htasks : main.unsent items + tasks = s.main.unsent items + (s.tasks : Multiset (ℕ × T)))
    (hresults : (results : Multiset (ℕ × R)) + received = s.results + s.received)
    (hunread : main.stage ≤ 3 → received = [])
    (hslots : 4 ≤ main.stage → slots = received.foldl fill (List.replicate items.length none))
    (hended : 5 ≤ main.stage → results = [] ∧ ∀ pc ∈ s.threads, pc = .exited)
    (hreturned : ∀ out, main = .returned out → out = slots.mapM id) :
    Sound worker items limit
      { s with main, tasks, tasksOpen, senderHeld, results, received, slots } where
  items_eq := h.items_eq
  bounded := h.bounded
  positive := h.positive
  size := h.size
  spawned := hspawned
  open_iff := hopen
  held_iff := hheld
  lock_iff := h.lock_iff
  drained pc hmem hend := hdrained (h.drained pc hmem hend)
  tasks_eq := by
    rw [← h.tasks_eq, htasks]
  results_eq := by
    rw [h.results_eq, add_assoc, add_assoc, hresults]
  unread := hunread
  slots_eq := hslots
  ended := hended
  returned := hreturned

/-- A thread more. -/
theorem Sound.spawn (h : Sound worker items limit s) (hmain : s.main = .spawning)
    (hless : s.threads.length < s.concurrency) :
    Sound worker items limit { s with threads := s.threads ++ [.locking] } where
  items_eq := h.items_eq
  bounded := h.bounded
  positive := h.positive
  size := by
    rw [List.length_append]
    exact hless
  spawned hstage := by
    rw [hmain] at hstage
    exact absurd hstage (Nat.lt_irrefl 0)
  open_iff := h.open_iff
  held_iff := h.held_iff
  lock_iff i := by
    rw [h.lock_iff i]
    constructor
    · rintro ⟨pc, hpc, hholds⟩
      exact ⟨pc, by rw [List.getElem?_append_left (List.getElem?_eq_some_iff.mp hpc).1, hpc], hholds⟩
    · rintro ⟨pc, hpc, hholds⟩
      rcases Indexed.getElem?_concat_some hpc with hpc | ⟨-, rfl⟩
      · exact ⟨pc, hpc, hholds⟩
      · exact absurd hholds id
  drained pc hmem hend := by
    rcases List.mem_append.mp hmem with hmem | hmem
    · exact h.drained pc hmem hend
    · obtain rfl := List.mem_singleton.mp hmem
      exact absurd hend id
  tasks_eq := by
    rw [← h.tasks_eq]
    simp [ThreadPc.taken]
  results_eq := by
    rw [h.results_eq]
    simp [ThreadPc.due]
  unread := h.unread
  slots_eq := h.slots_eq
  ended hstage := by
    rw [hmain] at hstage
    exact absurd hstage (Nat.not_succ_le_zero 4)
  returned := h.returned

theorem resultsClosed_iff :
    s.ResultsClosed ↔ s.senderHeld = false ∧ ∀ pc ∈ s.threads, pc = .exited := by
  rw [ResultsClosed, List.all_eq_true]
  refine and_congr_right fun _ => forall₂_congr fun pc _ => ?_
  cases pc <;> simp

theorem Sound.stepMain (h : Sound worker items limit s) (hs : s.stepMain = some next) :
    Sound worker items limit next := by
  have hspawned := h.spawned
  have hopen := h.open_iff
  have hheld := h.held_iff
  have hunread := h.unread
  have hslots := h.slots_eq
  have hended := h.ended
  unfold Pool.stepMain at hs
  split at hs
  · next hmain =>
    rw [hmain] at hopen hheld hunread
    split_ifs at hs with hless
    · cases hs
      exact h.spawn hmain hless
    · cases hs
      refine h.setMain (.sending _) (fun _ => ?_) ?_ ?_ id ?_ rfl (fun _ => hunread (Nat.zero_le 3))
        (fun hstage => absurd hstage (by simp [MainPc.stage]))
        (fun hstage => absurd hstage (by simp [MainPc.stage])) nofun
      · exact Nat.le_antisymm h.size (Nat.le_of_not_lt hless)
      · simpa [MainPc.stage] using hopen
      · simpa [MainPc.stage] using hheld
      · rw [hmain, h.items_eq]
        rfl
  · next task rest hmain =>
    rw [hmain] at hspawned hopen hheld hunread
    cases hs
    refine h.setMain (.sending rest) hspawned hopen hheld (fun hends => ?_) ?_ rfl hunread
      (fun hstage => absurd hstage (by simp [MainPc.stage]))
      (fun hstage => absurd hstage (by simp [MainPc.stage])) nofun
    · have hstill : s.tasksOpen = true := hopen.mpr (by simp [MainPc.stage])
      cases hstill.symm.trans hends.1
    · rw [hmain]
      simp only [MainPc.unsent, ← Multiset.cons_coe, ← Multiset.coe_add, Multiset.coe_singleton,
        ← Multiset.singleton_add]
      abel
  · next hmain =>
    rw [hmain] at hspawned hopen hheld hunread
    cases hs
    refine h.setMain .droppingTasks (fun _ => hspawned (Nat.zero_lt_one)) ?_ ?_ id ?_ rfl
      (fun _ => hunread (Nat.le_of_ble_eq_true rfl))
      (fun hstage => absurd hstage (by simp [MainPc.stage]))
      (fun hstage => absurd hstage (by simp [MainPc.stage])) nofun
    · simpa [MainPc.stage] using hopen
    · simpa [MainPc.stage] using hheld
    · rw [hmain]
      rfl
  · next hmain =>
    rw [hmain] at hspawned hheld hunread
    cases hs
    refine h.setMain .droppingResults (fun _ => hspawned Nat.zero_lt_two) (by simp [MainPc.stage])
      ?_ (fun hends => ⟨rfl, hends.2⟩) ?_ rfl (fun _ => hunread (Nat.le_of_ble_eq_true rfl))
      (fun hstage => absurd hstage (by simp [MainPc.stage]))
      (fun hstage => absurd hstage (by simp [MainPc.stage])) nofun
    · simpa [MainPc.stage] using hheld
    · rw [hmain]
      rfl
  · next hmain =>
    rw [hmain] at hspawned hopen hunread
    cases hs
    refine h.setMain .collecting (fun _ => hspawned (Nat.zero_lt_succ 2)) ?_ (by simp [MainPc.stage])
      id ?_ rfl (fun hstage => absurd hstage (by simp [MainPc.stage])) (fun _ => ?_)
      (fun hstage => absurd hstage (by simp [MainPc.stage])) nofun
    · simpa [MainPc.stage] using hopen
    · rw [hmain]
      rfl
    · rw [hunread (Nat.le_refl 3), h.items_eq]
      rfl
  · next hmain =>
    split at hs
    · next index result rest hresults =>
      cases hs
      refine h.setMain s.main hspawned hopen hheld id rfl ?_ (fun hstage => ?_) (fun hstage => ?_)
        (fun hstage => ?_) (fun out hout => nomatch hmain.symm.trans hout)
      · rw [hresults, ← Multiset.cons_coe, ← Multiset.singleton_add, ← Multiset.coe_add,
          Multiset.coe_singleton]
        abel
      · rw [hmain] at hstage
        exact absurd hstage (by simp [MainPc.stage])
      · rw [List.foldl_append, ← hslots hstage]
        rfl
      · rw [hmain] at hstage
        exact absurd hstage (by simp [MainPc.stage])
    · next hresults =>
      split_ifs at hs with hclosed
      cases hs
      rw [hmain] at hspawned hopen hheld hslots
      obtain ⟨-, hexited⟩ := resultsClosed_iff.mp hclosed
      refine h.setMain (.joining 0) (fun _ => hspawned (Nat.zero_lt_succ 3)) ?_ ?_ id ?_ rfl
        (fun hstage => absurd hstage (by simp [MainPc.stage]))
        (fun _ => hslots (Nat.le_refl 4)) (fun _ => ⟨hresults, hexited⟩) nofun
      · simpa [MainPc.stage] using hopen
      · simpa [MainPc.stage] using hheld
      · rw [hmain]
        rfl
  · next joined hmain =>
    rw [hmain] at hspawned hopen hheld hslots hended
    split at hs
    · cases hs
      refine h.setMain (.joining (joined + 1)) hspawned hopen hheld id ?_ rfl
        (fun hstage => absurd hstage (by simp [MainPc.stage])) hslots hended nofun
      rw [hmain]
      rfl
    · cases hs
    · cases hs
      refine h.setMain (.returned _) (fun _ => hspawned (Nat.zero_lt_succ 4)) ?_ ?_ id ?_ rfl
        (fun hstage => absurd hstage (by simp [MainPc.stage]))
        (fun _ => hslots (Nat.le_of_ble_eq_true rfl)) (fun _ => hended (Nat.le_refl 5)) ?_
      · simpa [MainPc.stage] using hopen
      · simpa [MainPc.stage] using hheld
      · rw [hmain]
        rfl
      · rintro out hout
        exact (MainPc.returned.inj hout).symm
  · cases hs

theorem Sound.step (h : Sound worker items limit s) (a : PoolActor)
    (hs : s.step worker a = some next) : Sound worker items limit next := by
  cases a with
  | main => exact h.stepMain hs
  | thread i => exact h.stepThread i hs

theorem Sound.inFlight_le (h : Sound worker items limit s) : s.inFlight ≤ max limit 1 :=
  (List.countP_le_length.trans h.size).trans h.bounded

/-- Behind the lock nothing waits once the queue is closed. -/
theorem exists_stepThread (worker : T → R) (hclosed : s.tasksOpen = false) {i : ℕ} {pc : ThreadPc T R}
    (hi : s.threads[i]? = some pc) (hlocking : pc ≠ .locking) (hexited : pc ≠ .exited) :
    ∃ next, s.stepThread worker i = some next := by
  unfold Pool.stepThread
  rw [hi]
  cases pc with
  | locking => exact absurd rfl hlocking
  | receiving =>
    cases htasks : s.tasks with
    | nil =>
      refine ⟨s.setThread i (.releasing none), ?_⟩
      simp only [hclosed, Bool.false_eq_true, if_false]
    | cons task rest => exact ⟨_, rfl⟩
  | releasing received =>
    cases received with
    | none => exact ⟨_, rfl⟩
    | some task => exact ⟨_, rfl⟩
  | working index item => exact ⟨_, rfl⟩
  | sending index result => exact ⟨_, rfl⟩
  | exited => exact absurd rfl hexited

/-- The caller waits for results only, while a thread has not ended. -/
theorem Sound.waits (h : Sound worker items limit s) (hmain : s.main.stage ≠ 6)
    (hwaits : s.stepMain = none) :
    s.tasksOpen = false ∧ ∃ (i : ℕ) (pc : ThreadPc T R), s.threads[i]? = some pc ∧ pc ≠ .exited := by
  unfold Pool.stepMain at hwaits
  split at hwaits
  · split_ifs at hwaits
  · cases hwaits
  · cases hwaits
  · cases hwaits
  · cases hwaits
  · next hcollecting =>
    have hopen := h.open_iff
    have hheld := h.held_iff
    rw [hcollecting] at hopen hheld
    split at hwaits
    · cases hwaits
    · split_ifs at hwaits with hclosed
      have hsender : s.senderHeld = false := by simpa [MainPc.stage] using hheld
      have hsome : ∃ pc ∈ s.threads, pc ≠ .exited := by
        by_contra hnone
        push Not at hnone
        exact hclosed (resultsClosed_iff.mpr ⟨hsender, hnone⟩)
      obtain ⟨pc, hpc, hne⟩ := hsome
      obtain ⟨i, hi⟩ := List.mem_iff_getElem?.mp hpc
      exact ⟨by simpa [MainPc.stage] using hopen, i, pc, hi, hne⟩
  · next joined hjoining =>
    have hended := h.ended
    rw [hjoining] at hended
    split at hwaits
    · cases hwaits
    · next pc hnot hpc =>
      have hexited := (hended (Nat.le_refl 5)).2 pc (List.mem_of_getElem? hpc)
      exact absurd hexited hnot
    · cases hwaits
  · next out hreturned =>
    rw [hreturned] at hmain
    exact absurd rfl hmain

/-- No deadlock: until the caller has returned, someone can take a step. -/
theorem Sound.exists_step (h : Sound worker items limit s) (hmain : s.main.stage ≠ 6) :
    ∃ a next, s.step worker a = some next := by
  by_cases hwaits : s.stepMain = none
  · obtain ⟨hclosed, i, pc, hi, hexited⟩ := h.waits hmain hwaits
    by_cases hlocking : pc = .locking
    · subst hlocking
      cases hlock : s.lockHolder with
      | none =>
        refine ⟨.thread i, { s.setThread i .receiving with lockHolder := some i }, ?_⟩
        simp only [Pool.step, Pool.stepThread, hi, hlock, if_true]
      | some j =>
        obtain ⟨holder, hj, hholds⟩ := (h.lock_iff j).mp hlock
        obtain ⟨next, hnext⟩ := exists_stepThread worker hclosed hj
          (fun heq => by rw [heq] at hholds; exact hholds)
          (fun heq => by rw [heq] at hholds; exact hholds)
        exact ⟨.thread j, next, hnext⟩
    · obtain ⟨next, hnext⟩ := exists_stepThread worker hclosed hi hlocking hexited
      exact ⟨.thread i, next, hnext⟩
  · obtain ⟨next, hnext⟩ := Option.ne_none_iff_exists'.mp hwaits
    exact ⟨.main, next, hnext⟩

/-! ## The steps that are left -/

theorem weight_stepMain (h : Sound worker items limit s) (hs : s.stepMain = some next) :
    next.weight < s.weight := by
  unfold Pool.stepMain at hs
  split at hs
  · next hmain =>
    split_ifs at hs with hless
    · cases hs
      simp only [weight, MainPc.weight, hmain, List.length_append, List.map_append, List.sum_append,
        List.length_singleton, List.map_cons, List.map_nil, List.sum_cons, List.sum_nil,
        ThreadPc.weight]
      omega
    · cases hs
      simp only [weight, MainPc.weight, hmain, List.length_mapIdx]
      omega
  · next task rest hmain =>
    cases hs
    simp only [weight, MainPc.weight, hmain, List.length_append, List.length_cons, List.length_nil]
    omega
  · next hmain =>
    cases hs
    simp only [weight, MainPc.weight, hmain, List.length_nil]
    omega
  · next hmain =>
    cases hs
    simp only [weight, MainPc.weight, hmain]
    omega
  · next hmain =>
    cases hs
    simp only [weight, MainPc.weight, hmain]
    omega
  · next hmain =>
    split at hs
    · next index result rest hresults =>
      cases hs
      simp only [weight, MainPc.weight, hmain, hresults, List.length_cons]
      omega
    · split_ifs at hs
      cases hs
      simp only [weight, MainPc.weight, hmain]
      omega
  · next joined hmain =>
    split at hs
    · next hjoined =>
      have hlt := (List.getElem?_eq_some_iff.mp hjoined).1
      have hsize := h.size
      cases hs
      simp only [weight, MainPc.weight, hmain]
      omega
    · cases hs
    · cases hs
      simp only [weight, MainPc.weight, hmain]
      omega
  · cases hs

theorem weight_stepThread {i : ℕ} (hs : s.stepThread worker i = some next) :
    next.weight < s.weight := by
  have hset {old : ThreadPc T R} (hi : s.threads[i]? = some old) (pc : ThreadPc T R) :
      ((s.threads.set i pc).map ThreadPc.weight).sum + old.weight =
        (s.threads.map ThreadPc.weight).sum + pc.weight := sum_map_set ThreadPc.weight hi pc
  unfold Pool.stepThread at hs
  split at hs
  · next hi =>
    have hsum := hset hi .receiving
    split_ifs at hs
    cases hs
    simp only [weight, setThread, List.length_set, ThreadPc.weight] at hsum ⊢
    omega
  · next hi =>
    split at hs
    · next task rest htasks =>
      have hsum := hset hi (.releasing (some task))
      cases hs
      simp only [weight, setThread, List.length_set, ThreadPc.weight, htasks, List.length_cons] at hsum ⊢
      omega
    · split_ifs at hs
      have hsum := hset hi (.releasing none)
      cases hs
      simp only [weight, setThread, List.length_set, ThreadPc.weight] at hsum ⊢
      omega
  · next index item hi =>
    have hsum := hset hi (.working index item)
    cases hs
    simp only [weight, setThread, List.length_set, ThreadPc.weight] at hsum ⊢
    omega
  · next hi =>
    have hsum := hset hi .exited
    cases hs
    simp only [weight, setThread, List.length_set, ThreadPc.weight] at hsum ⊢
    omega
  · next index item hi =>
    have hsum := hset hi (.sending index (worker item))
    cases hs
    simp only [weight, setThread, List.length_set, ThreadPc.weight] at hsum ⊢
    omega
  · next index result hi =>
    have hsum := hset hi .locking
    cases hs
    simp only [weight, setThread, List.length_set, ThreadPc.weight, List.length_append,
      List.length_singleton] at hsum ⊢
    omega
  · cases hs
  · cases hs

theorem Sound.weight_step (h : Sound worker items limit s) (a : PoolActor)
    (hs : s.step worker a = some next) : next.weight < s.weight := by
  cases a with
  | main => exact weight_stepMain h hs
  | thread i => exact weight_stepThread hs

theorem sound_initial (worker : T → R) (hne : items ≠ []) (limit : ℕ) :
    Sound worker items limit (initial items limit) := by
  have hlength : items.length ≠ 0 := fun h => hne (List.length_eq_zero_iff.mp h)
  have hmain : (initial items limit : Pool T R).main = .spawning := if_neg hlength
  refine ⟨rfl, min_le_left _ _, ?_, Nat.zero_le _, ?_, ?_, ?_, ?_, nofun, ?_, rfl, fun _ => rfl,
    ?_, ?_, ?_⟩
  · exact lt_min (lt_max_of_lt_right Nat.zero_lt_one) (Nat.pos_of_ne_zero hlength)
  · rw [hmain]
    exact fun h => absurd h (Nat.lt_irrefl 0)
  · rw [hmain]
    exact iff_of_true rfl (Nat.zero_le 2)
  · rw [hmain]
    exact iff_of_true rfl (Nat.zero_le 3)
  · exact fun i => iff_of_false nofun nofun
  · rw [hmain]
    simp [MainPc.unsent, initial]
  · rw [hmain]
    exact fun h => absurd h (Nat.not_succ_le_zero 3)
  · rw [hmain]
    exact fun h => absurd h (Nat.not_succ_le_zero 4)
  · rw [hmain]
    exact nofun

/-! ## What is returned -/

section Returned

theorem length_foldl_fill (received : List (ℕ × R)) (slots : List (Option R)) :
    (received.foldl fill slots).length = slots.length := by
  induction received generalizing slots with
  | nil => rfl
  | cons result received ih =>
    rw [List.foldl_cons, ih]
    exact List.length_set

/-- A slot holds the value that all results for it have, once there was one. -/
theorem getElem?_foldl_fill {i : ℕ} {value : R} (received : List (ℕ × R)) :
    ∀ slots : List (Option R), i < slots.length →
      (∀ result ∈ received, result.1 = i → result.2 = value) →
      slots[i]? = some (some value) ∨ (i, value) ∈ received →
      (received.foldl fill slots)[i]? = some (some value) := by
  induction received with
  | nil =>
    rintro slots - - (hslot | hmem)
    · exact hslot
    · exact nomatch hmem
  | cons result received ih =>
    intro slots hlt hsame hslot
    refine ih (fill slots result) ?_ (fun other hother => hsame other (List.mem_cons_of_mem _ hother)) ?_
    · rwa [fill, List.length_set]
    · rw [fill]
      by_cases hi : result.1 = i
      · left
        rw [hi, hsame result List.mem_cons_self hi, List.getElem?_set_self hlt]
      · rw [List.getElem?_set_ne hi]
        refine hslot.imp_right fun hmem => ?_
        rcases List.mem_cons.mp hmem with heq | hmem
        · exact absurd (congrArg Prod.fst heq).symm hi
        · exact hmem

theorem mem_called_indexed {result : ℕ × R} :
    result ∈ (indexed items).map (called worker) ↔
      ∃ item, items[result.1]? = some item ∧ worker item = result.2 := by
  obtain ⟨i, r⟩ := result
  simp only [indexed, List.mem_map, List.mem_mapIdx, called, Prod.mk.injEq, Prod.exists]
  constructor
  · rintro ⟨_, _, ⟨j, hj, rfl, rfl⟩, rfl, rfl⟩
    exact ⟨_, List.getElem?_eq_getElem hj, rfl⟩
  · rintro ⟨item, hitem, rfl⟩
    obtain ⟨hi, rfl⟩ := List.getElem?_eq_some_iff.mp hitem
    exact ⟨i, _, ⟨i, hi, rfl, rfl⟩, rfl, rfl⟩

theorem mapM_some (values : List R) : (values.map some).mapM id = some values := by
  induction values with
  | nil => rfl
  | cons value values ih =>
    rw [List.map_cons, List.mapM_cons, ih]
    rfl

/-- At the end every item has been received, called with and reported. -/
theorem Sound.calls_perm (h : Sound worker items limit s) (hmain : s.main.stage = 6) :
    s.calls.Perm (indexed items) ∧ s.received.Perm ((indexed items).map (called worker)) := by
  obtain ⟨hresults, hexited⟩ := h.ended (by omega)
  have hlength := h.spawned (by omega)
  have hpositive := h.positive
  obtain ⟨pc, hpc⟩ := List.exists_mem_of_length_pos (hlength ▸ hpositive)
  obtain ⟨-, htasks⟩ := h.drained pc hpc (by rw [hexited pc hpc]; trivial)
  have htaken : (s.threads.map ThreadPc.taken).sum = 0 :=
    sum_map_eq_zero fun pc hpc => by rw [hexited pc hpc]; rfl
  have hdue : (s.threads.map (ThreadPc.due worker)).sum = 0 :=
    sum_map_eq_zero fun pc hpc => by rw [hexited pc hpc]; rfl
  have hunsent : s.main.unsent items = 0 := by
    cases hpc : s.main <;> rw [hpc] at hmain <;> first | rfl | cases hmain
  have hcalls := h.tasks_eq
  rw [hunsent, htasks, htaken, Multiset.coe_nil, add_zero, add_zero, zero_add] at hcalls
  have hreceived := h.results_eq
  rw [hdue, hresults, Multiset.coe_nil, add_zero, zero_add] at hreceived
  have hperm := Multiset.coe_eq_coe.mp hcalls
  exact ⟨hperm, (Multiset.coe_eq_coe.mp hreceived).symm.trans (hperm.map _)⟩

theorem Sound.slots_eq_map (h : Sound worker items limit s) (hmain : s.main.stage = 6) :
    s.slots = (items.map worker).map some := by
  obtain ⟨-, hreceived⟩ := h.calls_perm hmain
  rw [h.slots_eq (by omega)]
  refine List.ext_getElem? fun i => ?_
  by_cases hi : i < items.length
  · have hitem : items[i]? = some items[i] := List.getElem?_eq_getElem hi
    rw [getElem?_foldl_fill s.received _ (by simpa using hi) (fun result hresult heq => ?_)
      (.inr (hreceived.mem_iff.mpr (mem_called_indexed.mpr ⟨items[i], hitem, rfl⟩)))]
    · simp [hitem]
    · obtain ⟨item, hother, hvalue⟩ :=
        mem_called_indexed.mp (hreceived.mem_iff.mp hresult)
      rw [heq, hitem] at hother
      rw [← hvalue, Option.some.inj hother]
  · have hlength : (s.received.foldl fill (List.replicate items.length none)).length =
        items.length := by rw [length_foldl_fill, List.length_replicate]
    rw [List.getElem?_eq_none (by omega), List.getElem?_eq_none (by simpa using hi)]

end Returned

/-- What is called of each item never exceeds once. -/
theorem Sound.calls_le (h : Sound worker items limit s) :
    (s.calls : Multiset (ℕ × T)) ≤ indexed items := by
  rw [← h.tasks_eq]
  exact Multiset.le_add_left _ _

end Pool

/-- Every interleaving is bounded and does not stop before the caller has returned; no item is
given to the worker twice and no more than the limit are at once; and what is returned are the
results of the items, each having been given to the worker. -/
theorem runBounded_interleavings {T R : Type*} (worker : T → R) (items : List T) (limit : ℕ)
    (actors : List PoolActor) (s : Pool T R)
    (h : run (Pool.step worker) (.initial items limit) actors = some s) :
    actors.length ≤ 7 * items.length + 5 * max limit 1 + 6 ∧
      (Stuck (Pool.step worker) s → ∃ out, s.main = .returned out) ∧
      (s.calls : Multiset (ℕ × T)) ≤ indexed items ∧
      s.inFlight ≤ max limit 1 ∧
      ∀ out, s.main = .returned out →
        out = some (items.map worker) ∧ s.calls.Perm (indexed items) := by
  by_cases hne : items = []
  · -- nothing is started, so that no one can take a step
    subst hne
    have hstuck : Stuck (Pool.step worker) (.initial [] limit) := by
      intro a
      cases a <;> rfl
    obtain ⟨rfl, rfl⟩ : actors = [] ∧ s = .initial [] limit := by
      cases actors with
      | nil => exact ⟨rfl, (Option.some.inj h).symm⟩
      | cons a actors =>
        obtain ⟨next, hnext, -⟩ := Option.bind_eq_some_iff.mp h
        cases (hstuck a).symm.trans hnext
    refine ⟨Nat.zero_le _, fun _ => ⟨_, rfl⟩, Multiset.zero_le _, Nat.zero_le _, ?_⟩
    rintro out hout
    exact ⟨(MainPc.returned.inj hout).symm, .refl _⟩
  · have hinit := Pool.sound_initial worker hne limit
    have hstep : ∀ s a next, Pool.Sound worker items limit s → s.step worker a = some next →
        Pool.Sound worker items limit next := fun s a next hs hnext => hs.step a hnext
    have hsound := run_invariant hstep hinit h
    refine ⟨?_, fun hstuck => ?_, hsound.calls_le, hsound.inFlight_le, fun out hout => ?_⟩
    · have hlength := length_le_of_measure Pool.weight hstep
        (fun s a next hs hnext => hs.weight_step a hnext) hinit h
      have hbounded := hinit.bounded
      have hweight : (Pool.initial items limit : Pool T R).weight =
          4 * (Pool.initial items limit : Pool T R).concurrency + 7 * items.length +
            (Pool.initial items limit : Pool T R).concurrency + 6 := by
        have hlength : items.length ≠ 0 := fun h => hne (List.length_eq_zero_iff.mp h)
        simp [Pool.weight, Pool.initial, hlength, MainPc.weight]
      omega
    · by_contra hrunning
      have hmain : s.main.stage ≠ 6 := by
        intro hstage
        cases hpc : s.main <;> rw [hpc] at hstage <;>
          first | exact hrunning ⟨_, hpc⟩ | cases hstage
      obtain ⟨a, next, hnext⟩ := hsound.exists_step hmain
      cases (hstuck a).symm.trans hnext
    · have hmain : s.main.stage = 6 := by rw [hout, MainPc.stage]
      refine ⟨?_, (hsound.calls_perm hmain).1⟩
      rw [hsound.returned out hout, hsound.slots_eq_map hmain, Pool.mapM_some]

/-- One thread for one item, though none was allowed. -/
theorem runBounded_interleavings_one :
    ∃ s : Pool ℕ ℕ, s.main = .returned (some [6]) ∧ s.calls.Perm [(0, 5)] := by
  let actors : List PoolActor :=
    [.main, .main, .main, .thread 0, .thread 0, .main, .thread 0, .main, .main, .thread 0,
      .thread 0, .main, .thread 0, .thread 0, .thread 0, .main, .main, .main]
  obtain ⟨s, hs⟩ : ∃ s, run (Pool.step (· + 1)) (.initial [5] 0) actors = some s := ⟨_, rfl⟩
  have hreturned : ∃ out, s.main = .returned out := by
    have hmain : (run (Pool.step (· + 1)) (.initial [5] 0) actors).map Pool.main =
        some (.returned (some [6])) := rfl
    rw [hs] at hmain
    exact ⟨_, Option.some.inj hmain⟩
  obtain ⟨out, hout⟩ := hreturned
  obtain ⟨rfl, hcalls⟩ := (runBounded_interleavings (· + 1) [5] 0 actors s hs).2.2.2.2 out hout
  exact ⟨s, hout, hcalls⟩

end NativeTransport
