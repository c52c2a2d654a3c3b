import TerminalWorkspace.NodeBackend.DeadlineRuns

/-! What `withDeadline` promises of every run. -/
namespace NodeDeadline
open Runs
variable {ρ : Type}

namespace Deadline
variable {d : Deadline ρ}

/-- Another timer, or none. -/
def retimed (d : Deadline ρ) (armedAt : ℕ) (timer : Option Timer) : Deadline ρ :=
  { d with armedAt, timer }

theorem Ledger.retimed (h : Ledger d) (armedAt : ℕ) (timer : Option Timer) :
    Ledger (d.retimed armedAt timer) :=
  h.of_same Iff.rfl ⟨rfl, rfl⟩ ⟨rfl, rfl, rfl⟩

theorem Racing.retimed (h : Racing d) (armedAt : ℕ) (timer : Option Timer) :
    Racing (d.retimed armedAt timer) :=
  h.of_same ⟨rfl, rfl⟩ ⟨rfl, rfl, rfl⟩

theorem Ledger.expired_retimed (h : Ledger d) (hactive : d.state = .active) (armedAt : ℕ)
    (timer : Option Timer) (ms : ℕ) : Ledger ((d.retimed armedAt timer).expired ms) :=
  Ledger.expired (d := d.retimed armedAt timer) (h.retimed armedAt timer) hactive ms

theorem Racing.expired_retimed (h : Racing d) (hactive : d.state = .active) (armedAt : ℕ)
    (timer : Option Timer) (ms : ℕ) : Racing ((d.retimed armedAt timer).expired ms) :=
  Racing.expired (d := d.retimed armedAt timer) (h.retimed armedAt timer) hactive ms

/-- Progress moves the timer of an active operation, or finds its total budget spent. -/
theorem resetDeadline_cases (h : Clock d) :
    d.state ≠ .active ∧ d.resetDeadline = d ∨
      d.state = .active ∧
        ((∃ timer, d.resetDeadline = d.retimed d.now timer) ∨
          ∃ ms, d.resetDeadline = (d.retimed d.now none).expired ms) := by
  by_cases hactive : d.state = .active
  · have hreset : d.resetDeadline = armTimer { d with timer := none } :=
      if_neg (not_not.mpr hactive)
    obtain ⟨timer, -, hnow, -, htotal⟩ := h.armed hactive
    have harm := armTimer_cases (d := { d with timer := none }) hactive h.started
      fun total hsome => hnow.trans (htotal total hsome)
    rw [← hreset] at harm
    obtain ⟨ms, ⟨-, harm⟩ | ⟨due, -, -, harm⟩⟩ := harm
    · exact .inr ⟨hactive, .inr ⟨ms, harm⟩⟩
    · exact .inr ⟨hactive, .inl ⟨_, harm⟩⟩
  · exact .inl ⟨hactive, if_pos hactive⟩

theorem fireTimer_cases (d : Deadline ρ) :
    d.fireTimer = d ∨ d.state ≠ .active ∧ d.fireTimer = d.retimed d.armedAt none ∨
      d.state = .active ∧ ∃ ms, d.fireTimer = (d.retimed d.armedAt none).expired ms := by
  unfold fireTimer
  split
  · split_ifs
    · by_cases hactive : d.state = .active
      · exact .inr (.inr ⟨hactive, _, fire_of_active (d := d.retimed d.armedAt none) hactive _⟩)
      · exact .inr (.inl ⟨hactive, fire_of_not_active (d := d.retimed d.armedAt none) hactive _⟩)
    · exact .inl rfl
  · exact .inl rfl

/-- Everything a run keeps. -/
structure Sound (d : Deadline ρ) : Prop where
  ledger : Ledger d
  clock : Clock d
  racing : Racing d

theorem Ledger.observe (h : Ledger d) (outcome : ρ) : Ledger (d.observeSettlement outcome) := by
  refine h.of_same ?_ ⟨rfl, rfl⟩ ⟨rfl, rfl, rfl⟩
  by_cases hactive : d.state = .active
  · simp [observeSettlement, hactive]
  · simp [observeSettlement, hactive]

theorem Ledger.queued (h : Ledger d) (queue : List (Job ρ)) : Ledger { d with queue } :=
  h.of_same Iff.rfl ⟨rfl, rfl⟩ ⟨rfl, rfl, rfl⟩

theorem Clock.queued (h : Clock d) (queue : List (Job ρ)) : Clock { d with queue } :=
  h.of_same ⟨rfl, rfl⟩ ⟨rfl, rfl, rfl⟩ ⟨rfl, rfl, rfl⟩

theorem Sound.microtask (h : Sound d) : Sound d.runMicrotask := by
  refine ⟨?_, ?_, h.racing.microtask⟩
  · unfold runMicrotask
    split
    · exact h.ledger
    · exact (h.ledger.queued _).observe _
    · exact h.ledger.queued _
    · exact h.ledger.of_same Iff.rfl ⟨rfl, rfl⟩ ⟨rfl, rfl, rfl⟩
  · unfold runMicrotask
    split
    · exact h.clock
    · exact (h.clock.queued _).observe _
    · exact h.clock.queued _
    · exact h.clock.of_same ⟨rfl, rfl⟩ ⟨rfl, rfl, rfl⟩ ⟨rfl, rfl, rfl⟩

theorem Sound.resetDeadline (h : Sound d) : Sound d.resetDeadline := by
  refine ⟨?_, h.clock.resetDeadline, ?_⟩
  · obtain ⟨-, hstep⟩ | ⟨hactive, ⟨timer, hstep⟩ | ⟨ms, hstep⟩⟩ := resetDeadline_cases h.clock <;>
      rw [hstep]
    · exact h.ledger
    · exact h.ledger.retimed _ _
    · exact h.ledger.expired_retimed hactive _ _ ms
  · obtain ⟨-, hstep⟩ | ⟨hactive, ⟨timer, hstep⟩ | ⟨ms, hstep⟩⟩ := resetDeadline_cases h.clock <;>
      rw [hstep]
    · exact h.racing
    · exact h.racing.retimed _ _
    · exact h.racing.expired_retimed hactive _ _ ms

theorem Sound.fireTimer (h : Sound d) : Sound d.fireTimer := by
  refine ⟨?_, h.clock.fireTimer, ?_⟩
  · obtain hstep | ⟨-, hstep⟩ | ⟨hactive, ms, hstep⟩ := fireTimer_cases d <;> rw [hstep]
    · exact h.ledger
    · exact h.ledger.retimed _ _
    · exact h.ledger.expired_retimed hactive _ _ ms
  · obtain hstep | ⟨-, hstep⟩ | ⟨hactive, ms, hstep⟩ := fireTimer_cases d <;> rw [hstep]
    · exact h.racing
    · exact h.racing.retimed _ _
    · exact h.racing.expired_retimed hactive _ _ ms

/-- A registration changes only the lists of cleanups and of labels. -/
theorem onTimeout_frame (registration : Registration) :
    ∃ cleanups early late registered ran, d.step (.onTimeout registration) =
      { d with cleanups, early, late, registered, ran } := by
  by_cases hstate : d.state = .timedOut
  · have hlate : (logRegistered { d with late := d.late ++ [registration] }
        registration.label).state = .timedOut := hstate
    rw [step, if_pos hstate, Deadline.onTimeout, if_pos hlate, runCleanup_eq hlate]
    exact ⟨_, _, _, _, _, rfl⟩
  · have hearly : (logRegistered { d with early := d.early ++ [registration] }
        registration.label).state ≠ .timedOut := hstate
    rw [step, if_neg hstate, Deadline.onTimeout, if_neg hearly]
    exact ⟨_, _, _, _, _, rfl⟩

theorem Sound.step (h : Sound d) (event : DeadlineEvent ρ) : Sound (d.step event) := by
  cases event with
  | onTimeout registration =>
    refine ⟨h.ledger.onTimeout registration, ?_, ?_⟩
    · obtain ⟨_, _, _, _, _, hstep⟩ := onTimeout_frame (d := d) registration
      rw [hstep]
      exact h.clock.of_same ⟨rfl, rfl⟩ ⟨rfl, rfl, rfl⟩ ⟨rfl, rfl, rfl⟩
    · obtain ⟨_, _, _, _, _, hstep⟩ := onTimeout_frame (d := d) registration
      rw [hstep]
      exact h.racing.of_same ⟨rfl, rfl⟩ ⟨rfl, rfl, rfl⟩
  | resetDeadline => exact h.resetDeadline
  | settle outcome =>
    refine ⟨?_, ?_, h.racing.settle outcome⟩
    · simp only [Deadline.step]
      split_ifs
      · exact h.ledger
      · exact h.ledger.of_same Iff.rfl ⟨rfl, rfl⟩ ⟨rfl, rfl, rfl⟩
    · simp only [Deadline.step]
      split_ifs
      · exact h.clock
      · exact h.clock.of_same ⟨rfl, rfl⟩ ⟨rfl, rfl, rfl⟩ ⟨rfl, rfl, rfl⟩
  | microtask => exact h.microtask
  | tick =>
    simp only [Deadline.step]
    split_ifs with htick
    · exact ⟨h.ledger.of_same Iff.rfl ⟨rfl, rfl⟩ ⟨rfl, rfl, rfl⟩, h.clock.tick htick.2,
        h.racing.of_same ⟨rfl, rfl⟩ ⟨rfl, rfl, rfl⟩⟩
    · exact h
  | timerFires =>
    simp only [Deadline.step]
    split_ifs
    · exact h.fireTimer
    · exact h

theorem sound_withDeadline (timeoutMs : ℕ) (totalTimeoutMs : Option ℕ) (startedAt : ℕ) :
    Sound (withDeadline timeoutMs totalTimeoutMs startedAt : Deadline ρ) := by
  let d : Deadline ρ :=
    { timeoutMs, totalTimeoutMs, startedAt, state := .active, cleanups := [], timer := none,
      now := startedAt, queue := [], outcome := none, returned := none, early := [], late := [],
      registered := [], ran := [], armedAt := startedAt, expiry := none }
  have hledger : Ledger d := ⟨fun _ => ⟨rfl, rfl, rfl, rfl⟩, nofun⟩
  have hracing : Racing d := ⟨fun _ => ⟨rfl, rfl⟩, nofun, nofun⟩
  have hbound : ∀ total ∈ d.totalTimeoutMs, d.now ≤ d.startedAt + total := fun total _ =>
    Nat.le_add_right _ _
  have hclock : Clock d.armTimer := Clock.armTimer rfl le_rfl hbound rfl
  obtain ⟨ms, ⟨-, harm⟩ | ⟨due, -, -, harm⟩⟩ := armTimer_cases (d := d) rfl le_rfl hbound
  · refine ⟨?_, hclock, ?_⟩ <;> rw [withDeadline, harm]
    · exact hledger.expired_retimed rfl startedAt none ms
    · exact hracing.expired_retimed rfl startedAt none ms
  · refine ⟨?_, hclock, ?_⟩ <;> rw [withDeadline, harm]
    · exact hledger.retimed startedAt (some ⟨due, ms⟩)
    · exact hracing.retimed startedAt (some ⟨due, ms⟩)

theorem Sound.run (h : Sound d) (events : List (DeadlineEvent ρ)) :
    Sound (run Deadline.step d events) :=
  run_invariant_of_step (fun _ event hd => hd.step event) h events

section Once

/-- An operation that is not active any more stays as it is. -/
theorem step_state (h : d.state ≠ .active) (event : DeadlineEvent ρ) :
    (d.step event).state = d.state := by
  cases event with
  | onTimeout registration =>
    obtain ⟨_, _, _, _, _, hstep⟩ := onTimeout_frame (d := d) registration
    rw [hstep]
  | resetDeadline => exact congrArg Deadline.state (if_pos h)
  | settle outcome =>
    simp only [step]
    split_ifs <;> rfl
  | microtask =>
    simp only [step, runMicrotask]
    split
    · rfl
    · exact if_neg h
    · rfl
    · rfl
  | tick =>
    simp only [step]
    split_ifs <;> rfl
  | timerFires =>
    simp only [step]
    split_ifs
    · obtain hstep | ⟨-, hstep⟩ | ⟨hactive, -⟩ := fireTimer_cases d
      · rw [hstep]
      · rw [hstep]
        rfl
      · exact absurd hactive h
    · rfl

theorem run_state (h : d.state ≠ .active) (events : List (DeadlineEvent ρ)) :
    (Runs.run Deadline.step d events).state = d.state := by
  induction events generalizing d with
  | nil => rfl
  | cons event events ih =>
    have hstep := step_state h event
    rw [run_cons, ih (hstep.symm ▸ h), hstep]

/-- The returned promise settles only once. -/
theorem step_returned (h : Clock d) {settlement : Settlement ρ}
    (hreturned : d.returned = some settlement) (event : DeadlineEvent ρ) :
    (d.step event).returned = some settlement := by
  cases event with
  | onTimeout registration =>
    obtain ⟨_, _, _, _, _, hstep⟩ := onTimeout_frame (d := d) registration
    rw [hstep]
    exact hreturned
  | resetDeadline =>
    rw [step]
    obtain ⟨-, hstep⟩ | ⟨-, ⟨timer, hstep⟩ | ⟨ms, hstep⟩⟩ := resetDeadline_cases h <;>
      rw [hstep] <;> exact hreturned
  | settle outcome =>
    simp only [step]
    split_ifs <;> exact hreturned
  | microtask =>
    simp only [step, runMicrotask]
    split
    · exact hreturned
    · exact hreturned
    · exact hreturned
    · rw [hreturned]
      rfl
  | tick =>
    simp only [step]
    split_ifs <;> exact hreturned
  | timerFires =>
    simp only [step]
    split_ifs
    · obtain hstep | ⟨-, hstep⟩ | ⟨-, ms, hstep⟩ := fireTimer_cases d <;> rw [hstep] <;>
        exact hreturned
    · exact hreturned

theorem run_returned (h : Sound d) {settlement : Settlement ρ}
    (hreturned : d.returned = some settlement) (events : List (DeadlineEvent ρ)) :
    (Runs.run Deadline.step d events).returned = some settlement := by
  induction events generalizing d with
  | nil => exact hreturned
  | cons event events ih => exact ih (h.step event) (step_returned h.clock hreturned event)

end Once

section Alone

/-- What the event loop does by itself. -/
def ofLoop : DeadlineEvent ρ → Bool
  | .microtask | .tick | .timerFires => true
  | _ => false

/-- How many microtasks are still to come. -/
def remaining (queue : List (Job ρ)) : ℕ :=
  (queue.map fun
    | .observe _ => 3
    | .forward _ => 2
    | .race _ => 1).sum

theorem remaining_microtask (h : d.queue ≠ []) :
    remaining d.runMicrotask.queue + 1 = remaining d.queue := by
  unfold runMicrotask
  split
  · rename_i hnil
    exact absurd hnil h
  all_goals
    rename_i hqueue
    simp only [observeSettlement, hqueue, remaining, List.map_append, List.map_cons, List.map_nil,
      List.sum_append, List.sum_cons, List.sum_nil]
    omega

theorem exists_drained (d : Deadline ρ) :
    ∃ events, (∀ event ∈ events, ofLoop event = true) ∧
      (Runs.run Deadline.step d events).queue = [] := by
  induction hremaining : remaining d.queue generalizing d with
  | zero =>
    refine ⟨[], nofun, ?_⟩
    by_contra hqueue
    have := remaining_microtask (d := d) hqueue
    omega
  | succ n ih =>
    have hqueue : d.queue ≠ [] := by
      intro hnil
      rw [hnil] at hremaining
      cases hremaining
    obtain ⟨events, hloop, hdrained⟩ := ih d.runMicrotask (by
      have := remaining_microtask hqueue
      omega)
    exact ⟨.microtask :: events, List.forall_mem_cons.mpr ⟨rfl, hloop⟩, hdrained⟩

/-- Once the microtasks have run, an operation that is not active has settled the promise. -/
theorem Sound.returned_of_drained (h : Sound d) (hqueue : d.queue = [])
    (hstate : d.state ≠ .active) : d.returned ≠ none := by
  cases hcase : d.state with
  | active => exact absurd hcase hstate
  | completed =>
    obtain ⟨outcome, -, ⟨-, hforward | hrace⟩ | ⟨hreturned, -⟩⟩ := h.racing.completed hcase
    · cases hforward.symm.trans hqueue
    · cases hrace.symm.trans hqueue
    · rw [hreturned]
      exact Option.some_ne_none _
  | timedOut =>
    obtain ⟨e, he⟩ := Option.isSome_iff_exists.mp (h.clock.timedOut.mp hcase)
    rcases h.racing.timedOut e he hcase with hreturned | ⟨-, hhead⟩
    · rw [hreturned]
      exact Option.some_ne_none _
    · rw [hqueue] at hhead
      cases hhead

/-- Left alone, the clock reaches the due time of the timer. -/
theorem run_ticks {timer : Timer} (hqueue : d.queue = []) (htimer : d.timer = some timer) (n : ℕ)
    (hdue : d.now + n = timer.due) :
    Runs.run Deadline.step d (List.replicate n .tick) = { d with now := timer.due } := by
  induction n generalizing d with
  | zero => simp [← hdue]
  | succ n ih =>
    have hstep : d.step .tick = { d with now := d.now + 1 } := by
      refine if_pos ⟨hqueue, fun timer' htimer' => ?_⟩
      obtain rfl := Option.some.inj (htimer.symm.trans htimer')
      omega
    have hnext : ({ d with now := d.now + 1 } : Deadline ρ).now + n = timer.due := by
      change d.now + 1 + n = timer.due
      omega
    rw [List.replicate_succ, run_cons, hstep]
    exact ih (d := { d with now := d.now + 1 }) hqueue htimer hnext

/-- With no microtask left, the timer of an active operation comes to fire. -/
theorem Sound.exists_ended (h : Sound d) (hqueue : d.queue = []) (hactive : d.state = .active) :
    ∃ events, (∀ event ∈ events, ofLoop event = true) ∧
      (Runs.run Deadline.step d events).state ≠ .active := by
  obtain ⟨timer, htimer, hnow, -⟩ := h.clock.armed hactive
  obtain ⟨n, hn⟩ := Nat.exists_eq_add_of_le hnow
  refine ⟨List.replicate n .tick ++ [.timerFires], ?_, ?_⟩
  · simp only [List.mem_append, List.mem_singleton, List.mem_replicate]
    rintro event (⟨-, rfl⟩ | rfl) <;> rfl
  · have hfires : Deadline.step { d with now := timer.due } .timerFires =
        fire { d with now := timer.due, timer := none } timer.expiredMs := by
      simp only [Deadline.step, hqueue, if_true, Deadline.fireTimer, htimer, le_refl]
    rw [run_append, run_ticks hqueue htimer n hn.symm, run_cons, run_nil, hfires,
      fire_of_active (d := { d with now := timer.due, timer := none }) hactive]
    rintro ⟨⟩

/-- If the operation does nothing more, the returned promise still settles. -/
theorem Sound.settles (h : Sound d) :
    ∃ events, (∀ event ∈ events, ofLoop event = true) ∧
      (Runs.run Deadline.step d events).returned ≠ none := by
  obtain ⟨first, hfirst, hdrained⟩ := exists_drained d
  have hsound := h.run first
  by_cases hactive : (Runs.run Deadline.step d first).state = .active
  · obtain ⟨middle, hmiddle, hended⟩ := hsound.exists_ended hdrained hactive
    obtain ⟨last, hlast, hlastdrained⟩ := exists_drained
      (Runs.run Deadline.step (Runs.run Deadline.step d first) middle)
    refine ⟨first ++ (middle ++ last), ?_, ?_⟩
    · exact List.forall_mem_append.mpr ⟨hfirst, List.forall_mem_append.mpr ⟨hmiddle, hlast⟩⟩
    · rw [run_append, run_append]
      refine Sound.returned_of_drained ((hsound.run middle).run last) hlastdrained ?_
      rw [run_state hended]
      exact hended
  · exact ⟨first, hfirst, hsound.returned_of_drained hdrained hactive⟩

end Alone

end Deadline

end NodeDeadline
