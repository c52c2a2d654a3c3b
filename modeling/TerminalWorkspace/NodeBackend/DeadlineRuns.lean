import TerminalWorkspace.NodeBackend.Deadline

/-! What every run of `withDeadline` keeps: which cleanups have run, when the timer is due, and
what the returned promise settles with. -/
namespace NodeDeadline
open Runs

/-- The labels a cleanup registers, and those of the cleanups it registers, in order. -/
def Cleanup.labels : Cleanup → List ℕ
  | .returns | .throws => []
  | .onTimeout label cleanup rest => label :: (cleanup.labels ++ rest.labels)

/-- The labels that run when a registration does. -/
def Registration.labels (registration : Registration) : List ℕ :=
  registration.label :: registration.cleanup.labels

variable {ρ : Type}

namespace Deadline
variable {d : Deadline ρ}

section Cleanups

/-- More labels are registered and run. -/
def logged (d : Deadline ρ) (registered ran : List ℕ) : Deadline ρ :=
  { d with registered := d.registered ++ registered, ran := d.ran ++ ran }

theorem logged_logged (registered ran registered' ran' : List ℕ) :
    (d.logged registered ran).logged registered' ran' =
      d.logged (registered ++ registered') (ran ++ ran') := by
  simp [logged]

/-- After the expiry a cleanup runs, and so does whatever it registers. -/
theorem call_fst (h : d.state = .timedOut) (cleanup : Cleanup) :
    (call cleanup d).1 = d.logged cleanup.labels cleanup.labels := by
  induction cleanup generalizing d with
  | returns => simp [call, Cleanup.labels, logged]
  | throws => simp [call, Cleanup.labels, logged]
  | onTimeout label cleanup rest ihcleanup ihrest =>
    have hstate : (d.logRegistered label).state = .timedOut := h
    have hlog : (d.logRegistered label).logRun label = d.logged [label] [label] := rfl
    have hran : (d.logged [label] [label]).state = .timedOut := h
    have hrest : ((d.logged [label] [label]).logged cleanup.labels cleanup.labels).state =
      .timedOut := h
    rw [call, if_pos hstate, hlog, ihcleanup hran, ihrest hrest, logged_logged, logged_logged]
    simp [Cleanup.labels]

theorem runCleanup_eq (h : d.state = .timedOut) (registration : Registration) :
    d.runCleanup registration = d.logged registration.cleanup.labels registration.labels := by
  have hran : (d.logRun registration.label).state = .timedOut := h
  rw [runCleanup, call_fst hran]
  simp [logRun, logged, Registration.labels]

theorem foldl_runCleanup (h : d.state = .timedOut) (registrations : List Registration) :
    registrations.foldl runCleanup d =
      d.logged (registrations.flatMap (·.cleanup.labels))
        (registrations.flatMap Registration.labels) := by
  induction registrations generalizing d with
  | nil => simp [logged]
  | cons registration registrations ih =>
    have hstate : (d.logged registration.cleanup.labels registration.labels).state = .timedOut := h
    rw [List.foldl_cons, runCleanup_eq h, ih hstate, logged_logged]
    rfl

/-- The state right after an expiry. -/
def expired (d : Deadline ρ) (expiredMs : ℕ) : Deadline ρ :=
  { d with
    state := .timedOut
    cleanups := d.cleanups.reverse
    expiry := some ⟨d.now, expiredMs⟩
    registered := d.registered ++ d.cleanups.reverse.flatMap (·.cleanup.labels)
    ran := d.ran ++ d.cleanups.reverse.flatMap Registration.labels
    queue := d.queue ++ [.race (.timeout (operationTimeoutError expiredMs))] }

theorem fire_of_active (h : d.state = .active) (expiredMs : ℕ) :
    d.fire expiredMs = d.expired expiredMs := by
  rw [fire, if_neg (not_not.mpr h)]
  simp only [foldl_runCleanup, logged, expired]

theorem fire_of_not_active (h : d.state ≠ .active) (expiredMs : ℕ) : d.fire expiredMs = d :=
  if_pos h

/-- The cleanups run are, after an expiry, those registered before it in reverse order, then
those registered after it, each followed by those it registers; before an expiry none. -/
structure Ledger (d : Deadline ρ) : Prop where
  untimed : d.state ≠ .timedOut →
    d.ran = [] ∧ d.cleanups = d.early ∧ d.late = [] ∧ d.registered = d.early.map (·.label)
  timedOut : d.state = .timedOut →
    d.ran = (d.early.reverse ++ d.late).flatMap Registration.labels ∧ d.ran.Perm d.registered

theorem perm_flatMap_labels (registrations : List Registration) :
    (registrations.flatMap Registration.labels).Perm
      (registrations.map (·.label) ++ registrations.flatMap (·.cleanup.labels)) := by
  induction registrations with
  | nil => exact .nil
  | cons registration registrations ih =>
    rw [List.flatMap_cons, List.map_cons, List.flatMap_cons, Registration.labels, List.cons_append,
      List.cons_append]
    refine (((List.Perm.refl _).append ih).trans ?_).cons _
    rw [← List.append_assoc, ← List.append_assoc]
    exact List.perm_append_comm.append_right _

theorem Ledger.expired (h : Ledger d) (hactive : d.state = .active) (expiredMs : ℕ) :
    Ledger (d.expired expiredMs) := by
  obtain ⟨hran, hcleanups, hlate, hregistered⟩ := h.untimed (hactive ▸ nofun)
  refine ⟨fun hne => absurd rfl hne, fun _ => ⟨?_, ?_⟩⟩
  · simp [Deadline.expired, hran, hcleanups, hlate]
  · simp only [Deadline.expired, hran, hregistered, hcleanups, List.nil_append]
    refine (perm_flatMap_labels _).trans (List.Perm.append_right _ ?_)
    exact (List.reverse_perm _).map _

/-- A step that registers and runs nothing. -/
theorem Ledger.of_same {d' : Deadline ρ} (h : Ledger d)
    (hstate : d'.state = .timedOut ↔ d.state = .timedOut)
    (hruns : d'.ran = d.ran ∧ d'.registered = d.registered)
    (hlists : d'.cleanups = d.cleanups ∧ d'.early = d.early ∧ d'.late = d.late) : Ledger d' := by
  obtain ⟨hran, hregistered⟩ := hruns
  obtain ⟨hcleanups, hearly, hlate⟩ := hlists
  constructor
  · rw [ne_eq, hstate, hran, hregistered, hcleanups, hearly, hlate]
    exact h.untimed
  · rw [hstate, hran, hregistered, hearly, hlate]
    exact h.timedOut

theorem Ledger.onTimeout (h : Ledger d) (registration : Registration) :
    Ledger (d.step (.onTimeout registration)) := by
  by_cases hstate : d.state = .timedOut
  · obtain ⟨hran, hperm⟩ := h.timedOut hstate
    have hlate : (logRegistered { d with late := d.late ++ [registration] }
        registration.label).state = .timedOut := hstate
    rw [step, if_pos hstate, Deadline.onTimeout, if_pos hlate, runCleanup_eq hlate]
    refine ⟨fun hne => absurd hstate hne, fun _ => ⟨?_, ?_⟩⟩
    · simp [logged, logRegistered, hran]
    · simp only [logged, logRegistered, List.append_assoc]
      exact hperm.append (.refl _)
  · obtain ⟨hran, hcleanups, hlate, hregistered⟩ := h.untimed hstate
    have hearly : (logRegistered { d with early := d.early ++ [registration] }
        registration.label).state ≠ .timedOut := hstate
    rw [step, if_neg hstate, Deadline.onTimeout, if_neg hearly]
    refine ⟨fun _ => ⟨hran, ?_, hlate, ?_⟩, fun htimed => absurd htimed hstate⟩
    · simp [push, logRegistered, hcleanups]
    · simp [push, logRegistered, hregistered]

end Cleanups

section Clock

/-- At `time` the budget `ms` runs out, and the total one does not run out before. -/
def Due (d : Deadline ρ) (time ms : ℕ) : Prop :=
  (ms = d.timeoutMs ∧ time = d.armedAt + d.timeoutMs ∨
    d.totalTimeoutMs = some ms ∧ time = d.startedAt + ms) ∧
  ∀ total ∈ d.totalTimeoutMs, time ≤ d.startedAt + total

/-- While the operation is active the timer is armed; an expiry came when its budget ran out. -/
structure Clock (d : Deadline ρ) : Prop where
  started : d.startedAt ≤ d.now
  armed : d.state = .active → ∃ timer, d.timer = some timer ∧ d.now ≤ timer.due ∧
    Due d timer.due timer.expiredMs
  expiry : ∀ e ∈ d.expiry, Due d e.time e.timeoutMs
  timedOut : d.state = .timedOut ↔ d.expiry.isSome

theorem Clock.expiry_none (h : Clock d) (hstate : d.state ≠ .timedOut) : d.expiry = none := by
  rw [ne_eq, h.timedOut] at hstate
  exact Option.not_isSome_iff_eq_none.mp hstate

theorem armTimer_of_none (h : d.totalTimeoutMs = none) :
    d.armTimer = setTimer { d with armedAt := d.now } d.timeoutMs d.timeoutMs := by
  cases d
  cases h
  rfl

theorem armTimer_of_some {total : ℕ} (h : d.totalTimeoutMs = some total) :
    d.armTimer =
      if total - (d.now - d.startedAt) = 0 then fire { d with armedAt := d.now } total
      else if total - (d.now - d.startedAt) < d.timeoutMs then
        setTimer { d with armedAt := d.now } (total - (d.now - d.startedAt)) total
      else setTimer { d with armedAt := d.now } d.timeoutMs d.timeoutMs := by
  cases d
  cases h
  rfl

/-- Arming the timer of an active operation: it expires at once, or the timer is set. -/
theorem armTimer_cases (h : d.state = .active) (hstarted : d.startedAt ≤ d.now)
    (hbound : ∀ total ∈ d.totalTimeoutMs, d.now ≤ d.startedAt + total) :
    ∃ ms, (Due { d with armedAt := d.now } d.now ms ∧
        d.armTimer = expired { d with armedAt := d.now } ms) ∨
      ∃ due, d.now ≤ due ∧ Due { d with armedAt := d.now } due ms ∧
        d.armTimer = { d with armedAt := d.now, timer := some ⟨due, ms⟩ } := by
  have hactive : ({ d with armedAt := d.now } : Deadline ρ).state = .active := h
  obtain htotal | ⟨total, htotal⟩ := Option.eq_none_or_eq_some d.totalTimeoutMs
  · refine ⟨d.timeoutMs,
      .inr ⟨d.now + d.timeoutMs, Nat.le_add_right _ _, ⟨.inl ⟨rfl, rfl⟩, ?_⟩, ?_⟩⟩
    · intro total htotal'
      exact absurd (htotal.symm.trans htotal') (Option.some_ne_none total).symm
    · exact armTimer_of_none htotal
  · have honly : ∀ other ∈ d.totalTimeoutMs, other = total := fun other hother =>
      Option.some.inj (hother.symm.trans htotal)
    have hnow := hbound total htotal
    rw [armTimer_of_some htotal]
    split_ifs with hspent hless
    · refine ⟨total, .inl ⟨⟨.inr ⟨htotal, ?_⟩, hbound⟩, ?_⟩⟩
      · change d.now = d.startedAt + total
        omega
      · exact fire_of_active hactive total
    · refine ⟨total, .inr ⟨_, Nat.le_add_right _ _, ⟨.inr ⟨htotal, ?_⟩, ?_⟩, rfl⟩⟩
      · change d.now + (total - (d.now - d.startedAt)) = d.startedAt + total
        omega
      · intro other hother
        rw [honly other hother]
        change d.now + (total - (d.now - d.startedAt)) ≤ d.startedAt + total
        omega
    · refine ⟨d.timeoutMs, .inr ⟨_, Nat.le_add_right _ d.timeoutMs, ⟨.inl ⟨rfl, rfl⟩, ?_⟩, rfl⟩⟩
      · intro other hother
        rw [honly other hother]
        change d.now + d.timeoutMs ≤ d.startedAt + total
        omega

theorem Clock.expired (hstarted : d.startedAt ≤ d.now) {ms : ℕ} (hdue : Due d d.now ms) :
    Clock (d.expired ms) := by
  refine ⟨hstarted, nofun, ?_, ⟨fun _ => rfl, fun _ => rfl⟩⟩
  rintro e ⟨⟩
  exact hdue

theorem Clock.armTimer (h : d.state = .active) (hstarted : d.startedAt ≤ d.now)
    (hbound : ∀ total ∈ d.totalTimeoutMs, d.now ≤ d.startedAt + total) (hnone : d.expiry = none) :
    Clock d.armTimer := by
  obtain ⟨ms, ⟨hdue, harm⟩ | ⟨due, hnow, hdue, harm⟩⟩ := armTimer_cases h hstarted hbound
  · rw [harm]
    exact Clock.expired (d := { d with armedAt := d.now }) hstarted hdue
  · rw [harm]
    refine ⟨hstarted, fun _ => ⟨⟨due, ms⟩, rfl, hnow, hdue⟩, ?_, ?_⟩
    · intro e he
      exact absurd (hnone.symm.trans he) (Option.some_ne_none e).symm
    · simp [h, hnone]

/-- A step that leaves the budgets, the clock, the timer and the state alone. -/
theorem Clock.of_same {d' : Deadline ρ} (h : Clock d)
    (hbudgets : d'.timeoutMs = d.timeoutMs ∧ d'.totalTimeoutMs = d.totalTimeoutMs)
    (htimes : d'.startedAt = d.startedAt ∧ d'.now = d.now ∧ d'.armedAt = d.armedAt)
    (hstate : d'.state = d.state ∧ d'.timer = d.timer ∧ d'.expiry = d.expiry) : Clock d' := by
  obtain ⟨htimeout, htotal⟩ := hbudgets
  obtain ⟨hstarted, hnow, harmed⟩ := htimes
  obtain ⟨hstate, htimer, hexpiry⟩ := hstate
  have hdue (time ms : ℕ) : Due d' time ms ↔ Due d time ms := by
    unfold Due
    rw [htimeout, htotal, hstarted, harmed]
  constructor
  · rw [hstarted, hnow]
    exact h.started
  · simp only [hstate, htimer, hnow, hdue]
    exact h.armed
  · simp only [hexpiry, hdue]
    exact h.expiry
  · rw [hstate, hexpiry]
    exact h.timedOut

/-- Time goes on, but not past the timer. -/
theorem Clock.tick (h : Clock d) (htimer : ∀ timer ∈ d.timer, d.now < timer.due) :
    Clock { d with now := d.now + 1 } := by
  refine ⟨Nat.le_succ_of_le h.started, fun hactive => ?_, h.expiry, h.timedOut⟩
  obtain ⟨timer, hset, -, hdue⟩ := h.armed hactive
  exact ⟨timer, hset, htimer timer hset, hdue⟩

/-- A settlement that is observed stops the timer. -/
theorem Clock.observe (h : Clock d) (outcome : ρ) : Clock (d.observeSettlement outcome) := by
  unfold observeSettlement
  by_cases hactive : d.state = .active
  · rw [if_pos hactive]
    refine ⟨h.started, nofun, h.expiry, ⟨nofun, fun hsome => ?_⟩⟩
    rw [h.expiry_none (hactive ▸ nofun)] at hsome
    cases hsome
  · rw [if_neg hactive]
    exact ⟨h.started, fun hagain => absurd hagain hactive, h.expiry, h.timedOut⟩

theorem Clock.resetDeadline (h : Clock d) : Clock d.resetDeadline := by
  unfold Deadline.resetDeadline
  split_ifs with hactive
  · exact h
  · rw [not_not] at hactive
    obtain ⟨timer, -, hnow, -, htotal⟩ := h.armed hactive
    exact Clock.armTimer hactive h.started (fun total hsome => hnow.trans (htotal total hsome))
      (h.expiry_none (hactive ▸ nofun))

/-- The timer fires at its due time. -/
theorem Clock.fireTimer (h : Clock d) : Clock d.fireTimer := by
  unfold Deadline.fireTimer
  split
  · rename_i timer htimer
    split_ifs with hdue
    · by_cases hactive : d.state = .active
      · obtain ⟨timer', htimer', hnow, hbudget⟩ := h.armed hactive
        obtain rfl := Option.some.inj (htimer.symm.trans htimer')
        rw [← le_antisymm hnow hdue] at hbudget
        have hstill : ({ d with timer := none } : Deadline ρ).state = .active := hactive
        rw [fire_of_active hstill]
        exact Clock.expired (d := { d with timer := none }) h.started hbudget
      · have hstill : ({ d with timer := none } : Deadline ρ).state ≠ .active := hactive
        rw [fire_of_not_active hstill]
        exact ⟨h.started, fun hagain => absurd hagain hactive, h.expiry, h.timedOut⟩
    · exact h
  · exact h

end Clock

section Race

/-- The settlements that reach the race, in order. -/
def races (queue : List (Job ρ)) : List (Settlement ρ) :=
  queue.filterMap fun
    | .race settlement => some settlement
    | _ => none

theorem races_append (first second : List (Job ρ)) :
    races (first ++ second) = races first ++ races second := List.filterMap_append

/-- The returned promise settles with what the state says: with nothing while the operation is
active, with its outcome once that was observed, with the timeout after an expiry. -/
structure Racing (d : Deadline ρ) : Prop where
  active : d.state = .active →
    d.returned = none ∧ d.queue = (d.outcome.map Job.observe).toList
  completed : d.state = .completed → ∃ outcome, d.outcome = some outcome ∧
    (d.returned = none ∧
        (d.queue = [.forward outcome] ∨ d.queue = [.race (.operation outcome)]) ∨
      d.returned = some (.operation outcome) ∧ d.queue = [])
  timedOut : ∀ e ∈ d.expiry, d.state = .timedOut →
    d.returned = some (.timeout (operationTimeoutError e.timeoutMs)) ∨
      d.returned = none ∧
        (races d.queue).head? = some (.timeout (operationTimeoutError e.timeoutMs))

theorem Racing.of_same {d' : Deadline ρ} (h : Racing d)
    (hstate : d'.state = d.state ∧ d'.expiry = d.expiry)
    (hqueue : d'.queue = d.queue ∧ d'.outcome = d.outcome ∧ d'.returned = d.returned) :
    Racing d' := by
  obtain ⟨hstate, hexpiry⟩ := hstate
  obtain ⟨hqueue, houtcome, hreturned⟩ := hqueue
  constructor
  · rw [hstate, hreturned, hqueue, houtcome]
    exact h.active
  · rw [hstate, hreturned, hqueue, houtcome]
    exact h.completed
  · rw [hstate, hexpiry, hreturned, hqueue]
    exact h.timedOut

theorem Racing.expired (h : Racing d) (hactive : d.state = .active) (ms : ℕ) :
    Racing (d.expired ms) := by
  obtain ⟨hreturned, hqueue⟩ := h.active hactive
  refine ⟨nofun, nofun, ?_⟩
  rintro e ⟨⟩ -
  refine .inr ⟨hreturned, ?_⟩
  have hnone : races d.queue = [] := by
    rw [hqueue]
    cases d.outcome <;> rfl
  simp only [Deadline.expired, races_append, hnone]
  rfl

/-- An operation that settles is observed behind whatever is already on its way. -/
theorem Racing.settle (h : Racing d) (outcome : ρ) : Racing (d.step (.settle outcome)) := by
  simp only [step]
  split_ifs with hsettled
  · exact h
  · rw [Option.not_isSome_iff_eq_none] at hsettled
    refine ⟨fun hactive => ?_, fun hcompleted => ?_, fun e he htimed => ?_⟩
    · obtain ⟨hreturned, hqueue⟩ := h.active hactive
      refine ⟨hreturned, ?_⟩
      rw [hsettled] at hqueue
      simp [hqueue]
    · obtain ⟨other, hother, -⟩ := h.completed hcompleted
      exact absurd (hsettled.symm.trans hother) (Option.some_ne_none other).symm
    · refine (h.timedOut e he htimed).imp_right (And.imp_right fun hhead => ?_)
      change (races (d.queue ++ [.observe outcome])).head? = _
      rw [races_append, List.head?_append, hhead]
      rfl

/-- While the operation is active, only its settlement waits to be observed. -/
theorem Racing.not_active (h : Racing d) {job : Job ρ} {queue : List (Job ρ)}
    (hqueue : d.queue = job :: queue) (hjob : ∀ outcome, job ≠ .observe outcome) :
    d.state ≠ .active := by
  intro hactive
  obtain ⟨-, hactual⟩ := h.active hactive
  rw [hqueue] at hactual
  cases hoption : d.outcome with
  | none =>
    rw [hoption] at hactual
    cases hactual
  | some outcome =>
    rw [hoption] at hactual
    exact hjob outcome (List.cons.inj hactual).1

/-- A timeout that is first to reach the race stays first when a job that does not race is done
and another comes behind. -/
theorem head_races {job last : Job ρ} {queue : List (Job ρ)} {first : Settlement ρ}
    (hqueue : d.queue = job :: queue) (hjob : races [job] = [])
    (hhead : (races d.queue).head? = some first) :
    (races (queue ++ [last])).head? = some first := by
  rw [hqueue, ← List.singleton_append, races_append, hjob, List.nil_append] at hhead
  rw [races_append, List.head?_append, hhead]
  rfl

/-- The handler of `finally` decides the state, unless the deadline has. -/
theorem Racing.observe (h : Racing d) {outcome : ρ} {queue : List (Job ρ)}
    (hqueue : d.queue = .observe outcome :: queue) :
    Racing (observeSettlement { d with queue } outcome) := by
  by_cases hactive : d.state = .active
  · obtain ⟨hreturned, hactual⟩ := h.active hactive
    obtain ⟨o, ho⟩ : ∃ o, d.outcome = some o := by
      by_contra hnone
      rw [← Option.isSome_iff_exists, Option.not_isSome_iff_eq_none] at hnone
      rw [hqueue, hnone] at hactual
      cases hactual
    rw [hqueue, ho] at hactual
    obtain ⟨rfl, rfl⟩ : outcome = o ∧ queue = [] := by simpa using hactual
    simp only [observeSettlement, if_pos hactive]
    exact ⟨nofun, fun _ => ⟨outcome, ho, .inl ⟨hreturned, .inl rfl⟩⟩, nofun⟩
  · simp only [observeSettlement, if_neg hactive]
    refine ⟨fun hagain => absurd hagain hactive, fun hcompleted => ?_, fun e he htimed => ?_⟩
    · obtain ⟨o, -, ⟨-, hforward | hrace⟩ | ⟨-, hnil⟩⟩ := h.completed hcompleted
      · cases hforward.symm.trans hqueue
      · cases hrace.symm.trans hqueue
      · cases hnil.symm.trans hqueue
    · exact (h.timedOut e he htimed).imp_right (And.imp_right (head_races hqueue rfl))

/-- The promise of `finally` settles and comes to the race, behind a timeout that is there. -/
theorem Racing.forward (h : Racing d) {outcome : ρ} {queue : List (Job ρ)}
    (hqueue : d.queue = .forward outcome :: queue) :
    Racing { d with queue := queue ++ [.race (.operation outcome)] } := by
  refine ⟨fun hactive => absurd hactive (h.not_active hqueue nofun), fun hcompleted => ?_,
    fun e he htimed => ?_⟩
  · obtain ⟨o, ho, ⟨hreturned, hforward | hrace⟩ | ⟨-, hnil⟩⟩ := h.completed hcompleted
    · cases hforward.symm.trans hqueue
      exact ⟨outcome, ho, .inl ⟨hreturned, .inr rfl⟩⟩
    · cases hrace.symm.trans hqueue
    · cases hnil.symm.trans hqueue
  · exact (h.timedOut e he htimed).imp_right (And.imp_right (head_races hqueue rfl))

/-- The first settlement to reach the race is that of the returned promise. -/
theorem Racing.race (h : Racing d) {settlement : Settlement ρ} {queue : List (Job ρ)}
    (hqueue : d.queue = .race settlement :: queue) :
    Racing { d with queue, returned := d.returned.or (some settlement) } := by
  refine ⟨fun hactive => absurd hactive (h.not_active hqueue nofun), fun hcompleted => ?_,
    fun e he htimed => ?_⟩
  · obtain ⟨o, ho, ⟨hreturned, hforward | hrace⟩ | ⟨-, hnil⟩⟩ := h.completed hcompleted
    · cases hforward.symm.trans hqueue
    · cases hrace.symm.trans hqueue
      refine ⟨o, ho, .inr ⟨?_, rfl⟩⟩
      rw [hreturned]
      rfl
    · cases hnil.symm.trans hqueue
  · refine .inl ?_
    rcases h.timedOut e he htimed with hreturned | ⟨hreturned, hhead⟩
    · change d.returned.or (some settlement) = _
      rw [hreturned]
      rfl
    · have hfirst : (races d.queue).head? = some settlement := by
        rw [hqueue]
        rfl
      change d.returned.or (some settlement) = _
      rw [hreturned, ← hhead, hfirst]
      rfl

theorem Racing.microtask (h : Racing d) : Racing d.runMicrotask := by
  unfold runMicrotask
  split
  · exact h
  · rename_i hqueue
    exact h.observe hqueue
  · rename_i hqueue
    exact h.forward hqueue
  · rename_i hqueue
    exact h.race hqueue

end Race
end Deadline
end NodeDeadline
