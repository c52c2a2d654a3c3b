import Mathlib.Data.List.Basic
import Mathlib.Data.List.Induction
import Mathlib.Data.Nat.Find
import Mathlib.Logic.Function.Iterate

/-! Runs of a system that takes one step for each action of a list, and the rule that
carries an invariant along a run whose steps are all allowed. -/
namespace Runs

section Runs
variable {σ α : Type*} (step : σ → α → σ)

def run (s : σ) (actions : List α) : σ := actions.foldl step s

/-- Every action is allowed in the state it is taken in. -/
def Allowed (allowed : σ → α → Prop) (s : σ) : List α → Prop
  | [] => True
  | a :: actions => allowed s a ∧ Allowed allowed (step s a) actions

instance decidableAllowed (allowed : σ → α → Prop) [∀ s a, Decidable (allowed s a)] (s : σ) :
    (actions : List α) → Decidable (Allowed step allowed s actions)
  | [] => .isTrue trivial
  | a :: actions =>
    have := decidableAllowed allowed (step s a) actions
    inferInstanceAs (Decidable (_ ∧ _))

variable {step}

@[simp] theorem run_nil (s : σ) : run step s [] = s := rfl

@[simp] theorem run_cons (s : σ) (a : α) (actions : List α) :
    run step s (a :: actions) = run step (step s a) actions := rfl

theorem run_append (s : σ) (first second : List α) :
    run step s (first ++ second) = run step (run step s first) second := List.foldl_append

/-- Every state an allowed run passes through is the end of an allowed run. -/
theorem Allowed.of_prefix {allowed : σ → α → Prop} {s : σ} {first actions : List α}
    (h : Allowed step allowed s actions) (hfirst : first <+: actions) :
    Allowed step allowed s first := by
  induction first generalizing s actions with
  | nil => trivial
  | cons a first ih =>
    obtain ⟨rest, rfl⟩ := hfirst
    exact ⟨h.1, ih h.2 (List.prefix_append _ _)⟩

theorem Allowed.imp {first second : σ → α → Prop} (himp : ∀ s a, first s a → second s a) {s : σ}
    {actions : List α} (h : Allowed step first s actions) : Allowed step second s actions := by
  induction actions generalizing s with
  | nil => trivial
  | cons a actions ih => exact ⟨himp s a h.1, ih h.2⟩

theorem Allowed.and {first second : σ → α → Prop} {s : σ} {actions : List α}
    (hfirst : Allowed step first s actions) (hsecond : Allowed step second s actions) :
    Allowed step (fun s a => first s a ∧ second s a) s actions := by
  induction actions generalizing s with
  | nil => trivial
  | cons a actions ih => exact ⟨⟨hfirst.1, hsecond.1⟩, ih hfirst.2 hsecond.2⟩

theorem allowed_of_forall {good : α → Prop} {actions : List α} (h : ∀ a ∈ actions, good a)
    (s : σ) : Allowed step (fun _ a => good a) s actions := by
  induction actions generalizing s with
  | nil => trivial
  | cons a actions ih =>
    obtain ⟨hgood, hrest⟩ := List.forall_mem_cons.mp h
    exact ⟨hgood, ih hrest (step s a)⟩

/-- What every allowed step preserves holds at the end of every allowed run. -/
theorem run_invariant {allowed : σ → α → Prop} {Inv : σ → Prop}
    (hstep : ∀ s a, Inv s → allowed s a → Inv (step s a)) {s : σ} (hinit : Inv s) :
    ∀ {actions : List α}, Allowed step allowed s actions → Inv (run step s actions) := by
  intro actions
  induction actions generalizing s with
  | nil => exact fun _ => hinit
  | cons a actions ih =>
    rintro ⟨hallowed, hrest⟩
    exact ih (hstep s a hinit hallowed) hrest

theorem run_invariant_of_step {Inv : σ → Prop} (hstep : ∀ s a, Inv s → Inv (step s a))
    {s : σ} (hinit : Inv s) (actions : List α) : Inv (run step s actions) := by
  induction actions generalizing s with
  | nil => exact hinit
  | cons a actions ih => exact ih (hstep s a hinit)

/-- The steps of a run, each with the run that leads to it. -/
theorem allowed_iff {allowed : σ → α → Prop} {s : σ} {actions : List α} :
    Allowed step allowed s actions ↔
      ∀ first a, first ++ [a] <+: actions → allowed (run step s first) a := by
  induction actions generalizing s with
  | nil =>
    refine ⟨fun _ first a hfirst => ?_, fun _ => trivial⟩
    exact absurd (List.prefix_nil.mp hfirst) (List.append_ne_nil_of_right_ne_nil first nofun)
  | cons b actions ih =>
    constructor
    · rintro ⟨hb, hrest⟩ first a hfirst
      cases first with
      | nil =>
        obtain ⟨rfl, -⟩ := List.cons_prefix_cons.mp hfirst
        exact hb
      | cons c first =>
        obtain ⟨rfl, htail⟩ := List.cons_prefix_cons.mp hfirst
        exact ih.mp hrest first a htail
    · intro h
      refine ⟨h [] b (List.prefix_append [b] actions), ih.mpr fun first a hfirst => ?_⟩
      exact h (b :: first) a (List.cons_prefix_cons.mpr ⟨rfl, hfirst⟩)

/-- A property holds in every state of a run if it does at the start and after every step. -/
theorem forall_run_iff {P : σ → Prop} {s : σ} {actions : List α} :
    (∀ first, first <+: actions → P (run step s first)) ↔
      P s ∧ ∀ first a, first ++ [a] <+: actions → P (step (run step s first) a) := by
  have hsnoc : ∀ first a, run step s (first ++ [a]) = step (run step s first) a :=
    fun first a => run_append s first [a]
  constructor
  · intro h
    exact ⟨h [] List.nil_prefix, fun first a hfirst => hsnoc first a ▸ h _ hfirst⟩
  · rintro ⟨hinit, hstep⟩ first hfirst
    rcases List.eq_nil_or_concat first with rfl | ⟨first, a, rfl⟩
    · exact hinit
    · rw [List.concat_eq_append] at hfirst ⊢
      exact (hsnoc first a).symm ▸ hstep first a hfirst

/-- Two conditions on steps that agree wherever an invariant holds allow the same runs. -/
theorem allowed_congr {allowed good : σ → α → Prop} {Inv : σ → Prop}
    (hiff : ∀ s a, Inv s → (allowed s a ↔ good s a))
    (hstep : ∀ s a, Inv s → good s a → Inv (step s a)) {s : σ} (hinit : Inv s)
    {actions : List α} : Allowed step allowed s actions ↔ Allowed step good s actions := by
  induction actions generalizing s with
  | nil => exact Iff.rfl
  | cons a actions ih =>
    constructor
    · rintro ⟨hallowed, hrest⟩
      have hgood := (hiff s a hinit).mp hallowed
      exact ⟨hgood, (ih (hstep s a hinit hgood)).mp hrest⟩
    · rintro ⟨hgood, hrest⟩
      exact ⟨(hiff s a hinit).mpr hgood, (ih (hstep s a hinit hgood)).mpr hrest⟩

/-- A property holds all along a run of allowed steps just when the steps are good ones, if a
good step is one after which it holds, and one that keeps what this is shown from. -/
theorem forall_run_iff_allowed {allowed good : σ → α → Prop} {I P : σ → Prop}
    (hinv : ∀ s, I s → P s)
    (hiff : ∀ s a, I s → allowed s a → (P (step s a) ↔ good s a))
    (hstep : ∀ s a, I s → allowed s a → good s a → I (step s a)) {s : σ} (hinit : I s)
    {actions : List α} (hallowed : Allowed step allowed s actions) :
    (∀ first, first <+: actions → P (run step s first)) ↔ Allowed step good s actions := by
  induction actions generalizing s with
  | nil =>
    refine iff_of_true (fun first hfirst => ?_) trivial
    rw [List.prefix_nil.mp hfirst]
    exact hinv s hinit
  | cons a actions ih =>
    obtain ⟨ha, hrest⟩ := hallowed
    constructor
    · intro h
      have hgood := (hiff s a hinit ha).mp
        (h [a] (List.cons_prefix_cons.mpr ⟨rfl, List.nil_prefix⟩))
      refine ⟨hgood, (ih (hstep s a hinit ha hgood) hrest).mp fun first hfirst => ?_⟩
      exact h (a :: first) (List.cons_prefix_cons.mpr ⟨rfl, hfirst⟩)
    · rintro ⟨hgood, hlater⟩ first hfirst
      cases first with
      | nil => exact hinv s hinit
      | cons b first =>
        obtain ⟨rfl, htail⟩ := List.cons_prefix_cons.mp hfirst
        exact (ih (hstep s b hinit ha hgood) hrest).mpr hlater first htail

/-- What holds at the end of a run and did not at its start goes back to one of its steps:
`origin s a t` says that what holds in `t` goes back to the step `a` taken in `s`. -/
theorem exists_origin {allowed : σ → α → Prop} {Inv P : σ → Prop} {origin : σ → α → σ → Prop}
    (hinv : ∀ s a, Inv s → allowed s a → Inv (step s a))
    (hstep : ∀ s a, Inv s → allowed s a → P (step s a) → origin s a (step s a) ∨
      P s ∧ ∀ t b, origin t b s → origin t b (step s a)) {s : σ} (hinit : Inv s) (hnot : ¬ P s)
    {actions : List α} (hallowed : Allowed step allowed s actions) (h : P (run step s actions)) :
    ∃ first a rest, actions = first ++ a :: rest ∧
      origin (run step s first) a (run step s actions) := by
  induction actions using List.reverseRecOn with
  | nil => exact absurd h hnot
  | append_singleton actions a ih =>
    have hbefore := hallowed.of_prefix (List.prefix_append actions [a])
    have ha := allowed_iff.mp hallowed actions a (List.prefix_refl _)
    have hend : run step s (actions ++ [a]) = step (run step s actions) a := run_append s actions [a]
    rw [hend] at h ⊢
    rcases hstep _ a (run_invariant hinv hinit hbefore) ha h with horigin | ⟨hP, hkept⟩
    · exact ⟨actions, a, [], rfl, horigin⟩
    · obtain ⟨first, b, rest, rfl, horigin⟩ := ih hbefore hP
      refine ⟨first, b, rest ++ [a], ?_, hkept _ b horigin⟩
      rw [List.append_assoc, List.cons_append]

end Runs
end Runs

/-! Runs of a system with one step in each state, and the rule that ends them: from every state
something is left behind after finitely many steps. -/
namespace EndedRuns

section Ended
variable {σ : Type*} {step : σ → σ}

theorem inv_iterate {Inv : σ → Prop} (hstep : ∀ s, Inv s → Inv (step s)) {s : σ} (h : Inv s) (n : ℕ) :
    Inv (step^[n] s) := by
  induction n with
  | zero => exact h
  | succ n ih =>
    rw [Function.iterate_succ_apply']
    exact hstep _ ih

/-- The measure need not fall at every step, only after some of them. -/
theorem exists_ended (Inv Ended : σ → Prop) (remaining : σ → ℕ) (hstep : ∀ s, Inv s → Inv (step s))
    (hprogress : ∀ s, Inv s → ¬ Ended s →
      ∃ n, Ended (step^[n] s) ∨ remaining (step^[n] s) < remaining s) {s : σ} (h : Inv s) :
    ∃ n, Ended (step^[n] s) := by
  induction hr : remaining s using Nat.strong_induction_on generalizing s with
  | _ r ih =>
    by_cases hended : Ended s
    · exact ⟨0, hended⟩
    · obtain ⟨n, hn | hn⟩ := hprogress s h hended
      · exact ⟨n, hn⟩
      · obtain ⟨m, hm⟩ := ih _ (hr ▸ hn) (inv_iterate hstep h n) rfl
        refine ⟨m + n, ?_⟩
        rwa [Function.iterate_add_apply]

/-- A system that waits while it must either waits for ever or gets to the first state in
which it need not. -/
theorem exists_first_not {Waits : σ → Prop} {wait : σ → σ}
    (hwait : ∀ s, Waits s → step s = wait s) (s : σ) :
    (∀ k, Waits (wait^[k] s)) ∨ ∃ k, step^[k] s = wait^[k] s ∧ ¬ Waits (wait^[k] s) := by
  classical
  by_cases hall : ∀ k, Waits (wait^[k] s)
  · exact .inl hall
  · have hex := not_forall.mp hall
    refine .inr ⟨Nat.find hex, ?_, Nat.find_spec hex⟩
    have hsame : ∀ k ≤ Nat.find hex, step^[k] s = wait^[k] s := by
      intro k
      induction k with
      | zero => exact fun _ => rfl
      | succ k ih =>
        intro hk
        have hwaits : Waits (wait^[k] s) := not_not.mp (Nat.find_min hex hk)
        rw [Function.iterate_succ_apply', Function.iterate_succ_apply',
          ih (Nat.le_of_succ_le hk), hwait _ hwaits]
    exact hsame _ (Nat.le_refl _)

end Ended

end EndedRuns

/-! Systems of several actors: a run is the order in which they take their steps, each when it
can. -/
namespace Interleavings
variable {σ α : Type*} (step : σ → α → Option σ)

/-- The state after a run, if each actor could take its step. -/
def run (s : σ) : List α → Option σ
  | [] => some s
  | a :: actors => (step s a).bind fun next => run next actors

/-- No actor can take a step. -/
def Stuck (s : σ) : Prop := ∀ a, step s a = none

variable {step} {Inv : σ → Prop} {s last : σ} {actors : List α}

/-- What every step preserves holds at the end of every run. -/
theorem run_invariant (hstep : ∀ s a next, Inv s → step s a = some next → Inv next)
    (hinit : Inv s) (h : run step s actors = some last) : Inv last := by
  induction actors generalizing s with
  | nil =>
    cases h
    exact hinit
  | cons a actors ih =>
    obtain ⟨next, hnext, hrest⟩ := Option.bind_eq_some_iff.mp h
    exact ih (hstep s a next hinit hnext) hrest

/-- A run is no longer than a measure that every step lowers. -/
theorem length_le_of_measure (μ : σ → ℕ)
    (hstep : ∀ s a next, Inv s → step s a = some next → Inv next)
    (hless : ∀ s a next, Inv s → step s a = some next → μ next < μ s)
    (hinit : Inv s) (h : run step s actors = some last) : actors.length + μ last ≤ μ s := by
  induction actors generalizing s with
  | nil =>
    cases h
    exact Nat.le_of_eq (Nat.zero_add _)
  | cons a actors ih =>
    obtain ⟨next, hnext, hrest⟩ := Option.bind_eq_some_iff.mp h
    have hlower := hless s a next hinit hnext
    have hlater := ih (hstep s a next hinit hnext) hrest
    rw [List.length_cons]
    omega

end Interleavings
