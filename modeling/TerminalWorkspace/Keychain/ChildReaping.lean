import TerminalWorkspace.Keychain.ChildOwnership

/-! Every step keeps the children that were handed over, whatever the order of the steps. -/
namespace Keychain
open Interleavings

section Custody
variable {ι : Type*} [DecidableEq ι] {s s' : Cleanups ι}

theorem custody_initial : Custody (initialCleanups : Cleanups ι) where
  own _ _ h := absurd h List.not_mem_nil
  reply _ _ h := absurd h List.not_mem_nil
  conserved _ := rfl
  bounded := Nat.zero_le _
  working _ _ := rfl

theorem count_handles_of_other {i c : ι} {sent : List (SecurityCleanupQuarantineItem ι)}
    (h : ∀ child call, .child child call ∈ sent → child = i ∧ call = i) (hne : c ≠ i) :
    (sent.filterMap SecurityCleanupQuarantineItem.handle).count c = 0 := by
  refine List.count_eq_zero_of_not_mem fun hmem => ?_
  obtain ⟨item, hitem, hhandle⟩ := List.mem_filterMap.mp hmem
  cases item with
  | child held call =>
    obtain rfl := Option.some.inj hhandle
    exact hne (h _ call hitem).1
  | outputReader call stream => cases hhandle

theorem Custody.call (h : Custody s) {i : ι} {move : CallMove} {next : CallStep ι}
    (hnext : callStep i (s.calls i) move = some next) :
    Custody { s.setCall i next.call with
      inbox := s.inbox ++ next.sent, log := s.log ++ next.entries } := by
  have hkeeps := callStep_keepsHandles (h.own i) (h.working i) hnext
  have hcalls : ∀ j, j ≠ i → (s.setCall i next.call).calls j = s.calls j :=
    fun j hne => Function.update_of_ne hne _ _
  have hself : (s.setCall i next.call).calls i = next.call := Function.update_self _ _ _
  refine ⟨fun call child hheld => ?_, fun child call hitem => ?_, fun child => ?_, h.bounded,
    fun call hworking => ?_⟩
  · by_cases hcall : call = i
    · subst hcall
      exact hkeeps.own child (hself ▸ hheld)
    · exact h.own call child (hcalls call hcall ▸ hheld)
  · rcases List.mem_append.mp hitem with hold | hsent
    · exact h.reply child call hold
    · obtain ⟨rfl, rfl⟩ := hkeeps.sent child call hsent
      rfl
  · have hbefore := h.conserved child
    simp only [Cleanups.quarantined, List.filterMap_append, List.count_append, endings_append]
      at hbefore ⊢
    by_cases hchild : child = i
    · subst hchild
      have hstep := hkeeps.conserved
      have hchildren : (s.setCall child next.call).children = s.children := rfl
      rw [hself, hchildren]
      omega
    · have hsent := count_handles_of_other hkeeps.sent hchild
      have hentries : endings next.entries child = 0 := by
        refine endings_eq_zero fun entry hentry heq => hchild ?_
        exact heq ▸ h.own i _ (hkeeps.entries entry hentry)
      have hchildren : (s.setCall i next.call).children = s.children := rfl
      rw [hcalls child hchild, hsent, hentries, hchildren]
      omega
  · by_cases hcall : call = i
    · subst hcall
      exact absurd (hself ▸ hworking) hkeeps.notWorking
    · change (s.setCall i next.call).calls call = startedCall
      rw [hcalls call hcall]
      exact h.working call (hcalls call hcall ▸ hworking)

/-- The answer that a reaper thread waits for is all that changes. -/
theorem setRetained_calls (s : Cleanups ι) (i j : ι) (answer : Option Bool) :
    ∃ retained, (s.setCall i { s.calls i with retained := answer }).calls j =
      { s.calls j with retained := retained } := by
  by_cases hj : j = i
  · subst hj
    exact ⟨answer, Function.update_self _ _ _⟩
  · exact ⟨(s.calls j).retained, Function.update_of_ne hj _ _⟩

theorem Custody.not_working (h : Custody s) {child : ι} (hmem : child ∈ s.quarantined) :
    (s.calls child).caller ≠ .working := by
  intro hworking
  have hconserved := h.conserved child
  have hcount := List.count_pos_iff.mpr hmem
  rw [h.working child hworking] at hconserved
  have hnone : (startedCall : Cleanup ι).handedOver = false := rfl
  rw [hnone] at hconserved
  simp only [Bool.false_eq_true, if_false] at hconserved
  omega

theorem Custody.receives (h : Custody s) {answers : SweepAnswers ι}
    (hstep : step s (.quarantineReceives answers) = some s') : Custody s' := by
  simp only [step] at hstep
  split at hstep
  · cases hstep
  · next child retained inbox hinbox =>
    obtain rfl := Option.some.inj hstep
    obtain ⟨hcounted, -, hbounded, -, -⟩ :=
      pushChild_pushes answers.waits answers.kills s.children child
    generalize pushChild answers.waits answers.kills s.children child = pushed at hcounted hbounded
    have hcalls := fun call => setRetained_calls s retained call (some pushed.2.1)
    obtain rfl := h.reply child retained (hinbox ▸ List.mem_cons_self)
    refine ⟨fun call other hheld => ?_, fun other call hitem => ?_, fun other => ?_,
      hbounded h.bounded, fun call hworking => ?_⟩
    · obtain ⟨x, hx⟩ := hcalls call
      change other ∈ Cleanup.held (Cleanups.calls (s.setCall child _) call) at hheld
      rw [hx] at hheld
      exact h.own call other hheld
    · exact h.reply other call (hinbox ▸ List.mem_cons_of_mem _ hitem)
    · obtain ⟨x, hx⟩ := hcalls other
      have hbefore := h.conserved other
      have hadd := hcounted other
      change (Cleanups.calls (s.setCall child _) other).held.count other + _ + _ =
        if (Cleanups.calls (s.setCall child _) other).handedOver = true then 1 else 0
      rw [hx]
      change (s.calls other).held.count other + _ + _ = if (s.calls other).handedOver then 1 else 0
      have hhandles : s.inbox.filterMap SecurityCleanupQuarantineItem.handle =
          child :: inbox.filterMap SecurityCleanupQuarantineItem.handle := by
        rw [hinbox]
        rfl
      simp only [Cleanups.quarantined, hhandles, List.count_append, endings_append, List.count_cons,
        beq_iff_eq] at hbefore ⊢
      omega
    · obtain ⟨x, hx⟩ := hcalls call
      change (Cleanups.calls (s.setCall child _) call).caller = .working at hworking
      rw [hx] at hworking
      have hne : call ≠ child := by
        rintro rfl
        refine h.not_working ?_ hworking
        rw [Cleanups.quarantined, hinbox]
        exact List.mem_cons_self
      change Function.update s.calls child _ call = startedCall
      rw [Function.update_of_ne hne]
      exact h.working call hworking
  · next call stream inbox hinbox =>
    obtain rfl := Option.some.inj hstep
    refine ⟨h.own, fun child call hitem => h.reply child call (hinbox ▸ List.mem_cons_of_mem _ hitem),
      fun child => ?_, h.bounded, h.working⟩
    have hbefore := h.conserved child
    rw [Cleanups.quarantined, hinbox] at hbefore
    exact hbefore

theorem Custody.sweeps (h : Custody s) {answers : SweepAnswers ι}
    (hstep : step s (.quarantineSweeps answers) = some s') : Custody s' := by
  obtain rfl := Option.some.inj hstep
  have hlength := sweepChildren_length answers.waits answers.kills s.children
  refine ⟨h.own, h.reply, fun child => ?_, Nat.le_trans hlength h.bounded, h.working⟩
  have hbefore := h.conserved child
  have hcount := sweepChildren_count answers.waits answers.kills s.children child
  simp only [Cleanups.quarantined, List.count_append, endings_append] at hbefore ⊢
  omega

theorem Custody.step (h : Custody s) {actor : CleanupActor ι} (hstep : step s actor = some s') :
    Custody s' := by
  cases actor with
  | call i move =>
    obtain ⟨next, hnext, rfl⟩ := Option.map_eq_some_iff.mp hstep
    exact h.call hnext
  | quarantineReceives answers => exact h.receives hstep
  | quarantineSweeps answers => exact h.sweeps hstep

/-- A handle that is somewhere has no end on record. -/
theorem Custody.not_ended (h : Custody s) {child : ι}
    (hsome : child ∈ s.quarantined ∨ child ∈ (s.calls child).held) {entry : LogEntry ι}
    (hentry : entry ∈ s.log) (habout : entry.about = child) : entry.ends = false := by
  by_contra hends
  rw [Bool.not_eq_false] at hends
  have hpos := endings_pos hentry hends
  have hconserved := h.conserved child
  have hle : (if (s.calls child).handedOver = true then 1 else 0) ≤ 1 := by split_ifs <;> simp
  rw [habout] at hpos
  rcases hsome with hquarantined | hheld
  · have hcount := List.count_pos_iff.mpr hquarantined
    omega
  · have hcount := List.count_pos_iff.mpr hheld
    omega

theorem Custody.not_confirmed (h : Custody s) {child : ι}
    (hsome : child ∈ s.quarantined ∨ child ∈ (s.calls child).held) : ¬ Confirmed s child := by
  intro hconfirmed
  have hends : LogEntry.ends (.polled child .exited) = false := h.not_ended hsome hconfirmed rfl
  cases hends

theorem Custody.owners (h : Custody s) (child : ι) :
    ((s.calls child).handedOver → ¬ Confirmed s child → ¬ Dropped s child →
      ∃ owner, owners s child = [owner]) ∧
    (Confirmed s child ∨ Dropped s child → owners s child = []) := by
  have hconserved := h.conserved child
  constructor
  · intro hhanded hconfirmed hdropped
    have hnone : endings s.log child = 0 := by
      refine List.countP_eq_zero.mpr fun entry hentry hends => ?_
      simp only [Bool.and_eq_true, decide_eq_true_eq] at hends
      obtain ⟨rfl, hends⟩ := hends
      cases entry with
      | polled c answer =>
        obtain rfl : answer = .exited := by simpa [LogEntry.ends] using hends
        exact hconfirmed hentry
      | killed c answer => cases hends
      | dropped c => exact hdropped hentry
    rw [if_pos hhanded, hnone, Nat.add_zero] at hconserved
    rw [Keychain.owners]
    rcases Nat.eq_zero_or_pos ((s.calls child).held.count child) with hheld | hheld
    · have hone : s.quarantined.count child = 1 := by omega
      exact ⟨.quarantine, by rw [hheld, hone]; rfl⟩
    · have hone : (s.calls child).held.count child = 1 := by omega
      have hzero : s.quarantined.count child = 0 := by omega
      exact ⟨.reaperThread, by rw [hone, hzero]; rfl⟩
  · intro hended
    have hpos : 0 < endings s.log child := by
      rcases hended with hconfirmed | hdropped
      · exact endings_pos hconfirmed rfl
      · exact endings_pos hdropped rfl
    have hle : (if (s.calls child).handedOver = true then 1 else 0) ≤ 1 := by split_ifs <;> simp
    have hheld : (s.calls child).held.count child = 0 := by omega
    have hquarantined : s.quarantined.count child = 0 := by omega
    rw [Keychain.owners, hheld, hquarantined]
    rfl

/-- A child is dropped by a full quarantine only, and none that is retained. -/
theorem Custody.stepKeeps (h : Custody s) {actor : CleanupActor ι}
    (hstep : Keychain.step s actor = some s') : StepKeeps s s' := by
  have hnext := h.step hstep
  cases actor with
  | call i move =>
    obtain ⟨next, hcall, rfl⟩ := Option.map_eq_some_iff.mp hstep
    have hkeeps := callStep_keepsHandles (h.own i) (h.working i) hcall
    refine ⟨fun child hdropped => .inl ?_, fun child hchild => .inl hchild⟩
    exact (List.mem_append.mp hdropped).resolve_right (hkeeps.undropped child)
  | quarantineReceives answers =>
    simp only [Keychain.step] at hstep
    split at hstep
    · cases hstep
    · next child retained inbox hinbox =>
      obtain rfl := Option.some.inj hstep
      have hpushes := pushChild_pushes answers.waits answers.kills s.children child
      refine ⟨fun c hdropped => ?_, fun c hc => ?_⟩
      · rcases List.mem_append.mp hdropped with hold | hnew
        · exact .inl hold
        · refine .inr ⟨Nat.le_antisymm (hpushes.bounded h.bounded) (hpushes.full c hnew),
            fun k hk => hnext.not_confirmed (.inl (List.mem_append_right _ hk))⟩
      · exact (hpushes.retains c hc).imp_right (List.mem_append_right _)
    · obtain rfl := Option.some.inj hstep
      exact ⟨fun child hdropped => .inl hdropped, fun child hchild => .inl hchild⟩
  | quarantineSweeps answers =>
    obtain rfl := Option.some.inj hstep
    refine ⟨fun child hdropped => .inl ?_, fun child hchild => ?_⟩
    · exact (List.mem_append.mp hdropped).resolve_right fun hnew =>
        (sweepChildren_about hnew).2 child rfl
    · exact (sweepChildren_retains hchild).imp_right (List.mem_append_right _)

end Custody
end Keychain
