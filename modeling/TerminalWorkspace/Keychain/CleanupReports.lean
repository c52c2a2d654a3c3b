import TerminalWorkspace.Keychain.ChildReaping

/-! What `terminate` returns, against what was done to the child. -/
namespace Keychain
open Interleavings

section Reports
variable {ι : Type*}

def SecurityChildCleanupEvent.isFailure : SecurityChildCleanupEvent → Bool
  | .killFailed _ => true
  | .pollFailed _ => true
  | _ => false

/-- The reaper thread has reported an error. -/
def ReaperPc.reported : ReaperPc ι → Bool
  | .polling _ flags => flags.killErrorReported || flags.pollErrorReported
  | .killing _ flags => flags.killErrorReported || flags.pollErrorReported
  | .atDeadline _ flags => flags.killErrorReported || flags.pollErrorReported
  | _ => false

/-- What the messages of a call say, given whether the exit of its child is confirmed and whether
an error of `kill` or `try_wait` is on record. -/
structure Reports (C : Cleanup ι) (confirmed troubled : Prop) : Prop where
  working : C.caller = .working → ¬ troubled
  pending : ∀ error errors, C.caller = .receiving error errors → C.terminated = none
  reaped : .reaped ∈ C.events → confirmed ∧ C.reaper = .returned ∧
    ∃ before, C.events = before ++ [.reaped] ∧ .reaped ∉ before
  reported : ∀ error errors, C.caller = .receiving error errors →
    C.held ≠ [] ∨ .reaped ∈ C.events → troubled ∨ C.reaper.reported = true →
      errors ≠ [] ∨ ∃ event ∈ C.events, event.isFailure = true
  ok : C.terminated = some (.ok ()) → confirmed ∧ ¬ troubled

variable {C : Cleanup ι} {confirmed troubled : Prop}

theorem reports_started (confirmed : Prop) (h : ¬ troubled) :
    Reports (startedCall : Cleanup ι) confirmed troubled where
  working _ := h
  pending := nofun
  reaped h := absurd h List.not_mem_nil
  reported := nofun
  ok := nofun

theorem run_reports (i : ι) (w : SecurityCommandWorld) (h : ¬ troubled) :
    Reports ((startedCall : Cleanup ι).run i w).call confirmed troubled := by
  unfold Cleanup.run
  split
  · exact ⟨nofun, nofun, fun h => absurd h List.not_mem_nil, nofun, nofun⟩
  · exact ⟨nofun, nofun, fun h => absurd h List.not_mem_nil, nofun, nofun⟩
  · refine ⟨nofun, fun _ _ _ => rfl, fun h => absurd h List.not_mem_nil, ?_, nofun⟩
    rintro _ _ - - (htroubled | hreported)
    · exact absurd htroubled h
    · cases hreported

/-- The message of the exit is the last one. -/
theorem Reports.tail (h : Reports C confirmed troubled) {event : SecurityChildCleanupEvent}
    {events : List SecurityChildCleanupEvent} (hevents : C.events = event :: events)
    (hmem : .reaped ∈ events) : event ≠ .reaped ∧ confirmed ∧ C.reaper = .returned ∧
      ∃ before, events = before ++ [.reaped] ∧ .reaped ∉ before := by
  obtain ⟨hconfirmed, hreturned, before, hsplit, hbefore⟩ :=
    h.reaped (hevents ▸ List.mem_cons_of_mem _ hmem)
  cases before with
  | nil =>
    rw [hevents] at hsplit
    obtain ⟨-, rfl⟩ := List.cons.inj hsplit
    cases hmem
  | cons first before =>
    rw [hevents] at hsplit
    obtain ⟨rfl, rfl⟩ := List.cons.inj hsplit
    rw [List.mem_cons, not_or] at hbefore
    exact ⟨fun heq => hbefore.1 heq.symm, hconfirmed, hreturned, before, rfl, hbefore.2⟩

/-- The message of the exit with no error before it: there was none. -/
theorem Reports.exit (h : Reports C confirmed troubled) {error : String}
    {events : List SecurityChildCleanupEvent} (hcaller : C.caller = .receiving error [])
    (hevents : C.events = .reaped :: events) : events = [] ∧ confirmed ∧ ¬ troubled := by
  have hmem : .reaped ∈ C.events := hevents ▸ List.mem_cons_self
  have hnil : events = [] := by
    obtain ⟨-, -, before, hsplit, hbefore⟩ := h.reaped hmem
    cases before with
    | nil =>
      rw [hevents] at hsplit
      exact (List.cons.inj hsplit).2
    | cons first before =>
      rw [hevents] at hsplit
      obtain ⟨rfl, -⟩ := List.cons.inj hsplit
      exact absurd List.mem_cons_self hbefore
  refine ⟨hnil, (h.reaped hmem).1, fun htroubled => ?_⟩
  rcases h.reported error [] hcaller (.inr hmem) (.inl htroubled) with hne | ⟨event, hevent, hfailure⟩
  · exact hne rfl
  · rw [hevents, hnil] at hevent
    rw [List.mem_singleton.mp hevent] at hfailure
    cases hfailure

theorem Reports.receive (h : Reports C confirmed troubled) {error : String} {errors : List String}
    {event : SecurityChildCleanupEvent} {events : List SecurityChildCleanupEvent}
    (hcaller : C.caller = .receiving error errors) (hevents : C.events = event :: events) :
    Reports (({ C with events := events } : Cleanup ι).receive error errors event)
      confirmed troubled := by
  have hterminated := h.pending error errors hcaller
  have htail : .reaped ∈ events → confirmed ∧ C.reaper = .returned ∧
      ∃ before, events = before ++ [.reaped] ∧ .reaped ∉ before :=
    fun hmem => (h.tail hevents hmem).2
  cases event with
  | killFailed e =>
    refine ⟨nofun, fun _ _ _ => hterminated, htail, ?_, fun hok => ?_⟩
    · rintro _ _ heq - -
      cases heq
      exact .inl (List.append_ne_nil_of_right_ne_nil _ (List.cons_ne_nil _ _))
    · cases hterminated.symm.trans hok
  | pollFailed e =>
    refine ⟨nofun, fun _ _ _ => hterminated, htail, ?_, fun hok => ?_⟩
    · rintro _ _ heq - -
      cases heq
      exact .inl (List.append_ne_nil_of_right_ne_nil _ (List.cons_ne_nil _ _))
    · cases hterminated.symm.trans hok
  | reaped =>
    refine ⟨nofun, nofun, htail, nofun, fun hok => ?_⟩
    by_cases hnil : errors = []
    · exact (h.exit (hnil ▸ hcaller) hevents).2
    · have hresult := Option.some.inj hok
      rw [if_neg hnil] at hresult
      cases hresult
  | retryBudgetExhausted quarantined => exact ⟨nofun, nofun, htail, nofun, nofun⟩

/-- A step of the reaper thread that sends no message of the exit. -/
theorem Reports.reaper (h : Reports C confirmed troubled) {C' : Cleanup ι} {troubled' : Prop}
    {sent : List SecurityChildCleanupEvent} (hbusy : C.reaper ≠ .returned)
    (hcaller : C'.caller = C.caller) (hterminated : C'.terminated = C.terminated)
    (hheld : C'.held ≠ [] → C.held ≠ []) (hevents : C'.events = C.events ++ sent)
    (hsent : .reaped ∉ sent) (hworking : C.caller ≠ .working)
    (hreported : troubled' ∨ C'.reaper.reported = true →
      (troubled ∨ C.reaper.reported = true) ∨ ∃ event ∈ sent, event.isFailure = true)
    (hok : C.terminated ≠ some (.ok ())) : Reports C' confirmed troubled' := by
  have hunreaped : .reaped ∉ C'.events := by
    rw [hevents, List.mem_append, not_or]
    exact ⟨fun hmem => hbusy (h.reaped hmem).2.1, hsent⟩
  refine ⟨fun hc => absurd (hcaller ▸ hc) hworking, fun error errors hc => ?_,
    fun hmem => absurd hmem hunreaped, fun error errors hc hthere htrouble => ?_,
    fun hdone => absurd (hterminated ▸ hdone) hok⟩
  · rw [hterminated]
    exact h.pending error errors (hcaller ▸ hc)
  · have hold := hheld (hthere.resolve_right hunreaped)
    rw [hevents]
    rcases hreported htrouble with hbefore | ⟨event, hevent, hfailure⟩
    · rcases h.reported error errors (hcaller ▸ hc) (.inl hold) hbefore with hne | ⟨event, hevent, hf⟩
      · exact .inl hne
      · exact .inr ⟨event, List.mem_append_left _ hevent, hf⟩
    · exact .inr ⟨event, List.mem_append_right _ hevent, hfailure⟩

theorem Reports.congr (h : Reports C confirmed troubled) {confirmed' troubled' : Prop}
    (hconfirmed : confirmed ↔ confirmed') (htroubled : troubled ↔ troubled') :
    Reports C confirmed' troubled' := propext hconfirmed ▸ propext htroubled ▸ h

/-- What a step of a call leaves of its messages. -/
def ReportsNext (i : ι) (confirmed troubled : Prop) (next : CallStep ι) : Prop :=
  Reports next.call (confirmed ∨ .polled i .exited ∈ next.entries)
    (troubled ∨ ∃ entry ∈ next.entries, entry.failing = true)

theorem ReportsNext.of_quiet {i : ι} {C' : Cleanup ι} (h : Reports C' confirmed troubled) :
    ReportsNext i confirmed troubled (.quiet C') :=
  h.congr (or_iff_left List.not_mem_nil).symm (or_iff_left fun ⟨_, hentry, _⟩ =>
    absurd hentry List.not_mem_nil).symm

theorem ReportsNext.of_unconfirmed {i : ι} {next : CallStep ι}
    (h : Reports next.call confirmed (troubled ∨ ∃ entry ∈ next.entries, entry.failing = true))
    (hentries : .polled i .exited ∉ next.entries) : ReportsNext i confirmed troubled next :=
  h.congr (or_iff_left hentries).symm Iff.rfl

variable {i child : ι} {flags : ReapFlags}

theorem poll_reports (h : Reports C confirmed troubled) (hown : ∀ child ∈ C.held, child = i)
    (hreaper : C.reaper = .polling child flags) (hworking : C.caller ≠ .working)
    (hok : C.terminated = some (.ok ()) → C.held = []) (answer : WaitAnswer) :
    ReportsNext i confirmed troubled (C.poll child flags answer) := by
  have hheld : C.held = C.childChannel.toList ++ [child] := by rw [Cleanup.held, hreaper]; rfl
  have hmem : child ∈ C.held := hheld ▸ List.mem_append_right _ (List.mem_singleton_self _)
  have hne : C.held ≠ [] := List.ne_nil_of_mem hmem
  have hpending : C.terminated ≠ some (.ok ()) := fun hdone => hne (hok hdone)
  have hbusy : C.reaper ≠ .returned := by simp [hreaper]
  obtain rfl := hown child hmem
  cases answer with
  | exited =>
    refine ⟨fun hc => absurd hc hworking, h.pending, fun _ => ?_, fun error errors hc _ htrouble => ?_,
      fun hdone => absurd hdone hpending⟩
    · exact ⟨.inr (List.mem_singleton_self _), rfl, C.events, rfl, fun hin => hbusy (h.reaped hin).2.1⟩
    · have hbefore : troubled := by
        rcases htrouble with (hbefore | ⟨entry, hentry, hfailing⟩) | hreported
        · exact hbefore
        · rw [List.mem_singleton.mp hentry] at hfailing
          cases hfailing
        · cases hreported
      rcases h.reported error errors hc (.inl hne) (.inl hbefore) with hne | ⟨event, hevent, hfailure⟩
      · exact .inl hne
      · exact .inr ⟨event, List.mem_append_left _ hevent, hfailure⟩
  | running =>
    refine .of_unconfirmed ?_ fun hin => by cases List.mem_singleton.mp hin
    refine h.reaper hbusy rfl rfl (fun _ => hne) (List.append_nil _).symm List.not_mem_nil hworking
      (fun htrouble => .inl ?_) hpending
    rcases htrouble with (hbefore | ⟨entry, hentry, hfailing⟩) | hreported
    · exact .inl hbefore
    · rw [List.mem_singleton.mp hentry] at hfailing
      cases hfailing
    · rw [hreaper]
      exact .inr hreported
  | failed error =>
    refine .of_unconfirmed ?_ fun hin => by cases List.mem_singleton.mp hin
    unfold Cleanup.poll
    dsimp only
    split_ifs with hflag
    · refine h.reaper hbusy rfl rfl (fun _ => hne) (List.append_nil _).symm List.not_mem_nil hworking
        (fun _ => .inl (.inr ?_)) hpending
      rw [hreaper, ReaperPc.reported, hflag, Bool.or_true]
    · exact h.reaper hbusy rfl rfl (fun _ => hne) rfl (by simp) hworking
        (fun _ => .inr ⟨_, List.mem_singleton_self _, rfl⟩) hpending

theorem kill_reports (h : Reports C confirmed troubled) (hreaper : C.reaper = .killing child flags)
    (hworking : C.caller ≠ .working) (hok : C.terminated = some (.ok ()) → C.held = [])
    (answer : Except String Unit) :
    ReportsNext i confirmed troubled (C.kill child flags answer) := by
  have hne : C.held ≠ [] := by rw [Cleanup.held, hreaper]; simp [ReaperPc.held]
  have hpending : C.terminated ≠ some (.ok ()) := fun hdone => hne (hok hdone)
  have hbusy : C.reaper ≠ .returned := by simp [hreaper]
  unfold Cleanup.kill
  by_cases hrequested : flags.terminationRequested = true
  · rw [if_pos hrequested]
    refine .of_quiet (h.reaper hbusy rfl rfl (fun _ => hne) (List.append_nil _).symm
      List.not_mem_nil hworking (fun htrouble => .inl ?_) hpending)
    rw [hreaper]
    exact htrouble
  · rw [if_neg hrequested]
    refine .of_unconfirmed ?_ fun hin => by cases List.mem_singleton.mp hin
    cases answer with
    | ok =>
      refine h.reaper hbusy rfl rfl (fun _ => hne) (List.append_nil _).symm List.not_mem_nil hworking
        (fun htrouble => .inl ?_) hpending
      rcases htrouble with (hbefore | ⟨entry, hentry, hfailing⟩) | hreported
      · exact .inl hbefore
      · rw [List.mem_singleton.mp hentry] at hfailing
        cases hfailing
      · rw [hreaper]
        exact .inr hreported
    | error error =>
      dsimp only
      split_ifs with hflag
      · refine h.reaper hbusy rfl rfl (fun _ => hne) (List.append_nil _).symm List.not_mem_nil hworking
          (fun _ => .inl (.inr ?_)) hpending
        rw [hreaper, ReaperPc.reported, hflag, Bool.true_or]
      · exact h.reaper hbusy rfl rfl (fun _ => hne) rfl (by simp) hworking
          (fun _ => .inr ⟨_, List.mem_singleton_self _, rfl⟩) hpending

theorem check_reports (h : Reports C confirmed troubled) (hreaper : C.reaper = .atDeadline child flags)
    (hworking : C.caller ≠ .working) (hok : C.terminated = some (.ok ()) → C.held = [])
    (expired : Bool) : ReportsNext i confirmed troubled (C.check i child flags expired) := by
  have hne : C.held ≠ [] := by rw [Cleanup.held, hreaper]; simp [ReaperPc.held]
  have hpending : C.terminated ≠ some (.ok ()) := fun hdone => hne (hok hdone)
  have hbusy : C.reaper ≠ .returned := by simp [hreaper]
  cases expired with
  | true =>
    refine .of_unconfirmed ?_ List.not_mem_nil
    refine h.reaper hbusy rfl rfl (fun _ => hne) (List.append_nil _).symm List.not_mem_nil hworking
      (fun htrouble => .inl ?_) hpending
    rcases htrouble with (hbefore | ⟨entry, hentry, -⟩) | hreported
    · exact .inl hbefore
    · exact absurd hentry List.not_mem_nil
    · cases hreported
  | false =>
    refine .of_quiet (h.reaper hbusy rfl rfl (fun _ => hne) (List.append_nil _).symm
      List.not_mem_nil hworking (fun htrouble => .inl ?_) hpending)
    rw [hreaper]
    exact htrouble

theorem callStep_reports (h : Reports C confirmed troubled) (hown : ∀ child ∈ C.held, child = i)
    (hworking : C.caller = .working → C = startedCall)
    (hok : C.terminated = some (.ok ()) → C.held = []) {move : CallMove} {next : CallStep ι}
    (hstep : callStep i C move = some next) : ReportsNext i confirmed troubled next := by
  have hnot : C.reaper ≠ .receiving ∨ C.childChannel ≠ none → C.caller ≠ .working := by
    intro hbusy hcaller
    rw [hworking hcaller] at hbusy
    exact hbusy.elim (fun h => h rfl) fun h => h rfl
  cases move with
  | run world =>
    simp only [callStep] at hstep
    split at hstep
    · next hcaller =>
      obtain rfl := hworking hcaller
      obtain rfl := Option.some.inj hstep
      have hentries : ((startedCall : Cleanup ι).run i world).entries = [] := by
        unfold Cleanup.run
        split <;> rfl
      have hrun : Reports ((startedCall : Cleanup ι).run i world).call confirmed troubled :=
        run_reports i world (h.working rfl)
      refine hrun.congr ?_ ?_ <;> simp [hentries]
    · cases hstep
  | callerReceives =>
    simp only [callStep] at hstep
    split at hstep
    · next hcaller hevents =>
      obtain rfl := Option.some.inj hstep
      exact .of_quiet (h.receive hcaller hevents)
    · cases hstep
  | callerTimesOut =>
    simp only [callStep] at hstep
    split at hstep
    · next hevents _ =>
      obtain rfl := Option.some.inj hstep
      exact .of_quiet ⟨by rintro ⟨⟩, by rintro _ _ ⟨⟩, h.reaped, by rintro _ _ ⟨⟩, by rintro ⟨⟩⟩
    · next hevents _ =>
      obtain rfl := Option.some.inj hstep
      exact .of_quiet ⟨by rintro ⟨⟩, by rintro _ _ ⟨⟩, h.reaped, by rintro _ _ ⟨⟩, by rintro ⟨⟩⟩
    · cases hstep
  | reaperReceives =>
    simp only [callStep] at hstep
    split at hstep
    · next received hreaper hchannel =>
      obtain rfl := Option.some.inj hstep
      have hne : C.held ≠ [] := by rw [Cleanup.held, hchannel]; simp
      refine .of_quiet (h.reaper (by simp [hreaper]) rfl rfl (fun _ => hne)
        (List.append_nil _).symm List.not_mem_nil
        (hnot (.inr (by rw [hchannel]; exact Option.some_ne_none _))) (fun htrouble => .inl ?_)
        fun hdone => hne (hok hdone))
      exact htrouble.imp_right (by rintro ⟨⟩)
    · cases hstep
  | reaperPolls answer =>
    simp only [callStep] at hstep
    split at hstep
    · next hreaper =>
      obtain rfl := Option.some.inj hstep
      exact poll_reports h hown hreaper (hnot (.inl (by simp [hreaper]))) hok answer
    · cases hstep
  | reaperKills answer =>
    simp only [callStep] at hstep
    split at hstep
    · next hreaper =>
      obtain rfl := Option.some.inj hstep
      exact kill_reports h hreaper (hnot (.inl (by simp [hreaper]))) hok answer
    · cases hstep
  | reaperChecks expired =>
    simp only [callStep] at hstep
    split at hstep
    · next hreaper =>
      obtain rfl := Option.some.inj hstep
      exact check_reports h hreaper (hnot (.inl (by simp [hreaper]))) hok expired
    · cases hstep
  | reaperLearns =>
    simp only [callStep] at hstep
    split at hstep
    · next hreaper _ =>
      obtain rfl := Option.some.inj hstep
      have hbusy : C.reaper ≠ .returned := by simp [hreaper]
      have hheld : C.held = C.childChannel.toList ++ [] := by rw [Cleanup.held, hreaper]; rfl
      have hunreaped : ∀ quarantined, .reaped ∉ C.events ++ [.retryBudgetExhausted quarantined] := by
        intro quarantined hmem
        rcases List.mem_append.mp hmem with hold | hnew
        · exact hbusy (h.reaped hold).2.1
        · cases List.mem_singleton.mp hnew
      refine .of_quiet ⟨fun hc => absurd hc (hnot (.inl (by simp [hreaper]))), h.pending,
        fun hmem => absurd hmem (hunreaped _), fun error errors hc hthere htrouble => ?_, h.ok⟩
      have hold : C.held ≠ [] := hheld ▸ hthere.resolve_right (hunreaped _)
      rcases h.reported error errors hc (.inl hold) (htrouble.imp_right (by rintro ⟨⟩)) with
        hne | ⟨event, hevent, hfailure⟩
      · exact .inl hne
      · exact .inr ⟨event, List.mem_append_left _ hevent, hfailure⟩
    · cases hstep

end Reports
section System
variable {ι : Type*} [DecidableEq ι] {s s' : Cleanups ι}

/-- Of every call, what its messages say. -/
def AllReports (s : Cleanups ι) : Prop :=
  ∀ i, Reports (s.calls i) (Confirmed s i) (Troubled s i)

theorem Custody.held_eq_nil (h : Custody s) {child : ι}
    (hended : child ∈ s.quarantined ∨ Confirmed s child) : (s.calls child).held = [] := by
  by_contra hne
  obtain ⟨held, hheld⟩ := List.exists_mem_of_ne_nil _ hne
  obtain rfl := h.own child held hheld
  rcases hended with hquarantined | hconfirmed
  · have hone := List.count_pos_iff.mpr hheld
    have htwo := List.count_pos_iff.mpr hquarantined
    have hconserved := h.conserved held
    have hle : (if (s.calls held).handedOver = true then 1 else 0) ≤ 1 := by split_ifs <;> simp
    omega
  · exact h.not_confirmed (.inr hheld) hconfirmed

theorem confirmed_iff {entries : List (LogEntry ι)} (hlog : s'.log = s.log ++ entries) (i : ι) :
    Confirmed s' i ↔ Confirmed s i ∨ .polled i .exited ∈ entries := by
  rw [Confirmed, hlog, List.mem_append]
  exact Iff.rfl

theorem troubled_iff {entries : List (LogEntry ι)} (hlog : s'.log = s.log ++ entries) (i : ι) :
    Troubled s' i ↔ Troubled s i ∨ ∃ entry ∈ entries, entry.about = i ∧ entry.failing = true := by
  simp only [Troubled, hlog, List.mem_append, or_and_right, exists_or]

/-- A call whose child nothing was done to. -/
theorem reports_untouched (h : AllReports s) {entries : List (LogEntry ι)}
    (hlog : s'.log = s.log ++ entries) {i : ι} (hother : ∀ entry ∈ entries, entry.about ≠ i) :
    Reports (s.calls i) (Confirmed s' i) (Troubled s' i) := by
  refine (h i).congr ?_ ?_
  · rw [confirmed_iff hlog, or_iff_left fun hentry => hother _ hentry rfl]
  · rw [troubled_iff hlog, or_iff_left fun ⟨entry, hentry, habout, _⟩ => hother entry hentry habout]

/-- What the quarantine does to a child concerns no message of its call. -/
theorem reports_quarantine (h : AllReports s) (hcustody : Custody s) {entries : List (LogEntry ι)}
    (hlog : s'.log = s.log ++ entries) (habout : ∀ entry ∈ entries, entry.about ∈ s.quarantined)
    (i : ι) : Reports (s.calls i) (Confirmed s' i) (Troubled s' i) := by
  by_cases hmem : i ∈ s.quarantined
  · have hheld := hcustody.held_eq_nil (.inl hmem)
    have hunconfirmed := hcustody.not_confirmed (.inl hmem)
    refine ⟨fun hc => absurd hc (hcustody.not_working hmem), (h i).pending,
      fun hin => absurd ((h i).reaped hin).1 hunconfirmed, fun _ _ _ hthere _ => ?_,
      fun hok => absurd ((h i).ok hok).1 hunconfirmed⟩
    rcases hthere with hne | hin
    · exact absurd hheld hne
    · exact absurd ((h i).reaped hin).1 hunconfirmed
  · exact reports_untouched h hlog fun entry hentry heq => hmem (heq ▸ habout entry hentry)

theorem AllReports.step (h : AllReports s) (hcustody : Custody s) {actor : CleanupActor ι}
    (hstep : Keychain.step s actor = some s') : AllReports s' := by
  intro i
  cases actor with
  | call j move =>
    obtain ⟨next, hnext, rfl⟩ := Option.map_eq_some_iff.mp hstep
    have hkeeps := callStep_keepsHandles (hcustody.own j) (hcustody.working j) hnext
    have habout : ∀ entry ∈ next.entries, entry.about = j :=
      fun entry hentry => hcustody.own j _ (hkeeps.entries entry hentry)
    by_cases hi : i = j
    · subst hi
      have hreports := callStep_reports (h i) (hcustody.own i) (hcustody.working i)
        (fun hok => hcustody.held_eq_nil (.inr ((h i).ok hok).1)) hnext
      change Reports (Function.update s.calls i next.call i) _ _
      rw [Function.update_self]
      refine hreports.congr (confirmed_iff rfl i).symm (Iff.trans ?_ (troubled_iff rfl i).symm)
      refine or_congr_right ⟨fun ⟨entry, hentry, hfailing⟩ => ?_, fun ⟨entry, hentry, _, hfailing⟩ => ?_⟩
      · exact ⟨entry, hentry, habout entry hentry, hfailing⟩
      · exact ⟨entry, hentry, hfailing⟩
    · change Reports (Function.update s.calls j next.call i) _ _
      rw [Function.update_of_ne hi]
      exact reports_untouched h rfl fun entry hentry heq => hi (heq.symm.trans (habout entry hentry))
  | quarantineReceives answers =>
    simp only [Keychain.step] at hstep
    split at hstep
    · cases hstep
    · next child retained inbox hinbox =>
      obtain rfl := Option.some.inj hstep
      have hpushes := pushChild_pushes answers.waits answers.kills s.children child
      let logged : Cleanups ι := { s with
        log := s.log ++ (pushChild answers.waits answers.kills s.children child).2.2 }
      have habout : ∀ entry ∈ (pushChild answers.waits answers.kills s.children child).2.2,
          entry.about ∈ s.quarantined := by
        intro entry hentry
        rcases hpushes.about entry hentry with heq | hin
        · rw [heq, Cleanups.quarantined, hinbox]
          exact List.mem_cons_self
        · exact List.mem_append_right _ hin
      have hreports : Reports (logged.calls i) (Confirmed logged i) (Troubled logged i) :=
        reports_quarantine h hcustody rfl habout i
      obtain ⟨x, hx⟩ := setRetained_calls s retained i
        (some (pushChild answers.waits answers.kills s.children child).2.1)
      change Reports (Cleanups.calls (s.setCall retained _) i) _ _
      rw [hx]
      exact ⟨hreports.working, hreports.pending, hreports.reaped, hreports.reported, hreports.ok⟩
    · obtain rfl := Option.some.inj hstep
      exact h i
  | quarantineSweeps answers =>
    obtain rfl := Option.some.inj hstep
    exact reports_quarantine h hcustody rfl (fun entry hentry =>
      List.mem_append_right _ (sweepChildren_about hentry).1) i

/-- A child that was spawned is handed over, or the wait for it has answered. -/
theorem runSecurityCommand_cases (w : SecurityCommandWorld) (hspawned : w.Spawned) :
    (∃ error detached, runSecurityCommandWithSecret w = .handedOver error detached) ∨
      ∃ status, w.wait = .ok status ∧
        runSecurityCommandWithSecret w = .waited (collectOutput w status) := by
  unfold runSecurityCommandWithSecret waitForSecurityChildOutput
  rw [hspawned.1, hspawned.2]
  dsimp only
  repeat' split
  all_goals first
    | exact .inl ⟨_, _, rfl⟩
    | exact .inr ⟨_, ‹_›, rfl⟩

theorem childrenKept (hcustody : Custody s) (hreports : AllReports s) : ChildrenKept s where
  oneOwner child := (hcustody.owners child).1
  noOther := hcustody.own
  released child := (hcustody.owners child).2
  bounded := hcustody.bounded
  okReaped child := (hreports child).ok

/-- In every run each child that was handed over is with its reaper thread or the quarantine until
its exit is known, and only a full quarantine drops one; `terminate` succeeds for a child that was
reaped without an error; and a command hands its child over unless it has waited for it. -/
theorem children_kept {actors : List (CleanupActor ι)}
    (h : run step initialCleanups actors = some s) :
    ChildrenKept s ∧ (∀ actor s', step s actor = some s' → StepKeeps s s') ∧
      ∀ i w s', step s (.call i (.run w)) = some s' → w.Spawned →
        (s'.calls i).handedOver ∨ ∃ status, w.wait = .ok status ∧
          runSecurityCommandWithSecret w = .waited (collectOutput w status) := by
  have hstep : ∀ (s : Cleanups ι) actor s', Custody s ∧ AllReports s → step s actor = some s' →
      Custody s' ∧ AllReports s' :=
    fun s actor s' hs hstep => ⟨hs.1.step hstep, hs.2.step hs.1 hstep⟩
  have hinit : AllReports (initialCleanups : Cleanups ι) :=
    fun i => reports_started _ (by rintro ⟨_, hentry, -⟩; exact absurd hentry List.not_mem_nil)
  have hinv := run_invariant hstep ⟨custody_initial, hinit⟩ h
  refine ⟨childrenKept hinv.1 hinv.2, fun actor s' hstep => hinv.1.stepKeeps hstep, ?_⟩
  intro i w s' hstep hspawned
  obtain ⟨next, hnext, rfl⟩ := Option.map_eq_some_iff.mp hstep
  simp only [callStep] at hnext
  split at hnext
  · obtain rfl := Option.some.inj hnext
    refine (runSecurityCommand_cases w hspawned).imp_left ?_
    rintro ⟨error, detached, hrun⟩
    change (Function.update s.calls i _ i).handedOver = true
    rw [Function.update_self, Cleanup.run, hrun]
    simp [Cleanup.handedOver]
  · cases hnext

/-- Every call answers well. -/
def calmWorld : SecurityCommandWorld where
  startReaper := .ok ()
  spawn := .ok ()
  beforeWrite := .ok ()
  stdin := true
  writeSecret := .ok ()
  stdout := true
  stdoutReader := .ok ()
  stderr := true
  stderrReader := .ok ()
  wait := .ok 0
  stdoutEnd := .read []
  stderrEnd := .read []

/-- A child without a pipe for the secret, which has exited when it is asked first. -/
def reapedAtOnce : List (CleanupActor Unit) :=
  [.call () (.run { calmWorld with stdin := false }), .call () .reaperReceives,
    .call () (.reaperPolls .exited), .call () .callerReceives]

theorem children_kept_reapedAtOnce : ∃ s : Cleanups Unit,
    run step initialCleanups reapedAtOnce = some s ∧ ChildrenKept s ∧
      (s.calls ()).terminated = some (.ok ()) := by
  have hdone : (run step initialCleanups reapedAtOnce).map (fun s => (s.calls ()).terminated) =
      some (some (.ok ())) := rfl
  obtain ⟨s, hs, hok⟩ := Option.map_eq_some_iff.mp hdone
  exact ⟨s, hs, (children_kept hs).1, hok⟩

def Disposal.failed : Disposal → Bool
  | .notSpawned _ => true
  | .handedOver _ _ => true
  | .waited (.error _) => true
  | .waited (.ok _) => false

/-- Output that cannot be read is an error of a command that keeps its child. -/
theorem unread_output_keeps_child : ¬ ∀ w : SecurityCommandWorld, w.Spawned →
    (runSecurityCommandWithSecret w).failed = true →
      ∃ error detached, runSecurityCommandWithSecret w = .handedOver error detached := by
  intro h
  obtain ⟨error, detached, hrun⟩ :=
    h { calmWorld with stdoutEnd := .failed "Input/output error" } ⟨rfl, rfl⟩ rfl
  cases hrun

end System
end Keychain
