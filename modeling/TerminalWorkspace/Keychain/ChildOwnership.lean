import TerminalWorkspace.Keychain.ChildCleanup

/-! Who holds the handle of a child, from the moment it is handed over to the moment its exit is
known. -/
namespace Keychain
open SwapSweep Interleavings

section Owners
variable {ι : Type*}

def ReaperPc.held : ReaperPc ι → Option ι
  | .polling child _ => some child
  | .killing child _ => some child
  | .atDeadline child _ => some child
  | _ => none

/-- The handles of the reaper thread: in its channel, or in its hand. -/
def Cleanup.held (C : Cleanup ι) : List ι := C.childChannel.toList ++ C.reaper.held.toList

/-- `terminate` has been called with the child. -/
def Cleanup.handedOver (C : Cleanup ι) : Bool :=
  C.terminated.isSome || match C.caller with
    | .receiving _ _ => true
    | _ => false

def SecurityCleanupQuarantineItem.handle : SecurityCleanupQuarantineItem ι → Option ι
  | .child held _ => some held
  | .outputReader _ _ => none

/-- The handles of the quarantine: sent to it, or retained. -/
def Cleanups.quarantined (s : Cleanups ι) : List ι :=
  s.inbox.filterMap SecurityCleanupQuarantineItem.handle ++ s.children

def LogEntry.about : LogEntry ι → ι
  | .polled child _ => child
  | .killed child _ => child
  | .dropped child => child

/-- With this the handle is gone: the exit is known, or the quarantine had no room. -/
def LogEntry.ends : LogEntry ι → Bool
  | .polled _ answer => answer = .exited
  | .killed _ _ => false
  | .dropped _ => true

/-- An error of `try_wait` or `kill`. -/
def LogEntry.failing : LogEntry ι → Bool
  | .polled _ (.failed _) => true
  | .killed _ (.error _) => true
  | _ => false

def Confirmed (s : Cleanups ι) (child : ι) : Prop := .polled child .exited ∈ s.log

def Dropped (s : Cleanups ι) (child : ι) : Prop := .dropped child ∈ s.log

def Troubled (s : Cleanups ι) (child : ι) : Prop :=
  ∃ entry ∈ s.log, entry.about = child ∧ entry.failing

inductive Owner where
  | reaperThread
  | quarantine
  deriving DecidableEq, Repr

variable [DecidableEq ι]

/-- Every handle of a child that its reaper thread and the quarantine have. -/
def owners (s : Cleanups ι) (child : ι) : List Owner :=
  List.replicate ((s.calls child).held.count child) .reaperThread ++
    List.replicate (s.quarantined.count child) .quarantine

def endings (log : List (LogEntry ι)) (child : ι) : ℕ :=
  log.countP fun entry => entry.about = child && entry.ends

/-- Where each child is. -/
structure ChildrenKept (s : Cleanups ι) : Prop where
  oneOwner : ∀ child, (s.calls child).handedOver → ¬ Confirmed s child → ¬ Dropped s child →
    ∃ owner, owners s child = [owner]
  noOther : ∀ call child, child ∈ (s.calls call).held → child = call
  released : ∀ child, Confirmed s child ∨ Dropped s child → owners s child = []
  bounded : s.children.length ≤ SECURITY_CHILD_QUARANTINE_CAPACITY
  okReaped : ∀ child, (s.calls child).terminated = some (.ok ()) →
    Confirmed s child ∧ ¬ Troubled s child

/-- What one step may do to the children. -/
structure StepKeeps (s s' : Cleanups ι) : Prop where
  dropsWhenFull : ∀ child, Dropped s' child → Dropped s child ∨
    s'.children.length = SECURITY_CHILD_QUARANTINE_CAPACITY ∧ ∀ k ∈ s'.children, ¬ Confirmed s' k
  retains : ∀ child ∈ s.children, child ∈ s'.children ∨ Confirmed s' child

/-- The books: each handle is in one place or its end is on record, from the hand-over on. -/
structure Custody (s : Cleanups ι) : Prop where
  own : ∀ call child, child ∈ (s.calls call).held → child = call
  reply : ∀ child call, .child child call ∈ s.inbox → child = call
  conserved : ∀ child, (s.calls child).held.count child + s.quarantined.count child +
    endings s.log child = if (s.calls child).handedOver then 1 else 0
  bounded : s.children.length ≤ SECURITY_CHILD_QUARANTINE_CAPACITY
  working : ∀ call, (s.calls call).caller = .working → s.calls call = startedCall

end Owners

section CallSteps
variable {ι : Type*} [DecidableEq ι] {i : ι} {C : Cleanup ι} {next : CallStep ι}

/-- What a step of a call does to handles. -/
structure KeepsHandles (i : ι) (C : Cleanup ι) (next : CallStep ι) : Prop where
  own : ∀ child ∈ next.call.held, child = i
  sent : ∀ child call, .child child call ∈ next.sent → child = i ∧ call = i
  entries : ∀ entry ∈ next.entries, entry.about ∈ C.held
  undropped : ∀ child, .dropped child ∉ next.entries
  conserved : next.call.held.count i + (next.sent.filterMap SecurityCleanupQuarantineItem.handle).count i +
    endings next.entries i + (if C.handedOver then 1 else 0) =
      C.held.count i + if next.call.handedOver then 1 else 0
  notWorking : next.call.caller ≠ .working

/-- A step that leaves the handles where they are. -/
theorem KeepsHandles.of_same (hown : ∀ child ∈ C.held, child = i) (hheld : next.call.held = C.held)
    (hsent : next.sent = []) (hentries : ∀ entry ∈ next.entries, entry.about ∈ C.held)
    (hends : ∀ entry ∈ next.entries, entry.ends = false)
    (hhanded : next.call.handedOver = C.handedOver) (hnot : next.call.caller ≠ .working) :
    KeepsHandles i C next where
  own := hheld ▸ hown
  sent := by
    rw [hsent]
    exact fun _ _ h => absurd h List.not_mem_nil
  entries := hentries
  undropped := fun child hdropped => Bool.noConfusion (hends _ hdropped)
  conserved := by
    have hnone : endings next.entries i = 0 :=
      List.countP_eq_zero.mpr fun entry hentry => by simp [hends entry hentry]
    rw [hheld, hsent, hnone, hhanded]
    rfl
  notWorking := hnot

theorem KeepsHandles.of_quiet {C' : Cleanup ι} (hown : ∀ child ∈ C.held, child = i)
    (hheld : C'.held = C.held) (hhanded : C'.handedOver = C.handedOver)
    (hnot : C'.caller ≠ .working) : KeepsHandles i C (.quiet C') :=
  .of_same hown hheld rfl (fun _ h => absurd h List.not_mem_nil)
    (fun _ h => absurd h List.not_mem_nil) hhanded hnot

theorem run_keepsHandles (i : ι) (w : SecurityCommandWorld) :
    KeepsHandles i (startedCall : Cleanup ι) (startedCall.run i w) := by
  have hown : ∀ child ∈ (startedCall : Cleanup ι).held, child = i :=
    fun _ h => absurd h List.not_mem_nil
  unfold Cleanup.run
  split
  · exact .of_quiet hown rfl rfl nofun
  · exact .of_quiet hown rfl rfl nofun
  · next error detached _ =>
    have hreaders : (detached.map (SecurityCleanupQuarantineItem.outputReader i)).filterMap
        SecurityCleanupQuarantineItem.handle = [] := by
      simp [List.filterMap_eq_nil_iff, SecurityCleanupQuarantineItem.handle]
    refine ⟨fun child hchild => List.mem_singleton.mp hchild, fun child call hsent => ?_,
      fun _ h => absurd h List.not_mem_nil, fun _ h => absurd h List.not_mem_nil, ?_, nofun⟩
    · obtain ⟨stream, -, heq⟩ := List.mem_map.mp hsent
      cases heq
    · rw [hreaders]
      simp [Cleanup.held, startedCall, ReaperPc.held, Cleanup.handedOver, endings]

theorem receive_keepsHandles (hown : ∀ child ∈ C.held, child = i) {error : String}
    {cleanupErrors : List String} (hcaller : C.caller = .receiving error cleanupErrors)
    (events : List SecurityChildCleanupEvent) (event : SecurityChildCleanupEvent) :
    KeepsHandles i C (.quiet (({ C with events := events } : Cleanup ι).receive error cleanupErrors event)) := by
  have hhanded : C.handedOver = true := by simp [Cleanup.handedOver, hcaller]
  refine .of_quiet hown ?_ ?_ ?_
  · cases event <;> rfl
  · rw [hhanded]
    cases event <;> simp [Cleanup.receive, Cleanup.finish, Cleanup.handedOver]
  · cases event <;> nofun

theorem poll_keepsHandles (hown : ∀ child ∈ C.held, child = i) {child : ι} {flags : ReapFlags}
    (hreaper : C.reaper = .polling child flags) (hnot : C.caller ≠ .working) (answer : WaitAnswer) :
    KeepsHandles i C (C.poll child flags answer) := by
  have hheld : C.held = C.childChannel.toList ++ [child] := by rw [Cleanup.held, hreaper]; rfl
  have hmem : child ∈ C.held := hheld ▸ List.mem_append_right _ (List.mem_singleton_self _)
  have hentries : ∀ entry ∈ (C.poll child flags answer).entries, entry.about ∈ C.held := by
    intro entry hentry
    rw [List.mem_singleton.mp hentry]
    exact hmem
  cases answer with
  | exited =>
    obtain rfl := hown child hmem
    refine ⟨fun other hother => hown other ?_, fun _ _ h => absurd h List.not_mem_nil, hentries,
      fun other h => (nomatch List.mem_singleton.mp h), ?_, hnot⟩
    · rw [hheld]
      exact List.mem_append_left _ (by
        simpa [Cleanup.poll, Cleanup.send, Cleanup.held, ReaperPc.held] using hother)
    · have hhanded : ((C.poll child flags .exited).call).handedOver = C.handedOver := rfl
      rw [hhanded, hheld]
      simp [Cleanup.poll, Cleanup.held, Cleanup.send, ReaperPc.held, endings, LogEntry.about,
        LogEntry.ends]
  | running =>
    refine .of_same hown ?_ rfl hentries (fun entry hentry => ?_) rfl hnot
    · rw [hheld]
      rfl
    · rw [List.mem_singleton.mp hentry]
      rfl
  | failed error =>
    refine .of_same hown ?_ rfl hentries (fun entry hentry => ?_) ?_ ?_
    · rw [hheld]
      simp only [Cleanup.poll]
      split_ifs <;> rfl
    · rw [List.mem_singleton.mp hentry]
      rfl
    · simp only [Cleanup.poll]
      split_ifs <;> rfl
    · simp only [Cleanup.poll]
      split_ifs <;> exact hnot

theorem kill_keepsHandles (hown : ∀ child ∈ C.held, child = i) {child : ι} {flags : ReapFlags}
    (hreaper : C.reaper = .killing child flags) (hnot : C.caller ≠ .working)
    (answer : Except String Unit) : KeepsHandles i C (C.kill child flags answer) := by
  have hheld : C.held = C.childChannel.toList ++ [child] := by rw [Cleanup.held, hreaper]; rfl
  have hmem : child ∈ C.held := hheld ▸ List.mem_append_right _ (List.mem_singleton_self _)
  unfold Cleanup.kill
  by_cases hrequested : flags.terminationRequested = true
  · rw [if_pos hrequested]
    exact .of_quiet hown hheld.symm rfl hnot
  · rw [if_neg hrequested]
    refine .of_same hown ?_ rfl (fun entry hentry => ?_) (fun entry hentry => ?_) ?_ ?_
    · rw [hheld]
      cases answer with
      | ok => rfl
      | error => dsimp only; split_ifs <;> rfl
    · rw [List.mem_singleton.mp hentry]
      exact hmem
    · rw [List.mem_singleton.mp hentry]
      rfl
    · cases answer with
      | ok => rfl
      | error => dsimp only; split_ifs <;> rfl
    · cases answer with
      | ok => exact hnot
      | error => dsimp only; split_ifs <;> exact hnot

theorem check_keepsHandles (hown : ∀ child ∈ C.held, child = i) {child : ι} {flags : ReapFlags}
    (hreaper : C.reaper = .atDeadline child flags) (hnot : C.caller ≠ .working) (expired : Bool) :
    KeepsHandles i C (C.check i child flags expired) := by
  have hheld : C.held = C.childChannel.toList ++ [child] := by rw [Cleanup.held, hreaper]; rfl
  have hmem : child ∈ C.held := hheld ▸ List.mem_append_right _ (List.mem_singleton_self _)
  cases expired with
  | true =>
    obtain rfl := hown child hmem
    refine ⟨fun other hother => hown other ?_, fun other call hsent => ?_,
      fun _ h => absurd h List.not_mem_nil, fun _ h => absurd h List.not_mem_nil, ?_, hnot⟩
    · rw [hheld]
      exact List.mem_append_left _ (by simpa [Cleanup.check, Cleanup.held, ReaperPc.held] using hother)
    · cases List.mem_singleton.mp hsent
      exact ⟨rfl, rfl⟩
    · have hhanded : ((C.check child child flags true).call).handedOver = C.handedOver := rfl
      rw [hhanded, hheld]
      simp [Cleanup.check, Cleanup.held, ReaperPc.held, endings,
        SecurityCleanupQuarantineItem.handle]
  | false => exact .of_quiet hown hheld.symm rfl hnot

theorem callStep_keepsHandles (hown : ∀ child ∈ C.held, child = i)
    (hworking : C.caller = .working → C = startedCall) {move : CallMove}
    (h : callStep i C move = some next) : KeepsHandles i C next := by
  have hnot : C.reaper ≠ .receiving ∨ C.childChannel ≠ none → C.caller ≠ .working := by
    intro hbusy hcaller
    rw [hworking hcaller] at hbusy
    exact hbusy.elim (fun h => h rfl) fun h => h rfl
  cases move with
  | run world =>
    simp only [callStep] at h
    split at h
    · next hcaller =>
      obtain rfl := hworking hcaller
      obtain rfl := Option.some.inj h
      exact run_keepsHandles i world
    · cases h
  | callerReceives =>
    simp only [callStep] at h
    split at h
    · next hcaller _ =>
      obtain rfl := Option.some.inj h
      exact receive_keepsHandles hown hcaller _ _
    · cases h
  | callerTimesOut =>
    simp only [callStep] at h
    split at h
    · next hcaller _ _ =>
      obtain rfl := Option.some.inj h
      refine .of_quiet hown rfl ?_ nofun
      simp [Cleanup.finish, Cleanup.handedOver, hcaller]
    · next hcaller _ _ =>
      obtain rfl := Option.some.inj h
      refine .of_quiet hown rfl ?_ nofun
      simp [Cleanup.finish, Cleanup.handedOver, hcaller]
    · cases h
  | reaperReceives =>
    simp only [callStep] at h
    split at h
    · next child hreaper hchannel =>
      obtain rfl := Option.some.inj h
      refine .of_quiet hown ?_ rfl (hnot (.inr (by rw [hchannel]; exact Option.some_ne_none _)))
      rw [Cleanup.held, Cleanup.held, hreaper, hchannel]
      rfl
    · cases h
  | reaperPolls answer =>
    simp only [callStep] at h
    split at h
    · next hreaper =>
      obtain rfl := Option.some.inj h
      exact poll_keepsHandles hown hreaper (hnot (.inl (by rw [hreaper]; nofun))) answer
    · cases h
  | reaperKills answer =>
    simp only [callStep] at h
    split at h
    · next hreaper =>
      obtain rfl := Option.some.inj h
      exact kill_keepsHandles hown hreaper (hnot (.inl (by rw [hreaper]; nofun))) answer
    · cases h
  | reaperChecks expired =>
    simp only [callStep] at h
    split at h
    · next hreaper =>
      obtain rfl := Option.some.inj h
      exact check_keepsHandles hown hreaper (hnot (.inl (by rw [hreaper]; nofun))) expired
    · cases h
  | reaperLearns =>
    simp only [callStep] at h
    split at h
    · next hreaper _ =>
      obtain rfl := Option.some.inj h
      refine .of_quiet hown ?_ rfl (hnot (.inl (by rw [hreaper]; nofun)))
      rw [Cleanup.held, Cleanup.held, hreaper]
      rfl
    · cases h

end CallSteps
section Sweeps
variable {ι : Type*} [DecidableEq ι] {waits : ι → WaitAnswer} {kills : ι → Except String Unit}
  {children : List ι} {child : ι}

@[simp] theorem endings_nil (c : ι) : endings ([] : List (LogEntry ι)) c = 0 := rfl

@[simp] theorem endings_append (log entries : List (LogEntry ι)) (c : ι) :
    endings (log ++ entries) c = endings log c + endings entries c := List.countP_append

theorem endings_eq_zero {log : List (LogEntry ι)} {c : ι} (h : ∀ entry ∈ log, entry.about ≠ c) :
    endings log c = 0 :=
  List.countP_eq_zero.mpr fun entry hentry => by simp [h entry hentry]

theorem endings_pos {log : List (LogEntry ι)} {entry : LogEntry ι} (h : entry ∈ log)
    (hends : entry.ends = true) : 0 < endings log entry.about :=
  List.countP_pos_iff.mpr ⟨entry, h, by simp [hends]⟩

theorem endings_cons (entry : LogEntry ι) (log : List (LogEntry ι)) (c : ι) :
    endings (entry :: log) c =
      endings log c + if entry.about = c ∧ entry.ends = true then 1 else 0 := by
  rw [endings, List.countP_cons]
  by_cases habout : entry.about = c <;> simp [endings, habout]

/-- What the sweep does to one child it asks. -/
def askedEntries (waits : ι → WaitAnswer) (kills : ι → Except String Unit) (child : ι) :
    List (LogEntry ι) :=
  .polled child (waits child) ::
    if waits child = .running then [.killed child (kills child)] else []

theorem endings_asked (asked : List ι) (c : ι) :
    endings (asked.flatMap (askedEntries waits kills)) c =
      if waits c = .exited then asked.count c else 0 := by
  induction asked with
  | nil => simp
  | cons other asked ih =>
    have hone : endings (askedEntries waits kills other) c =
        if waits other = .exited ∧ other = c then 1 else 0 := by
      rw [askedEntries, endings_cons]
      cases hwait : waits other <;> simp [endings_cons, LogEntry.about, LogEntry.ends, and_comm]
    rw [List.flatMap_cons, endings_append, ih, hone, List.count_cons]
    by_cases hother : other = c
    · subst hother
      split_ifs <;> simp_all [Nat.add_comm]
    · simp [hother]

/-- A child that a sweep asks is retained, or its exit is on record. -/
theorem sweepChildren_count (waits : ι → WaitAnswer) (kills : ι → Except String Unit)
    (children : List ι) (c : ι) :
    (sweepChildren waits kills children).1.count c +
      endings (sweepChildren waits kills children).2 c = children.count c := by
  obtain ⟨hkept, hasked⟩ := sweep_perm (fun child => decide (waits child = .exited)) children
  have hendings : endings (sweepChildren waits kills children).2 c =
      if waits c = .exited then children.count c else 0 := by
    rw [← hasked.count_eq]
    exact endings_asked _ c
  rw [hendings, sweepChildren, hkept.count_eq]
  split_ifs with hexited
  · rw [List.count_eq_zero_of_not_mem, Nat.zero_add]
    simp [List.mem_filter, hexited]
  · rw [List.count_filter (by simpa using hexited), Nat.add_zero]

theorem sweepChildren_length (waits : ι → WaitAnswer) (kills : ι → Except String Unit)
    (children : List ι) : (sweepChildren waits kills children).1.length ≤ children.length := by
  obtain ⟨hkept, -⟩ := sweep_perm (fun child => decide (waits child = .exited)) children
  rw [sweepChildren, hkept.length_eq]
  exact List.length_filter_le _ _

theorem sweepChildren_about {entry : LogEntry ι} (h : entry ∈ (sweepChildren waits kills children).2) :
    entry.about ∈ children ∧ ∀ c, entry ≠ .dropped c := by
  obtain ⟨-, hasked⟩ := sweep_perm (fun child => decide (waits child = .exited)) children
  obtain ⟨other, hother, hentry⟩ := List.mem_flatMap.mp h
  have hmem := hasked.mem_iff.mp hother
  rcases List.mem_cons.mp hentry with rfl | hkilled
  · exact ⟨hmem, nofun⟩
  · split_ifs at hkilled
    · rw [List.mem_singleton.mp hkilled]
      exact ⟨hmem, nofun⟩
    · cases hkilled

theorem sweepChildren_retains {c : ι} (h : c ∈ children) :
    c ∈ (sweepChildren waits kills children).1 ∨
      .polled c .exited ∈ (sweepChildren waits kills children).2 := by
  obtain ⟨hkept, hasked⟩ := sweep_perm (fun child => decide (waits child = .exited)) children
  by_cases hexited : waits c = .exited
  · refine .inr (List.mem_flatMap.mpr ⟨c, hasked.mem_iff.mpr h, ?_⟩)
    rw [hexited]
    exact List.mem_cons_self
  · exact .inl (hkept.mem_iff.mpr (List.mem_filter.mpr ⟨h, by simpa using hexited⟩))

/-- What the quarantine does with a child it receives. -/
structure Pushes (children : List ι) (child : ι) (pushed : List ι × Bool × List (LogEntry ι)) :
    Prop where
  counted : ∀ c, pushed.1.count c + endings pushed.2.2 c =
    children.count c + if child = c then 1 else 0
  about : ∀ entry ∈ pushed.2.2, entry.about = child ∨ entry.about ∈ children
  bounded : children.length ≤ SECURITY_CHILD_QUARANTINE_CAPACITY →
    pushed.1.length ≤ SECURITY_CHILD_QUARANTINE_CAPACITY
  full : ∀ c, .dropped c ∈ pushed.2.2 → SECURITY_CHILD_QUARANTINE_CAPACITY ≤ pushed.1.length
  retains : ∀ c ∈ children, c ∈ pushed.1 ∨ .polled c .exited ∈ pushed.2.2

theorem pushChild_pushes (waits : ι → WaitAnswer) (kills : ι → Except String Unit)
    (children : List ι) (child : ι) :
    Pushes children child (pushChild waits kills children child) := by
  have hcount := sweepChildren_count waits kills children
  have hlength := sweepChildren_length waits kills children
  have habout : ∀ entry ∈ (sweepChildren waits kills children).2,
      entry.about ∈ children ∧ ∀ c, entry ≠ .dropped c := fun _ => sweepChildren_about
  have hretains : ∀ c ∈ children, c ∈ (sweepChildren waits kills children).1 ∨
      .polled c .exited ∈ (sweepChildren waits kills children).2 := fun _ => sweepChildren_retains
  unfold pushChild
  generalize sweepChildren waits kills children = swept at hcount hlength habout hretains
  dsimp only
  split_ifs with hfull
  · refine ⟨fun c => ?_, fun entry hentry => ?_, Nat.le_trans hlength, fun _ _ => hfull,
      fun c hc => (hretains c hc).imp_right (List.mem_append_left _)⟩
    · have hone : endings [LogEntry.dropped child] c = if child = c then 1 else 0 := by
        simp [endings_cons, LogEntry.about, LogEntry.ends]
      rw [endings_append, hone, ← Nat.add_assoc, hcount]
    · rcases List.mem_append.mp hentry with hswept | hdropped
      · exact .inr (habout entry hswept).1
      · rw [List.mem_singleton.mp hdropped]
        exact .inl rfl
  · refine ⟨fun c => ?_, fun entry hentry => .inr (habout entry hentry).1, fun hle => ?_,
      fun c hdropped => absurd rfl ((habout _ hdropped).2 c),
      fun c hc => (hretains c hc).imp_left (List.mem_append_left _)⟩
    · have hadd := hcount c
      rw [List.count_append, List.count_singleton]
      simp only [beq_iff_eq]
      omega
    · rw [List.length_append, List.length_singleton]
      omega

end Sweeps
end Keychain
