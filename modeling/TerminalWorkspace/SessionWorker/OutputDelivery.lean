import TerminalWorkspace.SessionWorker.OutputLoop

/-! When output is only delayed: in every run in which the loop stops looking at its reader only
once it has all of the reader's bytes, and reports the end of the process only once they are
emitted. -/
namespace SessionWorker
open Runs Utf8

def JumpSessionEvent.bytes : JumpSessionEvent → List UInt8
  | .output bytes => bytes
  | _ => []

/-- The error notice, the states it is sent with or after, and the end of the stream. -/
def Emitted.IsNotice : Emitted → Prop
  | .output _ => False
  | .error _ => True
  | .status state => state ≠ "connected"
  | .closed => True

instance (emitted : Emitted) : Decidable emitted.IsNotice := by
  cases emitted <;> simp only [Emitted.IsNotice] <;> infer_instance

def Emitted.text : Emitted → List Char
  | .output text => text
  | _ => []

def outputText (emitted : List Emitted) : List Char := emitted.flatMap Emitted.text

@[simp] theorem outputText_append (first second : List Emitted) :
    outputText (first ++ second) = outputText first ++ outputText second := List.flatMap_append

namespace Loop
variable (l : Loop)

/-- The bytes that wait in the channel. -/
def queued : List UInt8 := l.events.flatMap JumpSessionEvent.bytes

/-- The loop will not look at its reader again. -/
def Leaving : Prop :=
  match l.phase with
  | .commands | .events => False
  | .child | .flush | .idle => l.shouldClose = true
  | _ => True

/-- The worker reports the state of its process. -/
def Reports : ChildStatus → Prop
  | .running => False
  | .exited success _ => success = false ∧ l.reportedError = false
  | .failed _ => True

instance : Decidable l.Leaving := by
  unfold Leaving
  split <;> infer_instance

instance (status : ChildStatus) : Decidable (l.Reports status) := by
  cases status <;> simp only [Reports] <;> infer_instance

end Loop

/-- No close command comes. Where the loop leaves, because the process has ended, a write has
failed or the command channel is gone, no byte is in the channel and none is sent any more; and
a report on the process finds the coalescer empty. -/
def Timely (l : Loop) : LoopAction → Prop
  | .command command => command ≠ .close
  | .readerSends event => event.bytes = [] ∨ l.readerEnded = true ∨ ¬ l.Leaving
  | .pollCommand (.error _) => l.phase = .commands → l.commands ≠ [] → l.queued = []
  | .tryWait status => l.phase = .child → status ≠ .running →
      l.queued = [] ∧ (l.Reports status → l.coalescer.Empty)
  | .idle answer => l.phase = .idle →
      (l.commands = [] ∧ l.commandsDropped = true ∨ l.commands ≠ [] ∧ answer ≠ .ok ()) →
        l.queued = []
  | _ => True

instance (l : Loop) (action : LoopAction) : Decidable (Timely l action) := by
  unfold Timely
  split <;> infer_instance

/-- Nothing has been reported; what was sent has been emitted, or is in the coalescer or in the
channel. -/
def Loop.Open (l : Loop) : Prop :=
  (∀ e ∈ l.emitted, ¬ e.IsNotice) ∧
    ∃ received, l.sent = received ++ l.queued ∧ l.coalescer.Holds received (outputText l.emitted)

/-- Everything sent has been emitted, before any notice. -/
def Loop.Done (l : Loop) : Prop :=
  l.coalescer.Empty ∧ ∃ output rest, l.emitted = output ++ rest ∧
    (∀ e ∈ output, ¬ e.IsNotice) ∧ (∀ e ∈ rest, e.text = []) ∧
      outputText output = decodeLossy l.sent

/-- The reader's last event is its end. -/
def Loop.ReaderOrder (l : Loop) : Prop :=
  ∀ before event after, l.events = before ++ event :: after → event.bytes = [] →
    after = [] ∧ l.readerEnded = true

def LoopPhase.Running : LoopPhase → Prop
  | .failed _ | .disconnecting | .closing | .ended => False
  | _ => True

/-- What holds in every state of a timely run. -/
structure Sound (l : Loop) : Prop where
  order : l.ReaderOrder
  noClose : .close ∉ l.commands
  left : l.Leaving → l.queued = []
  delivered : l.Open ∧ l.phase.Running ∨ l.Done ∧ l.Leaving

theorem sound_initial (exitLabel : String) : Sound (.initial exitLabel) where
  order before event after h := absurd h (by simp [Loop.initial])
  noClose := nofun
  left := nofun
  delivered := by
    refine .inl ⟨⟨?_, [], rfl, OutputCoalescer.holds_new _ _⟩, trivial⟩
    intro e he
    obtain rfl := List.mem_singleton.mp he
    exact fun hnotice => hnotice rfl

variable {l : Loop}

/-- The text comes first, the notices after it. -/
theorem Loop.Done.ordered (h : l.Done) {before after : List Emitted} {notice : Emitted}
    (hemitted : l.emitted = before ++ notice :: after) (hnotice : notice.IsNotice) :
    outputText before = decodeLossy l.sent := by
  obtain ⟨-, output, rest, hsplit, hquiet, hsilent, htext⟩ := h
  rw [hsplit] at hemitted
  rcases List.append_eq_append_iff.mp hemitted with ⟨middle, rfl, hrest⟩ | ⟨middle, hout, hrest⟩
  · have hmiddle : outputText middle = [] := List.flatMap_eq_nil_iff.mpr fun e he =>
      hsilent e (hrest ▸ List.mem_append_left _ he)
    rw [outputText_append, hmiddle, List.append_nil, htext]
  · cases middle with
    | nil =>
      rw [List.append_nil] at hout
      exact hout ▸ htext
    | cons e middle =>
      obtain ⟨rfl, -⟩ := List.cons.inj hrest
      exact absurd hnotice (hquiet _ (hout ▸ List.mem_append_right _ List.mem_cons_self))

theorem Loop.Done.complete (h : l.Done) : outputText l.emitted = decodeLossy l.sent := by
  obtain ⟨-, output, rest, hsplit, -, hsilent, htext⟩ := h
  have hrest : outputText rest = [] := List.flatMap_eq_nil_iff.mpr hsilent
  rw [hsplit, outputText_append, htext, hrest, List.append_nil]

theorem Loop.Done.emit (h : l.Done) {notices : List Emitted} (hsilent : ∀ e ∈ notices, e.text = []) :
    (l.emit notices).Done := by
  obtain ⟨hempty, output, rest, hsplit, hquiet, hrest, htext⟩ := h
  refine ⟨hempty, output, rest ++ notices, ?_, hquiet, ?_, htext⟩
  · rw [Loop.emit, hsplit, List.append_assoc]
  · intro e he
    rcases List.mem_append.mp he with he | he
    · exact hrest e he
    · exact hsilent e he

theorem reportError_silent (message : String) :
    ∀ e ∈ [Emitted.error message, .status "error"], e.text = [] := by
  intro e he
  simp only [List.mem_cons, List.not_mem_nil, or_false] at he
  rcases he with rfl | rfl <;> rfl

/-- The coalescer emits no notice. -/
theorem Loop.quiet_withCoalescer (hquiet : ∀ e ∈ l.emitted, ¬ e.IsNotice)
    (result : Option (List Char) × OutputCoalescer) :
    ∀ e ∈ (l.withCoalescer result).emitted, ¬ e.IsNotice := by
  intro e he
  rcases List.mem_append.mp he with he | he
  · exact hquiet e he
  · cases hr : result.1 with
    | none =>
      rw [hr] at he
      cases he
    | some text =>
      rw [hr] at he
      obtain rfl := List.mem_singleton.mp he
      exact id

theorem Loop.outputText_withCoalescer (result : Option (List Char) × OutputCoalescer) :
    outputText (l.withCoalescer result).emitted = outputText l.emitted ++ result.1.getD [] := by
  simp only [Loop.withCoalescer, outputText_append]
  refine congrArg _ ?_
  cases result.1 with
  | none => rfl
  | some text => exact List.append_nil text

/-- An operation of the coalescer, all of whose text is emitted. -/
theorem Loop.open_withCoalescer (hnotices : ∀ e ∈ l.emitted, ¬ e.IsNotice)
    {result : Option (List Char) × OutputCoalescer} {received : List UInt8} (hsent : l.sent = received ++ l.queued)
    (hholds : result.2.Holds received (outputText l.emitted ++ result.1.getD [])) :
    (l.withCoalescer result).Open := by
  refine ⟨Loop.quiet_withCoalescer hnotices result, received, hsent, ?_⟩
  rw [Loop.outputText_withCoalescer]
  exact hholds

/-- The last flush, with nothing left in the channel. -/
theorem Loop.Open.finishOutput (h : l.Open) (hqueued : l.queued = []) : l.finishOutput.Done := by
  obtain ⟨hquiet, received, hsent, hholds⟩ := h
  rw [hqueued, List.append_nil] at hsent
  subst hsent
  obtain ⟨htext, hempty⟩ := hholds.finish
  refine ⟨hempty, l.finishOutput.emitted, [], (List.append_nil _).symm,
    Loop.quiet_withCoalescer hquiet _, nofun, ?_⟩
  exact (Loop.outputText_withCoalescer _).trans htext

theorem Loop.Done.finishOutput (h : l.Done) : l.finishOutput.Done := by
  obtain ⟨hempty, hrest⟩ := h
  obtain ⟨hnone, hempty⟩ := hempty.finish
  refine ⟨hempty, ?_⟩
  simpa [Loop.finishOutput, Loop.withCoalescer, hnone] using hrest

theorem Loop.Done.pollFlush (h : l.Done) (now : ℕ) :
    (l.withCoalescer (l.coalescer.pollFlush now)).Done := by
  obtain ⟨hempty, hrest⟩ := h
  obtain ⟨hnone, hempty⟩ := hempty.pollFlush now
  refine ⟨hempty, ?_⟩
  simpa [Loop.withCoalescer, hnone] using hrest

/-- With nothing in the channel or in the coalescer everything has been emitted. -/
theorem Loop.Open.done (h : l.Open) (hqueued : l.queued = []) (hempty : l.coalescer.Empty) :
    l.Done := by
  obtain ⟨hquiet, received, hsent, hholds⟩ := h
  rw [hqueued, List.append_nil] at hsent
  subst hsent
  exact ⟨hempty, l.emitted, [], (List.append_nil _).symm, hquiet, nofun, hholds.complete hempty⟩

theorem Loop.ReaderOrder.append {l : Loop} (h : l.ReaderOrder) (hended : l.readerEnded ≠ true)
    {event : JumpSessionEvent} {ended : Bool} (hevent : event.bytes = [] → ended = true) :
    ∀ before other after, l.events ++ [event] = before ++ other :: after → other.bytes = [] →
      after = [] ∧ ended = true := by
  intro before other after hsplit hbytes
  rcases List.eq_nil_or_concat after with rfl | ⟨init, last, rfl⟩
  · obtain ⟨-, rfl⟩ := List.append_inj' hsplit rfl |>.imp id List.singleton_inj.mp
    exact ⟨rfl, hevent hbytes⟩
  · -- an earlier end of the reader contradicts that it still sends
    rw [List.concat_eq_append, ← List.cons_append, ← List.append_assoc] at hsplit
    have hearlier := (List.append_inj' hsplit rfl).1
    exact absurd (h before other init hearlier hbytes).2 hended

theorem Loop.ReaderOrder.tail {l : Loop} (h : l.ReaderOrder) {event : JumpSessionEvent}
    {rest : List JumpSessionEvent} (hevents : l.events = event :: rest) :
    ∀ before other after, rest = before ++ other :: after → other.bytes = [] →
      after = [] ∧ l.readerEnded = true := fun before other after hrest =>
  h (event :: before) other after (by rw [hevents, hrest, List.cons_append])

/-- The event with which the reader ends leaves the channel empty. -/
theorem Loop.ReaderOrder.end_rest {l : Loop} (h : l.ReaderOrder) {event : JumpSessionEvent}
    {rest : List JumpSessionEvent} (hevents : l.events = event :: rest) (hbytes : event.bytes = []) :
    rest = [] := (h [] event rest hevents hbytes).1

theorem handleCommand_ok {command : NativeSessionCommand} (h : command ≠ .close) :
    l.handleCommand command (.ok ()) = l := by
  cases command with
  | close => exact absurd rfl h
  | _ => rfl

theorem handleCommand_error {command : NativeSessionCommand} (h : command ≠ .close)
    (error : String) : l.handleCommand command (.error error) =
      { l.finishOutput with phase := .failed error } := by
  cases command with
  | close => exact absurd rfl h
  | _ => rfl

theorem Sound.readerSends (h : Sound l) {event : JumpSessionEvent}
    (htimely : Timely l (.readerSends event)) : Sound (l.readerSends event) := by
  by_cases hended : l.readerEnded = true
  · simpa only [Loop.readerSends, hended, if_true] using h
  -- an event without bytes changes neither what was sent nor what is queued
  have hquiet : event.bytes = [] →
      Sound { l with events := l.events ++ [event], readerEnded := true } := by
    intro hbytes
    have hqueued : { l with events := l.events ++ [event], readerEnded := true }.queued =
        l.queued := by
      simp [Loop.queued, hbytes]
    refine ⟨h.order.append hended fun _ => rfl, h.noClose,
      fun hleaving => hqueued.trans (h.left hleaving), ?_⟩
    rcases h.delivered with ⟨⟨hnotices, received, hsent, hholds⟩, hrunning⟩ | hdone
    · exact .inl ⟨⟨hnotices, received, hqueued ▸ hsent, hholds⟩, hrunning⟩
    · exact .inr hdone
  have hended' : Sound { l with readerEnded := true } :=
    ⟨fun before other after hsplit hbytes => ⟨(h.order before other after hsplit hbytes).1, rfl⟩,
      h.noClose, h.left, h.delivered⟩
  simp only [Loop.readerSends, if_neg hended]
  cases event with
  | output bytes =>
    simp only
    split_ifs with hbytes hreceives hlength
    · exact h
    · have hstays : ¬ l.Leaving := (htimely.resolve_left hbytes).resolve_left hended
      refine ⟨h.order.append hended fun hnone => absurd hnone hbytes, h.noClose,
        fun hleaving => absurd hleaving hstays, ?_⟩
      obtain ⟨⟨hnotices, received, hsent, hholds⟩, hrunning⟩ :=
        h.delivered.resolve_right fun hdone => hstays hdone.2
      refine .inl ⟨⟨hnotices, received, ?_, hholds⟩, hrunning⟩
      simp [Loop.queued, hsent, JumpSessionEvent.bytes]
    · exact h
    · have hstays : ¬ l.Leaving := (htimely.resolve_left hbytes).resolve_left hended
      -- a worker that does not receive has left its loop
      refine absurd ?_ hstays
      cases hphase : l.phase <;> simp [Loop.receives, hphase] at hreceives <;>
        simp [Loop.Leaving, hphase]
  | eof =>
    simp only
    split_ifs
    · exact hquiet rfl
    · exact h
    · exact hended'
  | error message =>
    simp only
    split_ifs
    · exact hquiet rfl
    · exact h
    · exact hended'

theorem Sound.finishOutput (h : Sound l) (hqueued : l.queued = []) : l.finishOutput.Done := by
  rcases h.delivered with ⟨hopen, -⟩ | ⟨hdone, -⟩
  · exact hopen.finishOutput hqueued
  · exact hdone.finishOutput

theorem Sound.pollCommand (h : Sound l) (hphase : l.phase = .commands)
    {answer : Except String Unit} (htimely : Timely l (.pollCommand answer)) :
    Sound (l.pollCommand answer) := by
  have hstays : ¬ l.Leaving := by simp [Loop.Leaving, hphase]
  obtain ⟨hopen, -⟩ := h.delivered.resolve_right fun hdone => hstays hdone.2
  simp only [Loop.pollCommand]
  split
  · exact ⟨h.order, h.noClose, nofun, .inl ⟨hopen, trivial⟩⟩
  · next hcommands => exact absurd (hcommands ▸ List.mem_cons_self) h.noClose
  · next command rest hclose hcommands =>
    have hrest : .close ∉ rest := fun hmem =>
      h.noClose (hcommands ▸ List.mem_cons_of_mem _ hmem)
    cases answer with
    | ok =>
      rw [handleCommand_ok hclose]
      refine ⟨h.order, hrest, fun hleaving => absurd hleaving hstays, .inl ⟨hopen, ?_⟩⟩
      simp [LoopPhase.Running, hphase]
    | error error =>
      have hqueued := htimely hphase (by simp [hcommands])
      rw [handleCommand_error hclose]
      exact ⟨h.order, hrest, fun _ => hqueued, .inr ⟨hopen.finishOutput hqueued, trivial⟩⟩

theorem Sound.pollEvent (h : Sound l) (hphase : l.phase = .events) (now : ℕ) :
    Sound (l.pollEvent now) := by
  have hstays : ¬ l.Leaving := by simp [Loop.Leaving, hphase]
  obtain ⟨hopen, -⟩ := h.delivered.resolve_right fun hdone => hstays hdone.2
  simp only [Loop.pollEvent]
  split
  · next hevents =>
    have hqueued : l.queued = [] := by simp [Loop.queued, hevents]
    exact ⟨h.order, h.noClose, fun _ => hqueued, .inl ⟨hopen, trivial⟩⟩
  · next bytes rest hevents =>
    obtain ⟨hnotices, received, hsent, hholds⟩ := hopen
    have hqueued : l.queued = bytes ++ rest.flatMap JumpSessionEvent.bytes := by
      simp [Loop.queued, hevents, JumpSessionEvent.bytes]
    rw [hqueued, ← List.append_assoc] at hsent
    refine ⟨h.order.tail hevents, h.noClose, fun hleaving => absurd hleaving hstays, .inl ⟨?_, ?_⟩⟩
    · exact Loop.open_withCoalescer (l := { l with events := rest, didWork := true })
        hnotices hsent (hholds.push bytes now)
    · simp [LoopPhase.Running, Loop.withCoalescer, hphase]
  · next error rest hevents =>
    obtain rfl := h.order.end_rest hevents rfl
    have hqueued : l.queued = [] := by simp [Loop.queued, hevents, JumpSessionEvent.bytes]
    have hrest : { l with events := [] }.Open := by
      obtain ⟨hnotices, received, hsent, hholds⟩ := hopen
      rw [hqueued] at hsent
      exact ⟨hnotices, received, hsent, hholds⟩
    refine ⟨h.order.tail hevents, h.noClose, fun _ => rfl, .inr ⟨?_, rfl⟩⟩
    exact (hrest.finishOutput rfl).emit (reportError_silent error)
  · next rest hevents =>
    obtain rfl := h.order.end_rest hevents rfl
    have hqueued : l.queued = [] := by simp [Loop.queued, hevents, JumpSessionEvent.bytes]
    obtain ⟨hnotices, received, hsent, hholds⟩ := hopen
    rw [hqueued] at hsent
    exact ⟨h.order.tail hevents, h.noClose, fun _ => rfl,
      .inl ⟨⟨hnotices, received, hsent, hholds⟩, trivial⟩⟩

theorem Sound.tryWait (h : Sound l) (hphase : l.phase = .child) {status : ChildStatus}
    (htimely : Timely l (.tryWait status)) : Sound (l.tryWait status) := by
  have hstatus := htimely hphase
  cases status with
  | running =>
    refine ⟨h.order, h.noClose, fun hleaving => h.left ?_, ?_⟩
    · simpa [Loop.Leaving, hphase, Loop.tryWait] using hleaving
    · refine h.delivered.imp (fun hopen => ⟨hopen.1, trivial⟩) fun hdone => ⟨hdone.1, ?_⟩
      simpa [Loop.Leaving, hphase, Loop.tryWait] using hdone.2
  | exited success status =>
    obtain ⟨hqueued, hempty⟩ := hstatus (by simp)
    by_cases hreports : success = false ∧ l.reportedError = false
    · have hdone : l.Done := by
        rcases h.delivered with ⟨hopen, -⟩ | ⟨hdone, -⟩
        · exact hopen.done hqueued (hempty hreports)
        · exact hdone
      have hreported := hdone.emit (reportError_silent (l.exitNotice status))
      simp only [Loop.tryWait, hreports, Bool.not_false, Bool.and_self, if_true]
      exact ⟨h.order, h.noClose, fun _ => hqueued, .inr ⟨hreported, rfl⟩⟩
    · have hskip : (!success && !l.reportedError) = false := by
        simpa [Bool.and_eq_false_iff, imp_iff_not_or] using hreports
      simp only [Loop.tryWait, hskip, Bool.false_eq_true, if_false]
      exact ⟨h.order, h.noClose, fun _ => hqueued, h.delivered.imp
        (fun hopen => ⟨hopen.1, trivial⟩) fun hdone => ⟨hdone.1, rfl⟩⟩
  | failed error =>
    obtain ⟨hqueued, hempty⟩ := hstatus (by simp)
    have hdone : l.Done := by
      rcases h.delivered with ⟨hopen, -⟩ | ⟨hdone, -⟩
      · exact hopen.done hqueued (hempty trivial)
      · exact hdone
    exact ⟨h.order, h.noClose, fun _ => hqueued,
      .inr ⟨hdone.emit (reportError_silent error), rfl⟩⟩

theorem Sound.nextRound (h : Sound l) (hleaving : l.Leaving → l.shouldClose = true)
    (hqueued : l.shouldClose = true → l.queued = []) : Sound l.nextRound := by
  simp only [Loop.nextRound]
  split_ifs with hclose
  · exact ⟨h.order, h.noClose, fun _ => hqueued hclose, h.delivered.imp
      (fun hopen => ⟨hopen.1, trivial⟩) fun hdone => ⟨hdone.1, trivial⟩⟩
  · refine ⟨h.order, h.noClose, nofun, ?_⟩
    rcases h.delivered with hopen | hdone
    · exact .inl ⟨hopen.1, trivial⟩
    · exact absurd (hleaving hdone.2) hclose

theorem Sound.pollFlush (h : Sound l) (hphase : l.phase = .flush) (now : ℕ) :
    Sound (l.pollFlush now) := by
  have hleaving : l.Leaving ↔ l.shouldClose = true := by simp [Loop.Leaving, hphase]
  have hflushed : Sound (l.withCoalescer (l.coalescer.pollFlush now)) := by
    refine ⟨h.order, h.noClose, h.left, ?_⟩
    rcases h.delivered with ⟨⟨hnotices, received, hsent, hholds⟩, hrunning⟩ | hdone
    · exact .inl ⟨Loop.open_withCoalescer hnotices hsent (hholds.pollFlush now), hrunning⟩
    · exact .inr ⟨hdone.1.pollFlush now, hdone.2⟩
  simp only [Loop.pollFlush]
  split_ifs with hidle
  · have hclose : l.shouldClose = false :=
      Bool.not_eq_true' _ |>.mp ((Bool.and_eq_true _ _).mp hidle).2
    refine ⟨h.order, h.noClose, fun hl => ?_, ?_⟩
    · rw [show l.shouldClose = true from hl] at hclose
      cases hclose
    · rcases hflushed.delivered with hopen | hdone
      · exact .inl ⟨hopen.1, trivial⟩
      · have hl : l.shouldClose = true := hleaving.mp hdone.2
        rw [hl] at hclose
        cases hclose
  · exact hflushed.nextRound hleaving.mp fun hclose => h.left (hleaving.mpr hclose)

theorem Sound.idle (h : Sound l) (hphase : l.phase = .idle) {answer : Except String Unit}
    (htimely : Timely l (.idle answer)) : Sound (l.idle answer) := by
  have hleaving : l.Leaving ↔ l.shouldClose = true := by simp [Loop.Leaving, hphase]
  have hqueued := htimely hphase
  simp only [Loop.idle]
  split
  · next hcommands =>
    have hclosed : (l.shouldClose || l.commandsDropped) = true → l.queued = [] := by
      intro hclose
      rcases (Bool.or_eq_true _ _).mp hclose with hclose | hdropped
      · exact h.left (hleaving.mpr hclose)
      · exact hqueued (.inl ⟨hcommands, hdropped⟩)
    refine Sound.nextRound ⟨h.order, h.noClose, fun hl => hclosed ?_, ?_⟩ ?_ hclosed
    · simpa [Loop.Leaving, hphase] using hl
    · refine h.delivered.imp id fun hdone => ⟨hdone.1, ?_⟩
      simp [Loop.Leaving, hphase, hleaving.mp hdone.2]
    · intro hl
      simpa [Loop.Leaving, hphase] using hl
  · next command rest hcommands =>
    have hrest : .close ∉ rest := fun hmem =>
      h.noClose (hcommands ▸ List.mem_cons_of_mem _ hmem)
    have hclose : command ≠ .close := fun hc =>
      h.noClose (hcommands ▸ hc ▸ List.mem_cons_self)
    cases answer with
    | ok =>
      rw [handleCommand_ok hclose, if_pos hphase]
      exact Sound.nextRound ⟨h.order, hrest, h.left, h.delivered⟩ hleaving.mp fun hclose =>
        h.left (hleaving.mpr hclose)
    | error error =>
      have hqueued := hqueued (.inr ⟨by simp [hcommands], nofun⟩)
      rw [handleCommand_error hclose, if_neg nofun]
      exact ⟨h.order, hrest, fun _ => hqueued, .inr ⟨h.finishOutput hqueued, trivial⟩⟩

/-- A loop that has left may report what it likes. -/
theorem Sound.report (h : Sound l) (hleft : l.Leaving ∧ ¬ l.phase.Running) {notices : List Emitted}
    (hsilent : ∀ e ∈ notices, e.text = []) {phase : LoopPhase}
    (hphase : { l.emit notices with phase := phase }.Leaving) :
    Sound { l.emit notices with phase := phase } := by
  have hdone := (h.delivered.resolve_left fun hopen => hleft.2 hopen.2).1
  exact ⟨h.order, h.noClose, fun _ => h.left hleft.1, .inr ⟨hdone.emit hsilent, hphase⟩⟩

/-- Every timely step keeps the invariant. -/
theorem Sound.step (h : Sound l) {action : LoopAction} (htimely : Timely l action) :
    Sound (loopStep l action) := by
  cases action with
  | readerSends event => exact h.readerSends htimely
  | command command =>
    simp only [loopStep]
    split_ifs
    · exact h
    · refine ⟨h.order, fun hmem => ?_, h.left, h.delivered⟩
      rcases List.mem_append.mp hmem with hmem | hmem
      · exact h.noClose hmem
      · exact htimely (List.mem_singleton.mp hmem).symm
  | dropCommands => exact ⟨h.order, h.noClose, h.left, h.delivered⟩
  | pollCommand answer =>
    simp only [loopStep]
    split_ifs with hphase
    · exact h.pollCommand hphase htimely
    · exact h
  | pollEvent now =>
    simp only [loopStep]
    split_ifs with hphase
    · exact h.pollEvent hphase now
    · exact h
  | tryWait status =>
    simp only [loopStep]
    split_ifs with hphase
    · exact h.tryWait hphase htimely
    · exact h
  | pollFlush now =>
    simp only [loopStep]
    split_ifs with hphase
    · exact h.pollFlush hphase now
    · exact h
  | idle answer =>
    simp only [loopStep]
    split_ifs with hphase
    · exact h.idle hphase htimely
    · exact h
  | finish =>
    simp only [loopStep]
    split_ifs with hphase
    · have hqueued := h.left (by simp [Loop.Leaving, hphase])
      exact ⟨h.order, h.noClose, fun _ => hqueued, .inr ⟨h.finishOutput hqueued, trivial⟩⟩
    · exact h
  | report =>
    simp only [loopStep]
    split
    · next error hphase =>
      have hleft : l.Leaving ∧ ¬ l.phase.Running := by
        simp [Loop.Leaving, LoopPhase.Running, hphase]
      exact h.report hleft (reportError_silent error) trivial
    · exact h
  | disconnect =>
    simp only [loopStep]
    split_ifs with hphase
    · have hleft : l.Leaving ∧ ¬ l.phase.Running := by
        simp [Loop.Leaving, LoopPhase.Running, hphase]
      exact h.report hleft (fun e he => List.mem_singleton.mp he ▸ rfl) trivial
    · exact h
  | close =>
    simp only [loopStep]
    split_ifs with hphase
    · have hleft : l.Leaving ∧ ¬ l.phase.Running := by
        simp [Loop.Leaving, LoopPhase.Running, hphase]
      exact h.report hleft (fun e he => List.mem_singleton.mp he ▸ rfl) trivial
    · exact h

/-- In a timely run everything the reader sends is emitted before the first notice, and by the
time the worker has ended. -/
theorem delivered_run (exitLabel : String) (actions : List LoopAction)
    (htimely : Allowed loopStep Timely (.initial exitLabel) actions) :
    (∀ before notice after,
      (run loopStep (.initial exitLabel) actions).emitted = before ++ notice :: after →
        notice.IsNotice →
          outputText before = decodeLossy (run loopStep (.initial exitLabel) actions).sent) ∧
      ((run loopStep (.initial exitLabel) actions).phase = .ended →
        outputText (run loopStep (.initial exitLabel) actions).emitted =
          decodeLossy (run loopStep (.initial exitLabel) actions).sent) := by
  have hsound : Sound (run loopStep (.initial exitLabel) actions) :=
    run_invariant (fun _ _ h hstep => h.step hstep) (sound_initial exitLabel) htimely
  constructor
  · intro before notice after hemitted hnotice
    rcases hsound.delivered with ⟨hopen, -⟩ | ⟨hdone, -⟩
    · exact absurd hnotice (hopen.1 notice (hemitted ▸ by simp))
    · exact hdone.ordered hemitted hnotice
  · intro hended
    exact (hsound.delivered.resolve_left (by simp [LoopPhase.Running, hended])).1.complete

/-- The loop sees the end of the reader before the end of the process. -/
def lateExit : List LoopAction :=
  [.readerSends (.output [104, 105]), .readerSends .eof, .pollCommand (.ok ()), .pollEvent 0,
    .pollEvent 0, .tryWait .running, .pollFlush 12, .finish, .disconnect, .close]

theorem delivered_run_lateExit :
    (∀ before notice after,
      (run loopStep (.initial "SSH session") lateExit).emitted = before ++ notice :: after →
        notice.IsNotice →
          outputText before = decodeLossy (run loopStep (.initial "SSH session") lateExit).sent) ∧
      ((run loopStep (.initial "SSH session") lateExit).phase = .ended →
        outputText (run loopStep (.initial "SSH session") lateExit).emitted =
          decodeLossy (run loopStep (.initial "SSH session") lateExit).sent) :=
  delivered_run "SSH session" lateExit (by decide +kernel)

/-- The process has failed, and its output is still in the coalescer. -/
def failedProcess : List LoopAction :=
  [.readerSends (.output [104, 105]), .readerSends .eof, .pollCommand (.ok ()), .pollEvent 0,
    .pollEvent 0, .tryWait (.exited false "exit status: 1"), .pollFlush 1, .finish, .disconnect,
    .close]

/-- The process has ended, and its last output is still in the pseudo-terminal. -/
def unreadOutput : List LoopAction :=
  [.readerSends (.output [104]), .pollCommand (.ok ()), .pollEvent 0, .pollEvent 0,
    .tryWait (.exited true "exit status: 0"), .readerSends (.output [105]), .readerSends .eof,
    .pollFlush 1, .finish, .disconnect, .close]

/-- The first run reports the failure before the output; the second closes the stream without
the last byte. -/
theorem not_always_delivered :
    (run loopStep (runExternalCommandSessionLoop "Local shell") failedProcess).emitted =
        [.status "connected"] ++ .error "Local shell exited with status exit status: 1." ::
          [.status "error", .output ['h', 'i'], .status "disconnected", .closed] ∧
      outputText [.status "connected"] ≠ decodeLossy
        (run loopStep (runExternalCommandSessionLoop "Local shell") failedProcess).sent ∧
      (run loopStep runJumpHostSessionLoop unreadOutput).phase = .ended ∧
      outputText (run loopStep runJumpHostSessionLoop unreadOutput).emitted ≠
        decodeLossy (run loopStep runJumpHostSessionLoop unreadOutput).sent := by
  decide +kernel

end SessionWorker
