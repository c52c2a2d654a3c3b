import TerminalWorkspace.Foundation.Indexed
import TerminalWorkspace.SessionWorker.CleanUp

/-! When a worker leaves nothing behind: it has got as far as its set-up, no call attaches a
stream once the worker has taken the last one, and no forward is entered after its sweep. -/
namespace WorkerExit
open SessionStream Runs Indexed

/-- The last thing the worker has produced. -/
def lastProduced : List HistoryEvent → Option MessageBody
  | [] => none
  | .produced message _ :: _ => some message.body
  | .attached _ :: history => lastProduced history

/-- The streams that got a close event, once for each. -/
def closes (sent : List (ℕ × Outgoing)) : List ℕ :=
  sent.filterMap fun event => if event.2 = .close then some event.1 else none

namespace World
variable (w : World)

def Returned : Prop := w.pc = .returned ∧ w.stream.worker = .ended

instance : Decidable w.Returned := inferInstanceAs (Decidable (_ ∧ _))

/-- The session and its forwards are gone, "disconnected" came last, and each stream that was
handed out and not detached was closed once. -/
structure CleanedUp : Prop where
  unregistered : w.stream.registered = false
  forwards : w.forwards = []
  disconnected : ∃ version, lastProduced w.stream.history = some (.status "disconnected" version)
  closed : ∀ streamId, .attached streamId ∈ w.stream.history → streamId ∉ w.detached →
    (closes w.stream.sent).count streamId = 1

/-- The close events sent, and the one the worker is about to send. -/
def closesDue : List ℕ :=
  closes w.stream.sent ++
    match w.stream.worker with
    | .closing streamId => [streamId]
    | _ => []

end World

/-- No stream is attached once the worker has taken the last one; no forward is entered once it
has swept them. -/
def InTime (w : World) : WorkerAction → Prop
  | .attach call => w.stream.calls[call]? = some .opening → w.pc ≠ .returned
  | .insertForward _ =>
    match w.pc with
    | .emitting _ | .closingForwards => True
    | _ => False
  | _ => True

instance (w : World) (action : WorkerAction) : Decidable (InTime w action) := by
  unfold InTime
  repeat' split
  all_goals infer_instance

/-- What the worker has done by the place it has come to. -/
def WorkerPc.Swept : WorkerPc → Prop
  | .emitting _ | .closingForwards | .abandoning _ => False
  | _ => True

def WorkerPc.Removed : WorkerPc → Prop
  | .disconnecting | .takingStream | .returned => True
  | _ => False

def WorkerPc.Disconnected : WorkerPc → Prop
  | .takingStream | .returned => True
  | _ => False

structure Sound (w : World) : Prop where
  proceeds : ∀ rest, w.pc ≠ .abandoning rest
  swept : w.pc.Swept → w.forwards = []
  removed : w.pc.Removed → w.stream.registered = false
  disconnected : w.pc.Disconnected → w.stream.worker = .stateSet "disconnected" ∨
    (∀ state, w.stream.worker ≠ .stateSet state) ∧
      ∃ version, lastProduced w.stream.history = some (.status "disconnected" version)
  pending : ∀ call ∈ w.stream.calls, ∀ streamId pending, call = .emitting streamId pending →
    .close ∉ pending
  before : w.pc ≠ .returned → w.closesDue = [] ∧ w.stream.worker ≠ .ended ∧
    ∀ streamId, .attached streamId ∈ w.stream.history →
      streamId ∈ w.detached ∨ w.stream.state.streamId = some streamId
  after : w.pc = .returned → w.stream.state.streamId = none ∧
    (w.stream.worker = .ended ∨ ∃ streamId, w.stream.worker = .closing streamId) ∧
    ∀ streamId, .attached streamId ∈ w.stream.history →
      streamId ∈ w.detached ∨ w.closesDue = [streamId]

variable {w : World}

theorem Sound.cleanedUp (h : Sound w) (hreturned : w.Returned) : w.CleanedUp := by
  obtain ⟨hpc, hended⟩ := hreturned
  refine ⟨h.removed (by simp [hpc, WorkerPc.Removed]), h.swept (by simp [hpc, WorkerPc.Swept]),
    ?_, ?_⟩
  · rcases h.disconnected (by simp [hpc, WorkerPc.Disconnected]) with hstate | hlast
    · rw [hended] at hstate
      cases hstate
    · exact hlast.2
  · intro streamId hattached hdetached
    have hdue := ((h.after hpc).2.2 streamId hattached).resolve_left hdetached
    have hcloses : closes w.stream.sent = [streamId] := by
      simpa [World.closesDue, hended] using hdue
    rw [hcloses, List.count_singleton_self]

/-- A section in which the worker only emits. -/
structure Quiet (s s' : SessionStream.World) : Prop where
  streamId : s'.state.streamId = s.state.streamId
  registered : s'.registered = s.registered
  calls : s'.calls = s.calls
  attached : ∀ streamId, .attached streamId ∈ s'.history → .attached streamId ∈ s.history
  closes : closes s'.sent = closes s.sent
  running : ∀ streamId, s'.worker ≠ .closing streamId
  lasts : s'.worker ≠ .ended

theorem quiet_emit (s : SessionStream.World) (body : MessageBody) :
    Quiet s (emitNativeSessionMessage s body) ∧
      (∀ state, (emitNativeSessionMessage s body).worker ≠ .stateSet state) ∧
        lastProduced (emitNativeSessionMessage s body).history = some body := by
  unfold emitNativeSessionMessage
  dsimp only
  split
  · exact ⟨⟨rfl, rfl, rfl, fun _ hmem => (List.mem_cons.mp hmem).resolve_left nofun, rfl, nofun,
      nofun⟩, nofun, rfl⟩
  · exact ⟨⟨rfl, rfl, rfl, fun _ hmem => (List.mem_cons.mp hmem).resolve_left nofun, rfl, nofun,
      nofun⟩, nofun, rfl⟩

theorem quiet_setState (s : SessionStream.World) (next : String) :
    Quiet s (setNativeSessionConnectionState s next) :=
  ⟨rfl, rfl, rfl, fun _ hmem => hmem, rfl, nofun, nofun⟩

theorem quiet_emission {s : SessionStream.World} (hidle : s.worker = .idle) (emission : Emission) :
    Quiet s (SessionStream.step s emission.action) := by
  cases emission with
  | output text => simpa only [SessionStream.step, Emission.action, hidle] using (quiet_emit s _).1
  | error message =>
    simpa only [SessionStream.step, Emission.action, hidle] using (quiet_emit s _).1
  | state next => simpa only [SessionStream.step, Emission.action, hidle] using quiet_setState s next

theorem quiet_sendMessage {s : SessionStream.World} {message : Message} {streamId : ℕ}
    (hsending : s.worker = .sending message streamId) :
    Quiet s (SessionStream.step s .sendMessage) ∧
      (SessionStream.step s .sendMessage).worker = .idle ∧
        (SessionStream.step s .sendMessage).history = s.history := by
  have hstep : SessionStream.step s .sendMessage =
      emitSessionStreamEvent { s with worker := .idle } streamId (.message message) := by
    simp only [SessionStream.step, hsending]
  rw [hstep]
  exact ⟨⟨rfl, rfl, rfl, fun _ hmem => hmem, by simp [closes, emitSessionStreamEvent], nofun,
    nofun⟩, rfl, rfl⟩

/-- The worker only emits, and may go on in its code. -/
theorem Sound.emits (h : Sound w) (hpc : w.pc ≠ .returned) {s : SessionStream.World}
    (hquiet : Quiet w.stream s) {pc : WorkerPc} (hproceeds : ∀ rest, pc ≠ .abandoning rest)
    (hstays : pc ≠ .returned) (hswept : pc.Swept → w.forwards = [])
    (hremoved : pc.Removed → w.stream.registered = false)
    (hdisconnected : pc.Disconnected → s.worker = .stateSet "disconnected" ∨
      (∀ state, s.worker ≠ .stateSet state) ∧ ∃ version, lastProduced s.history = some (.status "disconnected" version)) :
    Sound { w with stream := s, pc := pc } := by
  obtain ⟨hdue, hlasts, hattached⟩ := h.before hpc
  refine ⟨hproceeds, hswept, ?_, hdisconnected, ?_, fun _ => ⟨?_, hquiet.lasts, ?_⟩,
    fun hreturned => absurd hreturned hstays⟩
  · exact fun hr => hquiet.registered.trans (hremoved hr)
  · simpa only [hquiet.calls] using h.pending
  · have hcloses : closes w.stream.sent = [] := (List.append_eq_nil_iff.mp hdue).1
    simp only [World.closesDue, hquiet.closes, hcloses, List.nil_append]
    split
    · next streamId hclosing => exact absurd hclosing (hquiet.running streamId)
    · rfl
  · intro streamId hmem
    simp only [hquiet.streamId]
    exact hattached streamId (hquiet.attached streamId hmem)

theorem Sound.next (h : Sound w) (hidle : w.stream.worker = .idle) : Sound w.next := by
  have hpc : w.pc ≠ .returned := by
    intro hreturned
    rcases (h.after hreturned).2.1 with hended | ⟨streamId, hclosing⟩
    · rw [hidle] at hended
      cases hended
    · rw [hidle] at hclosing
      cases hclosing
  have hself : Quiet w.stream w.stream :=
    ⟨rfl, rfl, rfl, fun _ hmem => hmem, rfl, by simp [hidle], by simp [hidle]⟩
  unfold World.next
  split
  · exact h.emits hpc hself nofun nofun nofun nofun nofun
  · next emission rest hemitting =>
    exact h.emits hpc (quiet_emission hidle emission) nofun nofun nofun nofun nofun
  · next hclosing =>
    obtain ⟨hdue, hlasts, hattached⟩ := h.before hpc
    exact ⟨nofun, fun _ => rfl, nofun, nofun, h.pending, fun _ => ⟨hdue, hlasts, hattached⟩, nofun⟩
  · next hremoving =>
    obtain ⟨hdue, hlasts, hattached⟩ := h.before hpc
    exact ⟨nofun, fun _ => h.swept (by simp [hremoving, WorkerPc.Swept]), fun _ => rfl, nofun,
      h.pending, fun _ => ⟨hdue, hlasts, hattached⟩, nofun⟩
  · next hdisconnecting =>
    have hstate : SessionStream.step w.stream (.setConnectionState "disconnected") =
        setNativeSessionConnectionState w.stream "disconnected" := by
      simp only [SessionStream.step, hidle]
    rw [hstate]
    exact h.emits hpc (quiet_setState w.stream _) nofun nofun
      (fun _ => h.swept (by simp [hdisconnecting, WorkerPc.Swept]))
      (fun _ => h.removed (by simp [hdisconnecting, WorkerPc.Removed])) fun _ => .inl rfl
  · next htaking =>
    obtain ⟨hdue, hlasts, hattached⟩ := h.before hpc
    have hcloses : closes w.stream.sent = [] := (List.append_eq_nil_iff.mp hdue).1
    have hlast := (h.disconnected (by simp [htaking, WorkerPc.Disconnected])).resolve_left
      (by simp [hidle]) |>.2
    have hswept := h.swept (by simp [htaking, WorkerPc.Swept])
    have hremoved := h.removed (by simp [htaking, WorkerPc.Removed])
    have htake : SessionStream.step w.stream .takeStream = takeStream w.stream := by
      simp only [SessionStream.step, hidle]
    rw [htake]
    unfold takeStream
    split
    · next streamId hstream =>
      refine ⟨nofun, fun _ => hswept, fun _ => hremoved, fun _ => .inr ⟨nofun, hlast⟩, h.pending,
        fun hne => absurd rfl hne, fun _ => ⟨rfl, .inr ⟨streamId, rfl⟩, fun other hmem => ?_⟩⟩
      refine (hattached other hmem).imp id fun hcurrent => ?_
      rw [hstream] at hcurrent
      obtain rfl := Option.some_inj.mp hcurrent
      simp only [World.closesDue, hcloses, List.nil_append]
    · next hnone =>
      refine ⟨nofun, fun _ => hswept, fun _ => hremoved, fun _ => .inr ⟨nofun, hlast⟩, h.pending,
        fun hne => absurd rfl hne, fun _ => ⟨hnone, .inl rfl, fun other hmem => ?_⟩⟩
      refine (hattached other hmem).imp id fun hcurrent => ?_
      rw [hnone] at hcurrent
      cases hcurrent
  · next habandoning => exact absurd habandoning (h.proceeds _)
  · next habandoning => exact absurd habandoning (h.proceeds _)
  · exact h

/-- A worker between two sections of an emission has not returned. -/
theorem Sound.not_returned (h : Sound w) (hended : w.stream.worker ≠ .ended)
    (hclosing : ∀ streamId, w.stream.worker ≠ .closing streamId) : w.pc ≠ .returned := by
  intro hreturned
  rcases (h.after hreturned).2.1 with hend | ⟨streamId, hclose⟩
  · exact hended hend
  · exact hclosing streamId hclose

theorem Sound.worker (h : Sound w) : Sound w.workerStep := by
  unfold World.workerStep
  split
  · next hidle => exact h.next hidle
  · next state hstate =>
    have hpc := h.not_returned (by simp [hstate]) (by simp [hstate])
    obtain ⟨hquiet, hworker, hlast⟩ := quiet_emit w.stream (.status state w.stream.stateVersion)
    have hstep : SessionStream.step w.stream .emitStatus =
        emitNativeSessionMessage w.stream (.status state w.stream.stateVersion) := by
      simp only [SessionStream.step, hstate]
    rw [hstep]
    refine h.emits hpc hquiet h.proceeds hpc h.swept h.removed fun hd => .inr ⟨hworker, ?_⟩
    rcases h.disconnected hd with hdisconnected | ⟨hnone, -⟩
    · rw [hstate] at hdisconnected
      obtain rfl := Worker.stateSet.inj hdisconnected
      exact ⟨_, hlast⟩
    · exact absurd hstate (hnone state)
  · next message streamId hsending =>
    have hpc := h.not_returned (by simp [hsending]) (by simp [hsending])
    obtain ⟨hquiet, hidle, hhistory⟩ := quiet_sendMessage hsending
    refine h.emits hpc hquiet h.proceeds hpc h.swept h.removed fun hd => .inr ⟨?_, ?_⟩
    · simp [hidle]
    · rw [hhistory]
      exact ((h.disconnected hd).resolve_left (by simp [hsending])).2
  · next streamId hclosing =>
    have hpc : w.pc = .returned := by
      by_contra hpc
      have hdue := (h.before hpc).1
      simp [World.closesDue, hclosing] at hdue
    obtain ⟨hnone, -, hattached⟩ := h.after hpc
    have hstep : SessionStream.step w.stream .sendClose =
        emitSessionStreamEvent { w.stream with worker := .ended } streamId .close := by
      simp only [SessionStream.step, hclosing]
    have hlast := (h.disconnected (by simp [hpc, WorkerPc.Disconnected])).resolve_left
      (by simp [hclosing])
    rw [hstep]
    refine ⟨h.proceeds, h.swept, h.removed, fun _ => .inr ⟨nofun, hlast.2⟩, h.pending,
      fun hne => absurd hpc hne, fun _ => ⟨hnone, .inl rfl, fun other hmem => ?_⟩⟩
    refine (hattached other hmem).imp id fun hdue => ?_
    simpa [World.closesDue, hclosing, closes, emitSessionStreamEvent] using hdue
  · exact h

/-- A call's section that neither attaches nor detaches. -/
theorem Sound.call (h : Sound w) {s : SessionStream.World}
    (hstate : s.state.streamId = w.stream.state.streamId) (hworker : s.worker = w.stream.worker)
    (hregistered : s.registered = w.stream.registered) (hhistory : s.history = w.stream.history)
    (hcloses : closes s.sent = closes w.stream.sent)
    (hpending : ∀ call ∈ s.calls, ∀ streamId pending, call = .emitting streamId pending →
      .close ∉ pending) : Sound { w with stream := s } := by
  have hdue : { w with stream := s }.closesDue = w.closesDue := by
    simp only [World.closesDue, hcloses, hworker]
  refine ⟨h.proceeds, h.swept, fun hr => hregistered.trans (h.removed hr), ?_, hpending, ?_, ?_⟩
  · simpa only [hworker, hhistory] using h.disconnected
  · simpa only [hdue, hworker, hhistory, hstate] using h.before
  · simpa only [hdue, hworker, hhistory, hstate] using h.after

theorem callStep_eq {action : SessionStream.Action}
    (hstate : (SessionStream.step w.stream action).state.streamId = w.stream.state.streamId) :
    w.callStep action = { w with stream := SessionStream.step w.stream action } := by
  simp only [World.callStep, hstate]
  cases w.stream.state.streamId <;> rfl

/-- A new call has nothing to send yet. -/
theorem Sound.lookup (h : Sound w) {call : StreamCall}
    (hcall : ∀ streamId pending, call ≠ .emitting streamId pending) :
    Sound { w with stream := { w.stream with calls := w.stream.calls ++ [call] } } := by
  refine h.call rfl rfl rfl rfl rfl fun other hother streamId pending hemitting => ?_
  rcases List.mem_append.mp hother with hold | hnew
  · exact h.pending other hold streamId pending hemitting
  · obtain rfl := List.mem_singleton.mp hnew
    exact absurd hemitting (hcall streamId pending)

theorem Sound.sendNext (h : Sound w) (call : ℕ) : Sound (w.callStep (.sendNext call)) := by
  have hself : Sound { w with stream := w.stream } := h
  cases hcall : w.stream.calls[call]? with
  | none => rwa [callStep_eq (by simp only [SessionStream.step, hcall]), SessionStream.step, hcall]
  | some found =>
    match found, hcall with
    | .emitting streamId (event :: pending), hcall =>
      have hstep : SessionStream.step w.stream (.sendNext call) = emitSessionStreamEvent
          { w.stream with calls := w.stream.calls.set call (.emitting streamId pending) }
          streamId event := by
        simp only [SessionStream.step, hcall]
      have hclose := h.pending _ (List.mem_of_getElem? hcall) streamId _ rfl
      rw [callStep_eq (by rw [hstep]; rfl), hstep]
      refine h.call rfl rfl rfl rfl ?_ fun other hother id rest hemitting => ?_
      · have hevent : event ≠ .close := fun heq => hclose (heq ▸ List.mem_cons_self)
        simp [closes, emitSessionStreamEvent, hevent]
      · rcases List.mem_or_eq_of_mem_set hother with hold | rfl
        · exact h.pending other hold id rest hemitting
        · obtain ⟨rfl, rfl⟩ := StreamCall.emitting.inj hemitting
          exact fun hmem => hclose (List.mem_cons_of_mem _ hmem)
    | .emitting streamId [], hcall =>
      rwa [callStep_eq (by simp only [SessionStream.step, hcall]), SessionStream.step, hcall]
    | .opening, hcall =>
      rwa [callStep_eq (by simp only [SessionStream.step, hcall]), SessionStream.step, hcall]
    | .closing _, hcall =>
      rwa [callStep_eq (by simp only [SessionStream.step, hcall]), SessionStream.step, hcall]
    | .answered, hcall =>
      rwa [callStep_eq (by simp only [SessionStream.step, hcall]), SessionStream.step, hcall]

/-- A stream is attached while the worker has yet to take the last one. -/
theorem Sound.attach (h : Sound w) {call : ℕ}
    (htime : w.stream.calls[call]? = some .opening → w.pc ≠ .returned) :
    Sound (w.callStep (.attach call)) := by
  by_cases hcall : w.stream.calls[call]? = some .opening
  · have hpc := htime hcall
    obtain ⟨hdue, hlasts, hattached⟩ := h.before hpc
    have hstep : SessionStream.step w.stream (.attach call) =
        openNativeSessionStream w.stream call := by
      simp only [SessionStream.step, hcall]
    have hdetached : (w.callStep (.attach call)).detached = w.detached := by
      simp only [World.callStep, hstep, openNativeSessionStream]
      cases w.stream.state.streamId <;> rfl
    have hworld : w.callStep (.attach call) =
        { w with stream := openNativeSessionStream w.stream call } := by
      rw [← hstep]
      simp only [World.callStep] at hdetached ⊢
      rw [hdetached]
    rw [hworld]
    refine ⟨h.proceeds, h.swept, h.removed, h.disconnected, ?_,
      fun _ => ⟨hdue, hlasts, fun streamId hmem => ?_⟩, fun hreturned => absurd hreturned hpc⟩
    · intro other hother streamId pending hemitting
      rcases List.mem_or_eq_of_mem_set hother with hold | rfl
      · exact h.pending other hold streamId pending hemitting
      · obtain ⟨rfl, rfl⟩ := StreamCall.emitting.inj hemitting
        simp
    · rcases List.mem_cons.mp hmem with heq | hold
      · obtain rfl := HistoryEvent.attached.inj heq
        exact .inr rfl
      · refine (hattached streamId hold).imp id fun hcurrent => ?_
        simp only [openNativeSessionStream, hcurrent, Option.getD_some]
  · have hstep : SessionStream.step w.stream (.attach call) = w.stream := by
      cases hfound : w.stream.calls[call]? with
      | none => simp only [SessionStream.step, hfound]
      | some found =>
        cases found with
        | opening => exact absurd hfound hcall
        | _ => simp only [SessionStream.step, hfound]
    rw [callStep_eq (congrArg (fun s => s.state.streamId) hstep), hstep]
    exact h

theorem Sound.detach (h : Sound w) (call : ℕ) : Sound (w.callStep (.detach call)) := by
  cases hcall : w.stream.calls[call]? with
  | none =>
    rw [callStep_eq (by simp only [SessionStream.step, hcall]), SessionStream.step, hcall]
    exact h
  | some found =>
    match found, hcall with
    | .closing requested, hcall =>
      have hstep : SessionStream.step w.stream (.detach call) =
          closeNativeSessionStream w.stream call requested := by
        simp only [SessionStream.step, hcall]
      have hcalls : ∀ other ∈ w.stream.calls.set call .answered, ∀ streamId pending,
          other = .emitting streamId pending → Outgoing.close ∉ pending := by
        intro other hother streamId pending hemitting
        rcases List.mem_or_eq_of_mem_set hother with hold | rfl
        · exact h.pending other hold streamId pending hemitting
        · cases hemitting
      by_cases hkept : (closeNativeSessionStream w.stream call requested).state.streamId =
          w.stream.state.streamId
      · rw [callStep_eq (by rw [hstep, hkept]), hstep]
        exact h.call hkept rfl rfl rfl rfl hcalls
      · -- the stream is closed by its own call: it joins the detached ones
        cases hstream : w.stream.state.streamId with
        | none =>
          refine absurd ?_ hkept
          simp only [closeNativeSessionStream, hstream, ite_self]
        | some streamId =>
          have hnone : (closeNativeSessionStream w.stream call requested).state.streamId = none := by
            simp only [closeNativeSessionStream] at hkept ⊢
            split_ifs at hkept ⊢
            · rfl
            · exact absurd rfl hkept
          have hworld : w.callStep (.detach call) =
              { w with
                stream := closeNativeSessionStream w.stream call requested
                detached := streamId :: w.detached } := by
            simp only [World.callStep, hstep, hstream, hnone]
          have hpc : w.pc ≠ .returned := fun hreturned => by
            rw [(h.after hreturned).1] at hstream
            cases hstream
          obtain ⟨hdue, hlasts, hattached⟩ := h.before hpc
          rw [hworld]
          refine ⟨h.proceeds, h.swept, h.removed, h.disconnected, hcalls,
            fun _ => ⟨hdue, hlasts, fun other hmem => .inl ?_⟩,
            fun hreturned => absurd hreturned hpc⟩
          rcases hattached other hmem with hdetached | hcurrent
          · exact List.mem_cons_of_mem _ hdetached
          · rw [hstream] at hcurrent
            obtain rfl := Option.some_inj.mp hcurrent
            exact List.mem_cons_self
    | .opening, hcall =>
      rw [callStep_eq (by simp only [SessionStream.step, hcall]), SessionStream.step, hcall]
      exact h
    | .emitting _ _, hcall =>
      rw [callStep_eq (by simp only [SessionStream.step, hcall]), SessionStream.step, hcall]
      exact h
    | .answered, hcall =>
      rw [callStep_eq (by simp only [SessionStream.step, hcall]), SessionStream.step, hcall]
      exact h

theorem Sound.step (h : Sound w) {action : WorkerAction} (htime : InTime w action) :
    Sound (workerStep w action) := by
  cases action with
  | worker => exact h.worker
  | lookupOpen =>
    simp only [workerStep]
    rw [callStep_eq (by simp only [SessionStream.step]; split_ifs <;> rfl), SessionStream.step]
    split_ifs
    · exact h.lookup nofun
    · exact h
  | attach call => exact h.attach htime
  | sendNext call => exact h.sendNext call
  | lookupClose requested =>
    simp only [workerStep]
    rw [callStep_eq (by simp only [SessionStream.step]; split_ifs <;> rfl), SessionStream.step]
    split_ifs
    · exact h.lookup nofun
    · exact h
  | detach call => exact h.detach call
  | otherSession =>
    simp only [workerStep]
    rw [callStep_eq rfl]
    exact h.call rfl rfl rfl rfl rfl h.pending
  | closeCommand =>
    simp only [workerStep]
    split_ifs
    · exact ⟨h.proceeds, fun _ => rfl, fun _ => rfl, h.disconnected, h.pending, h.before, h.after⟩
    · exact h
  | insertForward forwardId =>
    refine ⟨h.proceeds, fun hswept => ?_, h.removed, h.disconnected, h.pending, h.before, h.after⟩
    simp only [workerStep] at hswept
    simp only [InTime] at htime
    cases hpc : w.pc <;> simp [hpc, WorkerPc.Swept] at hswept htime

theorem sound_initial {pc : WorkerPc} (hpc : ∃ rest, pc = .emitting rest) (streamCounter : ℕ)
    (forwards : List ℕ) : Sound (.initial pc streamCounter forwards) := by
  obtain ⟨rest, rfl⟩ := hpc
  exact ⟨nofun, nofun, nofun, nofun, nofun, fun _ => ⟨rfl, nofun, nofun⟩, nofun⟩

/-- A worker that gets as far as its set-up. -/
inductive SetsUp : WorkerPc → Prop
  | external (body : Body) : SetsUp (runExternalCommandSessionLoop body)
  | jumpHost (body : Body) : SetsUp (runJumpHostSessionLoop (.ok ()) body)
  | native (emissions : List Emission) : SetsUp (runNativeSessionLoop emissions)

def shortBody : Body := ⟨[.state "connected"], .error "write failed"⟩

/-- The worker's steps from its first to its last, with a stream attached. -/
def wholeWorker : List WorkerAction :=
  [.lookupOpen, .attach 0, .sendNext 0] ++ List.replicate 20 .worker

/-- A call finds the session, and attaches after the worker has taken the stream. -/
def lateAttach : List WorkerAction :=
  [.lookupOpen] ++ List.replicate 20 .worker ++ [.attach 0, .sendNext 0]

/-- The jump-host worker could not make its directory. -/
def withoutDirectory : World :=
  run workerStep (.initial (runJumpHostSessionLoop (.error "no directory") shortBody) 7 [3])
    wholeWorker

def afterLateAttach : World :=
  run workerStep (.initial (runExternalCommandSessionLoop shortBody) 7 []) lateAttach

end WorkerExit
