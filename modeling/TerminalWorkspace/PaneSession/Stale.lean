import TerminalWorkspace.Foundation.Runs
import TerminalWorkspace.PaneSession.Activity

/-! Stale events of a pane: those of a socket that is not the current one, and the continuations
of a controller that has been disposed. This module says exactly when they change nothing. -/
namespace PaneSession
open JsText Inventory SessionStream Runs

/-- What a stale event should leave alone. -/
structure Observed where
  socket : Option ℕ
  session : Option SessionId
  recordedSession : Option (Option SessionId)
  reconnectTimeout : Option ReconnectTimer
  state : SessionConnectionState
  recordedState : Option SessionConnectionState
  output : List TerminalWrite
  commandOutput : List (ℕ × JsString)

def PaneWorld.observed (w : PaneWorld) : Observed where
  socket := w.refs.socket
  session := w.refs.backendSessionId
  recordedSession := w.pane.map (·.backendSessionId)
  reconnectTimeout := w.refs.reconnectTimeout
  state := w.refs.connectionState
  recordedState := w.pane.map (·.connectionState)
  output := w.output
  commandOutput := w.commandOutput

namespace PaneWorld
variable (w : PaneWorld)

/-- The event changes nothing of that. -/
def Inert (a : PaneAction) : Prop := (w.step a).observed = w.observed

/-- Events of sockets that are not the current one, and continuations of disposed controllers. -/
def Stale : PaneAction → Prop
  | .socketMessage i _ | .socketError i | .socketClose i =>
    ∃ socket ∈ w.sockets[i]?, w.refs.socket ≠ some i ∨ w.isDisposed socket.controller = true
  | .runtimeStatus i _ | .restoreCheck i _ | .secrets i _ | .session i _ | .socket i _ =>
    ∃ attempt ∈ w.attempts[i]?, w.isDisposed attempt.controller = true
  | .initialCheck i _ =>
    ∃ call ∈ w.initializations[i]?, w.isDisposed call.controller = true
  | .closed i _ => ∃ call ∈ w.disconnects[i]?, w.isDisposed call.controller = true
  | .timer => ∃ timer ∈ w.refs.reconnectTimeout, w.isDisposed timer.controller = true
  | .resizeFailed c => w.isDisposed c = true
  | _ => False

section Conditions
variable (c : ℕ) (connect : ConnectOptions)

/-- The pane is in that state, by its references and by its record. -/
def Shows (state : SessionConnectionState) : Prop :=
  w.refs.connectionState = state ∧ ∀ pane ∈ w.pane, pane.connectionState = state

/-- The pane has that session, by its references and by its record. -/
def HasSession (session : Option SessionId) : Prop :=
  w.refs.backendSessionId = session ∧ ∀ pane ∈ w.pane, pane.backendSessionId = session

/-- A reconnect that would be scheduled now is not. -/
def ReconnectHeld : Prop :=
  w.reconnectBarred c = true ∨ w.refs.reconnectTimeout ≠ none ∨ w.refs.connecting = true

/-- The pane is shown as connecting already, with the session that there is. -/
def StartQuiet : Prop :=
  connect.announce = false ∧ (∀ pane ∈ w.pane, pane.connectionState = .connecting) ∧
    ∀ session, w.refs.backendSessionId = some session →
      ∀ pane ∈ w.pane, pane.backendSessionId = some session

/-- The backend is not available and the pane shows it, or secrets are still to be asked for, or
the connection starts quietly. -/
def StatusQuiet (status : RuntimeStatusMessage) : Prop :=
  if status.available then
    w.refs.backendSessionId = none ∧ requiresSecrets (w.options c) = true ∨ w.StartQuiet connect
  else w.Shows .error ∧ connect.announce = false

def RestoreQuiet (canConnectWithoutPrompt : Bool) : Prop :=
  if ¬ connect.promptForSecrets ∧ ¬ canConnectWithoutPrompt then
    if connect.allowPendingSecrets then
      w.Shows .pendingSecrets ∧ (connect.announce = false ∨ w.refs.pendingSecretsNoticeShown = true)
    else w.Shows .disconnected
  else connect.promptForSecrets = true ∨ w.StartQuiet connect

def ConnectQuiet : Prop :=
  w.connectBarred c = true ∨ w.refs.reconnectTimeout = none ∧
    ∀ status ∈ w.refs.runtimeStatus, w.StatusQuiet c connect status

/-- No session is left to forget, and no reconnect is scheduled. -/
def FailureQuiet : Prop :=
  w.HasSession none ∧ (w.refs.connectedOnce = true ∨ w.refs.reconnectOnRestore = true) ∧
    w.ReconnectHeld c

def MessageQuiet : Option SessionFrame → Prop
  | none => True
  | some (.data data) => data = []
  | some (.status state) => w.Shows state
  | some (.error _) => w.FailureQuiet c

/-- There is no current socket, the session is not the one that was closed, and no connection
follows. -/
def CloseQuiet (socket : PaneSocket) : Prop :=
  w.refs.socket = none ∧ w.refs.backendSessionId ≠ some socket.sessionId ∧
    if w.retriesReusedSession socket then w.ConnectQuiet socket.controller ⟨false, true, false⟩
    else w.ReconnectHeld socket.controller

end Conditions

/-- When a stale event changes nothing. -/
def Quiet : PaneAction → Prop
  | .socketMessage i frame => ∀ socket ∈ w.sockets[i]?, socket.readyState ≠ .closed →
      w.isDisposed socket.controller = false → w.MessageQuiet socket.controller frame
  | .socketError i => ∀ socket ∈ w.sockets[i]?, socket.readyState ≠ .closed →
      w.isDisposed socket.controller = false → w.FailureQuiet socket.controller
  | .socketClose i => ∀ socket ∈ w.sockets[i]?, socket.readyState ≠ .closed →
      w.isDisposed socket.controller = false → w.CloseQuiet socket
  | .runtimeStatus i (some status) => ∀ attempt ∈ w.attempts[i]?,
      attempt.awaiting = .runtimeStatus → w.StatusQuiet attempt.controller attempt.options status
  | .restoreCheck i (some answer) => ∀ attempt ∈ w.attempts[i]?,
      attempt.awaiting = .restoreCheck → w.RestoreQuiet attempt.options answer
  | .session i (.ok session) => ∀ attempt ∈ w.attempts[i]?,
      attempt.awaiting = .session → w.HasSession (some session)
  | .session i (.error error) => ∀ attempt ∈ w.attempts[i]?, attempt.awaiting = .session →
      shouldScheduleReconnect error.category w.refs.connectedOnce w.refs.reconnectOnRestore = true
  | .socket i (.ok _) => ∀ attempt ∈ w.attempts[i]?, ∀ session reused,
      attempt.awaiting = .socket session reused → w.refs.socket = some w.sockets.length
  | .socket i (.error error) => ∀ attempt ∈ w.attempts[i]?, ∀ session reused,
      attempt.awaiting = .socket session reused →
      shouldScheduleReconnect error.category w.refs.connectedOnce w.refs.reconnectOnRestore = true
  | .closed i true => ∀ call ∈ w.disconnects[i]?, call.pending = false
  | .timer => False
  | _ => True

section Writers
variable {w : PaneWorld} {c i : ℕ} {connect : ConnectOptions}

@[simp] theorem observed_setAwaiting (awaiting : Awaiting) :
    (w.setAwaiting i awaiting).observed = w.observed := rfl

theorem observed_eq_iff {w w' : PaneWorld} :
    w'.observed = w.observed ↔
      w'.refs.socket = w.refs.socket ∧ w'.refs.backendSessionId = w.refs.backendSessionId ∧
        w'.pane.map (·.backendSessionId) = w.pane.map (·.backendSessionId) ∧
        w'.refs.reconnectTimeout = w.refs.reconnectTimeout ∧
        w'.refs.connectionState = w.refs.connectionState ∧
        w'.pane.map (·.connectionState) = w.pane.map (·.connectionState) ∧
        w'.output = w.output ∧ w'.commandOutput = w.commandOutput := by
  simp only [observed, Observed.mk.injEq]

/-- A line is never empty. -/
@[simp] theorem output_writeln (text : JsString) :
    (w.writeln c text).output = w.output ++ [⟨c, text ++ js "\r\n"⟩] := by
  have hne : text ++ js "\r\n" ≠ [] := List.append_ne_nil_of_right_ne_nil _ (by decide)
  exact if_neg hne

@[simp] theorem output_reportState (state : SessionConnectionState) :
    (w.reportState state).output = w.output := rfl

theorem observed_ne {w w' : PaneWorld} (h : w'.output ≠ w.output) : w'.observed ≠ w.observed :=
  fun hobserved => h (congrArg Observed.output hobserved)

theorem map_const_iff {α β : Type*} {o : Option α} {f : α → β} {b : β} :
    (o.map fun _ => b) = o.map f ↔ ∀ a ∈ o, f a = b := by
  cases o with
  | none => simp
  | some a => simp [eq_comm]

theorem reportState_quiet (state : SessionConnectionState) :
    (w.reportState state).observed = w.observed ↔ w.Shows state := by
  rw [observed_eq_iff, Shows]
  have hrecorded : (w.reportState state).pane.map (·.connectionState) =
      w.pane.map fun _ => state := by
    simp [reportState, setPaneState, SessionPane.updateConnectionState, Function.comp_def]
  rw [hrecorded, map_const_iff]
  simp [reportState, setPaneState, SessionPane.updateConnectionState, Function.comp_def, eq_comm]

end Writers

section Connections
variable {w : PaneWorld} {c i : ℕ} {connect : ConnectOptions}

theorem scheduleReconnect_quiet (message : Option JsString) :
    (w.scheduleReconnect c message).observed = w.observed ↔ w.ReconnectHeld c := by
  simp only [scheduleReconnect, ReconnectHeld]
  split
  · rename_i hbarred
    exact iff_of_true rfl (.inl hbarred)
  · rename_i hbarred
    split
    · rename_i hheld
      exact iff_of_true rfl (.inr hheld)
    · rename_i hheld
      refine iff_of_false (fun h => ?_) fun h => h.elim hbarred hheld
      have htimer := (observed_eq_iff.mp h).2.2.2.1
      exact hheld (.inl (htimer ▸ Option.some_ne_none _))

/-- A reconnect that is scheduled forgets no session and no socket. -/
theorem scheduleReconnect_sessions (message : Option JsString) :
    (w.scheduleReconnect c message).refs.socket = w.refs.socket ∧
      (w.scheduleReconnect c message).refs.backendSessionId = w.refs.backendSessionId ∧
      (w.scheduleReconnect c message).pane.map (·.backendSessionId) =
        w.pane.map (·.backendSessionId) := by
  simp only [scheduleReconnect]
  split
  · exact ⟨rfl, rfl, rfl⟩
  · split
    · exact ⟨rfl, rfl, rfl⟩
    · refine ⟨rfl, rfl, ?_⟩
      simp [writeln, write, reportState, setPaneState, SessionPane.updateConnectionState,
        Function.comp_def]

/-- What a connection that starts shows. -/
theorem startConnection_observed :
    (w.startConnection c i connect).observed =
      { w.observed with
        recordedSession := w.pane.map fun pane =>
          w.refs.backendSessionId.or pane.backendSessionId
        recordedState := w.pane.map fun _ => .connecting
        output :=
          if connect.announce then (w.writeln c (openingLine (w.options c))).output
          else w.output } := by
  cases hsession : w.refs.backendSessionId <;> cases hannounce : connect.announce <;>
    simp [startConnection, hsession, hannounce, observed, openSocket, setPaneState, setPaneTransport,
      setPaneBackendSession, setAwaiting, writeln, write, options, controller,
      SessionPane.updateConnectionState, SessionPane.updateTransport,
      SessionPane.updateBackendSession, Function.comp_def]

theorem startConnection_quiet :
    (w.startConnection c i connect).observed = w.observed ↔ w.StartQuiet connect := by
  have hsessions : (w.pane.map fun pane => w.refs.backendSessionId.or pane.backendSessionId) =
      w.pane.map (·.backendSessionId) ↔ ∀ session, w.refs.backendSessionId = some session →
        ∀ pane ∈ w.pane, pane.backendSessionId = some session := by
    cases w.refs.backendSessionId with
    | none => simp
    | some session =>
      simp only [Option.some_or, Option.some.injEq, forall_eq']
      exact map_const_iff
  have houtput : (if connect.announce then (w.writeln c (openingLine (w.options c))).output
      else w.output) = w.output ↔ connect.announce = false := by
    cases connect.announce with
    | false => simp
    | true => simp [output_writeln]
  rw [startConnection_observed]
  simp only [observed, Observed.mk.injEq, true_and, and_true]
  rw [hsessions, houtput, map_const_iff, StartQuiet]
  constructor
  · rintro ⟨hsession, hstate, hannounce⟩
    exact ⟨hannounce, hstate, hsession⟩
  · rintro ⟨hannounce, hstate, hsession⟩
    exact ⟨hsession, hstate, hannounce⟩

theorem afterRuntimeStatus_quiet (status : RuntimeStatusMessage) :
    (w.afterRuntimeStatus c i connect status).observed = w.observed ↔
      w.StatusQuiet c connect status := by
  let w' := { w with refs.runtimeStatus := some status }
  have hstart : (w'.startConnection c i connect).observed = w.observed ↔ w.StartQuiet connect :=
    startConnection_quiet
  have hshown : (w'.reportState .error).observed = w.observed ↔ w.Shows .error :=
    reportState_quiet _
  cases havailable : status.available with
  | false =>
    simp only [afterRuntimeStatus, StatusQuiet, havailable, Bool.false_eq_true, not_false_eq_true,
      if_true, if_false, observed_setAwaiting]
    cases connect.announce with
    | false => simpa using hshown
    | true =>
      simp only [if_true, Bool.true_eq_false, and_false, iff_false]
      apply observed_ne
      split <;> simp
  | true =>
    have hstatus : w.afterRuntimeStatus c i connect status =
        if w.refs.backendSessionId.isSome = true ∨ ¬ requiresSecrets (w.options c) = true then
          w'.startConnection c i connect
        else w'.setAwaiting i .restoreCheck := if_neg (not_not_intro havailable)
    rw [hstatus, StatusQuiet, if_pos havailable]
    by_cases hwaits : w.refs.backendSessionId = none ∧ requiresSecrets (w.options c) = true
    · have hasked : ¬ (w.refs.backendSessionId.isSome = true ∨
          ¬ requiresSecrets (w.options c) = true) := by
        simp [hwaits.1, hwaits.2]
      rw [if_neg hasked]
      exact iff_of_true rfl (.inl hwaits)
    · have hstarts : w.refs.backendSessionId.isSome = true ∨
          ¬ requiresSecrets (w.options c) = true := by
        rw [not_and_or, ← ne_eq, Option.ne_none_iff_isSome] at hwaits
        exact hwaits
      rw [if_pos hstarts, or_iff_right hwaits]
      exact hstart

/-- The way to a connection leaves the timer alone. -/
theorem afterRuntimeStatus_timer (status : RuntimeStatusMessage) :
    (w.afterRuntimeStatus c i connect status).refs.reconnectTimeout = w.refs.reconnectTimeout := by
  cases afterRuntimeStatus_effect w c i connect status with
  | reported activity_eq _ => exact congrArg Activity.reconnectTimeout activity_eq
  | waits _ _ activity_eq => exact congrArg Activity.reconnectTimeout activity_eq
  | starts _ _ activity_eq => exact congrArg Activity.reconnectTimeout activity_eq

theorem connectNativeSession_quiet :
    (w.connectNativeSession c connect).observed = w.observed ↔ w.ConnectQuiet c connect := by
  cases hbarred : w.connectBarred c with
  | true =>
    rw [connectNativeSession, if_pos hbarred]
    exact iff_of_true rfl (.inl hbarred)
  | false =>
    let begun := clearReconnectTimer { w with
      refs.intentionalDisconnect := false
      attempts := w.attempts ++ [Attempt.mk c connect .settled] }
    have hconnect : w.connectNativeSession c connect = w.refs.runtimeStatus.elim
        (begun.setAwaiting w.attempts.length .runtimeStatus)
        (begun.afterRuntimeStatus c w.attempts.length connect) := by
      have hstatus : begun.refs.runtimeStatus = w.refs.runtimeStatus := by
        simp only [begun, clearReconnectTimer]
      refine (if_neg (Bool.eq_false_iff.mp hbarred)).trans ?_
      rw [← hstatus]
      dsimp only
      split
      · next hnone =>
        have hbegun : begun.refs.runtimeStatus = none := hnone
        rw [hbegun]
        rfl
      · next status hsome =>
        have hbegun : begun.refs.runtimeStatus = some status := hsome
        rw [hbegun]
        rfl
    have hbegun (htimer : w.refs.reconnectTimeout = none) : begun.observed = w.observed := by
      simp only [begun, observed, clearReconnectTimer, htimer]
    rw [hconnect, ConnectQuiet, or_iff_right (Bool.eq_false_iff.mp hbarred)]
    by_cases htimer : w.refs.reconnectTimeout = none
    · rw [and_iff_right htimer, ← hbegun htimer]
      cases w.refs.runtimeStatus with
      | none => simp
      | some status =>
        have hstatus : (begun.afterRuntimeStatus c w.attempts.length connect status).observed =
            begun.observed ↔ w.StatusQuiet c connect status := afterRuntimeStatus_quiet status
        simpa using hstatus
    · refine iff_of_false (fun h => ?_) fun h => htimer h.1
      have hkept := congrArg Observed.reconnectTimeout h
      cases hstatus : w.refs.runtimeStatus with
      | none =>
        rw [hstatus] at hkept
        exact htimer hkept.symm
      | some status =>
        rw [hstatus] at hkept
        exact htimer (hkept.symm.trans (afterRuntimeStatus_timer status))

/-- Nor does the way to a connection change which socket and session there are. -/
theorem afterRuntimeStatus_sessions (status : RuntimeStatusMessage) :
    (w.afterRuntimeStatus c i connect status).refs.socket = w.refs.socket ∧
      (w.afterRuntimeStatus c i connect status).refs.backendSessionId =
        w.refs.backendSessionId := by
  let w' := { w with refs.runtimeStatus := some status }
  have hstart : (w'.startConnection c i connect).observed = _ := startConnection_observed
  simp only [afterRuntimeStatus]
  split
  · split
    · split <;> exact ⟨rfl, rfl⟩
    · exact ⟨rfl, rfl⟩
  · split
    · exact ⟨congrArg Observed.socket hstart, congrArg Observed.session hstart⟩
    · exact ⟨rfl, rfl⟩

theorem connectNativeSession_sessions :
    (w.connectNativeSession c connect).refs.socket = w.refs.socket ∧
      (w.connectNativeSession c connect).refs.backendSessionId = w.refs.backendSessionId := by
  simp only [connectNativeSession]
  split
  · exact ⟨rfl, rfl⟩
  · split
    · exact ⟨rfl, rfl⟩
    · exact afterRuntimeStatus_sessions _

end Connections

section Failures
variable {w : PaneWorld} {c i : ℕ}

/-- The world in which the session is forgotten. -/
def withoutSession (w : PaneWorld) : PaneWorld :=
  setPaneBackendSession { w with refs.backendSessionId := none } none

theorem withoutSession_recorded :
    w.withoutSession.pane.map (·.backendSessionId) = w.pane.map fun _ => none := by
  simp [withoutSession, setPaneBackendSession, SessionPane.updateBackendSession,
    Function.comp_def]

theorem withoutSession_quiet : w.withoutSession.observed = w.observed ↔ w.HasSession none := by
  have hstate : w.withoutSession.pane.map (·.connectionState) = w.pane.map (·.connectionState) := by
    simp [withoutSession, setPaneBackendSession, SessionPane.updateBackendSession,
      Function.comp_def]
  rw [observed_eq_iff, withoutSession_recorded, map_const_iff, hstate, HasSession]
  simp [withoutSession, setPaneBackendSession, eq_comm]

theorem sessionFailed_quiet (hused : w.isDisposed c = false) (reconnectMessage line : JsString) :
    (w.sessionFailed c reconnectMessage line).observed = w.observed ↔ w.FailureQuiet c := by
  have hcleared : w.clearBackendSession c = w.withoutSession := if_neg (Bool.eq_false_iff.mp hused)
  have hfailed : w.sessionFailed c reconnectMessage line =
      if w.refs.connectedOnce = true ∨ w.refs.reconnectOnRestore = true then
        w.withoutSession.scheduleReconnect c (some reconnectMessage)
      else (w.withoutSession.writeln c line).reportState .error := by
    rw [sessionFailed, hcleared]
    rfl
  have hheld : w.withoutSession.ReconnectHeld c ↔ w.ReconnectHeld c := Iff.rfl
  rw [hfailed, FailureQuiet]
  by_cases hretry : w.refs.connectedOnce = true ∨ w.refs.reconnectOnRestore = true
  · rw [if_pos hretry, and_iff_right hretry]
    constructor
    · intro h
      obtain ⟨-, hsession, hrecorded⟩ :=
        scheduleReconnect_sessions (w := w.withoutSession) (c := c) (some reconnectMessage)
      have hnone : w.HasSession none := by
        refine ⟨(congrArg Observed.session h).symm.trans hsession, map_const_iff.mp ?_⟩
        rw [← withoutSession_recorded, ← hrecorded]
        exact congrArg Observed.recordedSession h
      refine ⟨hnone, hheld.mp ((scheduleReconnect_quiet (some reconnectMessage)).mp ?_)⟩
      exact h.trans (withoutSession_quiet.mpr hnone).symm
    · rintro ⟨hnone, hbarred⟩
      exact ((scheduleReconnect_quiet _).mpr (hheld.mpr hbarred)).trans
        (withoutSession_quiet.mpr hnone)
  · rw [if_neg hretry]
    refine iff_of_false (observed_ne ?_) fun h => hretry h.2.1
    rw [output_reportState, output_writeln]
    show w.output ++ _ ≠ w.output
    simp

theorem onMessage_quiet {socket : PaneSocket} (hused : w.isDisposed socket.controller = false)
    (frame : Option SessionFrame) :
    (w.onMessage socket frame).observed = w.observed ↔
      w.MessageQuiet socket.controller frame := by
  simp only [onMessage, hused, Bool.false_eq_true, if_false]
  cases frame with
  | none => exact iff_of_true rfl trivial
  | some frame =>
    cases frame with
    | data data =>
      by_cases hdata : data = []
      · refine iff_of_true ?_ hdata
        simp only [write, hdata, if_true]
        split
        · simp only [appendCommandOutput, if_true]
        · rfl
      · refine iff_of_false (observed_ne ?_) hdata
        simp only [write, if_neg hdata]
        split <;> simp [appendCommandOutput]
    | status state =>
      by_cases hconnected : state = .connected
      · simp only [if_pos hconnected]
        exact reportState_quiet state
      · simp only [if_neg hconnected]
        exact reportState_quiet state
    | error message => exact sessionFailed_quiet hused message _

theorem onError_quiet {socket : PaneSocket} (hused : w.isDisposed socket.controller = false) :
    (w.onError socket).observed = w.observed ↔ w.FailureQuiet socket.controller := by
  simp only [onError, hused, Bool.false_eq_true, if_false]
  exact sessionFailed_quiet hused _ _

/-- What follows the close of a socket. -/
def afterClose (w : PaneWorld) (socket : PaneSocket) : PaneWorld :=
  if w.retriesReusedSession socket then
    w.connectNativeSession socket.controller ⟨false, true, false⟩
  else w.scheduleReconnect socket.controller none

theorem afterClose_sessions {socket : PaneSocket} :
    (w.afterClose socket).refs.socket = w.refs.socket ∧
      (w.afterClose socket).refs.backendSessionId = w.refs.backendSessionId := by
  rw [afterClose]
  split
  · exact connectNativeSession_sessions
  · have hkept := scheduleReconnect_sessions (w := w) (c := socket.controller) none
    exact ⟨hkept.1, hkept.2.1⟩

theorem afterClose_quiet {socket : PaneSocket} :
    (w.afterClose socket).observed = w.observed ↔
      if w.retriesReusedSession socket then w.ConnectQuiet socket.controller ⟨false, true, false⟩
      else w.ReconnectHeld socket.controller := by
  rw [afterClose]
  split
  · exact connectNativeSession_quiet
  · exact scheduleReconnect_quiet none

theorem onClose_quiet {socket : PaneSocket} (hused : w.isDisposed socket.controller = false) :
    (w.onClose socket).observed = w.observed ↔ w.CloseQuiet socket := by
  let detached := { w with refs.socket := none }
  have hclose : w.onClose socket =
      (if w.refs.backendSessionId = some socket.sessionId then
        detached.clearBackendSession socket.controller else detached).afterClose socket := by
    rw [onClose.eq_def, if_neg (Bool.eq_false_iff.mp hused)]
    rfl
  rw [hclose, CloseQuiet]
  by_cases hown : w.refs.backendSessionId = some socket.sessionId
  · rw [if_pos hown]
    refine iff_of_false (fun h => ?_) fun h => h.2.1 hown
    have hforgotten : (detached.clearBackendSession socket.controller).refs.backendSessionId = none := by
      have hcleared : detached.clearBackendSession socket.controller = detached.withoutSession :=
        if_neg (Bool.eq_false_iff.mp hused)
      rw [hcleared]
      rfl
    have hsession := congrArg Observed.session h
    have hnone : w.refs.backendSessionId = none :=
      hsession.symm.trans (afterClose_sessions.2.trans hforgotten)
    rw [hnone] at hown
    cases hown
  · rw [if_neg hown]
    by_cases hsocket : w.refs.socket = none
    · have hdetached : detached = w := by
        show { w with refs := { w.refs with socket := none } } = w
        rw [← hsocket]
      rw [hdetached, afterClose_quiet]
      exact ⟨fun h => ⟨hsocket, hown, h⟩, fun h => h.2.2⟩
    · refine iff_of_false (fun h => ?_) fun h => hsocket h.1
      have hkept := (congrArg Observed.socket h).symm.trans
        (afterClose_sessions (w := detached)).1
      exact hsocket hkept

end Failures

section Continuations
variable {w : PaneWorld} {c i : ℕ} {connect : ConnectOptions}

theorem setPendingSecretsState_quiet (announce : Bool) :
    (w.setPendingSecretsState c announce).observed = w.observed ↔
      w.Shows .pendingSecrets ∧ (announce = false ∨ w.refs.pendingSecretsNoticeShown = true) := by
  have hnotice : (w.reportState .pendingSecrets).refs.pendingSecretsNoticeShown =
      w.refs.pendingSecretsNoticeShown := rfl
  simp only [setPendingSecretsState, hnotice, Bool.not_eq_true]
  split
  · rename_i hsilent
    rw [and_iff_left hsilent]
    exact reportState_quiet _
  · rename_i hsilent
    refine iff_of_false (observed_ne ?_) fun h => hsilent h.2
    dsimp only
    rw [output_writeln, output_reportState]
    exact fun h => List.cons_ne_nil _ _ (List.append_right_eq_self.mp h)

theorem afterRestoreCheck_quiet (canConnectWithoutPrompt : Bool) :
    (w.afterRestoreCheck c i connect canConnectWithoutPrompt).observed = w.observed ↔
      w.RestoreQuiet connect canConnectWithoutPrompt := by
  simp only [afterRestoreCheck, RestoreQuiet]
  split
  · rw [observed_setAwaiting]
    split
    · rw [setPendingSecretsState_quiet]
      refine and_congr_right fun hshown => ?_
      simp [hshown.1]
    · exact reportState_quiet _
  · split
    · rename_i hprompt
      exact iff_of_true rfl (.inl hprompt)
    · rename_i hprompt
      rw [or_iff_right hprompt]
      exact startConnection_quiet

/-- The session that a creation has answered is the one that the pane has. -/
theorem openSocket_quiet {session : SessionId} {reused : Bool} :
    (w.openSocket i session reused).observed = w.observed ↔ w.HasSession (some session) := by
  have hrecorded : (w.openSocket i session reused).pane.map (·.backendSessionId) =
      w.pane.map fun _ => some session := by
    simp [openSocket, setAwaiting, setPaneBackendSession, SessionPane.updateBackendSession,
      Function.comp_def]
  have hstate : (w.openSocket i session reused).pane.map (·.connectionState) =
      w.pane.map (·.connectionState) := by
    simp [openSocket, setAwaiting, setPaneBackendSession, SessionPane.updateBackendSession,
      Function.comp_def]
  rw [observed_eq_iff, hrecorded, map_const_iff, hstate, HasSession]
  simp [openSocket, setAwaiting, setPaneBackendSession, eq_comm]

/-- A disposed controller reports a failure only where no reconnect is due. -/
theorem connectFailed_quiet (hdisposed : w.isDisposed c = true) (error : ClassifiedSshError) :
    (w.connectFailed c i error).observed = w.observed ↔
      shouldScheduleReconnect error.category w.refs.connectedOnce w.refs.reconnectOnRestore =
        true := by
  have hkept : w.clearBackendSession c = w := if_pos hdisposed
  have hbarred : w.reconnectBarred c = true := by
    simp [reconnectBarred, hdisposed]
  simp only [connectFailed, observed_setAwaiting, reportFailure, hkept]
  by_cases hretry : shouldScheduleReconnect error.category w.refs.connectedOnce
      w.refs.reconnectOnRestore = true
  · rw [if_pos hretry]
    refine iff_of_true ?_ hretry
    rw [scheduleReconnect, if_pos hbarred]
    rfl
  · rw [if_neg hretry]
    refine iff_of_false (observed_ne ?_) hretry
    change (reportState _ .error).output ≠ w.output
    rw [output_reportState]
    split <;> simp [clearReconnectTimer]

theorem afterSocket_quiet (hdisposed : w.isDisposed c = true) {session : SessionId} {reused : Bool}
    (answer : Except ClassifiedSshError ReadyState) :
    (w.afterSocket c i session reused answer).observed = w.observed ↔
      match answer with
      | .ok _ => w.refs.socket = some w.sockets.length
      | .error error => shouldScheduleReconnect error.category w.refs.connectedOnce
          w.refs.reconnectOnRestore = true := by
  cases answer with
  | ok readyState =>
    rw [observed_eq_iff]
    simp [afterSocket, setAwaiting, eq_comm]
  | error error => exact connectFailed_quiet hdisposed error

theorem finishDisconnect_loud : (w.finishDisconnect c).observed ≠ w.observed := by
  apply observed_ne
  rw [finishDisconnect, output_writeln, output_reportState]
  exact fun h => List.cons_ne_nil _ _ (List.append_right_eq_self.mp h)

end Continuations

section Steps
variable {w : PaneWorld}

theorem closeQuiet_closed {socket : PaneSocket} {sockets : List PaneSocket} :
    CloseQuiet { w with sockets := sockets } socket ↔ w.CloseQuiet socket := by
  simp only [CloseQuiet]
  refine and_congr_right fun hsocket => ?_
  have hbarred : connectBarred { w with sockets := sockets } socket.controller =
      w.connectBarred socket.controller := by
    simp only [connectBarred, hsocket]
    rfl
  have hconnect : ConnectQuiet { w with sockets := sockets } socket.controller ⟨false, true, false⟩ ↔
      w.ConnectQuiet socket.controller ⟨false, true, false⟩ := by
    rw [ConnectQuiet, hbarred]
    rfl
  refine and_congr_right fun _ => ?_
  rw [hconnect]
  rfl

/-- The event of a socket does nothing if the socket has been closed or its controller disposed. -/
theorem socketEvent_quiet {i : ℕ} (handler : PaneSocket → PaneWorld) (Q : PaneSocket → Prop)
    (hdisposed : ∀ socket, w.isDisposed socket.controller = true →
      (handler socket).observed = w.observed)
    (hused : ∀ socket, socket.readyState ≠ .closed → w.isDisposed socket.controller = false →
      ((handler socket).observed = w.observed ↔ Q socket)) :
    (match w.sockets[i]? with
      | some socket => if socket.readyState = ReadyState.closed then w else handler socket
      | none => w).observed = w.observed ↔
    ∀ socket ∈ w.sockets[i]?, socket.readyState ≠ .closed →
      w.isDisposed socket.controller = false → Q socket := by
  cases hsocket : w.sockets[i]? with
  | none => simp
  | some socket =>
    simp only [Option.mem_def, Option.some.injEq, forall_eq']
    by_cases hclosed : socket.readyState = .closed
    · rw [if_pos hclosed]
      exact iff_of_true rfl fun hopen => absurd hclosed hopen
    · rw [if_neg hclosed]
      cases hcontroller : w.isDisposed socket.controller with
      | true => exact iff_of_true (hdisposed socket hcontroller) nofun
      | false => exact (hused socket hclosed hcontroller).trans ⟨fun h _ _ => h, fun h => h hclosed rfl⟩

theorem socketMessage_quiet (i : ℕ) (frame : Option SessionFrame) :
    w.Inert (.socketMessage i frame) ↔ w.Quiet (.socketMessage i frame) := by
  refine socketEvent_quiet (fun socket => w.onMessage socket frame)
    (fun socket => w.MessageQuiet socket.controller frame)
    (fun socket hdisposed => ?_) fun socket _ hused => onMessage_quiet hused frame
  rw [onMessage.eq_def, if_pos hdisposed]

theorem socketError_quiet (i : ℕ) : w.Inert (.socketError i) ↔ w.Quiet (.socketError i) := by
  refine socketEvent_quiet w.onError (fun socket => w.FailureQuiet socket.controller)
    (fun socket hdisposed => ?_) fun socket _ hused => onError_quiet hused
  rw [onError, if_pos hdisposed]

theorem socketClose_quiet (i : ℕ) : w.Inert (.socketClose i) ↔ w.Quiet (.socketClose i) := by
  let closedAt (socket : PaneSocket) : PaneWorld :=
    { w with sockets := w.sockets.set i { socket with readyState := .closed } }
  refine socketEvent_quiet (fun socket => (closedAt socket).onClose socket) w.CloseQuiet
    (fun socket hdisposed => ?_) fun socket _ hused => ?_
  · have hdisposed : (closedAt socket).isDisposed socket.controller = true := hdisposed
    rw [onClose.eq_def, if_pos hdisposed]
    rfl
  · have hclose : ((closedAt socket).onClose socket).observed = w.observed ↔
        (closedAt socket).CloseQuiet socket := onClose_quiet (w := closedAt socket) hused
    exact hclose.trans closeQuiet_closed

theorem runtimeStatus_quiet (i : ℕ) (status : Option RuntimeStatusMessage) :
    w.Inert (.runtimeStatus i status) ↔ w.Quiet (.runtimeStatus i status) := by
  simp only [Inert, step]
  split
  · rename_i c connect hattempt
    cases status with
    | none => exact iff_of_true rfl trivial
    | some status => simp [Quiet, hattempt, afterRuntimeStatus_quiet]
  · rename_i hattempt
    refine iff_of_true rfl ?_
    cases status with
    | none => trivial
    | some status =>
      intro attempt hget hawaiting
      exact absurd (hawaiting ▸ hget) (hattempt attempt.controller attempt.options)

theorem restoreCheck_quiet (i : ℕ) (answer : Option Bool) :
    w.Inert (.restoreCheck i answer) ↔ w.Quiet (.restoreCheck i answer) := by
  simp only [Inert, step]
  split
  · rename_i c connect hattempt
    cases answer with
    | none => exact iff_of_true rfl trivial
    | some answer => simp [Quiet, hattempt, afterRestoreCheck_quiet]
  · rename_i hattempt
    refine iff_of_true rfl ?_
    cases answer with
    | none => trivial
    | some answer =>
      intro attempt hget hawaiting
      exact absurd (hawaiting ▸ hget) (hattempt attempt.controller attempt.options)

theorem secrets_quiet {i : ℕ} {answer : Option Bool} (hstale : w.Stale (.secrets i answer)) :
    w.Inert (.secrets i answer) := by
  obtain ⟨attempt, hget, hdisposed⟩ := hstale
  simp only [Inert, step]
  split
  · rename_i c connect hattempt
    obtain rfl := Option.some.inj (hget.symm.trans hattempt)
    cases answer with
    | none => rfl
    | some answer =>
      simp only [afterSecrets]
      rw [if_pos hdisposed]
      rfl
  · rfl

theorem session_quiet {i : ℕ} {answer : Except ClassifiedSshError SessionId}
    (hstale : w.Stale (.session i answer)) :
    w.Inert (.session i answer) ↔ w.Quiet (.session i answer) := by
  obtain ⟨attempt, hget, hdisposed⟩ := hstale
  simp only [Inert, step]
  split
  · rename_i c connect hattempt
    obtain rfl := Option.some.inj (hget.symm.trans hattempt)
    cases answer with
    | ok session => simp [Quiet, hattempt, afterSession, openSocket_quiet]
    | error error => simp [Quiet, hattempt, afterSession, connectFailed_quiet hdisposed]
  · rename_i hattempt
    refine iff_of_true rfl ?_
    cases answer with
    | ok session =>
      intro attempt hget hawaiting
      exact absurd (hawaiting ▸ hget) (hattempt attempt.controller attempt.options)
    | error error =>
      intro attempt hget hawaiting
      exact absurd (hawaiting ▸ hget) (hattempt attempt.controller attempt.options)

theorem socket_quiet {i : ℕ} {answer : Except ClassifiedSshError ReadyState}
    (hstale : w.Stale (.socket i answer)) :
    w.Inert (.socket i answer) ↔ w.Quiet (.socket i answer) := by
  obtain ⟨attempt, hget, hdisposed⟩ := hstale
  simp only [Inert, step]
  split
  · rename_i c connect session reused hattempt
    obtain rfl := Option.some.inj (hget.symm.trans hattempt)
    rw [afterSocket_quiet hdisposed]
    cases answer with
    | ok readyState => exact ⟨fun h _ _ _ _ _ => h, fun h => h _ hget session reused rfl⟩
    | error error => exact ⟨fun h _ _ _ _ _ => h, fun h => h _ hget session reused rfl⟩
  · rename_i hattempt
    refine iff_of_true rfl ?_
    cases answer with
    | ok readyState =>
      intro attempt hget session reused hawaiting
      exact absurd (hawaiting ▸ hget) (hattempt attempt.controller attempt.options session reused)
    | error error =>
      intro attempt hget session reused hawaiting
      exact absurd (hawaiting ▸ hget) (hattempt attempt.controller attempt.options session reused)

theorem initialCheck_quiet {i : ℕ} {canRestore : Option Bool}
    (hstale : w.Stale (.initialCheck i canRestore)) : w.Inert (.initialCheck i canRestore) := by
  obtain ⟨call, hget, hdisposed⟩ := hstale
  simp only [Inert, step]
  split
  · rename_i c hcall
    obtain rfl := Option.some.inj (hget.symm.trans hcall)
    let w' := { w with initializations := w.initializations.set i ⟨c, false⟩ }
    have hdisposed : w'.isDisposed c = true := hdisposed
    cases canRestore with
    | none => rfl
    | some canRestore =>
      simp only [afterInitialCheck]
      split
      · have hbarred : w'.connectBarred c = true := by
          simp [connectBarred, hdisposed]
        show (w'.connectNativeSession c ⟨false, true, false⟩).observed = w.observed
        rw [connectNativeSession, if_pos hbarred]
        rfl
      · rfl
  · rfl

theorem closed_quiet (i : ℕ) (succeeded : Bool) :
    w.Inert (.closed i succeeded) ↔ w.Quiet (.closed i succeeded) := by
  simp only [Inert, step]
  split
  · rename_i c hcall
    cases succeeded with
    | false => exact iff_of_true rfl trivial
    | true =>
      refine iff_of_false finishDisconnect_loud fun h => ?_
      exact Bool.noConfusion (h ⟨c, true⟩ hcall)
  · rename_i hcall
    refine iff_of_true rfl ?_
    cases succeeded with
    | false => trivial
    | true =>
      intro call hget
      rw [← Bool.not_eq_true]
      intro hpending
      exact hcall call.controller (hpending ▸ hget)

theorem timer_loud (hstale : w.Stale .timer) : ¬ w.Inert .timer := by
  obtain ⟨timer, htimer, hdisposed⟩ := hstale
  let fired := { w with refs.reconnectTimeout := none }
  have hbarred : fired.connectBarred timer.controller = true := by
    have hdisposed : fired.isDisposed timer.controller = true := hdisposed
    simp [connectBarred, hdisposed]
  have hstep : w.step .timer = fired := by
    simp only [step, fireTimer, Option.mem_def.mp htimer]
    exact if_pos hbarred
  intro h
  rw [Inert, hstep] at h
  have hkept : none = w.refs.reconnectTimeout := congrArg Observed.reconnectTimeout h
  rw [Option.mem_def.mp htimer] at hkept
  cases hkept

theorem resizeFailed_quiet {c : ℕ} (hstale : w.Stale (.resizeFailed c)) :
    w.Inert (.resizeFailed c) :=
  congrArg observed (if_pos hstale)

/-- A stale event changes nothing exactly if it is quiet. -/
theorem inert_iff {a : PaneAction} (hstale : w.Stale a) : w.Inert a ↔ w.Quiet a := by
  cases a with
  | mount options => exact hstale.elim
  | unmount => exact hstale.elim
  | toggle => exact hstale.elim
  | ensureConnected => exact hstale.elim
  | runtimeStatusFetched status => exact hstale.elim
  | initialCheck i canRestore => exact iff_of_true (initialCheck_quiet hstale) trivial
  | runtimeStatus i status => exact runtimeStatus_quiet i status
  | restoreCheck i answer => exact restoreCheck_quiet i answer
  | secrets i answer => exact iff_of_true (secrets_quiet hstale) trivial
  | session i answer => exact session_quiet hstale
  | socket i answer => exact socket_quiet hstale
  | timer => exact iff_of_false (timer_loud hstale) id
  | socketReady i => exact hstale.elim
  | socketMessage i frame => exact socketMessage_quiet i frame
  | socketError i => exact socketError_quiet i
  | socketClose i => exact socketClose_quiet i
  | closed i succeeded => exact closed_quiet i succeeded
  | resizeFailed c => exact iff_of_true (resizeFailed_quiet hstale) trivial
  | dispatchCommand entry => exact hstale.elim
  | render => exact hstale.elim
  | flushEffect => exact hstale.elim

end Steps

end PaneWorld
open PaneWorld

/-- The options of a pane of a host without secrets. -/
def keylessOptions : ControllerOptions := ⟨.none, js "gateway", .ssh, js "SSH", false, false⟩

/-- A pane is connected, disconnected and connected again before its first socket has closed. -/
def reconnected : List PaneAction :=
  [.mount keylessOptions, .runtimeStatus 0 (some ⟨true, none, []⟩), .session 0 (.ok 1),
    .socket 0 (.ok .opened), .socketMessage 0 (some (.status .connected)), .toggle,
    .closed 0 true, .toggle, .session 1 (.ok 2), .socket 1 (.ok .opened)]

def openedPane : SessionPane := ⟨js "host-1", .connecting, none, .ssh, none, false⟩

end PaneSession
