import TerminalWorkspace.Foundation.Runs
import TerminalWorkspace.PaneSession.Activity

/-! Progress of a pane: whether its record can say that it is connecting while nothing is on
its way that could ever change that. -/
namespace PaneSession
open JsText Inventory SessionStream Runs

namespace Activity

def dropConnection (activity : Activity) (socket : Option ℕ) : Activity :=
  { activity with
    reconnectTimeout := none
    sockets := match socket with
      | none => activity.sockets
      | some socket => activity.sockets.modify socket fun s =>
        if s.readyState = .closed ∨ s.readyState = .closing then s
        else { s with readyState := .closing } }

def answer (activity : Activity) (i c : ℕ) : Activity :=
  { activity with initializations := activity.initializations.set i ⟨c, false⟩ }

def closed (activity : Activity) (i : ℕ) (socket : PaneSocket) : Activity :=
  { activity with sockets := activity.sockets.set i { socket with readyState := .closed } }

end Activity

namespace PaneWorld
variable (w : PaneWorld)

/-- The controller in use would be left connecting if no more than `activity` were to come. -/
def StuckWith (activity : Activity) : Prop :=
  w.isDisposed w.current = false ∧ w.Connecting ∧ activity.Idle

instance (activity : Activity) : Decidable (w.StuckWith activity) :=
  inferInstanceAs (Decidable (_ ∧ _))

def Stuck : Prop := w.StuckWith w.activity

instance : Decidable w.Stuck := inferInstanceAs (Decidable (w.StuckWith _))

def retryable (error : ClassifiedSshError) : Bool :=
  shouldScheduleReconnect error.category w.refs.connectedOnce w.refs.reconnectOnRestore

/-- The attempt whose `try` block the action makes fail, with its controller. -/
def failure : PaneAction → Option (ℕ × ℕ × ClassifiedSshError)
  | .session i (.error error) =>
    match w.attempts[i]? with
    | some ⟨c, _, .session⟩ => some (i, c, error)
    | _ => none
  | .socket i (.error error) =>
    match w.attempts[i]? with
    | some ⟨c, _, .socket _ _⟩ => some (i, c, error)
    | _ => none
  | _ => none

/-- A failed attempt that may be retried leaves a reconnect timer armed. -/
def RetryArmed (a : PaneAction) : Prop :=
  ∀ failed ∈ w.failure a, w.isDisposed failed.2.1 = false → w.retryable failed.2.2 = true →
    (w.step a).refs.reconnectTimeout ≠ none

instance (a : PaneAction) : Decidable (w.RetryArmed a) :=
  inferInstanceAs (Decidable (∀ failed ∈ w.failure a, _))

/-- A new controller starts nothing of its own accord. -/
def waitsForUser (options : ControllerOptions) : Bool :=
  !options.unsupportedTransport && !options.useMockTransport && w.refs.backendSessionId.isNone &&
    !w.refs.reconnectOnRestore && w.refs.connectionState = .disconnected

/-- The failed attempt may be retried, but no timer is armed and none can be. -/
def FailsUnretried (a : PaneAction) : Prop :=
  ∃ failed ∈ w.failure a, w.retryable failed.2.2 = true ∧ w.refs.reconnectTimeout = none ∧
    if w.isDisposed failed.2.1 then w.StuckWith (w.activity.setAwaiting failed.1 .settled)
    else w.reconnectBarred failed.2.1 = true ∨ w.refs.connecting = true

instance (a : PaneAction) : Decidable (w.FailsUnretried a) :=
  inferInstanceAs (Decidable (∃ failed ∈ w.failure a, _))

/-- The attempt `i` is of this kind and ends, while nothing else is to come. -/
def EndsStuck (i : ℕ) (kind : Attempt → Bool) : Prop :=
  ∃ attempt ∈ w.attempts[i]?, kind attempt = true ∧ w.StuckWith (w.activity.setAwaiting i .settled)

instance (i : ℕ) (kind : Attempt → Bool) : Decidable (w.EndsStuck i kind) :=
  inferInstanceAs (Decidable (∃ attempt ∈ w.attempts[i]?, _))

/-- The steps after which nothing is to come for a pane that is connecting, or after which an
attempt that may be retried is not. -/
def Strands : PaneAction → Prop
  | .mount options =>
    w.waitsForUser options = true ∧ w.Connecting ∧
      (if w.isDisposed w.current then w.activity
        else w.activity.dropConnection w.refs.socket).Idle
  | .toggle =>
    (w.options w.current).unsupportedTransport = false ∧
      (w.options w.current).useMockTransport = false ∧ w.refs.connectionState = .connected ∧
      w.refs.backendSessionId.isSome ∧ w.StuckWith (w.activity.dropConnection w.refs.socket)
  | .initialCheck i canRestore =>
    ∃ call ∈ w.initializations[i]?, call.pending = true ∧
      (canRestore = none ∨ w.isDisposed call.controller = true) ∧
      w.StuckWith (w.activity.answer i call.controller)
  | .runtimeStatus i status => status = none ∧ w.EndsStuck i (·.awaiting = .runtimeStatus)
  | .restoreCheck i answer => answer = none ∧ w.EndsStuck i (·.awaiting = .restoreCheck)
  | .secrets i answer =>
    w.EndsStuck i fun attempt =>
      attempt.awaiting = .secrets && (answer.isNone || w.isDisposed attempt.controller)
  | .session i answer => w.FailsUnretried (.session i answer)
  | .socket i answer =>
    w.FailsUnretried (.socket i answer) ∨
      ∃ readyState ∈ answer.toOption, Activity.live readyState = false ∧
        w.EndsStuck i fun attempt =>
          attempt.awaiting ≠ .session && Activity.inTry attempt.awaiting
  | .socketMessage i frame =>
    ∃ socket ∈ w.sockets[i]?, socket.readyState = .closing ∧
      w.isDisposed socket.controller = false ∧ frame = some (.status .connecting) ∧
      w.pane.isSome ∧ w.isDisposed w.current = false ∧ w.activity.Idle
  | .socketClose i =>
    ∃ socket ∈ w.sockets[i]?, socket.readyState ≠ .closed ∧
      w.StuckWith (w.activity.closed i socket) ∧
      (w.isDisposed socket.controller = true ∨
        w.retriesReusedSession socket = false ∧ w.reconnectBarred socket.controller = true)
  | _ => False

instance (a : PaneAction) : Decidable (w.Strands a) := by
  cases a <;> (delta Strands; infer_instance)

variable {w}

theorem stuck_iff {w' : PaneWorld} {activity : Activity} (hactivity : w'.activity = activity)
    (hcontrollers : activity.controllers = w.controllers)
    (hconnecting : w'.Connecting ↔ w.Connecting) : w'.Stuck ↔ w.StuckWith activity := by
  have hsame : w'.controllers = w.controllers := (congrArg Activity.controllers hactivity).trans
    hcontrollers
  have hdisposed : w'.isDisposed w'.current = w.isDisposed w.current := by
    simp only [isDisposed, controller, current, hsame]
  rw [Stuck, StuckWith, StuckWith, hactivity, hdisposed, hconnecting]

theorem not_stuck_of_not_idle (h : w.Connecting → ¬ w.activity.Idle) : ¬ w.Stuck :=
  fun hstuck => h hstuck.2.1 hstuck.2.2

/-- A step that begins with `activity` ends there, or with something to come or a record that
no longer says connecting. -/
inductive Outcome (w : PaneWorld) (activity : Activity) (w' : PaneWorld) : Prop where
  | kept (activity_eq : w'.activity = activity) (connecting_iff : w'.Connecting ↔ w.Connecting)
  | resolved (sound : activity.Sound → w'.activity.Sound)
      (not_idle : w'.Connecting → ¬ w'.activity.Idle)

namespace Outcome
variable {w' : PaneWorld} {activity : Activity}

theorem sound (h : Outcome w activity w') (hsound : activity.Sound) : w'.activity.Sound := by
  cases h with
  | kept activity_eq _ => exact activity_eq ▸ hsound
  | resolved sound _ => exact sound hsound

theorem stuckWith (h : Outcome w activity w') (hcontrollers : activity.controllers = w.controllers)
    (hstuck : w'.Stuck) : w.StuckWith activity := by
  cases h with
  | kept activity_eq connecting_iff =>
    exact (stuck_iff activity_eq hcontrollers connecting_iff).mp hstuck
  | resolved _ not_idle => exact absurd hstuck (not_stuck_of_not_idle not_idle)

theorem not_stuck (h : Outcome w w.activity w') (hstuck : ¬ w.Stuck) : ¬ w'.Stuck :=
  fun hstuck' => hstuck (h.stuckWith rfl hstuck')

theorem after {w₁ : PaneWorld} (hactivity : w₁.activity = activity)
    (hconnecting : w₁.Connecting ↔ w.Connecting) (h : Outcome w₁ w₁.activity w') :
    Outcome w activity w' := by
  cases h with
  | kept activity_eq connecting_iff =>
    exact .kept (activity_eq.trans hactivity) (connecting_iff.trans hconnecting)
  | resolved sound not_idle => exact .resolved (hactivity ▸ sound) not_idle

theorem reported (hactivity : w'.activity = activity) (h : ¬ w'.Connecting) :
    Outcome w activity w' :=
  .resolved (fun hsound => hactivity ▸ hsound) fun hconnecting => absurd hconnecting h

end Outcome

variable (w) (c : ℕ) (connect : ConnectOptions)

theorem not_idle_of_open {w : PaneWorld} (h : w.refs.socket.any w.isOpen = true) :
    ¬ w.activity.Idle := by
  intro hidle
  obtain ⟨socket, -, hopen⟩ := Option.any_eq_true _ _ |>.mp h
  obtain ⟨s, hs, hstate⟩ := Option.any_eq_true _ _ |>.mp hopen
  have hlive := hidle.sockets s (List.mem_of_getElem? hs)
  simp only [Activity.live, of_decide_eq_true hstate] at hlive
  exact Bool.noConfusion hlive

theorem connectNativeSession_barred (h : w.connectBarred c = true) :
    w.connectNativeSession c connect = w := by
  simp only [connectNativeSession, h, if_true]

theorem connectNativeSession_disposed (h : w.isDisposed c = true) :
    w.connectNativeSession c connect = w :=
  w.connectNativeSession_barred c connect (by simp [connectBarred, h])

variable {w} in
theorem sound_begun (h : w.activity.Sound) : (w.begun c connect).Sound where
  inTry := fun hconnecting => by
    obtain ⟨attempt, hmem, htry⟩ := h.inTry hconnecting
    exact ⟨attempt, List.mem_append_left _ hmem, htry⟩
  timer := nofun

variable {w} in
/-- The guard only turns a controller in use away while something is to come. -/
theorem connectNativeSession_not_idle (hsound : w.activity.Sound) (hused : w.isDisposed c = false)
    (hconnecting : (w.connectNativeSession c connect).Connecting) :
    ¬ (w.connectNativeSession c connect).activity.Idle := by
  cases hbarred : w.connectBarred c with
  | true =>
    rw [w.connectNativeSession_barred c connect hbarred]
    simp only [connectBarred, hused, Bool.or_false, Bool.or_eq_true] at hbarred
    rcases hbarred with hinTry | hopen
    · exact hsound.not_idle_of_connecting hinTry
    · exact not_idle_of_open hopen
  | false =>
    have heffect := w.connectNativeSession_effect c connect hbarred
    exact heffect.not_idle (by simp [begun]) hconnecting

variable {w} in
theorem connectNativeSession_sound (hsound : w.activity.Sound) :
    (w.connectNativeSession c connect).activity.Sound := by
  cases hbarred : w.connectBarred c with
  | true => exact (w.connectNativeSession_barred c connect hbarred).symm ▸ hsound
  | false =>
    have heffect := w.connectNativeSession_effect c connect hbarred
    have hget : (w.begun c connect).attempts[w.attempts.length]? = some ⟨c, connect, .settled⟩ := by
      simp [begun]
    exact heffect.sound (sound_begun c connect hsound) hget rfl

variable {w} in
theorem connectNativeSession_outcome (hsound : w.activity.Sound) :
    Outcome w w.activity (w.connectNativeSession c connect) := by
  cases hdisposed : w.isDisposed c with
  | true =>
    rw [w.connectNativeSession_disposed c connect hdisposed]
    exact .kept rfl Iff.rfl
  | false =>
    exact .resolved (fun _ => connectNativeSession_sound c connect hsound)
      (connectNativeSession_not_idle c connect hsound hdisposed)

theorem used_of_not_barred {w : PaneWorld} {c : ℕ} (h : w.reconnectBarred c = false) :
    w.isDisposed c = false := by
  simp only [reconnectBarred, Bool.or_eq_false_iff] at h
  exact h.1.1.1.1

theorem scheduleReconnect_outcome (message : Option JsString) :
    Outcome w w.activity (w.scheduleReconnect c message) := by
  cases w.scheduleReconnect_effect c message with
  | barred _ eq => exact .kept (congrArg activity eq) (by rw [eq])
  | busy _ eq => exact .kept (congrArg activity eq) (by rw [eq])
  | armed free _ _ delayMs activity_eq =>
    refine .resolved (fun hsound => ?_) fun _ hidle => ?_
    · rw [activity_eq]
      refine ⟨hsound.inTry, ?_⟩
      rintro timer ⟨⟩
      exact used_of_not_barred free
    · rw [activity_eq] at hidle
      exact Option.some_ne_none _ hidle.timer

/-- A reconnect that is not barred is to come, whether it was armed now or before. -/
theorem scheduleReconnect_not_idle (hsound : w.activity.Sound)
    (hfree : w.reconnectBarred c = false) (message : Option JsString) :
    ¬ (w.scheduleReconnect c message).activity.Idle := by
  intro hidle
  cases w.scheduleReconnect_effect c message with
  | barred barred _ => exact Bool.false_ne_true (hfree.symm.trans barred)
  | busy busy eq =>
    rw [eq] at hidle
    rcases busy with hplanned | hinTry
    · exact hplanned hidle.timer
    · exact hsound.not_idle_of_connecting hinTry hidle
  | armed _ _ _ delayMs activity_eq =>
    rw [activity_eq] at hidle
    exact Option.some_ne_none _ hidle.timer

theorem sessionFailed_outcome (reconnectMessage line : JsString) :
    Outcome w w.activity (w.sessionFailed c reconnectMessage line) := by
  simp only [sessionFailed]
  split
  · exact .after (w.activity_clearBackendSession c) (w.connecting_clearBackendSession c)
      (scheduleReconnect_outcome _ c _)
  · exact .reported (w.activity_clearBackendSession c) (not_connecting_reportState _ nofun)

theorem onMessage_outcome (socket : PaneSocket) {frame : Option SessionFrame}
    (hframe : frame ≠ some (.status .connecting)) :
    Outcome w w.activity (w.onMessage socket frame) := by
  unfold onMessage
  split
  · exact .kept rfl Iff.rfl
  · match frame with
    | none => exact .kept rfl Iff.rfl
    | some (.data data) =>
      simp only
      split
      · exact .kept rfl Iff.rfl
      · exact .kept rfl Iff.rfl
    | some (.status state) =>
      have hstate : state ≠ .connecting := fun h => hframe (h ▸ rfl)
      refine .reported ?_ (not_connecting_reportState _ hstate)
      simp only [activity_reportState]
      split <;> rfl
    | some (.error message) => exact w.sessionFailed_outcome _ _ _

theorem closeSocket_eq :
    w.closeSocket = { w with sockets := (w.activity.dropConnection w.refs.socket).sockets } := by
  unfold closeSocket
  cases h : w.refs.socket <;> rfl

theorem disconnectNativeSession_activity :
    (w.disconnectNativeSession c).activity = w.activity.dropConnection w.refs.socket := by
  simp only [disconnectNativeSession, closeSocket_eq, clearBackendSession, finishDisconnect]
  split
  · split <;> rfl
  · split <;> rfl

theorem connecting_map {w' : PaneWorld} {f : SessionPane → SessionPane}
    (hpane : w'.pane = w.pane.map f)
    (hstate : ∀ pane, (f pane).connectionState = pane.connectionState) :
    w'.Connecting ↔ w.Connecting := by
  unfold Connecting
  rw [hpane]
  cases w.pane with
  | none => simp
  | some pane => simp [hstate]

/-- A session that must be closed first leaves the record as it is until the answer. -/
theorem disconnectNativeSession_connecting (h : w.refs.backendSessionId.isSome) :
    (w.disconnectNativeSession c).Connecting ↔ w.Connecting := by
  obtain ⟨sessionId, hsession⟩ := Option.isSome_iff_exists.mp h
  simp only [disconnectNativeSession, hsession, closeSocket_eq, clearBackendSession]
  split
  · exact w.connecting_map (f := (·.updateReconnectPreference false)) rfl fun _ => rfl
  · refine w.connecting_map
      (f := fun pane => (pane.updateBackendSession none).updateReconnectPreference false) ?_
      fun _ => rfl
    exact Option.map_map ..

theorem disconnectNativeSession_closed (h : w.refs.backendSessionId = none) :
    ¬ (w.disconnectNativeSession c).Connecting := by
  simp only [disconnectNativeSession, h, finishDisconnect]
  exact not_connecting_reportState _ nofun

theorem reconnectBarred_clearBackendSession :
    (w.clearBackendSession c).reconnectBarred c = w.reconnectBarred c := by
  unfold clearBackendSession
  split <;> rfl

theorem reconnectTimeout_clearBackendSession :
    (w.clearBackendSession c).refs.reconnectTimeout = w.refs.reconnectTimeout :=
  congrArg Activity.reconnectTimeout (w.activity_clearBackendSession c)

theorem connecting_ref_clearBackendSession :
    (w.clearBackendSession c).refs.connecting = w.refs.connecting :=
  congrArg Activity.connecting (w.activity_clearBackendSession c)

variable (i : ℕ) (error : ClassifiedSshError)

/-- What is to come once the `finally` block has run, apart from a reconnect. -/
def afterFailure : Activity := { w.activity.setAwaiting i .settled with connecting := false }

theorem reportFailure_retryable (h : w.retryable error = true) :
    ∃ message, w.reportFailure c error = (w.clearBackendSession c).scheduleReconnect c message := by
  have hcondition : shouldScheduleReconnect error.category (w.clearBackendSession c).refs.connectedOnce
      (w.clearBackendSession c).refs.reconnectOnRestore = true := by
    unfold clearBackendSession
    split <;> exact h
  simp only [reportFailure, hcondition, if_true]
  exact ⟨_, rfl⟩

theorem reportFailure_final (h : w.retryable error = false) :
    (w.reportFailure c error).activity = { w.activity with reconnectTimeout := none } ∧
      ¬ (w.reportFailure c error).Connecting := by
  have hcondition : shouldScheduleReconnect error.category (w.clearBackendSession c).refs.connectedOnce
      (w.clearBackendSession c).refs.reconnectOnRestore = false := by
    unfold clearBackendSession
    split <;> exact h
  have hcleared := w.activity_clearBackendSession c
  simp only [reportFailure, hcondition, Bool.false_eq_true, if_false]
  refine ⟨?_, not_connecting_reportState _ nofun⟩
  rw [activity_reportState]
  calc
    _ = (w.clearBackendSession c).clearReconnectTimer.activity := by split <;> rfl
    _ = { (w.clearBackendSession c).activity with reconnectTimeout := none } := rfl
    _ = { w.activity with reconnectTimeout := none } := by rw [hcleared]

theorem connectFailed_activity :
    (w.connectFailed c i error).activity =
      { (w.reportFailure c error).activity.setAwaiting i .settled with connecting := false } := rfl

theorem connectFailed_connecting :
    (w.connectFailed c i error).Connecting ↔ (w.reportFailure c error).Connecting := Iff.rfl

theorem connectFailed_kept (h : w.reportFailure c error = w.clearBackendSession c) :
    (w.connectFailed c i error).activity = w.afterFailure i ∧
      ((w.connectFailed c i error).Connecting ↔ w.Connecting) := by
  have hactivity := w.connectFailed_activity c i error
  have hconnecting := w.connectFailed_connecting c i error
  rw [h, activity_clearBackendSession] at hactivity
  rw [h, connecting_clearBackendSession] at hconnecting
  exact ⟨hactivity, hconnecting⟩

theorem connectFailed_outcome : Outcome w (w.afterFailure i) (w.connectFailed c i error) := by
  have hactivity := w.connectFailed_activity c i error
  have hconnecting := w.connectFailed_connecting c i error
  cases hretryable : w.retryable error with
  | false =>
    obtain ⟨hfinal, hreported⟩ := w.reportFailure_final c error hretryable
    refine .resolved (fun _ => ?_) fun h => absurd (hconnecting.mp h) hreported
    rw [hactivity, hfinal]
    exact ⟨nofun, nofun⟩
  | true =>
    obtain ⟨message, hscheduled⟩ := w.reportFailure_retryable c error hretryable
    have hkept : w.reportFailure c error = w.clearBackendSession c →
        Outcome w (w.afterFailure i) (w.connectFailed c i error) := fun hcleared =>
      .kept (w.connectFailed_kept c i error hcleared).1 (w.connectFailed_kept c i error hcleared).2
    cases (w.clearBackendSession c).scheduleReconnect_effect c message with
    | barred _ eq => exact hkept (hscheduled.trans eq)
    | busy _ eq => exact hkept (hscheduled.trans eq)
    | armed free _ _ delayMs activity_eq =>
      rw [hscheduled, activity_eq, activity_clearBackendSession] at hactivity
      have hused := used_of_not_barred ((w.reconnectBarred_clearBackendSession c).symm.trans free)
      refine .resolved (fun _ => ?_) fun _ hidle => ?_
      · rw [hactivity]
        refine ⟨nofun, ?_⟩
        rintro timer ⟨⟩
        exact hused
      · rw [hactivity] at hidle
        exact Option.some_ne_none _ hidle.timer

/-- The timer that a failed attempt leaves, where it may be retried. -/
theorem connectFailed_armed_iff (hretryable : w.retryable error = true) :
    (w.connectFailed c i error).refs.reconnectTimeout ≠ none ↔
      w.refs.reconnectTimeout ≠ none ∨
        w.reconnectBarred c = false ∧ w.refs.connecting = false := by
  obtain ⟨message, hscheduled⟩ := w.reportFailure_retryable c error hretryable
  have htimer : (w.connectFailed c i error).refs.reconnectTimeout =
      ((w.clearBackendSession c).scheduleReconnect c message).refs.reconnectTimeout :=
    congrArg (·.refs.reconnectTimeout) hscheduled
  rw [htimer]
  cases (w.clearBackendSession c).scheduleReconnect_effect c message with
  | barred barred eq =>
    rw [eq, reconnectTimeout_clearBackendSession]
    rw [reconnectBarred_clearBackendSession] at barred
    simp [barred]
  | busy busy eq =>
    rw [eq, reconnectTimeout_clearBackendSession]
    rw [reconnectTimeout_clearBackendSession, connecting_ref_clearBackendSession] at busy
    rcases busy with hplanned | hinTry
    · simp [hplanned]
    · simp [hinTry]
  | armed free idle notConnecting delayMs activity_eq =>
    rw [show (scheduleReconnect _ c message).refs.reconnectTimeout = some ⟨c, delayMs⟩ from
      congrArg Activity.reconnectTimeout activity_eq]
    rw [reconnectBarred_clearBackendSession] at free
    rw [connecting_ref_clearBackendSession] at notConnecting
    simp [free, notConnecting]

theorem scheduleReconnect_barred (h : w.reconnectBarred c = true) (message : Option JsString) :
    w.scheduleReconnect c message = w := by
  simp only [scheduleReconnect, h, if_true]

variable {w c} in
theorem afterInitialCheck_disposed (h : w.isDisposed c = true) {canRestore : Bool} :
    w.afterInitialCheck c canRestore = w := by
  simp [afterInitialCheck, h, connectNativeSession_disposed]

variable {w c} in
theorem afterInitialCheck_resolved (hsound : w.activity.Sound)
    (hused : w.isDisposed c = false) (canRestore : Bool) :
    (w.afterInitialCheck c canRestore).activity.Sound ∧
      ((w.afterInitialCheck c canRestore).Connecting →
        ¬ (w.afterInitialCheck c canRestore).activity.Idle) := by
  cases canRestore with
  | true =>
    exact ⟨connectNativeSession_sound c _ hsound, connectNativeSession_not_idle c _ hsound hused⟩
  | false =>
    simp only [afterInitialCheck, hused, Bool.false_eq_true, if_false, not_false_eq_true, if_true]
    refine ⟨?_, fun h => absurd h (w.not_connecting_setPendingSecretsState c true)⟩
    rw [activity_setPendingSecretsState]
    exact hsound

theorem connecting_reportState : (w.reportState .connecting).Connecting ↔ w.pane.isSome := by
  unfold Connecting reportState setPaneState
  cases w.pane with
  | none => simp
  | some pane => simp [SessionPane.updateConnectionState]

theorem onClose_eq (socket : PaneSocket) (hused : w.isDisposed socket.controller = false) :
    ∃ w₁ : PaneWorld, w₁.activity = w.activity ∧ (w₁.Connecting ↔ w.Connecting) ∧
      w₁.reconnectBarred socket.controller = w.reconnectBarred socket.controller ∧
      w.onClose socket =
        if w.retriesReusedSession socket then
          w₁.connectNativeSession socket.controller ⟨false, true, false⟩
        else w₁.scheduleReconnect socket.controller none := by
  simp only [onClose, hused, Bool.false_eq_true, if_false]
  split
  · let detached := { w with refs.socket := none }
    have hretries : (detached.clearBackendSession socket.controller).retriesReusedSession socket =
        w.retriesReusedSession socket := by
      unfold clearBackendSession
      split <;> rfl
    exact ⟨detached.clearBackendSession socket.controller, activity_clearBackendSession ..,
      connecting_clearBackendSession .., reconnectBarred_clearBackendSession ..,
      by rw [hretries]⟩
  · exact ⟨{ w with refs.socket := none }, rfl, Iff.rfl, rfl, rfl⟩

/-- What one step does about progress, and that what is on its way stays sound. -/
structure Steps (a : PaneAction) : Prop where
  sound : (w.step a).activity.Sound
  progress_iff : ¬ (w.step a).Stuck ∧ w.RetryArmed a ↔ ¬ w.Strands a

variable {w} {a : PaneAction}

theorem retryArmed_of_no_failure (h : w.failure a = none) : w.RetryArmed a := by
  intro failed hfailed
  rw [h] at hfailed
  exact absurd hfailed (Option.not_mem_none _)

/-- A step after which as much is to come as before, or which needs nothing more. -/
theorem Steps.of_outcome (hsound : w.activity.Sound) (hstuck : ¬ w.Stuck)
    (hfailure : w.failure a = none) (hstrands : ¬ w.Strands a)
    (h : Outcome w w.activity (w.step a)) : w.Steps a where
  sound := h.sound hsound
  progress_iff :=
    ⟨fun _ => hstrands, fun _ => ⟨h.not_stuck hstuck, retryArmed_of_no_failure hfailure⟩⟩

theorem Steps.of_resolved (hfailure : w.failure a = none) (hstrands : ¬ w.Strands a)
    (hsound : (w.step a).activity.Sound)
    (h : (w.step a).Connecting → ¬ (w.step a).activity.Idle) : w.Steps a where
  sound := hsound
  progress_iff :=
    ⟨fun _ => hstrands, fun _ => ⟨not_stuck_of_not_idle h, retryArmed_of_no_failure hfailure⟩⟩

theorem Steps.of_iff (hsound : (w.step a).activity.Sound) (hfailure : w.failure a = none)
    (h : (w.step a).Stuck ↔ w.Strands a) : w.Steps a where
  sound := hsound
  progress_iff := by
    rw [h]
    exact ⟨fun h => h.1, fun h => ⟨h, retryArmed_of_no_failure hfailure⟩⟩

/-- A step that takes something off what is to come and does no more. -/
theorem Steps.of_end {activity : Activity} (hsound : activity.Sound)
    (hcontrollers : activity.controllers = w.controllers) (hfailure : w.failure a = none)
    (hstrands : w.Strands a ↔ w.StuckWith activity) (hactivity : (w.step a).activity = activity)
    (hconnecting : (w.step a).Connecting ↔ w.Connecting) : w.Steps a :=
  .of_iff (hactivity ▸ hsound) hfailure
    ((stuck_iff hactivity hcontrollers hconnecting).trans hstrands.symm)

section Steps
variable (hsound : w.activity.Sound) (hstuck : ¬ w.Stuck)
include hsound hstuck

theorem step_ensureConnected : w.Steps .ensureConnected := by
  refine .of_outcome hsound hstuck rfl id ?_
  simp only [step, ensureConnected]
  split
  · split
    · exact .kept rfl Iff.rfl
    · exact .reported rfl (not_connecting_setPaneState _ nofun)
  · split
    · exact .kept rfl Iff.rfl
    · split
      · exact .kept rfl Iff.rfl
      · exact connectNativeSession_outcome _ _ hsound

theorem step_timer : w.Steps .timer := by
  have hstep : w.step .timer = w.fireTimer := rfl
  unfold fireTimer at hstep
  split at hstep
  · refine .of_outcome hsound hstuck rfl id ?_
    rw [hstep]
    exact .kept rfl Iff.rfl
  · rename_i timer htimer
    have hrest : Activity.Sound (activity { w with refs.reconnectTimeout := none }) :=
      ⟨hsound.inTry, nofun⟩
    apply Steps.of_resolved rfl id
    · rw [hstep]
      exact connectNativeSession_sound _ _ hrest
    · rw [hstep]
      exact connectNativeSession_not_idle _ _ hrest (hsound.timer timer htimer)

theorem step_toggle : w.Steps .toggle := by
  have hstep : w.step .toggle = w.toggleConnection := rfl
  simp only [toggleConnection] at hstep
  split at hstep
  · rename_i hunsupported
    refine .of_outcome hsound hstuck rfl (fun h => Bool.false_ne_true (h.1.symm.trans hunsupported)) ?_
    rw [hstep]
    exact .reported rfl (not_connecting_setPaneState _ nofun)
  · rename_i hsupported
    split at hstep
    · rename_i hnative
      split at hstep
      · rename_i hconnected
        have hactivity := w.disconnectNativeSession_activity w.current
        have hrest : (w.activity.dropConnection w.refs.socket).Sound := ⟨hsound.inTry, nofun⟩
        cases hsession : w.refs.backendSessionId with
        | some sessionId =>
          refine .of_end hrest rfl rfl ?_ (hstep ▸ hactivity) ?_
          · simp only [Strands, hsession]
            grind
          · rw [hstep]
            exact w.disconnectNativeSession_connecting w.current (by rw [hsession]; rfl)
        | none =>
          apply Steps.of_resolved rfl
          · rintro ⟨-, -, -, hsome, -⟩
            rw [hsession] at hsome
            exact Bool.noConfusion hsome
          · rw [hstep, hactivity]
            exact hrest
          · rw [hstep]
            exact fun h => absurd h (w.disconnectNativeSession_closed w.current hsession)
      · rename_i hconnected
        refine .of_outcome hsound hstuck rfl (fun h => hconnected h.2.2.1) ?_
        rw [hstep]
        exact connectNativeSession_outcome _ _ hsound
    · rename_i hmock
      refine .of_outcome hsound hstuck rfl (fun h => hmock (by simp [h.2.1])) ?_
      split at hstep
      · rw [hstep]
        refine .resolved (fun _ => ⟨hsound.inTry, nofun⟩) fun h => ?_
        exact absurd h (not_connecting_setPaneState _ nofun)
      · rw [hstep]
        exact .reported rfl (not_connecting_reportState _ nofun)

theorem step_socketError (i : ℕ) : w.Steps (.socketError i) := by
  refine .of_outcome hsound hstuck rfl id ?_
  simp only [step]
  split
  · split
    · exact .kept rfl Iff.rfl
    · unfold onError
      split
      · exact .kept rfl Iff.rfl
      · exact w.sessionFailed_outcome _ _ _
  · exact .kept rfl Iff.rfl

theorem step_closed (i : ℕ) (succeeded : Bool) : w.Steps (.closed i succeeded) := by
  refine .of_outcome hsound hstuck rfl id ?_
  simp only [step]
  split
  · split
    · exact .reported rfl (not_connecting_reportState _ nofun)
    · exact .kept rfl Iff.rfl
  · exact .kept rfl Iff.rfl

theorem step_resizeFailed (c : ℕ) : w.Steps (.resizeFailed c) :=
  .of_outcome hsound hstuck rfl id
    (.kept (w.activity_clearBackendSession c) (w.connecting_clearBackendSession c))

theorem step_render : w.Steps .render := by
  refine .of_outcome hsound hstuck rfl id ?_
  have hflush : w.flushEffect.activity = w.activity ∧ w.flushEffect.pane = w.pane := by
    unfold flushEffect
    split <;> exact ⟨rfl, rfl⟩
  have hconnecting : w.flushEffect.Connecting ↔ w.Connecting := by
    unfold Connecting
    rw [hflush.2]
  simp only [step, render]
  split
  · exact .kept hflush.1 hconnecting
  · split
    · exact .kept hflush.1 hconnecting
    · exact .kept hflush.1 hconnecting

theorem step_flushEffect : w.Steps .flushEffect := by
  refine .of_outcome hsound hstuck rfl id ?_
  simp only [step, flushEffect]
  split <;> exact .kept rfl Iff.rfl

theorem step_socketReady (i : ℕ) : w.Steps (.socketReady i) := by
  have hsame : (w.step (.socketReady i)).Stuck → w.Stuck := by
    rintro ⟨hused, hconnecting, hidle⟩
    refine ⟨hused, hconnecting, hidle.attempts, hidle.initializations, ?_, hidle.timer⟩
    intro socket hmem
    obtain ⟨j, hj⟩ := List.mem_iff_getElem?.mp hmem
    have hready := hidle.sockets _ (List.mem_of_getElem? (i := j)
      ((List.getElem?_modify ..).trans (congrArg _ hj)))
    by_cases hstate : socket.readyState = .connecting
    · by_cases hi : i = j
      · simp [hi, hstate, Activity.live] at hready
      · simpa [hi] using hready
    · simpa [hstate] using hready
  exact ⟨⟨hsound.inTry, hsound.timer⟩, fun _ => id,
    fun _ => ⟨fun h => hstuck (hsame h), retryArmed_of_no_failure rfl⟩⟩

omit hstuck in
/-- An answer with which the attempt goes on. -/
theorem steps_of_effect {i : ℕ} {attempt : Attempt} (hget : w.attempts[i]? = some attempt)
    (hout : Activity.inTry attempt.awaiting = false) (hfailure : w.failure a = none)
    (hstrands : ¬ w.Strands a) (h : ConnectEffect w.activity i (w.step a)) : w.Steps a :=
  .of_resolved hfailure hstrands (h.sound hsound hget hout)
    (h.not_idle (List.getElem?_eq_some_iff.mp hget).1)

omit hstuck in
/-- An answer that ends the attempt without a word. -/
theorem steps_of_settled {i : ℕ} {attempt : Attempt} (kind : Attempt → Bool)
    (hget : w.attempts[i]? = some attempt) (hkind : kind attempt = true)
    (hout : Activity.inTry attempt.awaiting = false) (hfailure : w.failure a = none)
    (hstrands : w.Strands a ↔ w.EndsStuck i kind) (h : w.step a = w.setAwaiting i .settled) :
    w.Steps a := by
  refine .of_end (hsound.setAwaiting hget hout .settled) rfl hfailure ?_ (congrArg activity h) ?_
  · rw [hstrands, EndsStuck, hget]
    simp [hkind]
  · rw [h]
    exact Iff.rfl

theorem steps_of_nothing (hfailure : w.failure a = none) (hstrands : ¬ w.Strands a)
    (h : w.step a = w) : w.Steps a :=
  .of_outcome hsound hstuck hfailure hstrands (.kept (congrArg activity h) (by rw [h]))

theorem step_runtimeStatus (i : ℕ) (status : Option RuntimeStatusMessage) :
    w.Steps (.runtimeStatus i status) := by
  have hstep := Eq.refl (w.step (.runtimeStatus i status))
  conv at hstep => rhs; simp only [step]
  split at hstep
  · rename_i c connect hget
    cases status with
    | some status =>
      exact steps_of_effect hsound hget rfl rfl (fun h => Option.some_ne_none _ h.1)
        (hstep ▸ w.afterRuntimeStatus_effect c i connect status)
    | none =>
      refine steps_of_settled hsound (·.awaiting = .runtimeStatus) hget rfl rfl rfl ?_ hstep
      exact ⟨fun h => h.2, fun h => ⟨rfl, h⟩⟩
  · rename_i hother
    refine steps_of_nothing hsound hstuck rfl ?_ hstep
    rintro ⟨-, attempt, hmem, hkind, -⟩
    exact hother attempt.controller attempt.options
      (hmem.trans (by rw [← of_decide_eq_true hkind]))

theorem step_restoreCheck (i : ℕ) (answer : Option Bool) : w.Steps (.restoreCheck i answer) := by
  have hstep := Eq.refl (w.step (.restoreCheck i answer))
  conv at hstep => rhs; simp only [step]
  split at hstep
  · rename_i c connect hget
    cases answer with
    | some answer =>
      exact steps_of_effect hsound hget rfl rfl (fun h => Option.some_ne_none _ h.1)
        (hstep ▸ w.afterRestoreCheck_effect c i connect answer)
    | none =>
      refine steps_of_settled hsound (·.awaiting = .restoreCheck) hget rfl rfl rfl ?_ hstep
      exact ⟨fun h => h.2, fun h => ⟨rfl, h⟩⟩
  · rename_i hother
    refine steps_of_nothing hsound hstuck rfl ?_ hstep
    rintro ⟨-, attempt, hmem, hkind, -⟩
    exact hother attempt.controller attempt.options
      (hmem.trans (by rw [← of_decide_eq_true hkind]))

theorem step_secrets (i : ℕ) (answer : Option Bool) : w.Steps (.secrets i answer) := by
  have hstep := Eq.refl (w.step (.secrets i answer))
  conv at hstep => rhs; simp only [step]
  split at hstep
  · rename_i c connect hget
    cases answer with
    | some answer =>
      cases hdisposed : w.isDisposed c with
      | false =>
        refine steps_of_effect hsound hget rfl rfl ?_
          (hstep ▸ w.afterSecrets_effect c i connect answer hdisposed)
        rintro ⟨attempt, hmem, hkind, -⟩
        rw [hget, Option.mem_some_iff] at hmem
        subst hmem
        simp [hdisposed] at hkind
      | true =>
        simp only [afterSecrets, hdisposed, if_true] at hstep
        exact steps_of_settled hsound _ hget (by simp [hdisposed]) rfl rfl Iff.rfl hstep
    | none => exact steps_of_settled hsound _ hget (by simp) rfl rfl Iff.rfl hstep
  · rename_i hother
    refine steps_of_nothing hsound hstuck rfl ?_ hstep
    rintro ⟨attempt, hmem, hkind, -⟩
    rw [Bool.and_eq_true] at hkind
    exact hother attempt.controller attempt.options
      (hmem.trans (by rw [← of_decide_eq_true hkind.1]))

theorem step_initialCheck (i : ℕ) (canRestore : Option Bool) :
    w.Steps (.initialCheck i canRestore) := by
  have hstep := Eq.refl (w.step (.initialCheck i canRestore))
  conv at hstep => rhs; simp only [step]
  split at hstep
  · rename_i c hget
    have hrest : (w.activity.answer i c).Sound := ⟨hsound.inTry, hsound.timer⟩
    let answered := { w with initializations := w.initializations.set i ⟨c, false⟩ }
    have hends : (canRestore = none ∨ w.isDisposed c = true) →
        (w.Strands (.initialCheck i canRestore) ↔ w.StuckWith (w.activity.answer i c)) := by
      intro hquiet
      simp only [Strands, hget]
      simp [hquiet]
    have hgoes : ¬ (canRestore = none ∨ w.isDisposed c = true) →
        ¬ w.Strands (.initialCheck i canRestore) := by
      rintro hloud ⟨call, hmem, -, hquiet, -⟩
      rw [hget, Option.mem_some_iff] at hmem
      subst hmem
      exact hloud hquiet
    cases canRestore with
    | none =>
      refine .of_end hrest rfl rfl (hends (.inl rfl)) (congrArg activity hstep) ?_
      rw [hstep]
      exact Iff.rfl
    | some canRestore =>
      cases hdisposed : w.isDisposed c with
      | true =>
        have hkept := hstep.trans (afterInitialCheck_disposed (w := answered) hdisposed)
        refine .of_end hrest rfl rfl (hends (.inr hdisposed)) (congrArg activity hkept) ?_
        rw [hkept]
        exact Iff.rfl
      | false =>
        have hresolved := afterInitialCheck_resolved (w := answered) hrest hdisposed canRestore
        apply Steps.of_resolved rfl (hgoes (by simp [hdisposed]))
        · rw [hstep]
          exact hresolved.1
        · rw [hstep]
          exact hresolved.2
  · rename_i hother
    refine steps_of_nothing hsound hstuck rfl ?_ hstep
    rintro ⟨call, hmem, hpending, -⟩
    exact hother call.controller (hmem.trans (by rw [← hpending]))

theorem step_socketMessage (i : ℕ) (frame : Option SessionFrame) :
    w.Steps (.socketMessage i frame) := by
  have hstep := Eq.refl (w.step (.socketMessage i frame))
  conv at hstep => rhs; simp only [step]
  split at hstep
  · rename_i socket hget
    split at hstep
    · rename_i hclosed
      refine steps_of_nothing hsound hstuck rfl ?_ hstep
      rintro ⟨other, hmem, hclosing, -⟩
      rw [hget, Option.mem_some_iff] at hmem
      subst hmem
      exact nomatch hclosed.symm.trans hclosing
    · rename_i hopen
      by_cases hframe : frame = some (.status .connecting)
      · subst hframe
        cases hdisposed : w.isDisposed socket.controller with
        | true =>
          simp only [onMessage, hdisposed, if_true] at hstep
          refine steps_of_nothing hsound hstuck rfl ?_ hstep
          rintro ⟨other, hmem, -, hused, -⟩
          rw [hget, Option.mem_some_iff] at hmem
          subst hmem
          exact Bool.false_ne_true (hused.symm.trans hdisposed)
        | false =>
          simp only [onMessage, hdisposed, Bool.false_eq_true, if_false, reduceCtorEq] at hstep
          have hclosing : w.activity.Idle → socket.readyState = .closing := by
            intro hidle
            have hlive := hidle.sockets socket (List.mem_of_getElem? hget)
            cases hstate : socket.readyState with
            | closing => rfl
            | closed => exact absurd hstate hopen
            | connecting => simp [hstate, Activity.live] at hlive
            | opened => simp [hstate, Activity.live] at hlive
          refine .of_iff (hstep ▸ hsound) rfl ?_
          rw [hstep]
          constructor
          · rintro ⟨hused, hconnecting, hidle⟩
            exact ⟨socket, hget, hclosing hidle, hdisposed, rfl,
              w.connecting_reportState.mp hconnecting, hused, hidle⟩
          · rintro ⟨-, -, -, -, -, hpane, hused, hidle⟩
            exact ⟨hused, w.connecting_reportState.mpr hpane, hidle⟩
      · refine .of_outcome hsound hstuck rfl (fun ⟨_, _, _, _, h, _⟩ => hframe h) ?_
        rw [hstep]
        exact w.onMessage_outcome socket hframe
  · rename_i hnone
    refine steps_of_nothing hsound hstuck rfl ?_ hstep
    rintro ⟨socket, hmem, -⟩
    rw [hnone] at hmem
    exact absurd hmem (Option.not_mem_none _)

theorem step_socketClose (i : ℕ) : w.Steps (.socketClose i) := by
  have hstep := Eq.refl (w.step (.socketClose i))
  conv at hstep => rhs; simp only [step]
  split at hstep
  · rename_i socket hget
    split at hstep
    · rename_i hclosed
      refine steps_of_nothing hsound hstuck rfl ?_ hstep
      rintro ⟨other, hmem, hopen, -⟩
      rw [hget, Option.mem_some_iff] at hmem
      subst hmem
      exact hopen hclosed
    · rename_i hopen
      let closed := { w with sockets := w.sockets.set i { socket with readyState := .closed } }
      have hrest : closed.activity.Sound := ⟨hsound.inTry, hsound.timer⟩
      have hstrands : w.Strands (.socketClose i) ↔ w.StuckWith closed.activity ∧
          (w.isDisposed socket.controller = true ∨
            w.retriesReusedSession socket = false ∧ w.reconnectBarred socket.controller = true) := by
        simp only [Strands, hget]
        simp [hopen, closed, Activity.closed, activity]
      cases hdisposed : w.isDisposed socket.controller with
      | true =>
        have hkept : closed.onClose socket = closed := by
          simp only [onClose, show closed.isDisposed socket.controller = true from hdisposed, if_true]
        refine .of_end hrest rfl rfl (by simp [hstrands, hdisposed])
          (congrArg activity (hstep.trans hkept)) ?_
        rw [hstep.trans hkept]
        exact Iff.rfl
      | false =>
        obtain ⟨w₁, hactivity, hconnecting, hbarred, hclose⟩ := closed.onClose_eq socket hdisposed
        rw [hclose] at hstep
        have hused : w₁.isDisposed socket.controller = false := by
          have hcontrollers : w₁.controllers = w.controllers := congrArg Activity.controllers hactivity
          simp only [isDisposed, controller, hcontrollers]
          exact hdisposed
        rw [← hactivity] at hrest
        cases hretries : w.retriesReusedSession socket with
        | true =>
          have hstep : w.step (.socketClose i) = _ := hstep.trans (if_pos hretries)
          refine .of_resolved rfl (by simp [hstrands, hdisposed, hretries]) ?_ ?_
          · rw [hstep]
            exact connectNativeSession_sound _ _ hrest
          · rw [hstep]
            exact connectNativeSession_not_idle _ _ hrest hused
        | false =>
          have hstep : w.step (.socketClose i) = _ :=
            hstep.trans (if_neg (Bool.eq_false_iff.mp hretries))
          cases hreconnect : w.reconnectBarred socket.controller with
          | true =>
            rw [w₁.scheduleReconnect_barred _ (hbarred.trans hreconnect)] at hstep
            refine .of_end (hactivity ▸ hrest) rfl rfl
              (by simp [hstrands, hdisposed, hretries, hreconnect])
              ((congrArg activity hstep).trans hactivity) ?_
            rw [hstep]
            exact hconnecting
          | false =>
            refine .of_resolved rfl (by simp [hstrands, hdisposed, hreconnect]) ?_ ?_
            · rw [hstep]
              exact (w₁.scheduleReconnect_outcome _ _).sound hrest
            · rw [hstep]
              exact fun _ => w₁.scheduleReconnect_not_idle _ hrest (hbarred.trans hreconnect) _
  · rename_i hnone
    refine steps_of_nothing hsound hstuck rfl ?_ hstep
    rintro ⟨socket, hmem, -⟩
    rw [hnone] at hmem
    exact absurd hmem (Option.not_mem_none _)

omit hstuck in
/-- An attempt whose `try` block fails. -/
theorem steps_of_failure {i c : ℕ} {error : ClassifiedSshError}
    (hfailure : w.failure a = some (i, c, error))
    (hstrands : w.Strands a ↔ w.FailsUnretried a) (hstep : w.step a = w.connectFailed c i error) :
    w.Steps a := by
  have houtcome := w.connectFailed_outcome c i error
  refine ⟨hstep ▸ houtcome.sound (hsound.leaveTry i), ?_⟩
  have hidle : w.StuckWith (w.afterFailure i) ↔ w.StuckWith (w.activity.setAwaiting i .settled) := by
    unfold StuckWith afterFailure
    rw [Activity.idle_connecting_iff]
  rw [hstrands]
  unfold FailsUnretried RetryArmed
  simp only [hfailure, Option.mem_some_iff, forall_eq', exists_eq_left', hstep]
  cases hretryable : w.retryable error with
  | false =>
    have hreported := (w.reportFailure_final c error hretryable).2
    have hnot := not_stuck_of_not_idle (w := w.connectFailed c i error) fun h => absurd h hreported
    simp [hnot]
  | true =>
    cases hdisposed : w.isDisposed c with
    | true =>
      have hbarred : w.reconnectBarred c = true := by simp [reconnectBarred, hdisposed]
      obtain ⟨message, hscheduled⟩ := w.reportFailure_retryable c error hretryable
      obtain ⟨hactivity, hconnecting⟩ := w.connectFailed_kept c i error
        (hscheduled.trans (scheduleReconnect_barred _ c
          ((w.reconnectBarred_clearBackendSession c).trans hbarred) message))
      rw [stuck_iff hactivity rfl hconnecting, hidle]
      have htimer : w.StuckWith (w.activity.setAwaiting i .settled) →
          w.refs.reconnectTimeout = none := fun h => h.2.2.timer
      simp only [Bool.true_eq_false, false_imp_iff, and_true, true_and, if_true]
      exact not_congr ⟨fun h => ⟨htimer h, h⟩, fun h => h.2⟩
    | false =>
      have harmed := w.connectFailed_armed_iff c i error hretryable
      have hnot : (w.connectFailed c i error).refs.reconnectTimeout ≠ none →
          ¬ (w.connectFailed c i error).Stuck := fun htimer hstuck => htimer hstuck.2.2.timer
      simp only [true_imp_iff, true_and, Bool.false_eq_true, if_false]
      grind

theorem step_session (i : ℕ) (answer : Except ClassifiedSshError SessionId) :
    w.Steps (.session i answer) := by
  have hstep := Eq.refl (w.step (.session i answer))
  conv at hstep => rhs; simp only [step]
  split at hstep
  · rename_i c connect hget
    cases answer with
    | error error =>
      exact steps_of_failure hsound (by simp only [failure, hget]) Iff.rfl hstep
    | ok sessionId =>
      have hlt := (List.getElem?_eq_some_iff.mp hget).1
      have hopening : ¬ (w.activity.setAwaiting i (.socket sessionId false)).Idle :=
        Activity.not_idle_setAwaiting hlt nofun
      refine .of_resolved rfl ?_ (hstep ▸ hsound.enterTry hlt rfl _) ?_
      · rintro ⟨failed, hfailed, -⟩
        exact absurd hfailed (Option.not_mem_none _)
      · rw [hstep]
        exact fun _ => hopening
  · rename_i hother
    have hfailure : w.failure (.session i answer) = none := by
      cases answer with
      | ok _ => rfl
      | error error =>
        simp only [failure]
    refine steps_of_nothing hsound hstuck hfailure ?_ hstep
    rintro ⟨failed, hfailed, -⟩
    rw [hfailure] at hfailed
    exact absurd hfailed (Option.not_mem_none _)

theorem step_socket (i : ℕ) (answer : Except ClassifiedSshError ReadyState) :
    w.Steps (.socket i answer) := by
  have hstep := Eq.refl (w.step (.socket i answer))
  conv at hstep => rhs; simp only [step]
  split at hstep
  · rename_i c connect sessionId reused hget
    cases answer with
    | error error =>
      refine steps_of_failure hsound (by simp only [failure, hget]) ?_ hstep
      simp [Strands, Except.toOption]
    | ok readyState =>
      have hrest := hsound.leaveTry i
      have hstrands : w.Strands (.socket i (.ok readyState)) ↔ Activity.live readyState = false ∧
          w.StuckWith (w.activity.setAwaiting i .settled) := by
        simp [Strands, FailsUnretried, failure, EndsStuck, hget, Except.toOption, Activity.inTry]
      refine .of_iff (hstep ▸ ⟨nofun, hsound.timer⟩) rfl ?_
      rw [hstrands, hstep]
      have hidle : (w.afterSocket c i sessionId reused (.ok readyState)).activity.Idle ↔
          Activity.live readyState = false ∧ (w.activity.setAwaiting i .settled).Idle :=
        (w.activity.setAwaiting i .settled).idle_addSocket_iff ⟨c, sessionId, reused, readyState⟩
          false
      unfold Stuck StuckWith
      rw [hidle]
      exact ⟨fun ⟨hused, hconnecting, hlive, h⟩ => ⟨hlive, hused, hconnecting, h⟩,
        fun ⟨hlive, hused, hconnecting, h⟩ => ⟨hused, hconnecting, hlive, h⟩⟩
  · rename_i hother
    have hfailure : w.failure (.socket i answer) = none := by
      cases answer with
      | ok _ => rfl
      | error error => simp only [failure]
    refine steps_of_nothing hsound hstuck hfailure ?_ hstep
    rintro (⟨failed, hfailed, -⟩ | ⟨readyState, -, -, attempt, hmem, hkind, -⟩)
    · rw [hfailure] at hfailed
      exact absurd hfailed (Option.not_mem_none _)
    · obtain ⟨c, connect, awaiting⟩ := attempt
      cases awaiting with
      | socket sessionId reused => exact hother c connect sessionId reused hmem
      | runtimeStatus => exact Bool.noConfusion hkind
      | restoreCheck => exact Bool.noConfusion hkind
      | secrets => exact Bool.noConfusion hkind
      | session => exact Bool.noConfusion hkind
      | settled => exact Bool.noConfusion hkind

end Steps

section Mount
variable {c : ℕ}

theorem cleanup_activity :
    (w.cleanupTerminalPaneLifecycle c).activity =
      { w.activity.dropConnection w.refs.socket with
        controllers := w.controllers.modify c fun controller =>
          { controller with disposed := true } } := by
  simp only [cleanupTerminalPaneLifecycle, closeSocket_eq]
  rfl

theorem cleanup_controllers :
    (w.cleanupTerminalPaneLifecycle c).controllers =
      w.controllers.modify c fun controller => { controller with disposed := true } :=
  congrArg Activity.controllers cleanup_activity

theorem current_cleanup : (w.cleanupTerminalPaneLifecycle c).current = w.current := by
  unfold current
  rw [cleanup_controllers, List.length_modify]

theorem isDisposed_cleanup : (w.cleanupTerminalPaneLifecycle c).isDisposed c = true := by
  unfold isDisposed controller
  rw [cleanup_controllers, List.getD_eq_getElem?_getD, List.getElem?_modify]
  cases w.controllers[c]? with
  | none => rfl
  | some controller => simp

theorem initialize_waits (h : w.waitsForUser (w.options c) = true) :
    w.initializeTerminalPaneTransport c = w := by
  simp only [waitsForUser, Bool.and_eq_true, Bool.not_eq_true', Option.isNone_iff_eq_none,
    decide_eq_true_eq] at h
  obtain ⟨⟨⟨⟨hsupported, hnative⟩, hsession⟩, hrestore⟩, hstate⟩ := h
  simp [initializeTerminalPaneTransport, hsupported, hnative, hsession, hrestore, hstate]

theorem initialize_resolved (hsound : w.activity.Sound) (hused : w.isDisposed c = false)
    (h : w.waitsForUser (w.options c) = false) :
    (w.initializeTerminalPaneTransport c).activity.Sound ∧
      ((w.initializeTerminalPaneTransport c).Connecting →
        ¬ (w.initializeTerminalPaneTransport c).activity.Idle) := by
  have hconnect : ∀ connect, (w.connectNativeSession c connect).activity.Sound ∧
      ((w.connectNativeSession c connect).Connecting →
        ¬ (w.connectNativeSession c connect).activity.Idle) := fun connect =>
    ⟨connectNativeSession_sound c connect hsound,
      connectNativeSession_not_idle c connect hsound hused⟩
  simp only [initializeTerminalPaneTransport]
  split
  · exact ⟨hsound, fun h => absurd h (not_connecting_reportState _ nofun)⟩
  · split
    · exact ⟨hsound, fun h => absurd h (not_connecting_reportState _ nofun)⟩
    · split
      · exact hconnect _
      · split
        · split
          · exact hconnect _
          · refine ⟨⟨hsound.inTry, hsound.timer⟩, fun _ hidle => ?_⟩
            exact Bool.noConfusion
              (hidle.initializations ⟨c, true⟩ (List.mem_append_right _ (List.mem_singleton_self _)))
        · split
          · exact hconnect _
          · rename_i hunsupported hmock hsession hrestore hstate
            refine absurd h ?_
            simp only [not_or, Bool.not_eq_true] at hrestore
            simp_all [waitsForUser]

theorem step_unmount (hsound : w.activity.Sound) (hstuck : ¬ w.Stuck) : w.Steps .unmount := by
  have hstep := Eq.refl (w.step .unmount)
  conv at hstep => rhs; simp only [step, unmount]
  split at hstep
  · exact steps_of_nothing hsound hstuck rfl id hstep
  · refine .of_iff (hstep ▸ cleanup_activity ▸ ⟨hsound.inTry, nofun⟩) rfl ⟨?_, False.elim⟩
    rw [hstep]
    rintro ⟨hused, -⟩
    rw [current_cleanup, isDisposed_cleanup] at hused
    exact Bool.noConfusion hused

/-- The world in which the new controller is initialised. -/
def mounted (w : PaneWorld) (options : ControllerOptions) : PaneWorld :=
  let w := if w.isDisposed w.current then w else w.cleanupTerminalPaneLifecycle w.current
  { w with controllers := w.controllers ++ [⟨options, false⟩] }

theorem mounted_controller (options : ControllerOptions) :
    (w.mounted options).controller (w.mounted options).current = ⟨options, false⟩ := by
  unfold mounted controller current
  simp

theorem mounted_refs (options : ControllerOptions) (other : ControllerOptions) :
    (w.mounted options).waitsForUser other = w.waitsForUser other ∧
      (w.mounted options).pane = w.pane := by
  simp only [mounted]
  split
  · exact ⟨rfl, rfl⟩
  · simp only [cleanupTerminalPaneLifecycle, closeSocket_eq]
    exact ⟨rfl, rfl⟩

/-- The controller of a mounted pane joins the others, of which the last is disposed. -/
theorem mounted_activity (options : ControllerOptions) :
    ∃ controllers, (w.mounted options).activity =
      { (if w.isDisposed w.current then w.activity
          else w.activity.dropConnection w.refs.socket) with controllers := controllers } ∧
      (w.isDisposed w.current = true → controllers = w.controllers ++ [⟨options, false⟩]) := by
  simp only [mounted]
  split
  · exact ⟨_, rfl, fun _ => rfl⟩
  · refine ⟨(w.cleanupTerminalPaneLifecycle w.current).controllers ++ [⟨options, false⟩], ?_,
      fun h => absurd h ‹_›⟩
    simp only [cleanupTerminalPaneLifecycle, closeSocket_eq]
    rfl

theorem mounted_idle_iff (options : ControllerOptions) :
    (w.mounted options).activity.Idle ↔
      (if w.isDisposed w.current then w.activity
        else w.activity.dropConnection w.refs.socket).Idle := by
  obtain ⟨controllers, hactivity, -⟩ := mounted_activity (w := w) options
  rw [hactivity, Activity.idle_controllers_iff]

theorem mounted_sound (hsound : w.activity.Sound) (options : ControllerOptions) :
    (w.mounted options).activity.Sound := by
  obtain ⟨controllers, hactivity, hlast⟩ := mounted_activity (w := w) options
  rw [hactivity]
  split
  · rename_i hdisposed
    refine ⟨hsound.inTry, ?_⟩
    intro timer htimer
    rw [hlast hdisposed]
    exact Activity.isDisposed_append (hsound.timer timer htimer) _
  · exact ⟨hsound.inTry, nofun⟩

theorem step_mount (hsound : w.activity.Sound) (options : ControllerOptions) :
    w.Steps (.mount options) := by
  have hcontroller := mounted_controller (w := w) options
  have hused : (w.mounted options).isDisposed (w.mounted options).current = false := by
    rw [isDisposed, hcontroller]
  have hoptions : (w.mounted options).options (w.mounted options).current = options := by
    rw [PaneWorld.options, hcontroller]
  have hwaits := (w.mounted_refs options options).1
  have hconnecting : (w.mounted options).Connecting ↔ w.Connecting := by
    unfold Connecting
    rw [(w.mounted_refs options options).2]
  have hstep : w.step (.mount options) =
    (w.mounted options).initializeTerminalPaneTransport (w.mounted options).current := rfl
  cases hwaiting : w.waitsForUser options with
  | true =>
    rw [initialize_waits (by rw [hoptions, hwaits, hwaiting])] at hstep
    refine .of_iff (hstep ▸ mounted_sound hsound options) rfl ?_
    rw [hstep]
    unfold Stuck StuckWith
    simp only [Strands, hwaiting, hused, hconnecting, mounted_idle_iff, true_and]
  | false =>
    have hresolved := initialize_resolved (mounted_sound hsound options) hused
      (by rw [hoptions, hwaits, hwaiting])
    refine .of_resolved rfl ?_ (hstep ▸ hresolved.1) (hstep ▸ hresolved.2)
    simp [Strands, hwaiting]

end Mount

theorem steps (hsound : w.activity.Sound) (hstuck : ¬ w.Stuck) (a : PaneAction) : w.Steps a := by
  cases a with
  | mount options => exact step_mount hsound options
  | unmount => exact step_unmount hsound hstuck
  | toggle => exact step_toggle hsound hstuck
  | ensureConnected => exact step_ensureConnected hsound hstuck
  | runtimeStatusFetched status => exact .of_outcome hsound hstuck rfl id (.kept rfl Iff.rfl)
  | initialCheck i canRestore => exact step_initialCheck hsound hstuck i canRestore
  | runtimeStatus i status => exact step_runtimeStatus hsound hstuck i status
  | restoreCheck i answer => exact step_restoreCheck hsound hstuck i answer
  | secrets i answer => exact step_secrets hsound hstuck i answer
  | session i answer => exact step_session hsound hstuck i answer
  | socket i answer => exact step_socket hsound hstuck i answer
  | timer => exact step_timer hsound hstuck
  | socketReady i => exact step_socketReady hsound hstuck i
  | socketMessage i frame => exact step_socketMessage hsound hstuck i frame
  | socketError i => exact step_socketError hsound hstuck i
  | socketClose i => exact step_socketClose hsound hstuck i
  | closed i succeeded => exact step_closed hsound hstuck i succeeded
  | resizeFailed c => exact step_resizeFailed hsound hstuck c
  | dispatchCommand entry => exact .of_outcome hsound hstuck rfl id (.kept rfl Iff.rfl)
  | render => exact step_render hsound hstuck
  | flushEffect => exact step_flushEffect hsound hstuck

end PaneWorld
open PaneWorld

/-- The options of a pane of a host without secrets. -/
def agentOptions : ControllerOptions := ⟨.none, js "gateway", .ssh, js "SSH", false, false⟩

def restoredPane : SessionPane := ⟨js "host-1", .disconnected, none, .ssh, none, true⟩

/-- A connection that is refused while the `try` block still holds the in-flight flag. -/
def refusedConnection : List PaneAction :=
  [.mount agentOptions, .runtimeStatus 0 (some ⟨true, none, []⟩),
    .session 0 (.error ⟨.refused, js "Connection refused.", none, js "refused"⟩)]

end PaneSession
