import TerminalWorkspace.PaneSession.Lifecycle

/-! What is on its way for a pane: its attempts, initialisations, sockets and timer. Each
piece of the controller changes little of it, and this module says what. -/
namespace PaneSession
open JsText Inventory SessionStream

/-- The part of the world that decides whether anything is still to come. -/
structure Activity where
  controllers : List Controller
  attempts : List Attempt
  initializations : List PendingCall
  sockets : List PaneSocket
  reconnectTimeout : Option ReconnectTimer
  connecting : Bool

def PaneWorld.activity (w : PaneWorld) : Activity :=
  ⟨w.controllers, w.attempts, w.initializations, w.sockets, w.refs.reconnectTimeout,
    w.refs.connecting⟩

namespace Activity

def setAwaiting (activity : Activity) (i : ℕ) (awaiting : Awaiting) : Activity :=
  { activity with attempts :=
      activity.attempts.modify i fun attempt => { attempt with awaiting := awaiting } }

def isDisposed (activity : Activity) (c : ℕ) : Bool :=
  (activity.controllers.getD c ⟨⟨.none, [], .ssh, [], false, false⟩, true⟩).disposed

/-- The `try` block of an attempt is running. -/
def inTry : Awaiting → Bool
  | .session | .socket _ _ => true
  | _ => false

/-- A socket that has not been closed and is not being closed. -/
def live (readyState : ReadyState) : Bool := readyState = .connecting || readyState = .opened

/-- Something is still to come. -/
structure Idle (activity : Activity) : Prop where
  attempts : ∀ attempt ∈ activity.attempts, attempt.awaiting = .settled
  initializations : ∀ call ∈ activity.initializations, call.pending = false
  sockets : ∀ socket ∈ activity.sockets, live socket.readyState = false
  timer : activity.reconnectTimeout = none

instance (activity : Activity) : Decidable activity.Idle :=
  decidable_of_iff ((∀ attempt ∈ activity.attempts, attempt.awaiting = .settled) ∧
      (∀ call ∈ activity.initializations, call.pending = false) ∧
      (∀ socket ∈ activity.sockets, live socket.readyState = false) ∧
      activity.reconnectTimeout = none)
    ⟨fun h => ⟨h.1, h.2.1, h.2.2.1, h.2.2.2⟩,
      fun h => ⟨h.attempts, h.initializations, h.sockets, h.timer⟩⟩

/-- The in-flight flag stands for a `try` block that is running, and the timer belongs to a
controller in use. -/
structure Sound (activity : Activity) : Prop where
  inTry : activity.connecting = true → ∃ attempt ∈ activity.attempts, inTry attempt.awaiting = true
  timer : ∀ timer, activity.reconnectTimeout = some timer →
    activity.isDisposed timer.controller = false

theorem idle_connecting_iff {activity : Activity} {connecting : Bool} :
    { activity with connecting := connecting }.Idle ↔ activity.Idle :=
  ⟨fun h => ⟨h.attempts, h.initializations, h.sockets, h.timer⟩,
    fun h => ⟨h.attempts, h.initializations, h.sockets, h.timer⟩⟩

theorem idle_controllers_iff {activity : Activity} {controllers : List Controller} :
    { activity with controllers := controllers }.Idle ↔ activity.Idle :=
  ⟨fun h => ⟨h.attempts, h.initializations, h.sockets, h.timer⟩,
    fun h => ⟨h.attempts, h.initializations, h.sockets, h.timer⟩⟩

theorem idle_addSocket_iff (activity : Activity) (socket : PaneSocket) (connecting : Bool) :
    { activity with
        sockets := activity.sockets ++ [socket]
        connecting := connecting }.Idle ↔
      live socket.readyState = false ∧ activity.Idle := by
  constructor
  · intro h
    exact ⟨h.sockets socket (List.mem_append_right _ (List.mem_singleton_self _)), h.attempts,
      h.initializations, fun s hs => h.sockets s (List.mem_append_left _ hs), h.timer⟩
  · rintro ⟨hlive, h⟩
    refine ⟨h.attempts, h.initializations, ?_, h.timer⟩
    intro s hs
    rcases List.mem_append.mp hs with hs | hs
    · exact h.sockets s hs
    · exact List.mem_singleton.mp hs ▸ hlive

/-- A controller in use stays in use when others are created. -/
theorem isDisposed_append {activity : Activity} {c : ℕ} (h : activity.isDisposed c = false)
    (created : List Controller) :
    { activity with controllers := activity.controllers ++ created }.isDisposed c = false := by
  unfold isDisposed at h ⊢
  rw [List.getD_eq_getElem?_getD] at h ⊢
  by_cases hlt : c < activity.controllers.length
  · rwa [List.getElem?_append_left hlt]
  · rw [List.getElem?_eq_none (Nat.le_of_not_lt hlt)] at h
    exact Bool.noConfusion h

theorem setAwaiting_mem {activity : Activity} {i : ℕ} (h : i < activity.attempts.length)
    (awaiting : Awaiting) :
    ∃ attempt ∈ (activity.setAwaiting i awaiting).attempts, attempt.awaiting = awaiting := by
  have hget : (activity.setAwaiting i awaiting).attempts[i]? =
      some { activity.attempts[i] with awaiting := awaiting } := by
    simp [setAwaiting, h]
  exact ⟨_, List.mem_of_getElem? hget, rfl⟩

theorem not_idle_of_attempt {activity : Activity} {attempt : Attempt}
    (h : attempt ∈ activity.attempts) (hawaiting : attempt.awaiting ≠ .settled) :
    ¬ activity.Idle := fun hidle => hawaiting (hidle.attempts attempt h)

/-- An attempt that awaits something keeps the pane busy. -/
theorem not_idle_setAwaiting {activity : Activity} {i : ℕ} (h : i < activity.attempts.length)
    {awaiting : Awaiting} (hawaiting : awaiting ≠ .settled) :
    ¬ (activity.setAwaiting i awaiting).Idle := by
  obtain ⟨attempt, hmem, heq⟩ := setAwaiting_mem h awaiting
  exact not_idle_of_attempt hmem (heq ▸ hawaiting)

theorem Sound.not_idle_of_connecting {activity : Activity} (h : activity.Sound)
    (hconnecting : activity.connecting = true) : ¬ activity.Idle := by
  obtain ⟨attempt, hmem, htry⟩ := h.inTry hconnecting
  refine not_idle_of_attempt hmem ?_
  intro hsettled
  rw [hsettled] at htry
  exact Bool.false_ne_true htry

/-- An attempt outside its `try` block does not hold the flag. -/
theorem Sound.setAwaiting {activity : Activity} {i : ℕ} {attempt : Attempt} (h : activity.Sound)
    (hget : activity.attempts[i]? = some attempt) (hout : Activity.inTry attempt.awaiting = false)
    (awaiting : Awaiting) : (activity.setAwaiting i awaiting).Sound where
  inTry := by
    intro hconnecting
    obtain ⟨other, hmem, htry⟩ := h.inTry hconnecting
    obtain ⟨j, hj⟩ := List.mem_iff_getElem?.mp hmem
    have hne : i ≠ j := by
      rintro rfl
      rw [hget, Option.some.injEq] at hj
      rw [hj, htry] at hout
      exact Bool.noConfusion hout
    refine ⟨other, List.mem_of_getElem? (i := j) ?_, htry⟩
    simp [Activity.setAwaiting, hne, hj]
  timer := h.timer

/-- The `try` block of an attempt is left. -/
theorem Sound.leaveTry {activity : Activity} (h : activity.Sound) (i : ℕ) :
    { activity.setAwaiting i .settled with connecting := false }.Sound where
  inTry := nofun
  timer := h.timer

theorem Sound.enterTry {activity : Activity} {i : ℕ} (h : activity.Sound)
    (hi : i < activity.attempts.length) {awaiting : Awaiting}
    (htry : Activity.inTry awaiting = true) (connecting : Bool) :
    { activity.setAwaiting i awaiting with connecting := connecting }.Sound where
  inTry := fun _ => by
    obtain ⟨attempt, hmem, rfl⟩ := setAwaiting_mem hi awaiting
    exact ⟨attempt, hmem, htry⟩
  timer := h.timer

end Activity

namespace PaneWorld
variable (w : PaneWorld) (c i : ℕ)

/-- The record says that the pane is connecting. -/
def Connecting : Prop := ∃ pane, w.pane = some pane ∧ pane.connectionState = .connecting

instance : Decidable w.Connecting :=
  decidable_of_iff (w.pane.any (·.connectionState = .connecting)) (by
    simp [Connecting, Option.any_eq_true])

@[simp] theorem activity_setAwaiting (awaiting : Awaiting) :
    (w.setAwaiting i awaiting).activity = w.activity.setAwaiting i awaiting := rfl

@[simp] theorem activity_reportState (state : SessionConnectionState) :
    (w.reportState state).activity = w.activity := rfl

@[simp] theorem activity_writeln (text : JsString) : (w.writeln c text).activity = w.activity := rfl

@[simp] theorem activity_setPendingSecretsState (announce : Bool) :
    (w.setPendingSecretsState c announce).activity = w.activity := by
  simp only [setPendingSecretsState]
  split <;> rfl

@[simp] theorem activity_clearBackendSession :
    (w.clearBackendSession c).activity = w.activity := by
  unfold clearBackendSession
  split <;> rfl

@[simp] theorem pane_setAwaiting (awaiting : Awaiting) : (w.setAwaiting i awaiting).pane = w.pane :=
  rfl

@[simp] theorem pane_writeln (text : JsString) : (w.writeln c text).pane = w.pane := rfl

theorem not_connecting_setPaneState {state : SessionConnectionState} (h : state ≠ .connecting) :
    ¬ (w.setPaneState state).Connecting := by
  rintro ⟨pane, hpane, hstate⟩
  obtain ⟨old, -, rfl⟩ := Option.map_eq_some_iff.mp hpane
  exact h hstate

theorem not_connecting_reportState {state : SessionConnectionState} (h : state ≠ .connecting) :
    ¬ (w.reportState state).Connecting := not_connecting_setPaneState _ h

theorem not_connecting_setPendingSecretsState (announce : Bool) :
    ¬ (w.setPendingSecretsState c announce).Connecting := by
  simp only [setPendingSecretsState]
  split
  · exact w.not_connecting_reportState nofun
  · exact w.not_connecting_reportState nofun

/-- Clearing the session leaves the state of the pane alone. -/
@[simp] theorem connecting_clearBackendSession :
    (w.clearBackendSession c).Connecting ↔ w.Connecting := by
  unfold clearBackendSession
  split
  · rfl
  · unfold Connecting setPaneBackendSession
    cases w.pane with
    | none => simp
    | some pane => simp [SessionPane.updateBackendSession]

end PaneWorld

/-- Where a piece of `connectNativeSession` leaves the attempt `i`, started from `activity`. -/
inductive ConnectEffect (activity : Activity) (i : ℕ) (w' : PaneWorld) : Prop where
  | reported (activity_eq : w'.activity = activity.setAwaiting i .settled)
      (not_connecting : ¬ w'.Connecting)
  | waits (awaiting : Awaiting) (unsettled : awaiting ≠ .settled)
      (activity_eq : w'.activity = activity.setAwaiting i awaiting)
  | starts (awaiting : Awaiting) (inTry : Activity.inTry awaiting = true)
      (activity_eq : w'.activity = { activity.setAwaiting i awaiting with connecting := true })

namespace ConnectEffect
variable {activity : Activity} {i : ℕ} {w' : PaneWorld}

theorem sound {attempt : Attempt} (h : ConnectEffect activity i w') (hsound : activity.Sound)
    (hget : activity.attempts[i]? = some attempt)
    (hout : Activity.inTry attempt.awaiting = false) : w'.activity.Sound := by
  cases h with
  | reported activity_eq _ =>
    rw [activity_eq]
    exact hsound.setAwaiting hget hout _
  | waits awaiting _ activity_eq =>
    rw [activity_eq]
    exact hsound.setAwaiting hget hout _
  | starts awaiting inTry activity_eq =>
    rw [activity_eq]
    exact hsound.enterTry (List.getElem?_eq_some_iff.mp hget).1 inTry true

/-- The attempt goes on, or the record says how it ended. -/
theorem not_idle (h : ConnectEffect activity i w') (hi : i < activity.attempts.length)
    (hconnecting : w'.Connecting) : ¬ w'.activity.Idle := by
  cases h with
  | reported _ not_connecting => exact absurd hconnecting not_connecting
  | waits awaiting unsettled activity_eq =>
    rw [activity_eq]
    exact Activity.not_idle_setAwaiting hi unsettled
  | starts awaiting inTry activity_eq =>
    have hunsettled : awaiting ≠ .settled := by
      rintro rfl
      exact Bool.noConfusion inTry
    rw [activity_eq]
    intro hidle
    exact Activity.not_idle_setAwaiting hi hunsettled (Activity.idle_connecting_iff.mp hidle)

theorem controllers (h : ConnectEffect activity i w') :
    w'.activity.controllers = activity.controllers := by
  cases h with
  | reported activity_eq _ => rw [activity_eq]; rfl
  | waits _ _ activity_eq => rw [activity_eq]; rfl
  | starts _ _ activity_eq => rw [activity_eq]; rfl

end ConnectEffect

namespace PaneWorld
variable (w : PaneWorld) (c i : ℕ) (connect : ConnectOptions)

theorem startConnection_effect : ConnectEffect w.activity i (w.startConnection c i connect) := by
  simp only [startConnection]
  split
  · rename_i sessionId _
    refine .starts (.socket sessionId true) rfl ?_
    unfold openSocket
    split <;> rfl
  · refine .starts .session rfl ?_
    split <;> rfl

theorem afterSecrets_effect (ready : Bool) (hdisposed : w.isDisposed c = false) :
    ConnectEffect w.activity i (w.afterSecrets c i connect ready) := by
  simp only [afterSecrets, hdisposed, Bool.false_eq_true, if_false]
  split
  · refine .reported ?_ ?_
    · rw [activity_setAwaiting]
      split
      · rw [activity_setPendingSecretsState]
      · split <;> rfl
    · show ¬ Connecting _
      split
      · exact w.not_connecting_setPendingSecretsState c true
      · split
        · exact w.not_connecting_reportState nofun
        · exact w.not_connecting_reportState nofun
  · exact startConnection_effect w c i connect

theorem afterRestoreCheck_effect (answer : Bool) :
    ConnectEffect w.activity i (w.afterRestoreCheck c i connect answer) := by
  simp only [afterRestoreCheck]
  split
  · refine .reported ?_ ?_
    · rw [activity_setAwaiting]
      split
      · rw [activity_setPendingSecretsState]
      · rfl
    · show ¬ Connecting _
      split
      · exact w.not_connecting_setPendingSecretsState c _
      · exact w.not_connecting_reportState nofun
  · split
    · exact .waits .secrets nofun rfl
    · exact startConnection_effect w c i connect

theorem afterRuntimeStatus_effect (status : RuntimeStatusMessage) :
    ConnectEffect w.activity i (w.afterRuntimeStatus c i connect status) := by
  simp only [afterRuntimeStatus]
  split
  · refine .reported ?_ ?_
    · rw [activity_setAwaiting]
      split
      · split <;> rfl
      · rfl
    · show ¬ Connecting _
      split
      · split
        · exact not_connecting_reportState _ nofun
        · exact not_connecting_reportState _ nofun
      · exact not_connecting_reportState _ nofun
  · split
    · exact startConnection_effect { w with refs.runtimeStatus := some status } c i connect
    · exact .waits .restoreCheck nofun rfl

/-- What is on its way once a call of `connectNativeSession` has passed its guard. -/
def begun : Activity :=
  { w.activity with
    attempts := w.attempts ++ [⟨c, connect, .settled⟩]
    reconnectTimeout := none }

theorem connectNativeSession_effect (hfree : w.connectBarred c = false) :
    ConnectEffect (w.begun c connect) w.attempts.length (w.connectNativeSession c connect) := by
  simp only [connectNativeSession, hfree, Bool.false_eq_true, if_false]
  split
  · exact .waits .runtimeStatus nofun rfl
  · rename_i status _
    have heffect := afterRuntimeStatus_effect
      (clearReconnectTimer { w with
        refs.intentionalDisconnect := false
        attempts := w.attempts ++ [⟨c, connect, .settled⟩] }) c w.attempts.length connect status
    exact heffect

/-- Where `scheduleReconnect` leaves the timer. -/
inductive ScheduleEffect (w' : PaneWorld) : Prop where
  | barred (barred : w.reconnectBarred c = true) (eq : w' = w)
  | busy (busy : w.refs.reconnectTimeout ≠ none ∨ w.refs.connecting = true) (eq : w' = w)
  | armed (free : w.reconnectBarred c = false) (idle : w.refs.reconnectTimeout = none)
      (notConnecting : w.refs.connecting = false) (delayMs : ℕ)
      (activity_eq : w'.activity = { w.activity with reconnectTimeout := some ⟨c, delayMs⟩ })

theorem scheduleReconnect_effect (message : Option JsString) :
    w.ScheduleEffect c (w.scheduleReconnect c message) := by
  simp only [scheduleReconnect]
  split
  · rename_i hbarred
    exact .barred hbarred rfl
  · rename_i hfree
    split
    · rename_i hbusy
      exact .busy hbusy rfl
    · rename_i hidle
      rw [not_or, not_not, Bool.not_eq_true] at hidle
      exact .armed (Bool.eq_false_iff.mpr hfree) hidle.1 hidle.2 _ rfl

end PaneWorld
end PaneSession
