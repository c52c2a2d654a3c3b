import TerminalWorkspace.PaneSession.Controller

/-! The life of a mounted pane: its controllers one after the other, the user's toggles, and
the answers, timers and socket events that come back to them. -/
namespace PaneSession
open JsText Inventory SessionStream

namespace PaneWorld
variable (w : PaneWorld) (c : ℕ)

/-- `initializeTerminalPaneTransport` up to its first await. -/
def initializeTerminalPaneTransport : PaneWorld :=
  let options := w.options c
  if options.unsupportedTransport then
    let w := { w with refs.transport := .unsupported }
    let w := w.setPaneTransport .unsupported
    w.reportState .disconnected
  else if options.useMockTransport then
    let w := { w with refs.transport := .mock }
    let w := w.setPaneTransport .mock
    w.reportState .connected
  else if w.refs.backendSessionId.isSome then w.connectNativeSession c ⟨false, true, false⟩
  else if w.refs.reconnectOnRestore ∨ w.refs.connectionState = .pendingSecrets then
    if options.protocol = .localShell ∨ options.protocol = .telnet ∨ options.protocol = .serial ∨
        options.authMethod = .none then
      w.connectNativeSession c ⟨false, true, false⟩
    else { w with initializations := w.initializations ++ [⟨c, true⟩] }
  else if w.refs.connectionState ≠ .disconnected then
    w.connectNativeSession c ⟨false, false, true⟩
  else w

/-- The rest of it after `canRestoreSessionWithoutPrompt`. -/
def afterInitialCheck (canRestore : Bool) : PaneWorld :=
  if canRestore then w.connectNativeSession c ⟨false, true, false⟩
  else if ¬ w.isDisposed c then w.setPendingSecretsState c true
  else w

/-- `cleanupTerminalPaneLifecycle`. -/
def cleanupTerminalPaneLifecycle : PaneWorld :=
  let w := { w with
    controllers := w.controllers.modify c fun controller => { controller with disposed := true } }
  let w := w.clearReconnectTimer
  let w := w.closeSocket
  { w with refs.socket := none }

/-- The controller that was created last; the handlers of the toggle and of the command queue
belong to it. -/
def current : ℕ := w.controllers.length - 1

/-- The effect runs again: the cleanup of its last run comes first. -/
def mount (options : ControllerOptions) : PaneWorld :=
  let w := if w.isDisposed w.current then w else w.cleanupTerminalPaneLifecycle w.current
  let w := { w with controllers := w.controllers ++ [Controller.mk options false] }
  w.initializeTerminalPaneTransport w.current

def unmount : PaneWorld :=
  if w.isDisposed w.current then w else w.cleanupTerminalPaneLifecycle w.current

/-- The function that `toggleConnectionRef` holds. -/
def toggleConnection : PaneWorld :=
  let c := w.current
  let options := w.options c
  if options.unsupportedTransport then
    let w := { w with refs.connectionState := .error, refs.transport := .unsupported }
    let w := w.setPaneTransport .unsupported
    let w := w.setPaneState .error
    w.writeln c (js "\r\nThis saved protocol is not executable yet.")
  else if ¬ options.useMockTransport then
    if w.refs.connectionState = .connected then w.disconnectNativeSession c
    else w.connectNativeSession c ⟨true, w.refs.connectionState = .pendingSecrets, true⟩
  else
    let w := { w with refs.transport := .mock }
    let w := w.setPaneTransport .mock
    if w.refs.connectionState = .connected then
      let w := { w with refs.intentionalDisconnect := true }
      let w := w.clearReconnectTimer
      let w := { w with
        refs.connectionState := .disconnected
        refs.pendingSecretsNoticeShown := false
        refs.reconnectOnRestore := false }
      let w := w.setPaneReconnectOnRestore false
      let w := w.setPaneState .disconnected
      w.writeln c (js "\r\nMock session disconnected.")
    else
      let w := w.reportState .connected
      w.writeln c (if options.protocol = .localShell then
        js "\r\nLocal shell demo session connected." else js "\r\nMock session connected.")

/-- The function that `ensureConnectedRef` holds. -/
def ensureConnected : PaneWorld :=
  let c := w.current
  let options := w.options c
  if options.useMockTransport then
    if w.refs.connectionState = .connected then w
    else
      let w := { w with refs.transport := .mock, refs.connectionState := .connected }
      let w := w.setPaneTransport .mock
      w.setPaneState .connected
  else if options.unsupportedTransport then w
  else if w.refs.connectionState = .connected then w
  else w.connectNativeSession c
    ⟨true, w.refs.connectionState = .pendingSecrets || w.refs.reconnectOnRestore, true⟩

/-- The reconnect timer runs its callback. -/
def fireTimer : PaneWorld :=
  match w.refs.reconnectTimeout with
  | none => w
  | some timer =>
    connectNativeSession { w with refs.reconnectTimeout := none } timer.controller
      ⟨true, true, false⟩

/-- The effect that copies the rendered record into the references. -/
def flushEffect : PaneWorld :=
  match w.effect with
  | none => w
  | some fields =>
    { w with
      refs.transport := fields.transport
      refs.connectionState := fields.connectionState
      refs.backendSessionId := fields.backendSessionId
      refs.reconnectOnRestore := fields.reconnectOnRestore
      effect := none }

/-- The component renders the record; effects of an earlier render come first. -/
def render : PaneWorld :=
  let w := w.flushEffect
  match w.pane with
  | none => w
  | some pane =>
    if pane.mirrored = w.rendered then w
    else { w with rendered := pane.mirrored, effect := some pane.mirrored }

end PaneWorld

/-- What can happen to a mounted pane. A request that fails answers `none`, or the error
where the code looks at it. -/
inductive PaneAction where
  | mount (options : ControllerOptions)
  | unmount
  | toggle
  | ensureConnected
  | runtimeStatusFetched (status : RuntimeStatusMessage)
  | initialCheck (initialization : ℕ) (canRestore : Option Bool)
  | runtimeStatus (attempt : ℕ) (status : Option RuntimeStatusMessage)
  | restoreCheck (attempt : ℕ) (canConnectWithoutPrompt : Option Bool)
  | secrets (attempt : ℕ) (readyForConnection : Option Bool)
  | session (attempt : ℕ) (answer : Except ClassifiedSshError SessionId)
  | socket (attempt : ℕ) (answer : Except ClassifiedSshError ReadyState)
  | timer
  | socketReady (socket : ℕ)
  | socketMessage (socket : ℕ) (frame : Option SessionFrame)
  | socketError (socket : ℕ)
  | socketClose (socket : ℕ)
  | closed (disconnect : ℕ) (succeeded : Bool)
  | resizeFailed (controller : ℕ)
  | dispatchCommand (entry : Option ℕ)
  | render
  | flushEffect
  deriving DecidableEq

namespace PaneWorld
variable (w : PaneWorld)

/-- One turn of the event loop. What nobody waits for does nothing. -/
def step : PaneAction → PaneWorld
  | .mount options => w.mount options
  | .unmount => w.unmount
  | .toggle => w.toggleConnection
  | .ensureConnected => w.ensureConnected
  | .runtimeStatusFetched status => { w with refs.runtimeStatus := some status }
  | .initialCheck i canRestore =>
    match w.initializations[i]? with
    | some ⟨c, true⟩ =>
      let w := { w with initializations := w.initializations.set i ⟨c, false⟩ }
      match canRestore with
      | some canRestore => w.afterInitialCheck c canRestore
      | none => w
    | _ => w
  | .runtimeStatus i status =>
    match w.attempts[i]? with
    | some ⟨c, connect, .runtimeStatus⟩ =>
      match status with
      | some status => w.afterRuntimeStatus c i connect status
      | none => w.setAwaiting i .settled
    | _ => w
  | .restoreCheck i canConnectWithoutPrompt =>
    match w.attempts[i]? with
    | some ⟨c, connect, .restoreCheck⟩ =>
      match canConnectWithoutPrompt with
      | some answer => w.afterRestoreCheck c i connect answer
      | none => w.setAwaiting i .settled
    | _ => w
  | .secrets i readyForConnection =>
    match w.attempts[i]? with
    | some ⟨c, connect, .secrets⟩ =>
      match readyForConnection with
      | some answer => w.afterSecrets c i connect answer
      | none => w.setAwaiting i .settled
    | _ => w
  | .session i answer =>
    match w.attempts[i]? with
    | some ⟨c, _, .session⟩ => w.afterSession c i answer
    | _ => w
  | .socket i answer =>
    match w.attempts[i]? with
    | some ⟨c, _, .socket sessionId reused⟩ => w.afterSocket c i sessionId reused answer
    | _ => w
  | .timer => w.fireTimer
  | .socketReady i =>
    { w with sockets := w.sockets.modify i fun s =>
        if s.readyState = .connecting then { s with readyState := .opened } else s }
  | .socketMessage i frame =>
    match w.sockets[i]? with
    | some socket => if socket.readyState = .closed then w else w.onMessage socket frame
    | none => w
  | .socketError i =>
    match w.sockets[i]? with
    | some socket => if socket.readyState = .closed then w else w.onError socket
    | none => w
  | .socketClose i =>
    match w.sockets[i]? with
    | some socket =>
      if socket.readyState = .closed then w
      else
        let w := { w with sockets := w.sockets.set i { socket with readyState := .closed } }
        w.onClose socket
    | none => w
  | .closed i succeeded =>
    match w.disconnects[i]? with
    | some ⟨c, true⟩ =>
      let w := { w with disconnects := w.disconnects.set i ⟨c, false⟩ }
      if succeeded then w.finishDisconnect c else w
    | _ => w
  | .resizeFailed c => w.clearBackendSession c
  | .dispatchCommand entry => { w with refs.activeHistoryEntryId := entry }
  | .render => w.render
  | .flushEffect => w.flushEffect

end PaneWorld
end PaneSession
