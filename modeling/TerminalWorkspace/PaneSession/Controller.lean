import TerminalWorkspace.PaneSession.World

/-! The native session controller of a pane. A call of `connectNativeSession` runs from one
await to the next; each definition below is what runs between two of them. -/
namespace PaneSession
open JsText Inventory SessionStream

def shouldScheduleReconnect (category : SshErrorCategory) (connectedOnce reconnectOnRestore : Bool) :
    Bool :=
  if category = .hostKeyMismatch then false else connectedOnce || reconnectOnRestore

def resolveNativeSessionTransport : HostProtocol → SessionTransport
  | .localShell => .localShell
  | .telnet => .telnet
  | .serial => .serial
  | .mosh => .mosh
  | .ssh => .ssh

def requiresSecrets (options : ControllerOptions) : Bool :=
  (options.protocol = .ssh || options.protocol = .mosh) && options.authMethod ≠ .none

def decimal (n : ℕ) : JsString := ofText (Nat.toDigits 10 n)

/-- `Math.min(8_000, …)` of the attempt. -/
def reconnectDelayMs (attempt : ℕ) : ℕ := min 8000 (if attempt ≤ 1 then 1500 else attempt * 2000)

namespace PaneWorld
variable (w : PaneWorld) (c : ℕ)

def setPendingSecretsState (announce : Bool) : PaneWorld :=
  let w := w.reportState .pendingSecrets
  if ¬ announce ∨ w.refs.pendingSecretsNoticeShown then w
  else
    let w := w.writeln c (js "\r\nSession restore is waiting for runtime credentials. Click Resume when you are ready to continue.")
    { w with refs.pendingSecretsNoticeShown := true }

def clearBackendSession : PaneWorld :=
  if w.isDisposed c then w
  else setPaneBackendSession { w with refs.backendSessionId := none } none

/-- Clearing a timer that is not armed changes nothing. -/
def clearReconnectTimer : PaneWorld := { w with refs.reconnectTimeout := none }

/-- The conditions under which `scheduleReconnect` does nothing at all. -/
def reconnectBarred : Bool :=
  w.isDisposed c || w.refs.intentionalDisconnect || (w.options c).useMockTransport ||
    (w.options c).unsupportedTransport ||
    (!w.refs.connectedOnce && !w.refs.reconnectOnRestore)

def scheduleReconnect (message : Option JsString) : PaneWorld :=
  if w.reconnectBarred c then w
  else if w.refs.reconnectTimeout ≠ none ∨ w.refs.connecting then w
  else
    let attempt := w.refs.reconnectAttempt + 1
    let delay := reconnectDelayMs attempt
    let w := { w with refs.reconnectAttempt := attempt }
    let w := w.reportState .disconnected
    let w := w.writeln c (js "\r\n" ++
      message.getD ((w.options c).protocolLabel ++ js " connection interrupted.") ++
      js " Reconnecting in " ++ decimal ((delay + 999) / 1000) ++ js "s...")
    { w with refs.reconnectTimeout := some ⟨c, delay⟩ }

/-- The line that announces a connection. -/
def openingLine (options : ControllerOptions) : JsString :=
  if options.protocol = .localShell then js "\r\nOpening local shell..."
  else if options.protocol = .serial then
    js "\r\nOpening serial session for " ++ options.hostname ++ js "..."
  else
    js "\r\nOpening " ++ options.protocolLabel ++ js " session to " ++ options.hostname ++ js "..."

/-- The session id is known: record it and open its socket. -/
def openSocket (i : ℕ) (sessionId : SessionId) (reusedExistingSession : Bool) : PaneWorld :=
  let w := { w with refs.backendSessionId := some sessionId }
  let w := w.setPaneBackendSession (some sessionId)
  w.setAwaiting i (.socket sessionId reusedExistingSession)

/-- From the reset of the notice to the first await of the `try` block. -/
def startConnection (i : ℕ) (connect : ConnectOptions) : PaneWorld :=
  let transport := resolveNativeSessionTransport (w.options c).protocol
  let w := { w with
    refs.pendingSecretsNoticeShown := false
    refs.connecting := true
    refs.transport := transport }
  let w := w.setPaneTransport transport
  let w := w.setPaneState .connecting
  let w := if connect.announce then w.writeln c (openingLine (w.options c)) else w
  let w := { w with refs.connectedOnce := false }
  match w.refs.backendSessionId with
  | some sessionId => w.openSocket i sessionId true
  | none => w.setAwaiting i .session

def afterSecrets (i : ℕ) (connect : ConnectOptions) (readyForConnection : Bool) : PaneWorld :=
  if w.isDisposed c then w.setAwaiting i .settled
  else if ¬ readyForConnection then
    let w :=
      if connect.allowPendingSecrets then w.setPendingSecretsState c true
      else
        let w := w.reportState .disconnected
        if connect.announce then w.writeln c (js "\r\nConnection cancelled.") else w
    w.setAwaiting i .settled
  else w.startConnection c i connect

/-- The check is awaited only without a session to reuse and where secrets are required. -/
def afterRestoreCheck (i : ℕ) (connect : ConnectOptions) (canConnectWithoutPrompt : Bool) :
    PaneWorld :=
  if ¬ connect.promptForSecrets ∧ ¬ canConnectWithoutPrompt then
    let w :=
      if connect.allowPendingSecrets then
        w.setPendingSecretsState c
          (connect.announce || w.refs.connectionState ≠ .pendingSecrets)
      else w.reportState .disconnected
    w.setAwaiting i .settled
  else if connect.promptForSecrets then w.setAwaiting i .secrets
  else w.startConnection c i connect

def afterRuntimeStatus (i : ℕ) (connect : ConnectOptions) (status : RuntimeStatusMessage) :
    PaneWorld :=
  let w := { w with refs.runtimeStatus := some status }
  if ¬ status.available then
    let w := w.reportState .error
    let w :=
      if connect.announce then
        let w := w.writeln c (js "\r\n" ++ status.message)
        match status.installHint.bind truthy with
        | some hint => w.writeln c hint
        | none => w
      else w
    w.setAwaiting i .settled
  else if w.refs.backendSessionId.isSome ∨ ¬ requiresSecrets (w.options c) then
    w.startConnection c i connect
  else w.setAwaiting i .restoreCheck

/-- Whether `connectNativeSession` returns at its guard. -/
def connectBarred : Bool :=
  w.refs.connecting || w.refs.socket.any w.isOpen || w.isDisposed c

def connectNativeSession (connect : ConnectOptions) : PaneWorld :=
  if w.connectBarred c then w
  else
    let i := w.attempts.length
    let w := { w with
      refs.intentionalDisconnect := false
      attempts := w.attempts ++ [Attempt.mk c connect .settled] }
    let w := w.clearReconnectTimer
    match w.refs.runtimeStatus with
    | none => w.setAwaiting i .runtimeStatus
    | some status => w.afterRuntimeStatus c i connect status

/-- The `catch` block. -/
def reportFailure (error : ClassifiedSshError) : PaneWorld :=
  let label := (w.options c).protocolLabel
  let friendly := match error.hint.bind truthy with
    | some hint => error.message ++ js " " ++ hint
    | none => error.message
  let w := w.clearBackendSession c
  if shouldScheduleReconnect error.category w.refs.connectedOnce w.refs.reconnectOnRestore then
    w.scheduleReconnect c (some (label ++ js " connect failed: " ++ friendly))
  else
    let w := w.clearReconnectTimer
    let w := w.writeln c (js "\r\n" ++ label ++ js " connect failed.")
    let w := w.writeln c (js "\r\n" ++ friendly)
    let w :=
      if error.raw ≠ [] ∧ error.raw ≠ error.message then
        w.writeln c (js "\r\n(raw: " ++ error.raw ++ js ")")
      else w
    w.reportState .error

/-- The `catch` block and then the `finally` block. -/
def connectFailed (i : ℕ) (error : ClassifiedSshError) : PaneWorld :=
  let w := w.reportFailure c error
  setAwaiting { w with refs.connecting := false } i .settled

def afterSession (i : ℕ) (answer : Except ClassifiedSshError SessionId) : PaneWorld :=
  match answer with
  | .ok sessionId => w.openSocket i sessionId false
  | .error error => w.connectFailed c i error

/-- The socket is handed over in whatever state it has reached by then. -/
def afterSocket (i : ℕ) (sessionId : SessionId) (reusedExistingSession : Bool)
    (answer : Except ClassifiedSshError ReadyState) : PaneWorld :=
  match answer with
  | .ok readyState =>
    setAwaiting { w with
      refs.socket := some w.sockets.length
      refs.connecting := false
      sockets := w.sockets ++ [PaneSocket.mk c sessionId reusedExistingSession readyState] } i .settled
  | .error error => w.connectFailed c i error

end PaneWorld

/-- What `parseSessionFrame` makes of a message; nothing of a malformed one. -/
inductive SessionFrame where
  | data (data : JsString)
  | status (state : SessionConnectionState)
  | error (message : JsString)
  deriving DecidableEq, Repr

namespace PaneWorld
variable (w : PaneWorld)

/-- What the message handler and the error handler do about a failed session. -/
def sessionFailed (c : ℕ) (reconnectMessage line : JsString) : PaneWorld :=
  let w := w.clearBackendSession c
  if w.refs.connectedOnce ∨ w.refs.reconnectOnRestore then
    w.scheduleReconnect c (some reconnectMessage)
  else
    let w := w.writeln c line
    w.reportState .error

def onMessage (socket : PaneSocket) (frame : Option SessionFrame) : PaneWorld :=
  if w.isDisposed socket.controller then w
  else match frame with
    | none => w
    | some (.data data) =>
      let w := w.write socket.controller data
      match w.refs.activeHistoryEntryId with
      | some entry => w.appendCommandOutput entry data
      | none => w
    | some (.status state) =>
      let w :=
        if state = .connected then
          { w with
            refs.connectedOnce := true
            refs.reconnectOnRestore := true
            refs.reconnectAttempt := 0 }
        else w
      w.reportState state
    | some (.error message) =>
      w.sessionFailed socket.controller message (js "\r\n" ++ message)

/-- Whether the close of a reused session is answered by another connection at once. -/
def retriesReusedSession (socket : PaneSocket) : Bool :=
  !w.refs.connectedOnce && socket.reusedExistingSession &&
    requiresSecrets (w.options socket.controller)

def onClose (socket : PaneSocket) : PaneWorld :=
  if w.isDisposed socket.controller then w
  else
    let w := { w with refs.socket := none }
    let w :=
      if w.refs.backendSessionId = some socket.sessionId then
        w.clearBackendSession socket.controller
      else w
    if w.retriesReusedSession socket then
      w.connectNativeSession socket.controller ⟨false, true, false⟩
    else w.scheduleReconnect socket.controller none

def onError (socket : PaneSocket) : PaneWorld :=
  if w.isDisposed socket.controller then w
  else
    let message := (w.options socket.controller).protocolLabel ++ js " session transport failed."
    w.sessionFailed socket.controller message (js "\r\n" ++ message)

variable (c : ℕ)

/-- The rest of `disconnectNativeSession` once the session is closed. -/
def finishDisconnect : PaneWorld :=
  let w := w.reportState .disconnected
  w.writeln c (js "\r\n" ++ (w.options c).protocolLabel ++ js " session closed.")

def disconnectNativeSession : PaneWorld :=
  let sessionId := w.refs.backendSessionId
  let w := { w with refs.intentionalDisconnect := true }
  let w := w.clearReconnectTimer
  let w := w.closeSocket
  let w := { w with refs.socket := none }
  let w := w.clearBackendSession c
  let w := { w with
    refs.connectedOnce := false
    refs.reconnectAttempt := 0
    refs.pendingSecretsNoticeShown := false
    refs.reconnectOnRestore := false }
  let w := w.setPaneReconnectOnRestore false
  match sessionId with
  | some sessionId =>
    { w with
      closeRequests := w.closeRequests ++ [sessionId]
      disconnects := w.disconnects ++ [⟨c, true⟩] }
  | none => w.finishDisconnect c

end PaneWorld
end PaneSession
