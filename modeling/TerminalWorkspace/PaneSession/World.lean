import TerminalWorkspace.Inventory.Records
import TerminalWorkspace.SessionStream.NativeSocket

/-! A pane's session: its record in the sessions store, the references its controllers
share, and what is on its way. -/
namespace PaneSession
open JsText Inventory SessionStream

inductive SessionConnectionState where
  | connecting
  | connected
  | disconnected
  | pendingSecrets
  | error
  deriving DecidableEq, Repr

inductive SessionTransport where
  | localShell
  | mock
  | mosh
  | serial
  | ssh
  | telnet
  | unsupported
  deriving DecidableEq, Repr

inductive SshErrorCategory where
  | authFailed
  | hostKeyMismatch
  | networkUnreachable
  | timeout
  | refused
  | dnsFailure
  | unknown
  deriving DecidableEq, Repr

/-- What `classifySshError` makes of a failure, with the raw text of the failure where the
classifier has none. -/
structure ClassifiedSshError where
  category : SshErrorCategory
  message : JsString
  hint : Option JsString
  raw : JsString
  deriving DecidableEq, Repr

/-- An id that the backend issued, never an empty string. -/
abbrev SessionId := ℕ

/-- The fields of a pane's record that the session code reads or writes. -/
structure SessionPane where
  hostId : JsString
  connectionState : SessionConnectionState
  connectionError : Option JsString
  transport : SessionTransport
  backendSessionId : Option SessionId
  reconnectOnRestore : Bool
  deriving DecidableEq, Repr

namespace SessionPane
variable (pane : SessionPane)

def updateConnectionState (connectionState : SessionConnectionState)
    (connectionError : Option JsString) : SessionPane :=
  { pane with
    connectionState := connectionState
    connectionError :=
      if connectionState = .error then connectionError.or pane.connectionError else none
    reconnectOnRestore := connectionState = .connected || pane.reconnectOnRestore }

def updateReconnectPreference (reconnectOnRestore : Bool) : SessionPane :=
  { pane with reconnectOnRestore := reconnectOnRestore }

def updateTransport (transport : SessionTransport) : SessionPane :=
  { pane with transport := transport }

def updateBackendSession (backendSessionId : Option SessionId) : SessionPane :=
  { pane with backendSessionId := backendSessionId }

end SessionPane

structure RuntimeStatusMessage where
  available : Bool
  installHint : Option JsString
  message : JsString
  deriving DecidableEq, Repr

/-- The options of a controller that its code reads. -/
structure ControllerOptions where
  authMethod : HostAuthMethod
  hostname : JsString
  protocol : HostProtocol
  protocolLabel : JsString
  unsupportedTransport : Bool
  useMockTransport : Bool
  deriving DecidableEq, Repr

structure Controller where
  options : ControllerOptions
  disposed : Bool
  deriving DecidableEq, Repr

/-- The armed reconnect timer, with the controller whose callback it runs. -/
structure ReconnectTimer where
  controller : ℕ
  delayMs : ℕ
  deriving DecidableEq, Repr

/-- The references that outlive a controller. -/
structure PaneRefs where
  activeHistoryEntryId : Option ℕ
  backendSessionId : Option SessionId
  connectedOnce : Bool
  connecting : Bool
  connectionState : SessionConnectionState
  intentionalDisconnect : Bool
  pendingSecretsNoticeShown : Bool
  reconnectAttempt : ℕ
  reconnectOnRestore : Bool
  reconnectTimeout : Option ReconnectTimer
  runtimeStatus : Option RuntimeStatusMessage
  socket : Option ℕ
  transport : SessionTransport
  deriving DecidableEq, Repr

structure ConnectOptions where
  announce : Bool
  allowPendingSecrets : Bool
  promptForSecrets : Bool
  deriving DecidableEq, Repr

/-- What a call of `connectNativeSession` awaits. -/
inductive Awaiting where
  | runtimeStatus
  | restoreCheck
  | secrets
  | session
  | socket (sessionId : SessionId) (reusedExistingSession : Bool)
  | settled
  deriving DecidableEq, Repr

structure Attempt where
  controller : ℕ
  options : ConnectOptions
  awaiting : Awaiting
  deriving DecidableEq, Repr

/-- A socket and what the closures of its handlers hold. -/
structure PaneSocket where
  controller : ℕ
  sessionId : SessionId
  reusedExistingSession : Bool
  readyState : ReadyState
  deriving DecidableEq, Repr

/-- A call that awaits one answer: the restore check of `initializeTerminalPaneTransport`, or
the close request of `disconnectNativeSession`. -/
structure PendingCall where
  controller : ℕ
  pending : Bool
  deriving DecidableEq, Repr

structure TerminalWrite where
  controller : ℕ
  text : JsString
  deriving DecidableEq, Repr

/-- The fields of the record that an effect copies into the references. -/
structure MirroredFields where
  backendSessionId : Option SessionId
  connectionState : SessionConnectionState
  reconnectOnRestore : Bool
  transport : SessionTransport
  deriving DecidableEq, Repr

def SessionPane.mirrored (pane : SessionPane) : MirroredFields :=
  ⟨pane.backendSessionId, pane.connectionState, pane.reconnectOnRestore, pane.transport⟩

/-- A mounted pane. The record is missing once the pane is closed. -/
structure PaneWorld where
  pane : Option SessionPane
  refs : PaneRefs
  rendered : MirroredFields
  effect : Option MirroredFields
  controllers : List Controller
  attempts : List Attempt
  initializations : List PendingCall
  disconnects : List PendingCall
  sockets : List PaneSocket
  output : List TerminalWrite
  commandOutput : List (ℕ × JsString)
  closeRequests : List SessionId
  deriving DecidableEq, Repr

/-- The references as the component creates them from the record it is mounted with. -/
def PaneWorld.initial (pane : SessionPane) : PaneWorld where
  pane := some pane
  refs :=
    { activeHistoryEntryId := none
      backendSessionId := pane.backendSessionId
      connectedOnce := pane.connectionState = .connected
      connecting := false
      connectionState := pane.connectionState
      intentionalDisconnect := false
      pendingSecretsNoticeShown := false
      reconnectAttempt := 0
      reconnectOnRestore := pane.reconnectOnRestore
      reconnectTimeout := none
      runtimeStatus := none
      socket := none
      transport := pane.transport }
  rendered := pane.mirrored
  effect := none
  controllers := []
  attempts := []
  initializations := []
  disconnects := []
  sockets := []
  output := []
  commandOutput := []
  closeRequests := []

namespace PaneWorld
variable (w : PaneWorld)

/-- A controller that was never created counts as disposed. -/
def controller (c : ℕ) : Controller :=
  w.controllers.getD c ⟨⟨.none, [], .ssh, [], false, false⟩, true⟩

def isDisposed (c : ℕ) : Bool := (w.controller c).disposed

def options (c : ℕ) : ControllerOptions := (w.controller c).options

def setPaneState (connectionState : SessionConnectionState) : PaneWorld :=
  { w with pane := w.pane.map (·.updateConnectionState connectionState none) }

def setPaneReconnectOnRestore (reconnectOnRestore : Bool) : PaneWorld :=
  { w with pane := w.pane.map (·.updateReconnectPreference reconnectOnRestore) }

def setPaneTransport (transport : SessionTransport) : PaneWorld :=
  { w with pane := w.pane.map (·.updateTransport transport) }

def setPaneBackendSession (backendSessionId : Option SessionId) : PaneWorld :=
  { w with pane := w.pane.map (·.updateBackendSession backendSessionId) }

/-- Assign the reference and then the record, as all but one of the state changes do. -/
def reportState (connectionState : SessionConnectionState) : PaneWorld :=
  setPaneState { w with refs.connectionState := connectionState } connectionState

/-- `terminal.write`; an empty text shows nothing. -/
def write (c : ℕ) (text : JsString) : PaneWorld :=
  { w with output := if text = [] then w.output else w.output ++ [⟨c, text⟩] }

def writeln (c : ℕ) (text : JsString) : PaneWorld := w.write c (text ++ js "\r\n")

/-- An empty text leaves the history as it is. -/
def appendCommandOutput (entry : ℕ) (text : JsString) : PaneWorld :=
  { w with commandOutput :=
      if text = [] then w.commandOutput else w.commandOutput ++ [(entry, text)] }

def setAwaiting (i : ℕ) (awaiting : Awaiting) : PaneWorld :=
  { w with attempts := w.attempts.modify i fun attempt => { attempt with awaiting := awaiting } }

def isOpen (socket : ℕ) : Bool :=
  (w.sockets[socket]?).any (·.readyState = .opened)

/-- `socketRef.current?.close()`. -/
def closeSocket : PaneWorld :=
  match w.refs.socket with
  | none => w
  | some socket =>
    { w with sockets := w.sockets.modify socket fun s =>
        if s.readyState = .closed ∨ s.readyState = .closing then s
        else { s with readyState := .closing } }

end PaneWorld
end PaneSession
