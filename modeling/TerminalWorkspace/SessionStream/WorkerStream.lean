import TerminalWorkspace.Foundation.Runs

/-! The native session's stream. One worker thread emits, while calls that open and close
the stream run on threads of their own. The session's lock guards the stream id and the
buffer; the events themselves are emitted after it is released. -/
namespace SessionStream

def nativeSessionBufferLimit : ℕ := 128

/-- What `encode_session_message` is given. A status carries, beside its state, how many
changes of the connection state came before it. -/
inductive MessageBody where
  | data (output : String)
  | error (error : String)
  | status (state : String) (version : ℕ)
  deriving DecidableEq, Repr

/-- A message with its place among the messages the worker produced. -/
structure Message where
  seq : ℕ
  body : MessageBody
  deriving DecidableEq, Repr

/-- What an event on a stream carries. -/
inductive Outgoing where
  | message (message : Message)
  | snapshot (state : String) (version : ℕ)
  | close
  deriving DecidableEq, Repr

structure NativeSessionState where
  bufferedMessages : List Message
  connectionState : String
  streamId : Option ℕ
  deriving DecidableEq, Repr

/-- Where the worker stands between two sections of its code. -/
inductive Worker where
  | idle
  | stateSet (state : String)
  | sending (message : Message) (streamId : ℕ)
  | closing (streamId : ℕ)
  | ended
  deriving DecidableEq, Repr

/-- A call of `open_native_session_stream` or `close_native_session_stream`: it has looked
the session up, or an open one has yet to send these events. -/
inductive StreamCall where
  | opening
  | emitting (streamId : ℕ) (pending : List Outgoing)
  | closing (requestStreamId : Option ℕ)
  | answered
  deriving DecidableEq, Repr

/-- The worker's messages, each with the stream that was attached when it was produced, and
the attachments in between; the newest comes first. -/
inductive HistoryEvent where
  | produced (message : Message) (streamId : Option ℕ)
  | attached (streamId : ℕ)
  deriving DecidableEq, Repr

/-- One native session, the events emitted for it in their order, and its history. Stream ids
come from a counter that all sessions share. -/
structure World where
  state : NativeSessionState
  stateVersion : ℕ
  registered : Bool
  streamCounter : ℕ
  worker : Worker
  calls : List StreamCall
  sent : List (ℕ × Outgoing)
  history : List HistoryEvent
  deriving DecidableEq, Repr

def producedMessages : List HistoryEvent → List Message
  | [] => []
  | .produced message _ :: history => producedMessages history ++ [message]
  | .attached _ :: history => producedMessages history

/-- A session as `terminal_workspace_create_backend_session` inserts it. -/
def World.initial (streamCounter : ℕ) : World where
  state := { bufferedMessages := [], connectionState := "connecting", streamId := none }
  stateVersion := 0
  registered := true
  streamCounter := streamCounter
  worker := .idle
  calls := []
  sent := []
  history := []

/-- `push`, then `drain(0..excess)`. -/
def pushBuffered (buffered : List Message) (message : Message) : List Message :=
  let pushed := buffered ++ [message]
  if nativeSessionBufferLimit < pushed.length then
    pushed.drop (pushed.length - nativeSessionBufferLimit)
  else pushed

/-- The locked section of `emit_native_session_message`. -/
def emitNativeSessionMessage (w : World) (body : MessageBody) : World :=
  let message : Message := ⟨(producedMessages w.history).length, body⟩
  match w.state.streamId with
  | some streamId =>
    { w with
      worker := .sending message streamId
      history := .produced message (some streamId) :: w.history }
  | none =>
    { w with
      state.bufferedMessages := pushBuffered w.state.bufferedMessages message
      worker := .idle
      history := .produced message none :: w.history }

/-- The locked section of `set_native_session_connection_state`. -/
def setNativeSessionConnectionState (w : World) (nextState : String) : World :=
  { w with
    state.connectionState := nextState
    stateVersion := w.stateVersion + 1
    worker := .stateSet nextState }

/-- The locked section at the end of `run_native_session_loop`. -/
def takeStream (w : World) : World :=
  match w.state.streamId with
  | some streamId => { w with state.streamId := none, worker := .closing streamId }
  | none => { w with worker := .ended }

def emitSessionStreamEvent (w : World) (streamId : ℕ) (event : Outgoing) : World :=
  { w with sent := w.sent ++ [(streamId, event)] }

/-- The locked section of `open_native_session_stream`. -/
def openNativeSessionStream (w : World) (call : ℕ) : World :=
  let streamId := w.state.streamId.getD w.streamCounter
  let pending := .snapshot w.state.connectionState w.stateVersion ::
    w.state.bufferedMessages.map .message
  { w with
    state.streamId := some streamId
    state.bufferedMessages := []
    streamCounter := if w.state.streamId = none then w.streamCounter + 1 else w.streamCounter
    calls := w.calls.set call (.emitting streamId pending)
    history := .attached streamId :: w.history }

def shouldDetach : Option ℕ → Option ℕ → Bool
  | some requested, some active => requested = active
  | none, some _ => true
  | _, none => false

/-- The locked section of `close_native_session_stream`. -/
def closeNativeSessionStream (w : World) (call : ℕ) (requestStreamId : Option ℕ) : World :=
  { w with
    state.streamId :=
      if shouldDetach requestStreamId w.state.streamId then none else w.state.streamId
    calls := w.calls.set call .answered }

/-- One section of the worker or of a call; `otherSession` is another session opening a
stream, and `unregister` is a close command or the end of the worker. -/
inductive Action where
  | emitOutput (output : String)
  | emitError (error : String)
  | setConnectionState (nextState : String)
  | emitStatus
  | sendMessage
  | takeStream
  | sendClose
  | unregister
  | lookupOpen
  | attach (call : ℕ)
  | sendNext (call : ℕ)
  | lookupClose (requestStreamId : Option ℕ)
  | detach (call : ℕ)
  | otherSession
  deriving DecidableEq, Repr

/-- An action that is not the next section of its thread does nothing. -/
def step (w : World) : Action → World
  | .emitOutput output =>
    match w.worker with
    | .idle => emitNativeSessionMessage w (.data output)
    | _ => w
  | .emitError error =>
    match w.worker with
    | .idle => emitNativeSessionMessage w (.error error)
    | _ => w
  | .setConnectionState nextState =>
    match w.worker with
    | .idle => setNativeSessionConnectionState w nextState
    | _ => w
  | .emitStatus =>
    match w.worker with
    | .stateSet state => emitNativeSessionMessage w (.status state w.stateVersion)
    | _ => w
  | .sendMessage =>
    match w.worker with
    | .sending message streamId =>
      emitSessionStreamEvent { w with worker := .idle } streamId (.message message)
    | _ => w
  | .takeStream =>
    match w.worker with
    | .idle => takeStream w
    | _ => w
  | .sendClose =>
    match w.worker with
    | .closing streamId => emitSessionStreamEvent { w with worker := .ended } streamId .close
    | _ => w
  | .unregister => { w with registered := false }
  | .lookupOpen => if w.registered then { w with calls := w.calls ++ [.opening] } else w
  | .attach call =>
    match w.calls[call]? with
    | some .opening => openNativeSessionStream w call
    | _ => w
  | .sendNext call =>
    match w.calls[call]? with
    | some (.emitting streamId (event :: pending)) =>
      emitSessionStreamEvent { w with calls := w.calls.set call (.emitting streamId pending) }
        streamId event
    | _ => w
  | .lookupClose requestStreamId =>
    if w.registered then { w with calls := w.calls ++ [.closing requestStreamId] } else w
  | .detach call =>
    match w.calls[call]? with
    | some (.closing requestStreamId) => closeNativeSessionStream w call requestStreamId
    | _ => w
  | .otherSession => { w with streamCounter := w.streamCounter + 1 }

end SessionStream
