import Mathlib.Data.List.Basic
import TerminalWorkspace.Foundation.JsText

/-! The desktop's socket over one session stream. The handler of the stream events is
registered before the stream is opened, and the events that come before the stream id is
known wait in a queue that `initialize` empties itself. -/
namespace SessionStream
open JsText

inductive ReadyState where
  | connecting
  | opened
  | closing
  | closed
  deriving DecidableEq, Repr

inductive StreamEventKind where
  | close
  | error
  | message
  deriving DecidableEq, Repr

structure SessionStreamEventPayload where
  data : Option JsString
  kind : StreamEventKind
  message : Option JsString
  sessionId : JsString
  streamId : JsString
  deriving DecidableEq, Repr

inductive SessionSocketEvent where
  | close
  | error (message : Option JsString)
  | message (data : JsString)
  deriving DecidableEq, Repr

inductive SessionSocketEventName where
  | close
  | error
  | message
  deriving DecidableEq, Repr

def SessionSocketEvent.name : SessionSocketEvent → SessionSocketEventName
  | .close => .close
  | .error _ => .error
  | .message _ => .message

/-- The sets of listeners, in the order they were added. -/
structure Listeners where
  close : List ℕ
  error : List ℕ
  message : List ℕ
  deriving DecidableEq, Repr

def Listeners.of (listeners : Listeners) : SessionSocketEventName → List ℕ
  | .close => listeners.close
  | .error => listeners.error
  | .message => listeners.message

/-- `Set.prototype.add`. -/
def addToSet (set : List ℕ) (listener : ℕ) : List ℕ :=
  if listener ∈ set then set else set ++ [listener]

structure Call where
  listener : ℕ
  event : SessionSocketEvent
  deriving DecidableEq, Repr

inductive StreamCommand where
  | openStream (sessionId : JsString)
  | closeStream (sessionId : JsString) (streamId : Option JsString)
  | sendStream (data sessionId streamId : JsString)
  deriving DecidableEq, Repr

/-- The socket, with the calls it made to its listeners and the commands it invoked.
`listening` says that `unlisten` is set and the handler still registered. -/
structure NativeSessionSocket where
  sessionId : JsString
  readyState : ReadyState
  closed : Bool
  listeners : Listeners
  pendingEvents : List SessionStreamEventPayload
  streamId : Option JsString
  listening : Bool
  calls : List Call
  commands : List StreamCommand
  deriving DecidableEq, Repr

namespace NativeSessionSocket
variable (socket : NativeSessionSocket)

/-- `connect` up to the open request. The events delivered while `listen` was awaited
are queued like those delivered later, so nothing is lost by starting here. -/
def connect (sessionId : JsString) : NativeSessionSocket where
  sessionId := sessionId
  readyState := .connecting
  closed := false
  listeners := ⟨[], [], []⟩
  pendingEvents := []
  streamId := none
  listening := true
  calls := []
  commands := [.openStream sessionId]

def addEventListener (type : SessionSocketEventName) (listener : ℕ) : NativeSessionSocket :=
  match type with
  | .message =>
    { socket with listeners.message := addToSet socket.listeners.message listener }
  | .error => { socket with listeners.error := addToSet socket.listeners.error listener }
  | .close => { socket with listeners.close := addToSet socket.listeners.close listener }

def emit (event : SessionSocketEvent) : NativeSessionSocket :=
  { socket with calls := socket.calls ++ (socket.listeners.of event.name).map (⟨·, event⟩) }

def finishClose : NativeSessionSocket :=
  if socket.closed then socket
  else emit { socket with
    closed := true, readyState := .closed, pendingEvents := [], listening := false } .close

/-- The stream id where it is truthy. -/
def activeStreamId : Option JsString := socket.streamId.filter (· ≠ [])

def handleStreamEvent (event : SessionStreamEventPayload) : NativeSessionSocket :=
  if event.sessionId ≠ socket.sessionId then socket
  else match socket.activeStreamId with
    | none => { socket with pendingEvents := socket.pendingEvents ++ [event] }
    | some streamId =>
      if event.streamId ≠ streamId then socket
      else match event.kind, event.data.filter (· ≠ []) with
        | .message, some data => socket.emit (.message data)
        | .error, _ => socket.emit (.error event.message)
        | _, _ => socket.finishClose

def flushPendingEvents : NativeSessionSocket :=
  if socket.activeStreamId = none then socket
  else socket.pendingEvents.foldl handleStreamEvent { socket with pendingEvents := [] }

/-- The rest of `initialize` once the open request is answered. -/
def answered (streamId : JsString) : NativeSessionSocket :=
  flushPendingEvents { socket with streamId := some streamId, readyState := .opened }

/-- The rest of `initialize` once the open request is refused; `connect` then throws. -/
def refused (message : JsString) : NativeSessionSocket :=
  (socket.emit (.error (some message))).finishClose

def close : NativeSessionSocket :=
  if socket.readyState = .closed ∨ socket.readyState = .closing then socket
  else { socket with
    readyState := .closing
    commands := socket.commands ++ [.closeStream socket.sessionId socket.streamId] }

/-- The close command has settled, with the message of its error if it failed. -/
def closeSettled (error : Option JsString) : NativeSessionSocket :=
  match error with
  | none => socket.finishClose
  | some message => (socket.emit (.error (some message))).finishClose

def send (data : JsString) : NativeSessionSocket :=
  match socket.activeStreamId with
  | none => socket
  | some streamId =>
    if socket.readyState ≠ .opened then socket
    else { socket with
      commands := socket.commands ++ [.sendStream data socket.sessionId streamId] }

/-- A send command was rejected. -/
def sendRejected (message : JsString) : NativeSessionSocket :=
  (socket.emit (.error (some message))).finishClose

/-- The event bus calls the handler while it is registered. -/
def deliver (event : SessionStreamEventPayload) : NativeSessionSocket :=
  if socket.listening then socket.handleStreamEvent event else socket

end NativeSessionSocket

/-- What can happen to a socket. -/
inductive SocketInput where
  | deliver (event : SessionStreamEventPayload)
  | answered (streamId : JsString)
  | refused (message : JsString)
  | addEventListener (type : SessionSocketEventName) (listener : ℕ)
  | close
  | closeSettled (error : Option JsString)
  | send (data : JsString)
  | sendRejected (message : JsString)
  deriving DecidableEq, Repr

namespace NativeSessionSocket

def step (socket : NativeSessionSocket) : SocketInput → NativeSessionSocket
  | .deliver event => socket.deliver event
  | .answered streamId => socket.answered streamId
  | .refused message => socket.refused message
  | .addEventListener type listener => socket.addEventListener type listener
  | .close => socket.close
  | .closeSettled error => socket.closeSettled error
  | .send data => socket.send data
  | .sendRejected message => socket.sendRejected message

def run (socket : NativeSessionSocket) (inputs : List SocketInput) : NativeSessionSocket :=
  inputs.foldl step socket

section Emit
variable (socket : NativeSessionSocket) (event : SessionSocketEvent)

@[simp] theorem emit_sessionId : (socket.emit event).sessionId = socket.sessionId := rfl

@[simp] theorem emit_streamId : (socket.emit event).streamId = socket.streamId := rfl

@[simp] theorem emit_listeners : (socket.emit event).listeners = socket.listeners := rfl

@[simp] theorem emit_listening : (socket.emit event).listening = socket.listening := rfl

@[simp] theorem emit_closed : (socket.emit event).closed = socket.closed := rfl

@[simp] theorem emit_calls : (socket.emit event).calls =
    socket.calls ++ (socket.listeners.of event.name).map (⟨·, event⟩) := rfl

@[simp] theorem finishClose_sessionId : socket.finishClose.sessionId = socket.sessionId := by
  unfold finishClose
  split <;> rfl

@[simp] theorem finishClose_streamId : socket.finishClose.streamId = socket.streamId := by
  unfold finishClose
  split <;> rfl

@[simp] theorem finishClose_listeners : socket.finishClose.listeners = socket.listeners := by
  unfold finishClose
  split <;> rfl

end Emit

/-- Whatever the handler does with an event, it is one of four things. -/
theorem handleStreamEvent_cases (socket : NativeSessionSocket)
    (event : SessionStreamEventPayload) :
    socket.handleStreamEvent event = socket ∨
      socket.handleStreamEvent event =
        { socket with pendingEvents := socket.pendingEvents ++ [event] } ∨
      (∃ sent, sent ≠ .close ∧ socket.handleStreamEvent event = socket.emit sent) ∨
      socket.handleStreamEvent event = socket.finishClose := by
  unfold handleStreamEvent
  split
  · exact .inl rfl
  split
  · exact .inr (.inl rfl)
  split
  · exact .inl rfl
  split
  · rename_i data _ _
    exact .inr (.inr (.inl ⟨.message data, by simp, rfl⟩))
  · exact .inr (.inr (.inl ⟨.error event.message, by simp, rfl⟩))
  · exact .inr (.inr (.inr rfl))

/-- A socket that is closed hears no more of its stream, and one that is not has told no
listener so. -/
structure ClosesOnce (socket : NativeSessionSocket) : Prop where
  distinct : socket.listeners.close.Nodup
  deaf : socket.closed = true → socket.listening = false
  silent : socket.closed = false → ∀ listener, ⟨listener, .close⟩ ∉ socket.calls
  once : ∀ listener, socket.calls.count ⟨listener, .close⟩ ≤ 1

variable {socket : NativeSessionSocket}

theorem closesOnce_connect (sessionId : JsString) : (connect sessionId).ClosesOnce where
  distinct := List.nodup_nil
  deaf := nofun
  silent := by simp [connect]
  once := by simp [connect]

theorem ClosesOnce.emit (h : socket.ClosesOnce) {event : SessionSocketEvent}
    (hevent : event ≠ .close) : (socket.emit event).ClosesOnce := by
  have hcalls : ∀ listener,
      ⟨listener, .close⟩ ∉ (socket.listeners.of event.name).map (Call.mk · event) := by
    intro listener hmem
    obtain ⟨l, -, hl⟩ := List.mem_map.mp hmem
    exact hevent (Call.mk.inj hl).2
  refine ⟨h.distinct, h.deaf, ?_, ?_⟩
  · intro hclosed listener hmem
    rcases List.mem_append.mp hmem with hmem | hmem
    · exact h.silent hclosed listener hmem
    · exact hcalls listener hmem
  · intro listener
    rw [emit_calls, List.count_append, List.count_eq_zero_of_not_mem (hcalls listener)]
    exact h.once listener

theorem ClosesOnce.finishClose (h : socket.ClosesOnce) : socket.finishClose.ClosesOnce := by
  unfold NativeSessionSocket.finishClose
  split
  · exact h
  · rename_i hclosed
    refine ⟨h.distinct, fun _ => rfl, nofun, ?_⟩
    intro listener
    have hsilent := h.silent (by simpa using hclosed) listener
    have hinj : Function.Injective (Call.mk · SessionSocketEvent.close) :=
      fun _ _ heq => (Call.mk.inj heq).1
    simp only [emit_calls, List.count_append, List.count_eq_zero_of_not_mem hsilent, zero_add]
    exact List.nodup_iff_count_le_one.mp (h.distinct.map hinj) _

theorem ClosesOnce.handleStreamEvent (h : socket.ClosesOnce)
    (event : SessionStreamEventPayload) : (socket.handleStreamEvent event).ClosesOnce := by
  rcases handleStreamEvent_cases socket event with heq | heq | ⟨sent, hsent, heq⟩ | heq
  · rw [heq]
    exact h
  · rw [heq]
    exact ⟨h.distinct, h.deaf, h.silent, h.once⟩
  · rw [heq]
    exact h.emit hsent
  · rw [heq]
    exact h.finishClose

theorem ClosesOnce.handleAll (h : socket.ClosesOnce) (events : List SessionStreamEventPayload) :
    (events.foldl NativeSessionSocket.handleStreamEvent socket).ClosesOnce := by
  induction events generalizing socket with
  | nil => exact h
  | cons event events ih => exact ih (h.handleStreamEvent event)

theorem nodup_addToSet {set : List ℕ} (h : set.Nodup) (listener : ℕ) :
    (addToSet set listener).Nodup := by
  unfold addToSet
  split
  · exact h
  · rename_i hmem
    rw [List.nodup_append]
    refine ⟨h, List.nodup_singleton _, ?_⟩
    intro a ha b hb hab
    rw [List.mem_singleton] at hb
    exact hmem (hb ▸ hab ▸ ha)

theorem ClosesOnce.step (h : socket.ClosesOnce) (input : SocketInput) :
    (socket.step input).ClosesOnce := by
  cases input with
  | deliver event =>
    simp only [NativeSessionSocket.step, deliver]
    split
    · exact h.handleStreamEvent event
    · exact h
  | answered streamId =>
    have hopen (events : List SessionStreamEventPayload) : ClosesOnce { socket with
        streamId := some streamId, readyState := .opened, pendingEvents := events } :=
      ⟨h.distinct, h.deaf, h.silent, h.once⟩
    simp only [NativeSessionSocket.step, answered, flushPendingEvents]
    split
    · exact hopen _
    · exact (hopen []).handleAll _
  | refused message => exact (h.emit (by simp)).finishClose
  | addEventListener type listener =>
    cases type with
    | close => exact ⟨nodup_addToSet h.distinct listener, h.deaf, h.silent, h.once⟩
    | error => exact ⟨h.distinct, h.deaf, h.silent, h.once⟩
    | message => exact ⟨h.distinct, h.deaf, h.silent, h.once⟩
  | close =>
    simp only [NativeSessionSocket.step, NativeSessionSocket.close]
    split
    · exact h
    · exact ⟨h.distinct, h.deaf, h.silent, h.once⟩
  | closeSettled error =>
    cases error with
    | none => exact h.finishClose
    | some message => exact (h.emit (by simp)).finishClose
  | send data =>
    simp only [NativeSessionSocket.step, NativeSessionSocket.send]
    split
    · exact h
    · split
      · exact h
      · exact ⟨h.distinct, h.deaf, h.silent, h.once⟩
  | sendRejected message => exact (h.emit (by simp)).finishClose

/-- Over every run, no listener is told twice that the socket closed. -/
theorem run_closesOnce (sessionId : JsString) (inputs : List SocketInput) :
    ((connect sessionId).run inputs).ClosesOnce := by
  unfold run
  generalize hsocket : connect sessionId = socket
  have h : socket.ClosesOnce := hsocket ▸ closesOnce_connect sessionId
  clear hsocket
  induction inputs generalizing socket with
  | nil => exact h
  | cons input inputs ih => exact ih _ (h.step input)

end NativeSessionSocket
end SessionStream
