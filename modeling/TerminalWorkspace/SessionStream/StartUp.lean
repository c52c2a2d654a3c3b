import TerminalWorkspace.SessionStream.NativeSocket

/-! What a caller hears of a stream that it opened. `initialize` empties the queue before the
caller has a socket to listen on, so only what arrives after the listeners are attached is
heard. -/
namespace SessionStream
open JsText NativeSessionSocket

/-- The events of one stream as the backend emits them: the messages, and at most one
close after them. No message is empty, since each is the text of a JSON object. -/
structure OpenedStream where
  sessionId : JsString
  streamId : JsString
  messages : List JsString
  closes : Bool
  streamId_ne_nil : streamId ≠ []
  message_ne_nil : ∀ message ∈ messages, message ≠ []

/-- The listeners a caller attaches. -/
structure Caller where
  message : ℕ
  close : ℕ
  error : ℕ

namespace OpenedStream
variable (stream : OpenedStream)

def messageEvent (data : JsString) : SessionStreamEventPayload :=
  ⟨some data, .message, none, stream.sessionId, stream.streamId⟩

def closeEvent : SessionStreamEventPayload :=
  ⟨none, .close, none, stream.sessionId, stream.streamId⟩

def closeEvents : List SessionStreamEventPayload := if stream.closes then [stream.closeEvent] else []

def events : List SessionStreamEventPayload :=
  stream.messages.map stream.messageEvent ++ stream.closeEvents

def owns (event : SessionStreamEventPayload) : Bool :=
  event.sessionId = stream.sessionId ∧ event.streamId = stream.streamId

/-- Every message once and in order, then the close. -/
def expectedCalls (caller : Caller) : List Call :=
  stream.messages.map (fun data => ⟨caller.message, .message data⟩) ++
    if stream.closes then [⟨caller.close, .close⟩] else []

@[simp] theorem owns_messageEvent (data : JsString) : stream.owns (stream.messageEvent data) := by
  simp [owns, messageEvent]

@[simp] theorem owns_closeEvent : stream.owns stream.closeEvent := by simp [owns, closeEvent]

theorem length_expectedCalls (caller : Caller) :
    (stream.expectedCalls caller).length = stream.events.length := by
  unfold expectedCalls events closeEvents
  cases stream.closes <;> simp

end OpenedStream

/-- The order in which the events delivered to the handler fall about the answer to the
open request and about the caller's attachment of its listeners. Events of other streams
and other sessions may come in between. -/
structure StartUp (stream : OpenedStream) where
  beforeAnswer : List SessionStreamEventPayload
  beforeListeners : List SessionStreamEventPayload
  afterListeners : List SessionStreamEventPayload
  emitted : (beforeAnswer ++ beforeListeners ++ afterListeners).filter stream.owns = stream.events

variable {stream : OpenedStream}

def attach (caller : Caller) : List SocketInput :=
  [.addEventListener .message caller.message, .addEventListener .close caller.close,
    .addEventListener .error caller.error]

def StartUp.inputs (start : StartUp stream) (caller : Caller) : List SocketInput :=
  start.beforeAnswer.map .deliver ++ [.answered stream.streamId] ++
    start.beforeListeners.map .deliver ++ attach caller ++ start.afterListeners.map .deliver

def StartUp.socket (start : StartUp stream) (caller : Caller) : NativeSessionSocket :=
  (connect stream.sessionId).run (start.inputs caller)

/-- The socket knows its stream, whatever it has heard of it. -/
structure Opened (stream : OpenedStream) (socket : NativeSessionSocket) : Prop where
  sessionId_eq : socket.sessionId = stream.sessionId
  streamId_eq : socket.streamId = some stream.streamId

section Opened
variable {socket : NativeSessionSocket} {event : SessionStreamEventPayload}

theorem Opened.activeStreamId_eq (h : Opened stream socket) :
    socket.activeStreamId = some stream.streamId := by
  simp [activeStreamId, h.streamId_eq, Option.filter, stream.streamId_ne_nil]

theorem Opened.emit (h : Opened stream socket) (event : SessionSocketEvent) :
    Opened stream (socket.emit event) := ⟨h.sessionId_eq, h.streamId_eq⟩

theorem Opened.finishClose (h : Opened stream socket) : Opened stream socket.finishClose :=
  ⟨by simpa using h.sessionId_eq, by simpa using h.streamId_eq⟩

theorem Opened.handleStreamEvent_of_not_owns (h : Opened stream socket)
    (howns : stream.owns event = false) : socket.handleStreamEvent event = socket := by
  unfold handleStreamEvent
  split
  · rfl
  · rename_i hsession
    rw [not_not, h.sessionId_eq] at hsession
    have hstream : event.streamId ≠ stream.streamId := by
      simpa [OpenedStream.owns, hsession] using howns
    simp [h.activeStreamId_eq, hstream]

/-- An event of the opened stream is not queued again. -/
theorem Opened.handleStreamEvent_cases (h : Opened stream socket)
    (event : SessionStreamEventPayload) :
    socket.handleStreamEvent event = socket ∨
      (∃ sent, socket.handleStreamEvent event = socket.emit sent) ∨
      socket.handleStreamEvent event = socket.finishClose := by
  unfold handleStreamEvent
  rw [h.activeStreamId_eq]
  split
  · exact .inl rfl
  dsimp only
  split
  · exact .inl rfl
  split
  · exact .inr (.inl ⟨_, rfl⟩)
  · exact .inr (.inl ⟨_, rfl⟩)
  · exact .inr (.inr rfl)

theorem Opened.handleStreamEvent (h : Opened stream socket)
    (event : SessionStreamEventPayload) : Opened stream (socket.handleStreamEvent event) := by
  rcases h.handleStreamEvent_cases event with heq | ⟨sent, heq⟩ | heq
  · rw [heq]
    exact h
  · rw [heq]
    exact h.emit sent
  · rw [heq]
    exact h.finishClose

theorem Opened.deliver (h : Opened stream socket) (event : SessionStreamEventPayload) :
    Opened stream (socket.deliver event) := by
  unfold NativeSessionSocket.deliver
  split
  · exact h.handleStreamEvent event
  · exact h

theorem Opened.deliver_of_not_owns (h : Opened stream socket)
    (howns : stream.owns event = false) : socket.deliver event = socket := by
  unfold NativeSessionSocket.deliver
  split
  · exact h.handleStreamEvent_of_not_owns howns
  · rfl

end Opened

def deliverAll (socket : NativeSessionSocket) (events : List SessionStreamEventPayload) :
    NativeSessionSocket := events.foldl deliver socket

theorem deliverAll_cons (socket : NativeSessionSocket) (event : SessionStreamEventPayload)
    (events : List SessionStreamEventPayload) :
    deliverAll socket (event :: events) = deliverAll (socket.deliver event) events := rfl

/-- Only the events of the opened stream matter. -/
theorem deliverAll_filter {socket : NativeSessionSocket} (h : Opened stream socket)
    (events : List SessionStreamEventPayload) :
    deliverAll socket events = deliverAll socket (events.filter stream.owns) := by
  induction events generalizing socket with
  | nil => rfl
  | cons event events ih =>
    cases howns : stream.owns event with
    | false =>
      rw [List.filter_cons_of_neg (by simp [howns]), deliverAll_cons, h.deliver_of_not_owns howns]
      exact ih h
    | true =>
      rw [List.filter_cons_of_pos howns, deliverAll_cons, deliverAll_cons]
      exact ih (h.deliver event)

theorem Opened.deliverAll {socket : NativeSessionSocket} (h : Opened stream socket)
    (events : List SessionStreamEventPayload) :
    Opened stream (deliverAll socket events) :=
  List.foldlRecOn events _ h fun _ h event _ => h.deliver event

theorem Opened.handleAll {socket : NativeSessionSocket} (h : Opened stream socket)
    (events : List SessionStreamEventPayload) :
    Opened stream (events.foldl NativeSessionSocket.handleStreamEvent socket) :=
  List.foldlRecOn events _ h fun _ h event _ => h.handleStreamEvent event

section Heard
variable {socket : NativeSessionSocket} {caller : Caller}

/-- The caller is the only one that listens. -/
def Caller.listeners (caller : Caller) : Listeners :=
  ⟨[caller.close], [caller.error], [caller.message]⟩

@[simp] theorem Caller.length_listeners_of (name : SessionSocketEventName) :
    (caller.listeners.of name).length = 1 := by cases name <;> rfl

theorem Opened.length_calls_deliver (h : Opened stream socket)
    (hlisteners : socket.listeners = caller.listeners) (event : SessionStreamEventPayload) :
    (socket.deliver event).listeners = caller.listeners ∧
      (socket.deliver event).calls.length ≤ socket.calls.length + 1 := by
  unfold NativeSessionSocket.deliver
  split
  · rcases h.handleStreamEvent_cases event with heq | ⟨sent, heq⟩ | heq
    · rw [heq]
      exact ⟨hlisteners, Nat.le_succ _⟩
    · rw [heq]
      exact ⟨hlisteners, by simp [hlisteners]⟩
    · rw [heq]
      refine ⟨by simpa using hlisteners, ?_⟩
      unfold NativeSessionSocket.finishClose
      split
      · exact Nat.le_succ _
      · simp [hlisteners]
  · exact ⟨hlisteners, Nat.le_succ _⟩

/-- The caller hears each event that arrives at most once. -/
theorem Opened.length_calls_deliverAll (h : Opened stream socket)
    (hlisteners : socket.listeners = caller.listeners) (events : List SessionStreamEventPayload) :
    (SessionStream.deliverAll socket events).calls.length ≤
      socket.calls.length + events.length := by
  induction events generalizing socket with
  | nil => exact Nat.le_refl _
  | cons event events ih =>
    obtain ⟨hnext, hcalls⟩ := h.length_calls_deliver hlisteners event
    have hrest := ih (h.deliver event) hnext
    rw [deliverAll_cons, List.length_cons]
    omega

theorem Opened.deliver_messageEvent (h : Opened stream socket) (hlistening : socket.listening)
    {data : JsString} (hdata : data ≠ []) :
    socket.deliver (stream.messageEvent data) = socket.emit (.message data) := by
  simp [NativeSessionSocket.deliver, hlistening, NativeSessionSocket.handleStreamEvent,
    h.activeStreamId_eq, OpenedStream.messageEvent,
    h.sessionId_eq, Option.filter, hdata]

theorem Opened.deliver_closeEvent (h : Opened stream socket) (hlistening : socket.listening) :
    socket.deliver stream.closeEvent = socket.finishClose := by
  simp [NativeSessionSocket.deliver, hlistening, NativeSessionSocket.handleStreamEvent,
    h.activeStreamId_eq, OpenedStream.closeEvent,
    h.sessionId_eq]

/-- A caller that listens before anything of the stream arrives hears all of it. -/
theorem Opened.calls_deliverAll_events (h : Opened stream socket)
    (hlisteners : socket.listeners = caller.listeners) (hlistening : socket.listening)
    (hclosed : socket.closed = false) :
    (SessionStream.deliverAll socket stream.events).calls =
      socket.calls ++ stream.expectedCalls caller := by
  unfold OpenedStream.events OpenedStream.expectedCalls
  generalize hmessages : stream.messages = messages
  have hne : ∀ data ∈ messages, data ≠ [] := hmessages ▸ stream.message_ne_nil
  clear hmessages
  induction messages generalizing socket with
  | nil =>
    unfold OpenedStream.closeEvents
    split
    · show (socket.deliver stream.closeEvent).calls = _
      rw [h.deliver_closeEvent hlistening]
      simp [NativeSessionSocket.finishClose, hclosed, hlisteners, Caller.listeners, Listeners.of, SessionSocketEvent.name]
    · simp [SessionStream.deliverAll]
  | cons data messages ih =>
    rw [List.map_cons, List.cons_append, deliverAll_cons,
      h.deliver_messageEvent hlistening (hne data List.mem_cons_self),
      ih (h.emit _) hlisteners hlistening hclosed fun m hm => hne m (List.mem_cons_of_mem _ hm)]
    simp [hlisteners, Caller.listeners, Listeners.of, SessionSocketEvent.name]

end Heard

section Unheard
variable {socket : NativeSessionSocket}

/-- No one listens yet, and no one has been called. -/
structure Unheard (socket : NativeSessionSocket) : Prop where
  listeners_eq : socket.listeners = ⟨[], [], []⟩
  calls_eq : socket.calls = []

theorem Unheard.emit (h : Unheard socket) (event : SessionSocketEvent) :
    Unheard (socket.emit event) where
  listeners_eq := h.listeners_eq
  calls_eq := by
    rw [emit_calls, h.calls_eq, h.listeners_eq]
    cases event <;> rfl

theorem Unheard.finishClose (h : Unheard socket) : Unheard socket.finishClose := by
  unfold NativeSessionSocket.finishClose
  split
  · exact h
  · have hclosed : Unheard { socket with
        closed := true, readyState := .closed, pendingEvents := [], listening := false } :=
      ⟨h.listeners_eq, h.calls_eq⟩
    exact hclosed.emit .close

theorem Unheard.handleStreamEvent (h : Unheard socket) (event : SessionStreamEventPayload) :
    Unheard (socket.handleStreamEvent event) := by
  rcases handleStreamEvent_cases socket event with heq | heq | ⟨sent, -, heq⟩ | heq
  · rw [heq]
    exact h
  · rw [heq]
    exact ⟨h.listeners_eq, h.calls_eq⟩
  · rw [heq]
    exact h.emit sent
  · rw [heq]
    exact h.finishClose

theorem Unheard.deliverAll (h : Unheard socket) (events : List SessionStreamEventPayload) :
    Unheard (deliverAll socket events) := by
  apply List.foldlRecOn events _ h
  intro socket h event _
  unfold deliver
  split
  · exact h.handleStreamEvent event
  · exact h

theorem Unheard.handleAll (h : Unheard socket) (events : List SessionStreamEventPayload) :
    Unheard (events.foldl NativeSessionSocket.handleStreamEvent socket) :=
  List.foldlRecOn events _ h fun _ h event _ => h.handleStreamEvent event

end Unheard

/-- The open request is answered and nothing was waiting. -/
def openedSocket (stream : OpenedStream) : NativeSessionSocket :=
  { connect stream.sessionId with streamId := some stream.streamId, readyState := .opened }

theorem opened_openedSocket (stream : OpenedStream) : Opened stream (openedSocket stream) :=
  ⟨rfl, rfl⟩

/-- Until the answer every event of the session waits. -/
theorem deliverAll_connect (sessionId : JsString) (pending events : List SessionStreamEventPayload) :
    deliverAll { connect sessionId with pendingEvents := pending } events =
      { connect sessionId with
        pendingEvents := pending ++ events.filter (·.sessionId = sessionId) } := by
  induction events generalizing pending with
  | nil => simp [deliverAll]
  | cons event events ih =>
    rw [deliverAll_cons]
    by_cases hsession : event.sessionId = sessionId
    · have hstep : deliver { connect sessionId with pendingEvents := pending } event =
          { connect sessionId with pendingEvents := pending ++ [event] } := by
        simp [deliver, handleStreamEvent, connect, activeStreamId, hsession]
      rw [hstep, ih, List.filter_cons_of_pos (by simpa using hsession), List.append_assoc]
      rfl
    · have hstep : deliver { connect sessionId with pendingEvents := pending } event =
          { connect sessionId with pendingEvents := pending } := by
        simp [deliver, handleStreamEvent, connect, hsession]
      rw [hstep, ih, List.filter_cons_of_neg (by simpa using hsession)]

theorem answered_connect (stream : OpenedStream) (pending : List SessionStreamEventPayload) :
    answered { connect stream.sessionId with pendingEvents := pending } stream.streamId =
      pending.foldl handleStreamEvent (openedSocket stream) := by
  have hactive : activeStreamId { connect stream.sessionId with
      pendingEvents := pending, streamId := some stream.streamId, readyState := .opened } ≠ none := by
    simp [activeStreamId, Option.filter, stream.streamId_ne_nil]
  unfold answered flushPendingEvents
  rw [if_neg hactive]
  rfl

section StartUp
variable {caller : Caller} (start : StartUp stream)

/-- The socket as the caller gets it. -/
def StartUp.resolved : NativeSessionSocket :=
  deliverAll (start.beforeAnswer.filter (·.sessionId = stream.sessionId) |>.foldl handleStreamEvent
    (openedSocket stream)) start.beforeListeners

theorem run_deliver (socket : NativeSessionSocket) (events : List SessionStreamEventPayload) :
    socket.run (events.map .deliver) = deliverAll socket events := by
  simp [run, deliverAll, List.foldl_map, step]

theorem run_append (socket : NativeSessionSocket) (first second : List SocketInput) :
    socket.run (first ++ second) = (socket.run first).run second := List.foldl_append

theorem StartUp.socket_eq (caller : Caller) : start.socket caller =
    deliverAll (start.resolved.run (attach caller)) start.afterListeners := by
  have hbefore := deliverAll_connect stream.sessionId [] start.beforeAnswer
  have hconnect : { connect stream.sessionId with pendingEvents := [] } = connect stream.sessionId :=
    rfl
  unfold StartUp.socket StartUp.inputs
  rw [run_append, run_append, run_append, run_append, run_deliver, run_deliver, run_deliver]
  rw [← hconnect, hbefore]
  show deliverAll (run (deliverAll (answered _ stream.streamId) _) _) _ = _
  rw [List.nil_append, answered_connect]
  rfl

theorem StartUp.opened_resolved : Opened stream start.resolved := by
  apply Opened.deliverAll
  apply Opened.handleAll
  exact opened_openedSocket stream

theorem StartUp.unheard_resolved : Unheard start.resolved := by
  apply Unheard.deliverAll
  apply Unheard.handleAll
  exact ⟨rfl, rfl⟩

/-- With nothing of the stream delivered so far, the caller gets the socket as it was
when the request was answered. -/
theorem StartUp.resolved_of_early (hbefore : ∀ event ∈ start.beforeAnswer, stream.owns event = false)
    (hbetween : ∀ event ∈ start.beforeListeners, stream.owns event = false) :
    start.resolved = openedSocket stream := by
  have hpending : ∀ pending : List SessionStreamEventPayload,
      (∀ event ∈ pending, stream.owns event = false) →
        pending.foldl handleStreamEvent (openedSocket stream) = openedSocket stream := by
    intro pending hpending
    induction pending with
    | nil => rfl
    | cons event pending ih =>
      rw [List.foldl_cons, (opened_openedSocket stream).handleStreamEvent_of_not_owns
        (hpending event List.mem_cons_self)]
      exact ih fun e he => hpending e (List.mem_cons_of_mem _ he)
  unfold StartUp.resolved
  rw [hpending _ fun event he => hbefore event (List.mem_filter.mp he).1,
    deliverAll_filter (opened_openedSocket stream),
    List.filter_eq_nil_iff.mpr fun event he => by simp [hbetween event he]]
  rfl

theorem attach_run (socket : NativeSessionSocket) (hlisteners : socket.listeners = ⟨[], [], []⟩)
    (caller : Caller) : socket.run (attach caller) =
      { socket with listeners := caller.listeners } := by
  simp [run, attach, step, addEventListener, addToSet, hlisteners, Caller.listeners]

/-- The early events of the stream and the later ones make up the stream. -/
theorem StartUp.length_events : stream.events.length =
    ((start.beforeAnswer ++ start.beforeListeners).filter stream.owns).length +
      (start.afterListeners.filter stream.owns).length := by
  rw [← start.emitted, List.filter_append _ start.afterListeners, List.length_append]

/-- The caller hears the stream in full exactly if nothing of it was delivered before the
caller listened. -/
theorem startUp_iff (start : StartUp stream) (caller : Caller) :
    (start.socket caller).calls = stream.expectedCalls caller ↔
      ∀ event ∈ start.beforeAnswer ++ start.beforeListeners, stream.owns event = false := by
  have hunheard := start.unheard_resolved
  have hattached := attach_run start.resolved hunheard.listeners_eq caller
  have hopened : Opened stream (start.resolved.run (attach caller)) :=
    hattached ▸ ⟨start.opened_resolved.sessionId_eq, start.opened_resolved.streamId_eq⟩
  rw [start.socket_eq, deliverAll_filter hopened]
  constructor
  · intro hcalls
    have hlength := hopened.length_calls_deliverAll (by rw [hattached])
      (start.afterListeners.filter stream.owns)
    have hcalls₀ : (start.resolved.run (attach caller)).calls = [] :=
      hattached ▸ hunheard.calls_eq
    rw [hcalls, stream.length_expectedCalls, start.length_events, hcalls₀, List.length_nil] at hlength
    have hearly : (start.beforeAnswer ++ start.beforeListeners).filter stream.owns = [] :=
      List.eq_nil_of_length_eq_zero (by omega)
    intro event he
    simpa using List.filter_eq_nil_iff.mp hearly event he
  · intro hearly
    have hresolved := start.resolved_of_early
      (fun event he => hearly event (List.mem_append_left _ he))
      (fun event he => hearly event (List.mem_append_right _ he))
    have hnone : (start.beforeAnswer ++ start.beforeListeners).filter stream.owns = [] :=
      List.filter_eq_nil_iff.mpr fun event he => by simp [hearly event he]
    have hafter : start.afterListeners.filter stream.owns = stream.events := by
      rw [← start.emitted, List.filter_append _ start.afterListeners, hnone, List.nil_append]
    rw [hafter, hopened.calls_deliverAll_events (by rw [hattached]) (by rw [hattached, hresolved]; rfl)
      (by rw [hattached, hresolved]; rfl), hattached, hresolved]
    rfl

/-- The status that opening a stream sends, on its way before the answer. -/
def snapshotStream : OpenedStream where
  sessionId := js "native-1"
  streamId := js "1"
  messages := [js "\x7b\"state\":\"connected\",\"type\":\"status\"\x7d"]
  closes := false
  streamId_ne_nil := by decide
  message_ne_nil := by decide

def snapshotFirst : StartUp snapshotStream where
  beforeAnswer := snapshotStream.events
  beforeListeners := []
  afterListeners := []
  emitted := by decide

theorem not_every_start_heard : ¬ ∀ (stream : OpenedStream) (start : StartUp stream)
    (caller : Caller), (start.socket caller).calls = stream.expectedCalls caller := by
  intro h
  have hcalls := h snapshotStream snapshotFirst ⟨0, 1, 2⟩
  have hnone : (snapshotFirst.socket ⟨0, 1, 2⟩).calls = [] := by decide
  have hone : (snapshotStream.expectedCalls ⟨0, 1, 2⟩).length = 1 := by decide
  rw [← hcalls, hnone] at hone
  exact absurd hone (by decide)

end StartUp

end SessionStream
