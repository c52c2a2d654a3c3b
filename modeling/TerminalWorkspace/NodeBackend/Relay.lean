import TerminalWorkspace.Foundation.JsText
import TerminalWorkspace.Foundation.Runs

/-! The terminal relay of the Node backend: one session, the websockets that attach to it
one after the other, and the buffer for output that no open socket takes. -/
namespace NodeBackend
open JsText Runs

/-- `Buffer.byteLength(s, "utf8")`. -/
def byteLength (s : JsString) : ℕ := (utf8Bytes s).length

/-- `chunk.toString("utf8")`. -/
def toUtf8String (chunk : List UInt8) : JsString := ofText (Utf8.decodeLossy chunk)

inductive ReadyState where
  | opened
  | closing
  | closed
  deriving DecidableEq, Repr

inductive Message where
  | status (state : JsString)
  | error (message : JsString)
  | data (data : JsString)
  deriving DecidableEq, Repr

/-- What a session record holds for its relay; a socket is named by its place among all that
have attached. -/
structure Session where
  ws : Option ℕ
  state : JsString
  buffer : List JsString
  bufferBytes : ℕ
  droppedBytes : ℕ
  failureMessage : Option JsString
  deriving DecidableEq, Repr

/-- `output` is all the data that has been broadcast, `detached` what of it was broadcast
without an open socket since the buffer was last flushed. -/
structure Relay where
  session : Session
  sockets : List ReadyState
  sent : List (ℕ × Message)
  output : JsString
  detached : JsString
  deriving DecidableEq, Repr

inductive RelayEvent where
  | shellData (chunk : List UInt8)
  | statusChange (state : JsString)
  | failSession (message : JsString)
  | attach
  /-- Either side has begun to close the socket. -/
  | startClosing (ws : ℕ)
  | close (ws : ℕ)
  deriving DecidableEq, Repr

/-- The eviction loop: the buffer, its bytes, and the bytes dropped. -/
def evict (maxBytes : ℕ) : List JsString → ℕ → ℕ → List JsString × ℕ × ℕ
  | evicted :: next :: buffer, bufferBytes, droppedBytes =>
    if maxBytes < bufferBytes then
      let evictedBytes := byteLength evicted
      evict maxBytes (next :: buffer) (bufferBytes - evictedBytes) (droppedBytes + evictedBytes)
    else (evicted :: next :: buffer, bufferBytes, droppedBytes)
  | buffer, bufferBytes, droppedBytes => (buffer, bufferBytes, droppedBytes)

def bufferDetachedOutput (maxBytes : ℕ) (session : Session) (data : JsString) : Session :=
  let (buffer, bufferBytes, droppedBytes) :=
    evict maxBytes (session.buffer ++ [data]) (session.bufferBytes + byteLength data)
      session.droppedBytes
  { session with buffer, bufferBytes, droppedBytes }

def droppedNotice (droppedBytes : ℕ) : JsString :=
  js "\r\n[terminal-workspace: " ++ ofText (Nat.toDigits 10 droppedBytes) ++
    js " bytes of earlier output were dropped while disconnected]\r\n"

section Relay
variable (maxBytes : ℕ) (r : Relay)

/-- The attached socket, if its `readyState` is 1. -/
def openSocket : Option ℕ := r.session.ws.filter fun ws => r.sockets[ws]? == some .opened

def send (ws : ℕ) (message : Message) : Relay := { r with sent := r.sent ++ [(ws, message)] }

def broadcast (message : Message) : Relay :=
  match openSocket r, message with
  | some ws, _ => send r ws message
  | none, .data data =>
    { r with
      session := bufferDetachedOutput maxBytes r.session data
      detached := r.detached ++ data }
  | none, _ => r

def setReadyState (ws : ℕ) (readyState : ReadyState) : Relay :=
  { r with sockets := r.sockets.set ws readyState }

/-- `session.ws.close()`. -/
def closeAttached : Relay :=
  match openSocket r with
  | some ws => setReadyState r ws .closing
  | none => r

/-- The buffered output, behind a notice if some of it is gone. -/
def replayData (session : Session) : JsString :=
  let data := session.buffer.flatten
  if 0 < session.droppedBytes then droppedNotice session.droppedBytes ++ data else data

def flushBuffer (ws : ℕ) : Relay :=
  if r.session.buffer ≠ [] ∨ r.session.droppedBytes ≠ 0 then
    let r' := send r ws (.data (replayData r.session))
    { r' with
      session := { r.session with buffer := [], bufferBytes := 0, droppedBytes := 0 }
      detached := [] }
  else r

/-- A new socket, open, takes the place of the attached one. -/
def takeOver (ws : ℕ) : Relay :=
  { r with
    session := { r.session with ws := some ws }
    sockets := r.sockets ++ [.opened] }

/-- A failure before the socket attached was broadcast to nobody. -/
def replayFailure (ws : ℕ) : Relay :=
  match r.session.failureMessage with
  | some message => send r ws (.error message)
  | none => r

/-- The callback of `handleUpgrade`, which is given an open socket. -/
def attach : Relay :=
  let ws := r.sockets.length
  let r := takeOver (closeAttached r) ws
  let r := send r ws (.status r.session.state)
  flushBuffer (replayFailure r ws) ws

def step : RelayEvent → Relay
  | .shellData chunk =>
    let data := toUtf8String chunk
    broadcast maxBytes { r with output := r.output ++ data } (.data data)
  | .statusChange state =>
    broadcast maxBytes { r with session := { r.session with state } } (.status state)
  | .failSession message =>
    let session := { r.session with state := js "error", failureMessage := some message }
    broadcast maxBytes { r with session } (.error message)
  | .attach => attach r
  | .startClosing ws => if r.sockets[ws]? = some .opened then setReadyState r ws .closing else r
  | .close ws =>
    let r := setReadyState r ws .closed
    if r.session.ws = some ws then { r with session := { r.session with ws := none } } else r

/-- The session as `createSshSession` makes it. -/
def newRelay : Relay :=
  { session :=
      { ws := none, state := js "connecting", buffer := [], bufferBytes := 0, droppedBytes := 0,
        failureMessage := none }
    sockets := [], sent := [], output := [], detached := [] }

/-- The data messages, in the order they were sent. -/
def dataSent : List JsString :=
  r.sent.filterMap fun m =>
    match m.2 with
    | .data data => some data
    | _ => none

end Relay
end NodeBackend
