import TerminalWorkspace.Foundation.Runs
import TerminalWorkspace.SessionStream.WorkerStream

/-! How the three native session workers end. What a worker emits goes through its session's
stream, section by section, while calls open and close that stream; at its end it closes the
session's forwards, removes the session, sends the state "disconnected" and closes the stream. -/
namespace WorkerExit
open SessionStream

inductive Emission where
  | output (text : String)
  | error (message : String)
  | state (next : String)
  deriving DecidableEq, Repr

/-- The closure in which a worker sets its session up and runs its loop: whatever it emits, it
returns at the end. -/
structure Body where
  emissions : List Emission
  result : Except String Unit

/-- Where a worker stands: it emits, goes through its clean-up, or has returned. `abandoning`
is the early return of the jump-host worker. -/
inductive WorkerPc where
  | emitting (rest : List Emission)
  | closingForwards
  | removing
  | disconnecting
  | takingStream
  | abandoning (rest : List Emission)
  | returned
  deriving DecidableEq, Repr

def reportResult : Except String Unit → List Emission
  | .ok () => []
  | .error error => [.error error, .state "error"]

def runExternalCommandSessionLoop (body : Body) : WorkerPc :=
  .emitting (body.emissions ++ reportResult body.result)

/-- `sessionDir` is the outcome of `create_native_ssh_session_dir`. -/
def runJumpHostSessionLoop (sessionDir : Except String Unit) (body : Body) : WorkerPc :=
  match sessionDir with
  | .error error => .abandoning [.error error, .state "error", .state "disconnected"]
  | .ok () => .emitting (body.emissions ++ reportResult body.result)

def runNativeSessionLoop (emissions : List Emission) : WorkerPc :=
  .emitting (.state "connected" :: emissions)

/-- A worker, its session's stream and its session's forwards. `detached` are the streams that
a call has closed. -/
structure World where
  stream : SessionStream.World
  forwards : List ℕ
  pc : WorkerPc
  detached : List ℕ
  deriving DecidableEq

def World.initial (pc : WorkerPc) (streamCounter : ℕ) (forwards : List ℕ) : World where
  stream := .initial streamCounter
  forwards := forwards
  pc := pc
  detached := []

def Emission.action : Emission → SessionStream.Action
  | .output text => .emitOutput text
  | .error message => .emitError message
  | .state next => .setConnectionState next

namespace World
variable (w : World)

/-- The worker begins what comes next in its code. -/
def next : World :=
  match w.pc with
  | .emitting [] => { w with pc := .closingForwards }
  | .emitting (emission :: rest) =>
    { w with stream := SessionStream.step w.stream emission.action, pc := .emitting rest }
  | .closingForwards => { w with forwards := [], pc := .removing }
  | .removing =>
    { w with stream := SessionStream.step w.stream .unregister, pc := .disconnecting }
  | .disconnecting =>
    { w with
      stream := SessionStream.step w.stream (.setConnectionState "disconnected")
      pc := .takingStream }
  | .takingStream =>
    { w with stream := SessionStream.step w.stream .takeStream, pc := .returned }
  | .abandoning [] => { w with stream.worker := .ended, pc := .returned }
  | .abandoning (emission :: rest) =>
    { w with stream := SessionStream.step w.stream emission.action, pc := .abandoning rest }
  | .returned => w

/-- The next section of the worker. -/
def workerStep : World :=
  match w.stream.worker with
  | .idle => w.next
  | .stateSet _ => { w with stream := SessionStream.step w.stream .emitStatus }
  | .sending _ _ => { w with stream := SessionStream.step w.stream .sendMessage }
  | .closing _ => { w with stream := SessionStream.step w.stream .sendClose }
  | .ended => w

/-- The section of a call, with the stream it closes, if it closes one. -/
def callStep (action : SessionStream.Action) : World :=
  let stream := SessionStream.step w.stream action
  { w with
    stream := stream
    detached :=
      match w.stream.state.streamId, stream.state.streamId with
      | some streamId, none => streamId :: w.detached
      | _, _ => w.detached }

end World

/-- A step of the worker; a section of `open_native_session_stream` or of
`close_native_session_stream`; the close command; a forward that is entered. -/
inductive WorkerAction where
  | worker
  | lookupOpen
  | attach (call : ℕ)
  | sendNext (call : ℕ)
  | lookupClose (requestStreamId : Option ℕ)
  | detach (call : ℕ)
  | otherSession
  | closeCommand
  | insertForward (forwardId : ℕ)
  deriving DecidableEq

def workerStep (w : World) : WorkerAction → World
  | .worker => w.workerStep
  | .lookupOpen => w.callStep .lookupOpen
  | .attach call => w.callStep (.attach call)
  | .sendNext call => w.callStep (.sendNext call)
  | .lookupClose requestStreamId => w.callStep (.lookupClose requestStreamId)
  | .detach call => w.callStep (.detach call)
  | .otherSession => w.callStep .otherSession
  | .closeCommand =>
    if w.stream.registered then
      { w with stream := SessionStream.step w.stream .unregister, forwards := [] }
    else w
  | .insertForward forwardId => { w with forwards := forwardId :: w.forwards }

end WorkerExit
