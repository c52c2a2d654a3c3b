import TerminalWorkspace.Foundation.Runs
import TerminalWorkspace.HostKeys.NativeStore

/-! The port forwards of native sessions. Each forward is an `ssh` process of its own, with a
thread that waits for its end; the registry of forwards is written by the call that creates a
forward, by that thread, by the call that deletes a forward and by whatever closes a session.
Only the registries are locked, each for one operation at a time. -/
namespace NativeForwards
open RecordFile NativeHostKeys

structure CreateForwardPayload where
  direction : String
  localHost : String
  localPort : UInt16
  remoteHost : String
  remotePort : UInt16
  sessionId : String
  deriving DecidableEq, Repr

structure PortForwardRecord where
  direction : String
  id : ℕ
  localHost : String
  localPort : UInt16
  remoteHost : String
  remotePort : UInt16
  sessionId : String
  deriving DecidableEq, Repr

def trimmedEmpty (s : String) : Bool := trim isWhitespace s.toList = []

def validateForwardPayload (payload : CreateForwardPayload) : Except String Unit := do
  if trimmedEmpty payload.sessionId then throw "Forward is missing a session id"
  if trimmedEmpty payload.localHost ∨ trimmedEmpty payload.remoteHost then
    throw "Forward hostnames are required"
  if payload.localPort = 0 ∨ payload.remotePort = 0 then
    throw "Forward ports must be greater than zero"
  if payload.direction ≠ "local" ∧ payload.direction ≠ "remote" then
    throw "Unsupported forward direction"

/-- `str::parse::<u16>`, which takes a leading plus sign. -/
def parsePort (s : List Char) : Option UInt16 :=
  let digits := if s.head? = some '+' then s.tail else s
  if digits ≠ [] ∧ digits.all Char.isDigit then
    let value := digits.foldl (fun n c => 10 * n + (c.toNat - '0'.toNat)) 0
    if value < 65536 then some (UInt16.ofNat value) else none
  else none

/-- Where a call of `create_native_forward` stands: it has found the session, holds an open
control session, has to discard it, has its record, or has started the reaper thread. -/
inductive Stage where
  | opening
  | commanding
  | discarding
  | recorded (record : PortForwardRecord)
  | inserting (record : PortForwardRecord)
  | answered
  deriving DecidableEq, Repr

/-- One call and the process it starts. `reaperWaiting` means that the reaper thread has not
removed the forward yet. -/
structure Creation where
  payload : CreateForwardPayload
  stage : Stage
  running : Bool
  signalled : Bool
  reaperWaiting : Bool
  deriving DecidableEq, Repr

/-- `close_native_forwards_for_session` before and after it has collected the ids. -/
inductive Sweep where
  | listing
  | removing (forwardIds : List ℕ)
  deriving DecidableEq, Repr

/-- The two callers of the sweep: the close command has removed the session already, a
session worker removes it afterwards. -/
inductive ClosedBy where
  | command
  | worker
  deriving DecidableEq, Repr

structure Closing where
  sessionId : String
  closedBy : ClosedBy
  sweep : Sweep
  deriving DecidableEq, Repr

/-- Forward ids come from a counter, so a forward's id is the place of its creation. `kills`
are the handles taken out of the registry whose process has not been signalled yet. -/
structure World where
  sessions : List String
  forwards : OrderedMap ℕ PortForwardRecord
  creations : List Creation
  closings : List Closing
  kills : List ℕ
  deriving DecidableEq

def World.initial : World where
  sessions := []
  forwards := .empty
  creations := []
  closings := []
  kills := []

namespace World
variable (w : World)

def setCreation (forwardId : ℕ) (creation : Creation) : World :=
  { w with creations := w.creations.set forwardId creation }

def insertNativeForward (forwardId : ℕ) (record : PortForwardRecord) : World :=
  { w with forwards := w.forwards.set forwardId record }

/-- `remove_native_forward`, whose caller closes the handle it gets. -/
def takeNativeForward (forwardId : ℕ) : World :=
  match w.forwards.get? forwardId with
  | none => w
  | some _ => { w with forwards := w.forwards.erase forwardId, kills := forwardId :: w.kills }

/-- `create_native_forward` up to its first wait. -/
def createNativeForward (payload : CreateForwardPayload) : World :=
  match validateForwardPayload payload with
  | .error _ => w
  | .ok () =>
    if payload.sessionId ∈ w.sessions then
      { w with creations := w.creations ++ [⟨payload, .opening, false, false, false⟩] }
    else w

def forwardRecord (forwardId : ℕ) (payload : CreateForwardPayload)
    (assignedRemotePort : UInt16) : PortForwardRecord where
  direction := payload.direction
  id := forwardId
  localHost := payload.localHost
  localPort := payload.localPort
  remoteHost := payload.remoteHost
  remotePort := assignedRemotePort
  sessionId := payload.sessionId

/-- What becomes of the output of the `forward` control command. -/
def afterForwardCommand (forwardId : ℕ) (payload : CreateForwardPayload)
    (output : Except String String) : Stage :=
  match output with
  | .ok output =>
    if payload.direction = "remote" ∧ payload.remotePort = 0 then
      match parsePort (trim isWhitespace output.toList) with
      | some port => .recorded (forwardRecord forwardId payload port)
      | none => .discarding
    else .recorded (forwardRecord forwardId payload payload.remotePort)
  | .error _ => .discarding

/-- The ids that `close_native_forwards_for_session` collects. -/
def forwardIds (sessionId : String) : List ℕ :=
  (w.forwards.entries.filter fun e => e.2.sessionId = sessionId).map Prod.fst

def beginClosing (sessionId : String) (closedBy : ClosedBy) : World :=
  { w with closings := w.closings ++ [⟨sessionId, closedBy, .listing⟩] }

end World

/-- One step of a call, a process or a thread. `exit` is the end of the forward's process, for
whatever reason; `controlFailed` says whether its process was left running. -/
inductive Action where
  | openSession (sessionId : String)
  | create (payload : CreateForwardPayload)
  | controlOpened (forwardId : ℕ)
  | controlFailed (forwardId : ℕ) (leftRunning : Bool)
  | commandAnswered (forwardId : ℕ) (output : Except String String)
  | discard (forwardId : ℕ)
  | spawnReaper (forwardId : ℕ)
  | insert (forwardId : ℕ)
  | exit (forwardId : ℕ)
  | reap (forwardId : ℕ)
  | delete (forwardId : ℕ)
  | kill (forwardId : ℕ)
  | closeSession (sessionId : String)
  | endWorker (sessionId : String)
  | list (closing : ℕ)
  | removeNext (closing : ℕ)
  | finish (closing : ℕ)

/-- What a creation's own thread, its process and its reaper do to it. -/
def Creation.step (creation : Creation) (forwardId : ℕ) : Action → Creation
  | .controlOpened _ =>
    if creation.stage = .opening then { creation with stage := .commanding, running := true }
    else creation
  | .controlFailed _ leftRunning =>
    if creation.stage = .opening then
      { creation with stage := .answered, running := leftRunning }
    else creation
  | .commandAnswered _ output =>
    if creation.stage = .commanding then
      { creation with stage := World.afterForwardCommand forwardId creation.payload output }
    else creation
  | .discard _ =>
    if creation.stage = .discarding then { creation with stage := .answered, running := false }
    else creation
  | .spawnReaper _ =>
    match creation.stage with
    | .recorded record => { creation with stage := .inserting record, reaperWaiting := true }
    | _ => creation
  | .exit _ => { creation with running := false }
  | .kill _ => { creation with signalled := true }
  | _ => creation

def step (w : World) (action : Action) : World :=
  match action with
  | .openSession sessionId => { w with sessions := sessionId :: w.sessions }
  | .create payload => w.createNativeForward payload
  | .controlOpened f | .controlFailed f _ | .commandAnswered f _ | .discard f | .spawnReaper f
  | .exit f =>
    match w.creations[f]? with
    | none => w
    | some creation => w.setCreation f (creation.step f action)
  | .insert f =>
    match w.creations[f]? with
    | some ⟨payload, .inserting record, running, signalled, reaperWaiting⟩ =>
      (w.setCreation f ⟨payload, .answered, running, signalled, reaperWaiting⟩).insertNativeForward
        f record
    | _ => w
  | .reap f =>
    match w.creations[f]? with
    | none => w
    | some creation =>
      if creation.reaperWaiting ∧ ¬ creation.running then
        let w := w.setCreation f { creation with reaperWaiting := false }
        { w with forwards := w.forwards.erase f }
      else w
  | .delete f => w.takeNativeForward f
  | .kill f =>
    match w.creations[f]? with
    | none => w
    | some creation =>
      if f ∈ w.kills then
        { w.setCreation f (creation.step f action) with kills := w.kills.erase f }
      else w
  | .closeSession sessionId =>
    if sessionId ∈ w.sessions then
      { w with sessions := w.sessions.filter (· ≠ sessionId) }.beginClosing sessionId .command
    else w
  | .endWorker sessionId => w.beginClosing sessionId .worker
  | .list c =>
    match w.closings[c]? with
    | some ⟨sessionId, closedBy, .listing⟩ =>
      { w with closings :=
          w.closings.set c ⟨sessionId, closedBy, .removing (w.forwardIds sessionId)⟩ }
    | _ => w
  | .removeNext c =>
    match w.closings[c]? with
    | some ⟨sessionId, closedBy, .removing (f :: rest)⟩ =>
      { w with closings := w.closings.set c ⟨sessionId, closedBy, .removing rest⟩
        }.takeNativeForward f
    | _ => w
  | .finish c =>
    match w.closings[c]? with
    | some ⟨sessionId, closedBy, .removing []⟩ =>
      { w with
        closings := w.closings.eraseIdx c
        sessions := match closedBy with
          | .command => w.sessions
          | .worker => w.sessions.filter (· ≠ sessionId) }
    | _ => w

end NativeForwards
