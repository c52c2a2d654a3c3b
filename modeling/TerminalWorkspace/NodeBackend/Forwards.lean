import TerminalWorkspace.Foundation.Runs

/-! The port forwards of the Node backend. A session of the session map has an SSH client; a
local forward has a server of its own, and a remote forward a listener on its session's client.
Every function runs up to its next wait in one step, and each answer that one of them waits for
is a step of its own. -/
namespace NodeForwards
open Runs

inductive Direction where
  | localPorts
  | remotePorts
  deriving DecidableEq, Repr

/-- A forward object. Its id is the place of its creation, as the ids that are drawn differ. -/
structure Forward where
  direction : Direction
  sessionId : ℕ
  localHost : String
  localPort : ℕ
  remoteHost : String
  remotePort : ℕ
  deriving DecidableEq, Repr

/-- The body of a request for a forward. -/
structure ForwardRequest where
  localHost : String
  localPort : ℕ
  remoteHost : String
  remotePort : ℕ
  sessionId : ℕ
  deriving DecidableEq, Repr

/-- What `closeForwardsForSession` is called for. -/
inductive Purpose where
  | sessionDelete
  | streamClose
  | clientClose
  deriving DecidableEq, Repr

/-- A call of `closeForwardsForSession`, and whether its caller has gone on. -/
structure Sweep where
  sessionId : ℕ
  purpose : Purpose
  finished : Bool
  deriving DecidableEq, Repr

/-- A call of `closeLocalForward` that waits for an answer: one of a sweep, named by its place,
or one of a forward's own deletion. -/
structure Closing where
  forwardId : ℕ
  sweep : Option ℕ
  deriving DecidableEq, Repr

/-- `sessions` and `forwards` hold the keys of the two maps. `creating` are the forwards whose
server has not begun to listen, or whose request the SSH server has not answered; `listening`
those whose server listens, and `listeners` those whose `tcp connection` listener is installed,
in the order of registration. Every open connection through a local forward is one entry of
`connections`. -/
structure Backend where
  opened : ℕ
  sessions : List ℕ
  endedClients : List ℕ
  objects : List Forward
  creating : List ℕ
  listening : List ℕ
  listeners : List ℕ
  connections : List ℕ
  forwards : List ℕ
  closings : List Closing
  sweeps : List Sweep
  deriving DecidableEq, Repr

def Backend.initial : Backend := ⟨0, [], [], [], [], [], [], [], [], [], []⟩

/-- One key less in a map, or one listener less. -/
def without (id : ℕ) (ids : List ℕ) : List ℕ := ids.filter (· ≠ id)

namespace Backend
variable (b : Backend)

def sessionOf (f : ℕ) : Option ℕ := (b.objects[f]?).map (·.sessionId)

def isRemote (f : ℕ) : Bool := (b.objects[f]?).any fun forward => forward.direction = .remotePorts

def createSshSession : Backend :=
  { b with opened := b.opened + 1, sessions := b.sessions ++ [b.opened] }

def forwardOf (direction : Direction) (request : ForwardRequest) : Forward where
  direction := direction
  sessionId := request.sessionId
  localHost := request.localHost
  localPort := request.localPort
  remoteHost := request.remoteHost
  remotePort := request.remotePort

/-- `createLocalForward` up to the server's listening. -/
def createLocalForward (request : ForwardRequest) : Backend :=
  if request.sessionId ∈ b.sessions then
    { b with
      objects := b.objects ++ [forwardOf .localPorts request]
      creating := b.objects.length :: b.creating }
  else b

/-- `createRemoteForward` up to the server's answer, with the listener already installed. -/
def createRemoteForward (request : ForwardRequest) : Backend :=
  if request.sessionId ∈ b.sessions then
    { b with
      objects := b.objects ++ [forwardOf .remotePorts request]
      creating := b.objects.length :: b.creating
      listeners := b.listeners ++ [b.objects.length] }
  else b

/-- The port that is bound in fact, where the answer names one. -/
def boundLocally (boundPort : Option ℕ) (forward : Forward) : Forward :=
  { forward with localPort := boundPort.getD forward.localPort }

def boundRemotely (boundPort : Option ℕ) (forward : Forward) : Forward :=
  { forward with remotePort := boundPort.getD forward.remotePort }

/-- `forwards.set`, once the port is known. -/
def register (f : ℕ) (bound : Forward → Forward) : Backend :=
  { b with
    objects := b.objects.modify f bound
    creating := without f b.creating
    forwards := b.forwards ++ [f] }

def listened (f : ℕ) (boundPort : Option ℕ) : Backend :=
  if f ∈ b.creating ∧ b.isRemote f = false then
    { b.register f (boundLocally boundPort) with listening := b.listening ++ [f] }
  else b

def forwardedIn (f : ℕ) (boundPort : Option ℕ) : Backend :=
  if f ∈ b.creating ∧ b.isRemote f = true then
    b.register f (boundRemotely boundPort)
  else b

/-- The server cannot listen, or the SSH server refuses: the call fails without a forward. -/
def creationFailed (f : ℕ) : Backend :=
  if f ∈ b.creating then
    { b with creating := without f b.creating, listeners := without f b.listeners }
  else b

/-- `closeLocalForward` up to its wait. Without its session a remote forward is only forgotten. -/
def closeLocalForward (f : ℕ) (sweep : Option ℕ) : Backend :=
  if f ∉ b.forwards then b
  else if b.isRemote f then
    if b.sessionOf f ∈ b.sessions.map some then
      { b with listeners := without f b.listeners, closings := b.closings ++ [⟨f, sweep⟩] }
    else { b with forwards := without f b.forwards }
  else { b with listening := without f b.listening, closings := b.closings ++ [⟨f, sweep⟩] }

/-- `closeForwardsForSession` up to its wait. -/
def closeForwardsForSession (sessionId : ℕ) (purpose : Purpose) : Backend :=
  let forwardIds := b.forwards.filter fun f => b.sessionOf f = some sessionId
  let closed := forwardIds.foldl
    (fun closed f => closed.closeLocalForward f (some b.sweeps.length)) b
  { closed with sweeps := closed.sweeps ++ [⟨sessionId, purpose, false⟩] }

/-- The server's close event, once its last connection has ended: the first call that closed it
forgets the forward, and every later one fails. -/
def drained (f : ℕ) : Backend :=
  if b.isRemote f = false ∧ f ∈ b.closings.map (·.forwardId) ∧ f ∉ b.connections then
    { b with
      forwards := without f b.forwards
      closings := b.closings.filter (·.forwardId ≠ f) }
  else b

/-- The answer to `unforwardIn`: on an error the forward stays in the map. -/
def unforwarded (closing : Closing) (succeeded : Bool) : Backend :=
  if closing ∈ b.closings ∧ b.isRemote closing.forwardId = true then
    { b with
      closings := b.closings.erase closing
      forwards := if succeeded then without closing.forwardId b.forwards else b.forwards }
  else b

/-- What follows `await closeForwardsForSession`, whose failures are swallowed. -/
def finish (k : ℕ) : Backend :=
  match b.sweeps[k]? with
  | some ⟨sessionId, purpose, false⟩ =>
    if some k ∈ b.closings.map (·.sweep) then b
    else
      let swept := { b with sweeps := b.sweeps.set k ⟨sessionId, purpose, true⟩ }
      if purpose = .clientClose then swept
      else
        { swept with
          sessions := without sessionId b.sessions
          endedClients := sessionId :: b.endedClients }
  | _ => b

/-- The route that deletes a session, up to its wait. -/
def deleteSession (sessionId : ℕ) : Backend :=
  if sessionId ∈ b.sessions then b.closeForwardsForSession sessionId .sessionDelete else b

/-- The close events of a session's shell stream and of its client. -/
def streamClosed (sessionId : ℕ) : Backend :=
  if sessionId < b.opened then b.closeForwardsForSession sessionId .streamClose else b

def clientClosed (sessionId : ℕ) : Backend :=
  if sessionId < b.opened then b.closeForwardsForSession sessionId .clientClose else b

/-- A connection to a server that listens. -/
def connect (f : ℕ) : Backend :=
  if f ∈ b.listening then { b with connections := f :: b.connections } else b

def disconnect (f : ℕ) : Backend := { b with connections := b.connections.erase f }

end Backend

inductive Action where
  | createSession
  | createLocal (request : ForwardRequest)
  | createRemote (request : ForwardRequest)
  | listened (f : ℕ) (boundPort : Option ℕ)
  | forwardedIn (f : ℕ) (boundPort : Option ℕ)
  | creationFailed (f : ℕ)
  | deleteForward (f : ℕ)
  | deleteSession (sessionId : ℕ)
  | streamClosed (sessionId : ℕ)
  | clientClosed (sessionId : ℕ)
  | connect (f : ℕ)
  | disconnect (f : ℕ)
  | drained (f : ℕ)
  | unforwarded (closing : Closing) (succeeded : Bool)
  | finish (k : ℕ)
  deriving DecidableEq, Repr

def step (b : Backend) : Action → Backend
  | .createSession => b.createSshSession
  | .createLocal request => b.createLocalForward request
  | .createRemote request => b.createRemoteForward request
  | .listened f boundPort => b.listened f boundPort
  | .forwardedIn f boundPort => b.forwardedIn f boundPort
  | .creationFailed f => b.creationFailed f
  | .deleteForward f => b.closeLocalForward f none
  | .deleteSession sessionId => b.deleteSession sessionId
  | .streamClosed sessionId => b.streamClosed sessionId
  | .clientClosed sessionId => b.clientClosed sessionId
  | .connect f => b.connect f
  | .disconnect f => b.disconnect f
  | .drained f => b.drained f
  | .unforwarded closing succeeded => b.unforwarded closing succeeded
  | .finish k => b.finish k

section Objects
variable {b : Backend} {f : ℕ}

theorem mem_without {id : ℕ} {ids : List ℕ} {g : ℕ} : g ∈ without id ids ↔ g ∈ ids ∧ g ≠ id := by
  simp [without]

/-- Objects are only added, and keep the sessions that they were created for. -/
theorem sessionOf_concat (forward : Forward) (h : f < b.objects.length) :
    Backend.sessionOf { b with objects := b.objects ++ [forward] } f = b.sessionOf f := by
  simp [Backend.sessionOf, List.getElem?_append_left h]

theorem sessionOf_modify (g : ℕ) {bound : Forward → Forward}
    (hbound : ∀ forward, (bound forward).sessionId = forward.sessionId) :
    Backend.sessionOf { b with objects := b.objects.modify g bound } f = b.sessionOf f := by
  simp only [Backend.sessionOf, List.getElem?_modify]
  cases b.objects[f]? with
  | none => rfl
  | some forward => split_ifs <;> simp [hbound]

theorem isRemote_concat (forward : Forward) (h : f < b.objects.length) :
    Backend.isRemote { b with objects := b.objects ++ [forward] } f = b.isRemote f := by
  simp [Backend.isRemote, List.getElem?_append_left h]

theorem isRemote_modify (g : ℕ) {bound : Forward → Forward}
    (hbound : ∀ forward, (bound forward).direction = forward.direction) :
    Backend.isRemote { b with objects := b.objects.modify g bound } f = b.isRemote f := by
  simp only [Backend.isRemote, List.getElem?_modify]
  cases b.objects[f]? with
  | none => rfl
  | some forward => split_ifs <;> simp [hbound]

end Objects

end NodeForwards
