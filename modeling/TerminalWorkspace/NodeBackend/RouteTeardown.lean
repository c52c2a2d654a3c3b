import TerminalWorkspace.NodeBackend.Deadline

/-! A remote command or an SFTP operation of the Node backend, over any chain of jump hosts: the
SSH clients it creates on its way, and which of them its deadline tears down. -/
namespace NodeRoute
open JsText Runs
open NodeDeadline (DeadlineState)

/-- A host with its chain of jump hosts. -/
inductive BackendHost where
  | direct (hostname : JsString) (port : ℕ)
  | via (hostname : JsString) (port : ℕ) (jumpHost : BackendHost)
  deriving DecidableEq, Repr

namespace BackendHost

def hostname : BackendHost → JsString
  | direct hostname _ | via hostname _ _ => hostname

def port : BackendHost → ℕ
  | direct _ port | via _ port _ => port

/-- The number of jump hosts. -/
def jumps : BackendHost → ℕ
  | direct _ _ => 0
  | via _ _ jumpHost => jumpHost.jumps + 1

end BackendHost

/-- What can be torn down; a client is named by the number of hops behind the target. -/
inductive Resource where
  | client (client : ℕ)
  | channel
  | other (label : ℕ)
  deriving DecidableEq, Repr

/-- What the operation waits for. -/
inductive Await where
  | connectConfig (client : ℕ)
  | forwardOut (jumpClient : ℕ) (hostname : JsString) (port : ℕ)
  | sshReady (client : ℕ) (jumpClient : Option ℕ)
  | channel
  | callback
  deriving DecidableEq, Repr

inductive Act where
  | newClient (client : ℕ)
  | await (on : Await)
  | onTimeout (resource : Resource)
  deriving DecidableEq, Repr

/-- `openJumpSocket`, given what it does to connect the jump host. -/
def openJumpSocket (host : BackendHost) (jumpClient : ℕ) (connectJumpHost : List Act) : List Act :=
  connectJumpHost ++ [.await (.forwardOut jumpClient host.hostname host.port)]

/-- `connectClient`: the client is created first, then the jump hosts behind it are connected,
and then it connects itself. -/
def connectClient (client : ℕ) : BackendHost → List Act
  | .direct _ _ =>
    [.newClient client, .await (.connectConfig client), .await (.sshReady client none)]
  | .via hostname port jumpHost =>
    [.newClient client, .await (.connectConfig client)] ++
      openJumpSocket (.via hostname port jumpHost) (client + 1)
        (connectClient (client + 1) jumpHost) ++
      [.await (.sshReady client (some (client + 1)))]

/-- What an operation does once it has its channel. -/
inductive CallbackStep where
  | await
  | onTimeout (label : ℕ)
  deriving DecidableEq, Repr

def CallbackStep.act : CallbackStep → Act
  | .await => .await .callback
  | .onTimeout label => .onTimeout (.other label)

/-- The channel is opened on the connected client, and registered when it is there. -/
def useChannel (callback : List CallbackStep) : List Act :=
  [.onTimeout (.client 0), .await .channel, .onTimeout .channel] ++ callback.map CallbackStep.act

def runRemoteCommand (host : BackendHost) : List Act := connectClient 0 host ++ useChannel [.await]

def withSftp (host : BackendHost) (callback : List CallbackStep) : List Act :=
  connectClient 0 host ++ useChannel callback

/-- The operation and its deadline. `listeners` are the clients that are ready, each with the
client it ends on an error or when it closes, and `down` those of them for which that has
happened. -/
structure Operation where
  pending : List Act
  state : DeadlineState
  cleanups : List Resource
  created : List ℕ
  ended : List ℕ
  destroyed : List Resource
  listeners : List (ℕ × Option ℕ)
  down : List ℕ
  deriving DecidableEq, Repr

inductive OperationEvent where
  /-- What the operation waits for is there. -/
  | resume
  /-- What it waits for fails. -/
  | fail
  /-- A client that was ready reports an error or closes. -/
  | clientDown (client : ℕ)
  | deadline
  deriving DecidableEq, Repr

section Operation
variable (o : Operation)

def endClients (clients : List ℕ) : Operation := { o with ended := o.ended ++ clients }

/-- `onTimeout` of the deadline. -/
def onTimeout (resource : Resource) : Operation :=
  match o.state with
  | .timedOut => { o with destroyed := o.destroyed ++ [resource] }
  | .active | .completed => { o with cleanups := o.cleanups ++ [resource] }

/-- The operation settles, and the deadline observes it. -/
def settle : Operation :=
  { o with
    pending := []
    state := if o.state = .active then .completed else o.state }

/-- Run to the next `await`; at the end the target's client is ended in `finally`. -/
def advance : List Act → Operation → Operation
  | [], o => settle (endClients o [0])
  | .await on :: rest, o => { o with pending := .await on :: rest }
  | .newClient client :: rest, o => advance rest { o with created := o.created ++ [client] }
  | .onTimeout resource :: rest, o => advance rest (onTimeout o resource)

/-- What the failure of a wait ends on its way out of the operation. -/
def endedByFailure : Await → List ℕ
  | .connectConfig _ => []
  | .forwardOut jumpClient _ _ => [jumpClient]
  | .sshReady _ jumpClient => jumpClient.toList
  | .channel | .callback => [0]

/-- `waitForSshReady` leaves its listeners on the client. -/
def arrive : Await → Operation
  | .sshReady client jumpClient => { o with listeners := o.listeners ++ [(client, jumpClient)] }
  | _ => o

/-- The clients that the listeners of a client end. -/
def jumpClientsOf (client : ℕ) : List ℕ :=
  (o.listeners.filter (·.1 == client)).flatMap (·.2.toList)

def step : OperationEvent → Operation
  | .resume =>
    match o.pending with
    | .await on :: rest => advance rest (arrive o on)
    | _ => o
  | .fail =>
    match o.pending with
    | .await on :: _ => settle (endClients o (endedByFailure on))
    | _ => o
  | .clientDown client =>
    if client ∈ o.listeners.map (·.1) then
      { endClients o (jumpClientsOf o client) with down := o.down ++ [client] }
    else o
  | .deadline =>
    if o.state = .active then
      { o with state := .timedOut, destroyed := o.destroyed ++ o.cleanups.reverse }
    else o

def initial : Operation :=
  { pending := [], state := .active, cleanups := [], created := [], ended := [],
    destroyed := [], listeners := [], down := [] }

def start (acts : List Act) : Operation := advance acts initial

/-- Every client that was created has been ended or destroyed. -/
def TornDown : Prop :=
  ∀ client ∈ o.created, client ∈ o.ended ∨ .client client ∈ o.destroyed

instance : Decidable (TornDown o) := inferInstanceAs (Decidable (∀ client ∈ _, _))

end Operation
end NodeRoute
