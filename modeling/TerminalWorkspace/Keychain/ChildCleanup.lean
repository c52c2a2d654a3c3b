import Mathlib.Data.Int.Notation
import Mathlib.Data.List.Basic
import Mathlib.Logic.Function.Basic
import TerminalWorkspace.Foundation.MovedItems
import TerminalWorkspace.Foundation.Runs

/-! What `run_security_command_with_secret` does with the child it spawns, for each answer of the
calls it makes. -/
namespace Keychain

inductive StreamName where
  | stdout
  | stderr
  deriving DecidableEq, Repr

structure Output where
  status : ℤ
  stdout : List UInt8
  stderr : List UInt8
  deriving DecidableEq, Repr

/-- How the thread that reads a pipe of the child ends. -/
inductive ReaderEnd where
  | panicked
  | failed (error : String)
  | read (bytes : List UInt8)
  deriving DecidableEq, Repr

/-- What the calls of one command answer, in the order in which it makes them. -/
structure SecurityCommandWorld where
  startReaper : Except String Unit
  spawn : Except String Unit
  beforeWrite : Except String Unit
  stdin : Bool
  writeSecret : Except String Unit
  stdout : Bool
  stdoutReader : Except String Unit
  stderr : Bool
  stderrReader : Except String Unit
  wait : Except String ℤ
  stdoutEnd : ReaderEnd
  stderrEnd : ReaderEnd

/-- What becomes of the child: it is not there, the reaper gets it (and the quarantine the
readers that are still at work), or it has been waited for and the reaper is dismissed. -/
inductive Disposal where
  | notSpawned (error : String)
  | handedOver (error : String) (detached : List StreamName)
  | waited (result : Except String Output)

/-- `reader.join()` and what follows it. -/
def joinReader (name : String) : ReaderEnd → Except String (List UInt8)
  | .panicked => .error ("macOS security " ++ name ++ " reader panicked")
  | .failed error => .error ("Failed to read " ++ name ++ " from macOS security CLI: " ++ error)
  | .read bytes => .ok bytes

def collectOutput (w : SecurityCommandWorld) (status : ℤ) : Except String Output := do
  let stdout ← joinReader "stdout" w.stdoutEnd
  let stderr ← joinReader "stderr" w.stderrEnd
  return ⟨status, stdout, stderr⟩

def waitForSecurityChildOutput (w : SecurityCommandWorld) : Disposal :=
  if w.stdout = false then .handedOver "Failed to capture stdout from macOS security CLI" []
  else
    match w.stdoutReader with
    | .error error => .handedOver ("Failed to read stdout from macOS security CLI: " ++ error) []
    | .ok () =>
      if w.stderr = false then .handedOver "Failed to capture stderr from macOS security CLI" []
      else
        match w.stderrReader with
        | .error error =>
          .handedOver ("Failed to read stderr from macOS security CLI: " ++ error) [.stdout]
        | .ok () =>
          match w.wait with
          | .error error =>
            .handedOver ("Failed to wait for macOS security CLI: " ++ error) [.stdout, .stderr]
          | .ok status => .waited (collectOutput w status)

def runSecurityCommandWithSecret (w : SecurityCommandWorld) : Disposal :=
  match w.startReaper, w.spawn with
  | .error error, _ => .notSpawned error
  | .ok (), .error error => .notSpawned ("Failed to run macOS security CLI: " ++ error)
  | .ok (), .ok () =>
    match w.beforeWrite with
    | .error error => .handedOver error []
    | .ok () =>
      if w.stdin = false then .handedOver "Failed to open stdin for macOS security CLI" []
      else
        match w.writeSecret with
        | .error error =>
          .handedOver ("Failed to send secret to macOS security CLI: " ++ error) []
        | .ok () => waitForSecurityChildOutput w

/-- The child was started. -/
def SecurityCommandWorld.Spawned (w : SecurityCommandWorld) : Prop :=
  w.startReaper = .ok () ∧ w.spawn = .ok ()

/-! The children of the keychain commands that fail: each goes to a reaper thread of its own,
and from there to the quarantine that all share. Callers, reaper threads and the thread of the
quarantine take their steps in any order. -/
open SwapSweep

def SECURITY_CHILD_CLEANUP_TIMEOUT : ℕ := 500
def SECURITY_CHILD_CLEANUP_RETRY_TIMEOUT : ℕ := 5000
def SECURITY_CHILD_QUARANTINE_CAPACITY : ℕ := 32
def SECURITY_OUTPUT_READER_QUARANTINE_CAPACITY : ℕ := 64

/-- What `try_wait` answers. -/
inductive WaitAnswer where
  | exited
  | running
  | failed (error : String)
  deriving DecidableEq, Repr

inductive SecurityChildCleanupEvent where
  | killFailed (error : String)
  | pollFailed (error : String)
  | reaped
  | retryBudgetExhausted (quarantined : Bool)
  deriving DecidableEq, Repr

/-- The flags of `reap_security_child`. -/
structure ReapFlags where
  terminationRequested : Bool
  killErrorReported : Bool
  pollErrorReported : Bool
  deriving DecidableEq, Repr

section Types
variable (ι : Type*)

/-- Where a reaper thread stands: in `recv`, before `try_wait`, before `kill`, at its deadline,
in `quarantine_child` behind the send, or at its end. -/
inductive ReaperPc where
  | receiving
  | polling (child : ι) (flags : ReapFlags)
  | killing (child : ι) (flags : ReapFlags)
  | atDeadline (child : ι) (flags : ReapFlags)
  | submitted
  | returned

/-- Where a caller stands: before the child is handed over, in the loop of `terminate`, or at its
end. -/
inductive CallerPc where
  | working
  | receiving (error : String) (cleanupErrors : List String)
  | returned (result : Except String Output)

/-- One command, with its reaper: the channels between them, and what `terminate` returned. -/
structure Cleanup where
  caller : CallerPc
  childChannel : Option ι
  reaper : ReaperPc ι
  events : List SecurityChildCleanupEvent
  retained : Option Bool
  terminated : Option (Except String Unit)

inductive SecurityCleanupQuarantineItem where
  | child (child : ι) (retained : ι)
  | outputReader (call : ι) (stream : StreamName)

/-- What was done to a child: asked for its exit, killed, or dropped at the quarantine. -/
inductive LogEntry where
  | polled (child : ι) (answer : WaitAnswer)
  | killed (child : ι) (answer : Except String Unit)
  | dropped (child : ι)

/-- Every command that is under way, the quarantine, and what was done to the children so far. -/
structure Cleanups where
  calls : ι → Cleanup ι
  inbox : List (SecurityCleanupQuarantineItem ι)
  children : List ι
  readers : List (ι × StreamName)
  log : List (LogEntry ι)

end Types

section Messages

def joinErrors (cleanupErrors : List String) : String := "; ".intercalate cleanupErrors

def errorDetails (cleanupErrors : List String) : String :=
  if cleanupErrors = [] then "" else " (" ++ joinErrors cleanupErrors ++ ")"

def exhaustedMessage (cleanupErrors : List String) (quarantined : Bool) : String :=
  "macOS security child cleanup exhausted its " ++ toString SECURITY_CHILD_CLEANUP_RETRY_TIMEOUT ++
    " ms retry budget" ++ errorDetails cleanupErrors ++ "; " ++
    if quarantined then
      "the child moved into the bounded background quarantine for eventual reaping"
    else "the bounded background quarantine was unavailable, so the unreaped child handle was dropped"

def timeoutMessage (cleanupErrors : List String) : String :=
  "macOS security child cleanup was not confirmed within " ++
    toString SECURITY_CHILD_CLEANUP_TIMEOUT ++ " ms" ++ errorDetails cleanupErrors ++
    "; the dedicated reaper retains the child handle and continues kill/try_wait retries for at " ++
    "most " ++ toString SECURITY_CHILD_CLEANUP_RETRY_TIMEOUT ++
    " ms total before handing it to the bounded background quarantine"

def disconnectedMessage : String :=
  "macOS security child reaper stopped before confirming the child was reaped"

end Messages

section Calls
variable {ι : Type*}

/-- What a step of a call sends to the quarantine and does to the child. -/
structure CallStep (ι : Type*) where
  call : Cleanup ι
  sent : List (SecurityCleanupQuarantineItem ι)
  entries : List (LogEntry ι)

/-- Only the call itself changes. -/
def CallStep.quiet (call : Cleanup ι) : CallStep ι := ⟨call, [], []⟩

namespace Cleanup
variable (C : Cleanup ι)

/-- `terminate` returns, and `cleanup_security_child_error` with it. -/
def finish (error : String) (result : Except String Unit) : Cleanup ι :=
  { C with
    caller := .returned (.error (match result with
      | .ok () => error
      | .error cleanupError => error ++ "; " ++ cleanupError))
    terminated := some result }

/-- `dismiss`: the thread finds its channel closed and ends. -/
def dismissed (result : Except String Output) : Cleanup ι :=
  { C with caller := .returned result, reaper := .returned }

/-- The command of a call, up to the loop of `terminate` where it hands its child over. -/
def run (i : ι) (w : SecurityCommandWorld) : CallStep ι :=
  match runSecurityCommandWithSecret w with
  | .notSpawned error => .quiet (C.dismissed (.error error))
  | .waited result => .quiet (C.dismissed result)
  | .handedOver error detached =>
    { call := { C with caller := .receiving error [], childChannel := some i }
      sent := detached.map (.outputReader i)
      entries := [] }

/-- A message that the loop of `terminate` takes. -/
def receive (error : String) (cleanupErrors : List String) :
    SecurityChildCleanupEvent → Cleanup ι
  | .killFailed e => { C with caller := .receiving error (cleanupErrors ++ ["kill failed: " ++ e]) }
  | .pollFailed e =>
    { C with caller := .receiving error (cleanupErrors ++ ["try_wait failed: " ++ e]) }
  | .reaped =>
    C.finish error (if cleanupErrors = [] then .ok () else
      .error ("macOS security child was reaped after cleanup errors: " ++ joinErrors cleanupErrors))
  | .retryBudgetExhausted quarantined =>
    C.finish error (.error (exhaustedMessage cleanupErrors quarantined))

/-- A message of the reaper thread. Nobody reads it once `terminate` has returned. -/
def send (event : SecurityChildCleanupEvent) : Cleanup ι := { C with events := C.events ++ [event] }

def poll (child : ι) (flags : ReapFlags) (answer : WaitAnswer) : CallStep ι :=
  { call := match answer with
      | .exited => { C.send .reaped with reaper := .returned }
      | .running => { C with reaper := .killing child flags }
      | .failed error =>
        if flags.pollErrorReported then { C with reaper := .killing child flags }
        else
          { C.send (.pollFailed error) with
            reaper := .killing child { flags with pollErrorReported := true } }
    sent := []
    entries := [.polled child answer] }

def kill (child : ι) (flags : ReapFlags) (answer : Except String Unit) : CallStep ι :=
  if flags.terminationRequested then .quiet { C with reaper := .atDeadline child flags }
  else
    { call := match answer with
        | .ok () =>
          { C with reaper := .atDeadline child { flags with terminationRequested := true } }
        | .error error =>
          if flags.killErrorReported then { C with reaper := .atDeadline child flags }
          else
            { C.send (.killFailed error) with
              reaper := .atDeadline child { flags with killErrorReported := true } }
      sent := []
      entries := [.killed child answer] }

/-- Past the deadline the child goes to the quarantine, with the channel for the answer. -/
def check (i child : ι) (flags : ReapFlags) (expired : Bool) : CallStep ι :=
  if expired then
    { call := { C with reaper := .submitted, retained := none }
      sent := [.child child i]
      entries := [] }
  else .quiet { C with reaper := .polling child flags }

end Cleanup

/-- The steps of the caller and of the reaper thread of one call. -/
inductive CallMove where
  | run (world : SecurityCommandWorld)
  | callerReceives
  | callerTimesOut
  | reaperReceives
  | reaperPolls (answer : WaitAnswer)
  | reaperKills (answer : Except String Unit)
  | reaperChecks (expired : Bool)
  | reaperLearns

/-- The step of a call, where the thread that takes it is not blocked. -/
def callStep (i : ι) (C : Cleanup ι) : CallMove → Option (CallStep ι)
  | .run world =>
    match C.caller with
    | .working => some (C.run i world)
    | _ => none
  | .callerReceives =>
    match C.caller, C.events with
    | .receiving error cleanupErrors, event :: events =>
      some (.quiet ({ C with events := events }.receive error cleanupErrors event))
    | _, _ => none
  | .callerTimesOut =>
    match C.caller, C.events, C.reaper with
    | .receiving error _, [], .returned =>
      some (.quiet (C.finish error (.error disconnectedMessage)))
    | .receiving error cleanupErrors, [], _ =>
      some (.quiet (C.finish error (.error (timeoutMessage cleanupErrors))))
    | _, _, _ => none
  | .reaperReceives =>
    match C.reaper, C.childChannel with
    | .receiving, some child =>
      some (.quiet { C with childChannel := none, reaper := .polling child ⟨false, false, false⟩ })
    | _, _ => none
  | .reaperPolls answer =>
    match C.reaper with
    | .polling child flags => some (C.poll child flags answer)
    | _ => none
  | .reaperKills answer =>
    match C.reaper with
    | .killing child flags => some (C.kill child flags answer)
    | _ => none
  | .reaperChecks expired =>
    match C.reaper with
    | .atDeadline child flags => some (C.check i child flags expired)
    | _ => none
  | .reaperLearns =>
    match C.reaper, C.retained with
    | .submitted, some quarantined =>
      some (.quiet { C.send (.retryBudgetExhausted quarantined) with reaper := .returned })
    | _, _ => none

end Calls

section Quarantine
variable {ι : Type*}

/-- What a sweep of the children leaves, and what it did to each. A child that is still running
is killed, and nothing is made of the answer. -/
def sweepChildren (answers : ι → WaitAnswer) (kills : ι → Except String Unit) (children : List ι) :
    List ι × List (LogEntry ι) :=
  let swept := sweep (fun child => answers child = .exited) children
  (swept.1, swept.2.flatMap fun child =>
    .polled child (answers child) ::
      if answers child = .running then [.killed child (kills child)] else [])

def sweepOutputReaders (finished : ι × StreamName → Bool) (readers : List (ι × StreamName)) :
    List (ι × StreamName) :=
  (sweep finished readers).1

def pushOutputReader (finished : ι × StreamName → Bool) (readers : List (ι × StreamName))
    (reader : ι × StreamName) : List (ι × StreamName) × Bool :=
  let readers := sweepOutputReaders finished readers
  if SECURITY_OUTPUT_READER_QUARANTINE_CAPACITY ≤ readers.length then (readers, false)
  else (readers ++ [reader], true)

/-- The children behind `push_child`, its answer, and what it did. -/
def pushChild (answers : ι → WaitAnswer) (kills : ι → Except String Unit) (children : List ι)
    (child : ι) : List ι × Bool × List (LogEntry ι) :=
  let swept := sweepChildren answers kills children
  if SECURITY_CHILD_QUARANTINE_CAPACITY ≤ swept.1.length then
    (swept.1, false, swept.2 ++ [.dropped child])
  else (swept.1 ++ [child], true, swept.2)

end Quarantine

section System
variable {ι : Type*} [DecidableEq ι]

/-- What the operating system answers while the quarantine sweeps. -/
structure SweepAnswers (ι : Type*) where
  waits : ι → WaitAnswer
  kills : ι → Except String Unit
  finished : ι × StreamName → Bool

inductive CleanupActor (ι : Type*) where
  | call (i : ι) (move : CallMove)
  | quarantineReceives (answers : SweepAnswers ι)
  | quarantineSweeps (answers : SweepAnswers ι)

def Cleanups.setCall (s : Cleanups ι) (i : ι) (C : Cleanup ι) : Cleanups ι :=
  { s with calls := Function.update s.calls i C }

def step (s : Cleanups ι) : CleanupActor ι → Option (Cleanups ι)
  | .call i move =>
    (callStep i (s.calls i) move).map fun next =>
      { s.setCall i next.call with inbox := s.inbox ++ next.sent, log := s.log ++ next.entries }
  | .quarantineReceives answers =>
    match s.inbox with
    | [] => none
    | .child child retained :: inbox =>
      let pushed := pushChild answers.waits answers.kills s.children child
      some { s.setCall retained { s.calls retained with retained := some pushed.2.1 } with
        inbox := inbox
        children := pushed.1
        log := s.log ++ pushed.2.2 }
    | .outputReader call stream :: inbox =>
      some { s with
        inbox := inbox
        readers := (pushOutputReader answers.finished s.readers (call, stream)).1 }
  | .quarantineSweeps answers =>
    let swept := sweepChildren answers.waits answers.kills s.children
    some { s with
      children := swept.1
      readers := sweepOutputReaders answers.finished s.readers
      log := s.log ++ swept.2 }

/-- A call whose reaper has been started. -/
def startedCall : Cleanup ι where
  caller := .working
  childChannel := none
  reaper := .receiving
  events := []
  retained := none
  terminated := none

def initialCleanups : Cleanups ι where
  calls := fun _ => startedCall
  inbox := []
  children := []
  readers := []
  log := []

end System
end Keychain
