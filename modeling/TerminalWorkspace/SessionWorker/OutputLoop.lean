import Mathlib.Data.UInt
import TerminalWorkspace.Foundation.Runs
import TerminalWorkspace.SessionWorker.OutputCoalescer

/-! The loop of a worker whose session is a local process on a pseudo-terminal. The process's
output comes from a reader thread over a bounded channel, the user's input over another; the
loop looks at both, at the state of the process and at the clock, in turn. -/
namespace SessionWorker

def eventChannelCapacity : ℕ := 16

inductive JumpSessionEvent where
  | eof
  | error (error : String)
  | output (bytes : List UInt8)
  deriving DecidableEq, Repr

inductive NativeSessionCommand where
  | close
  | input (input : String)
  | resize (cols rows : UInt16)
  deriving DecidableEq, Repr

/-- What `try_wait` answers. -/
inductive ChildStatus where
  | running
  | exited (success : Bool) (status : String)
  | failed (error : String)
  deriving DecidableEq, Repr

/-- What the worker emits for its session, in its order. -/
inductive Emitted where
  | output (text : List Char)
  | error (message : String)
  | status (state : String)
  | closed
  deriving DecidableEq, Repr

/-- Where the worker stands: the five parts of the loop's body, and what follows it. -/
inductive LoopPhase where
  | commands
  | events
  | child
  | flush
  | idle
  | finishing
  | failed (error : String)
  | disconnecting
  | closing
  | ended
  deriving DecidableEq, Repr

/-- The worker, its two channels and its reader. `sent` are all bytes the reader has sent,
whether or not they have been received. -/
structure Loop where
  exitLabel : String
  phase : LoopPhase
  coalescer : OutputCoalescer
  didWork : Bool
  shouldClose : Bool
  reportedError : Bool
  events : List JumpSessionEvent
  readerEnded : Bool
  commands : List NativeSessionCommand
  commandsDropped : Bool
  sent : List UInt8
  emitted : List Emitted
  deriving DecidableEq

/-- A worker that has started its reader. -/
def Loop.initial (exitLabel : String) : Loop where
  exitLabel := exitLabel
  phase := .commands
  coalescer := .new coalesceWindowMs coalesceMaxBytes
  didWork := false
  shouldClose := false
  reportedError := false
  events := []
  readerEnded := false
  commands := []
  commandsDropped := false
  sent := []
  emitted := [.status "connected"]

/-- `run_external_command_session_loop` takes its label from the command it runs. -/
def runExternalCommandSessionLoop (exitLabel : String) : Loop := .initial exitLabel

def runJumpHostSessionLoop : Loop := .initial "SSH session"

namespace Loop
variable (l : Loop)

def emit (emitted : List Emitted) : Loop := { l with emitted := l.emitted ++ emitted }

/-- The coalescer after one of its operations; what that yields is emitted. -/
def withCoalescer (result : Option (List Char) × OutputCoalescer) : Loop :=
  { l with
    coalescer := result.2
    emitted := l.emitted ++ (result.1.map Emitted.output).toList }

def finishOutput : Loop := l.withCoalescer l.coalescer.finish

def reportError (message : String) : Loop := l.emit [.error message, .status "error"]

/-- The receiver goes out of scope at the end of the loop. -/
def receives : Bool :=
  match l.phase with
  | .commands | .events | .child | .flush | .idle | .finishing => true
  | _ => false

/-- The reader sends an event. It blocks on a full channel; a failed send is ignored. -/
def readerSends (event : JumpSessionEvent) : Loop :=
  if l.readerEnded then l
  else
    match event with
    | .output bytes =>
      if bytes = [] then l
      else if l.receives then
        if l.events.length < eventChannelCapacity then
          { l with events := l.events ++ [event], sent := l.sent ++ bytes }
        else l
      else { l with sent := l.sent ++ bytes }
    | _ =>
      if l.receives then
        if l.events.length < eventChannelCapacity then
          { l with events := l.events ++ [event], readerEnded := true }
        else l
      else { l with readerEnded := true }

/-- What a received command does; `answer` is the outcome of the write or of the resize. -/
def handleCommand (command : NativeSessionCommand) (answer : Except String Unit) : Loop :=
  match command with
  | .close => { l with shouldClose := true }
  | .input _ | .resize _ _ =>
    match answer with
    | .ok () => l
    | .error error => { l.finishOutput with phase := .failed error }

/-- One round of the loop over the commands. -/
def pollCommand (answer : Except String Unit) : Loop :=
  match l.commands with
  | [] => { l with phase := .events, shouldClose := l.shouldClose || l.commandsDropped }
  | .close :: rest => { l with commands := rest, shouldClose := true, phase := .events }
  | command :: rest => { l with commands := rest, didWork := true }.handleCommand command answer

/-- One round of the loop over the reader's events. -/
def pollEvent (now : ℕ) : Loop :=
  match l.events with
  | [] => { l with phase := .child, shouldClose := l.shouldClose || l.readerEnded }
  | .output bytes :: rest =>
    { l with events := rest, didWork := true }.withCoalescer (l.coalescer.push bytes now)
  | .error error :: rest =>
    { { l with events := rest }.finishOutput.reportError error with
      reportedError := true
      shouldClose := true
      phase := .child }
  | .eof :: rest => { l with events := rest, shouldClose := true, phase := .child }

def exitNotice (status : String) : String := l.exitLabel ++ " exited with status " ++ status ++ "."

def tryWait (status : ChildStatus) : Loop :=
  match status with
  | .running => { l with phase := .flush }
  | .exited success status =>
    let l := if !success && !l.reportedError then l.reportError (l.exitNotice status) else l
    { l with shouldClose := true, phase := .flush }
  | .failed error => { l.reportError error with shouldClose := true, phase := .flush }

/-- The start of the next round, or the end of the loop. -/
def nextRound : Loop :=
  if l.shouldClose then { l with phase := .finishing }
  else { l with didWork := false, phase := .commands }

def pollFlush (now : ℕ) : Loop :=
  let l := l.withCoalescer (l.coalescer.pollFlush now)
  if !l.didWork && !l.shouldClose then { l with phase := .idle } else l.nextRound

/-- `recv_timeout` when there was nothing to do. -/
def idle (answer : Except String Unit) : Loop :=
  match l.commands with
  | [] => { l with shouldClose := l.shouldClose || l.commandsDropped }.nextRound
  | command :: rest =>
    let l := { l with commands := rest }.handleCommand command answer
    if l.phase = .idle then l.nextRound else l

end Loop

/-- One step of the worker, of its reader or of the command channel's other end. -/
inductive LoopAction where
  | readerSends (event : JumpSessionEvent)
  | command (command : NativeSessionCommand)
  | dropCommands
  | pollCommand (answer : Except String Unit)
  | pollEvent (now : ℕ)
  | tryWait (status : ChildStatus)
  | pollFlush (now : ℕ)
  | idle (answer : Except String Unit)
  | finish
  | report
  | disconnect
  | close

/-- An action that is not the worker's next one does nothing. -/
def loopStep (l : Loop) : LoopAction → Loop
  | .readerSends event => l.readerSends event
  | .command command =>
    if l.commandsDropped then l else { l with commands := l.commands ++ [command] }
  | .dropCommands => { l with commandsDropped := true }
  | .pollCommand answer => if l.phase = .commands then l.pollCommand answer else l
  | .pollEvent now => if l.phase = .events then l.pollEvent now else l
  | .tryWait status => if l.phase = .child then l.tryWait status else l
  | .pollFlush now => if l.phase = .flush then l.pollFlush now else l
  | .idle answer => if l.phase = .idle then l.idle answer else l
  | .finish =>
    if l.phase = .finishing then { l.finishOutput with phase := .disconnecting } else l
  | .report =>
    match l.phase with
    | .failed error => { l.reportError error with phase := .disconnecting }
    | _ => l
  | .disconnect =>
    if l.phase = .disconnecting then { l.emit [.status "disconnected"] with phase := .closing }
    else l
  | .close => if l.phase = .closing then { l.emit [.closed] with phase := .ended } else l

end SessionWorker
