import TerminalWorkspace.Foundation.Runs
import TerminalWorkspace.HostKeys.NodeStore

/-! The lockfile around the Node store's critical section. Calls of `verifyOrPin` in any
number of processes take one file-system step at a time. The lock is the file at one path; a
waiting call reads it through a descriptor and removes it by its path. -/
namespace NodeLock
open HostKeys JsText

def lockTimeoutMs : ℤ := 5000

/-- `LOCK_STALE_MS`. -/
def lockStaleMs : ℤ := 60000

/-- A file that is or was at the lock's path, with what `Number.parseInt` reads from it and
the times of its creation and of its last write. -/
structure Inode where
  regular : Bool
  holder : Option ℤ
  created : ℤ
  mtime : ℤ
  deriving DecidableEq, Repr

/-- One line of the store. -/
structure Pin where
  pattern : JsString
  algorithm : JsString
  key : JsString
  deriving DecidableEq, Repr

/-- Where a call stands. From `created` to `releasing` it has the lock with that inode. -/
inductive Phase where
  | trying
  | created (inode : ℕ)
  | blocked
  | opened (inode : ℕ)
  | statted (inode : ℕ) (regular : Bool) (mtime : ℤ)
  | read (inode : ℕ) (holder : Option ℤ) (age : ℤ)
  | removing (inode : ℕ)
  | waiting
  | held (inode : ℕ)
  | unknownHost (inode : ℕ)
  | releasing (inode : ℕ) (result : Except StoreError Verdict)
  | answered (result : Except StoreError Verdict)
  | dead
  deriving DecidableEq

/-- The lock a call has. -/
def Phase.lock? : Phase → Option ℕ
  | .created inode => some inode
  | .held inode => some inode
  | .unknownHost inode => some inode
  | .releasing inode _ => some inode
  | _ => none

/-- A call of `verifyOrPin` in the process `pid`, after the checks of its arguments. -/
structure Call where
  pid : ℤ
  deadline : ℤ
  pin : Pin
  phase : Phase
  deriving DecidableEq

/-- Files keep their number after they are removed, for a descriptor may still refer to them.
`damaged` means that a torn line has left the store malformed. -/
structure World where
  now : ℤ
  alive : List ℤ
  inodes : List Inode
  lockPath : Option ℕ
  calls : List Call
  pins : List Pin
  damaged : Bool
  deriving DecidableEq

/-- How the write of a record goes: a short write leaves a record with a shortened key or a
line that is no record. -/
inductive AppendOutcome where
  | whole
  | shortened (key : JsString)
  | damaged
  | failed
  deriving DecidableEq, Repr

/-- One step of a process, a call or the clock. `ok` is whether the file system obliges. -/
inductive Action where
  | tick (elapsed : ℕ)
  | spawn (pid : ℤ)
  | die (pid : ℤ)
  | start (pid : ℤ) (pin : Pin)
  | create (call : ℕ) (ok : Bool)
  | writePid (call : ℕ) (ok : Bool)
  | openLock (call : ℕ) (ok : Bool)
  | stat (call : ℕ)
  | readLock (call : ℕ)
  | judge (call : ℕ)
  | remove (call : ℕ) (ok : Bool)
  | retry (call : ℕ)
  | load (call : ℕ) (ok : Bool)
  | append (call : ℕ) (outcome : AppendOutcome)
  | release (call : ℕ) (ok : Bool)
  deriving DecidableEq

namespace World
variable (w : World)

def setPhase (c : ℕ) (phase : Phase) : World :=
  { w with calls := w.calls.modify c fun call => { call with phase := phase } }

/-- `isProcessAlive`. -/
def isProcessAlive (pid : ℤ) : Bool := 0 < pid && pid ∈ w.alive

/-- `writeFile` with the flag `wx` creates the file, if there is none. -/
def createLock (c : ℕ) (ok : Bool) : World :=
  if ok then
    match w.lockPath with
    | some _ => w.setPhase c .blocked
    | none =>
      { w.setPhase c (.created w.inodes.length) with
        inodes := w.inodes ++ [⟨true, none, w.now, w.now⟩]
        lockPath := some w.inodes.length }
  else w.setPhase c (.answered (.error .notLocked))

/-- The second half of `writeFile` puts the process id into the new file. -/
def writePid (c : ℕ) (pid : ℤ) (inode : ℕ) (ok : Bool) : World :=
  if ok then
    { w.setPhase c (.held inode) with
      inodes := w.inodes.modify inode fun file => { file with holder := some pid, mtime := w.now } }
  else w.setPhase c (.answered (.error .notLocked))

/-- `stale`, from what was read through the descriptor. -/
def isStale (holder : Option ℤ) (age : ℤ) : Bool :=
  lockStaleMs < age || holder.any fun pid => !w.isProcessAlive pid

/-- `records.get(pattern)`: the last line for a pattern wins. -/
def recordFor (pattern : JsString) : Option Pin :=
  w.pins.reverse.find? fun pin => pin.pattern = pattern

/-- The critical section up to its write. -/
def load (c : ℕ) (pin : Pin) (inode : ℕ) (ok : Bool) : World :=
  if ok ∧ ¬ w.damaged then
    match w.recordFor pin.pattern with
    | some existing =>
      w.setPhase c (.releasing inode
        (.ok (if existing.key = pin.key then .matched else .mismatch existing.key)))
    | none => w.setPhase c (.unknownHost inode)
  else w.setPhase c (.releasing inode (.error .couldNotRead))

def append (c : ℕ) (pin : Pin) (inode : ℕ) : AppendOutcome → World
  | .whole => { w.setPhase c (.releasing inode (.ok .pinned)) with pins := w.pins ++ [pin] }
  | .shortened key =>
    { w.setPhase c (.releasing inode (.error .partialWrite)) with
      pins := w.pins ++ [{ pin with key := key }] }
  | .damaged => { w.setPhase c (.releasing inode (.error .partialWrite)) with damaged := true }
  | .failed => w.setPhase c (.releasing inode (.error .couldNotWrite))

end World

/-- A step that is not the next one of its call does nothing. -/
def step (w : World) : Action → World
  | .tick elapsed => { w with now := w.now + elapsed }
  | .spawn pid => if 0 < pid ∧ pid ∉ w.alive then { w with alive := pid :: w.alive } else w
  | .die pid =>
    { w with
      alive := w.alive.filter (· ≠ pid)
      calls := w.calls.map fun call => if call.pid = pid then { call with phase := .dead } else call }
  | .start pid pin =>
    if w.isProcessAlive pid then
      { w with calls := w.calls ++ [⟨pid, w.now + lockTimeoutMs, pin, .trying⟩] }
    else w
  | .create c ok =>
    match w.calls[c]? with
    | some ⟨_, _, _, .trying⟩ => w.createLock c ok
    | _ => w
  | .writePid c ok =>
    match w.calls[c]? with
    | some ⟨pid, _, _, .created inode⟩ => w.writePid c pid inode ok
    | _ => w
  | .openLock c ok =>
    match w.calls[c]? with
    | some ⟨_, _, _, .blocked⟩ =>
      match w.lockPath with
      | some inode => w.setPhase c (if ok then .opened inode else .waiting)
      | none => w.setPhase c .waiting
    | _ => w
  | .stat c =>
    match w.calls[c]? with
    | some ⟨_, _, _, .opened inode⟩ =>
      match w.inodes[inode]? with
      | some file => w.setPhase c (.statted inode file.regular file.mtime)
      | none => w
    | _ => w
  | .readLock c =>
    match w.calls[c]? with
    | some ⟨_, _, _, .statted inode regular mtime⟩ =>
      match w.inodes[inode]? with
      | some file =>
        w.setPhase c (if regular then .read inode file.holder (w.now - mtime)
          else .read inode none 0)
      | none => w
    | _ => w
  | .judge c =>
    match w.calls[c]? with
    | some ⟨_, _, _, .read inode holder age⟩ =>
      w.setPhase c (if w.isStale holder age then .removing inode else .waiting)
    | _ => w
  | .remove c ok =>
    match w.calls[c]? with
    | some ⟨_, _, _, .removing _⟩ =>
      if ok then { w.setPhase c .trying with lockPath := none } else w.setPhase c .waiting
    | _ => w
  | .retry c =>
    match w.calls[c]? with
    | some ⟨_, deadline, _, .waiting⟩ =>
      w.setPhase c (if deadline ≤ w.now then .answered (.error .notLocked) else .trying)
    | _ => w
  | .load c ok =>
    match w.calls[c]? with
    | some ⟨_, _, pin, .held inode⟩ => w.load c pin inode ok
    | _ => w
  | .append c outcome =>
    match w.calls[c]? with
    | some ⟨_, _, pin, .unknownHost inode⟩ => w.append c pin inode outcome
    | _ => w
  | .release c ok =>
    match w.calls[c]? with
    | some ⟨_, _, _, .releasing _ result⟩ =>
      if ok then { w.setPhase c (.answered result) with lockPath := none }
      else w.setPhase c (.answered (.error .other))
    | _ => w

/-- No call yet; the path may hold a lock that an earlier process left behind. -/
def World.initial (now : ℤ) (leftover : Option Inode) (pins : List Pin) : World where
  now := now
  alive := []
  inodes := leftover.toList
  lockPath := leftover.map fun _ => 0
  calls := []
  pins := pins
  damaged := false

end NodeLock
