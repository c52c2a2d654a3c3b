import TerminalWorkspace.Foundation.Utf8Chunks
import TerminalWorkspace.NodeBackend.Accounting
import TerminalWorkspace.SessionWorker.OutputCoalescer

/-! The Node backend decodes each chunk of a stream by itself: for the data messages of a
session, and for the output of a remote command. -/
namespace NodeBackend
open JsText Runs Utf8

structure RemoteCommandTarget where
  id : JsString
  label : JsString
  deriving DecidableEq, Repr

structure RemoteCommandResult where
  targetId : JsString
  label : JsString
  ok : Bool
  stdout : JsString
  stderr : JsString
  exitCode : Option ℤ
  deriving DecidableEq, Repr

/-- What the channel of an `exec` delivers before it closes. -/
inductive ExecEvent where
  | data (chunk : List UInt8)
  | stderrData (chunk : List UInt8)
  deriving DecidableEq, Repr

structure ExecOutput where
  stdout : JsString
  stderr : JsString
  deriving DecidableEq, Repr

def handleExecEvent (output : ExecOutput) : ExecEvent → ExecOutput
  | .data chunk => { output with stdout := output.stdout ++ toUtf8String chunk }
  | .stderrData chunk => { output with stderr := output.stderr ++ toUtf8String chunk }

/-- The result of `runRemoteCommand`, once the channel closes with an exit code, if any. -/
def runRemoteCommand (target : RemoteCommandTarget) (events : List ExecEvent)
    (code : Option ℤ) : RemoteCommandResult :=
  let output := run handleExecEvent ⟨[], []⟩ events
  { targetId := target.id
    label := target.label
    ok := code == some 0
    stdout := output.stdout
    stderr := output.stderr
    exitCode := code }

def stdoutChunks (events : List ExecEvent) : List (List UInt8) :=
  events.filterMap fun
    | .data chunk => some chunk
    | .stderrData _ => none

def stderrChunks (events : List ExecEvent) : List (List UInt8) :=
  events.filterMap fun
    | .data _ => none
    | .stderrData chunk => some chunk

def shellChunks (events : List RelayEvent) : List (List UInt8) :=
  events.filterMap fun
    | .shellData chunk => some chunk
    | _ => none

/-- Chunk by chunk, the text is that of the bytes exactly when every chunk starts anew. -/
theorem flatMap_toUtf8String_iff (chunks : List (List UInt8)) :
    chunks.flatMap toUtf8String = toUtf8String chunks.flatten ↔ StartsAnew chunks := by
  have hrender (bytes : List UInt8) : toUtf8String bytes = ofText (render (items bytes)) := rfl
  have hparts : chunks.flatMap toUtf8String = ofText (render (chunks.flatMap items)) := by
    induction chunks with
    | nil => rfl
    | cons chunk chunks ih =>
      simp only [List.flatMap_cons, ih, hrender, render, List.map_append, ofText_append]
  rw [hparts, hrender]
  refine ⟨fun heq => (length_items_flatten chunks).2 ?_, fun h => by rw [items_flatMap h]⟩
  simpa only [ofText, render, List.length_map] using congrArg List.length heq

section Session
variable {maxBytes : ℕ}

/-- With an open socket attached, each chunk is a message of its own. -/
theorem run_shellData {r : Relay} {ws : ℕ} (hopen : openSocket r = some ws)
    (chunks : List (List UInt8)) :
    dataSent (run (step maxBytes) r (chunks.map .shellData)) =
      dataSent r ++ chunks.map toUtf8String := by
  induction chunks generalizing r with
  | nil => simp
  | cons chunk chunks ih =>
    have hstep : step maxBytes r (.shellData chunk) =
        send { r with output := r.output ++ toUtf8String chunk } ws
          (.data (toUtf8String chunk)) := by
      have hsame : openSocket { r with output := r.output ++ toUtf8String chunk } = some ws := hopen
      simp only [step, broadcast, hsame]
    have hopen' : openSocket (send { r with output := r.output ++ toUtf8String chunk } ws
        (.data (toUtf8String chunk))) = some ws := hopen
    rw [List.map_cons, run_cons, hstep, ih hopen', dataSent_send_data, List.map_cons,
      List.append_assoc]
    rfl

theorem broadcast_output (r : Relay) (message : Message) :
    (broadcast maxBytes r message).output = r.output := by
  unfold broadcast
  split <;> rfl

theorem attach_output (r : Relay) : (attach r).output = r.output := by
  have hclose : (closeAttached r).output = r.output := by
    unfold closeAttached
    split <;> rfl
  have hfailure (r : Relay) (ws : ℕ) : (replayFailure r ws).output = r.output := by
    unfold replayFailure
    split <;> rfl
  have hflush (r : Relay) (ws : ℕ) : (flushBuffer r ws).output = r.output := by
    unfold flushBuffer
    split_ifs <;> rfl
  rw [attach, hflush, hfailure]
  exact hclose

theorem step_output (r : Relay) (event : RelayEvent) :
    (step maxBytes r event).output =
      r.output ++ (shellChunks [event]).flatMap toUtf8String := by
  cases event with
  | shellData chunk =>
    rw [step, broadcast_output]
    exact congrArg (r.output ++ ·) (List.append_nil _).symm
  | statusChange state => exact (broadcast_output _ _).trans (List.append_nil _).symm
  | failSession message => exact (broadcast_output _ _).trans (List.append_nil _).symm
  | attach => exact (attach_output r).trans (List.append_nil _).symm
  | startClosing ws =>
    simp only [step]
    split_ifs <;> exact (List.append_nil _).symm
  | close ws =>
    simp only [step]
    split_ifs <;> exact (List.append_nil _).symm

/-- The data that a session broadcasts, whoever is there to take it. -/
theorem output_run (r : Relay) (events : List RelayEvent) :
    (run (step maxBytes) r events).output =
      r.output ++ (shellChunks events).flatMap toUtf8String := by
  induction events generalizing r with
  | nil => exact (List.append_nil _).symm
  | cons event events ih =>
    have hchunks : shellChunks (event :: events) = shellChunks [event] ++ shellChunks events :=
      List.filterMap_append (l := [event])
    rw [run_cons, ih, step_output, hchunks, List.flatMap_append, List.append_assoc]

end Session

section Command

theorem run_handleExecEvent (output : ExecOutput) (events : List ExecEvent) :
    run handleExecEvent output events =
      ⟨output.stdout ++ (stdoutChunks events).flatMap toUtf8String,
        output.stderr ++ (stderrChunks events).flatMap toUtf8String⟩ := by
  induction events generalizing output with
  | nil => simp [stdoutChunks, stderrChunks]
  | cons event events ih =>
    rw [run_cons, ih]
    cases event <;> simp [handleExecEvent, stdoutChunks, stderrChunks]

end Command

/-- The decoder of the native backend, given chunk after chunk and then the end. -/
def nativeText (decoder : SessionWorker.Utf8StreamDecoder) : List (List UInt8) → List Char
  | [] => decoder.finish.1
  | chunk :: chunks =>
    let decoded := decoder.decode chunk
    decoded.1 ++ nativeText decoded.2 chunks

/-- The native decoder does not see where the chunks end. -/
theorem nativeText_eq (chunks : List (List UInt8)) :
    ofText (nativeText ⟨[]⟩ chunks) = toUtf8String chunks.flatten := by
  have h (decoder : SessionWorker.Utf8StreamDecoder) (consumed : List UInt8)
      (htracks : decoder.Tracks consumed) : render (feed none consumed).1 ++
        nativeText decoder chunks = decodeLossy (consumed ++ chunks.flatten) := by
    induction chunks generalizing decoder consumed with
    | nil =>
      rw [List.flatten_nil, List.append_nil]
      exact htracks.finish
    | cons chunk chunks ih =>
      obtain ⟨htext, hnext⟩ := htracks.decode chunk
      rw [nativeText, ← List.append_assoc, htext, ih _ _ hnext, List.flatten_cons,
        List.append_assoc]
  exact congrArg ofText (h ⟨[]⟩ [] SessionWorker.Utf8StreamDecoder.tracks_nil)

/-- The relay and the remote command put out the text of all the bytes exactly when no chunk
goes on with a sequence that the one before it leaves unfinished. -/
theorem decodes_iff (maxBytes : ℕ) (chunks : List (List UInt8)) (session : List RelayEvent)
    (target : RemoteCommandTarget) (events : List ExecEvent) (code : Option ℤ) :
    ((dataSent (run (step maxBytes) (attach newRelay) (chunks.map .shellData))).flatten =
        toUtf8String chunks.flatten ↔ StartsAnew chunks) ∧
      ((run (step maxBytes) newRelay session).output =
        toUtf8String (shellChunks session).flatten ↔ StartsAnew (shellChunks session)) ∧
      ((runRemoteCommand target events code).stdout =
        toUtf8String (stdoutChunks events).flatten ↔ StartsAnew (stdoutChunks events)) ∧
      ((runRemoteCommand target events code).stderr =
        toUtf8String (stderrChunks events).flatten ↔ StartsAnew (stderrChunks events)) := by
  have hopen : openSocket (attach newRelay) = some 0 := by decide
  have hsent : (dataSent (run (step maxBytes) (attach newRelay)
      (chunks.map .shellData))).flatten = chunks.flatMap toUtf8String := by
    rw [run_shellData hopen]
    rfl
  refine ⟨?_, ?_, ?_, ?_⟩
  · rw [hsent, flatMap_toUtf8String_iff]
  · rw [output_run]
    exact flatMap_toUtf8String_iff _
  · rw [runRemoteCommand, run_handleExecEvent]
    exact flatMap_toUtf8String_iff _
  · rw [runRemoteCommand, run_handleExecEvent]
    exact flatMap_toUtf8String_iff _

/-- The three bytes of a euro sign, cut after the first. -/
theorem not_every_split_decodes :
    ¬ ∀ chunks : List (List UInt8),
      (dataSent (run (step 262144) (attach newRelay) (chunks.map .shellData))).flatten =
        toUtf8String chunks.flatten := by
  intro h
  have hcut := h [[0xE2], [0x82, 0xAC]]
  revert hcut
  decide +kernel

end NodeBackend
