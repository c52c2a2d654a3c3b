import TerminalWorkspace.Foundation.Places
import TerminalWorkspace.NativeTransport.PromptReader
import TerminalWorkspace.NativeTransport.SftpCommands
import TerminalWorkspace.SessionWorker.OutputCoalescer

/-! What is read back from `sftp`: after each command its output is collected until a prompt is
found in it. -/
namespace NativeTransport
open NativeHostKeys (isWhitespace lines)
open RecordFile (trim)
open LastPlace (beforeLast)
open SessionWorker (Utf8StreamDecoder)
open Utf8 (feed feed_append flush items render decodeLossy)

def trimSshOutput (value : List Char) : List Char :=
  List.intercalate ['\n'] (((lines value).map fun line => line.rdropWhile isWhitespace).filter
    fun line => trim isWhitespace line ≠ [])

def promptMark : List Char := "sftp>".toList

def withoutReturns (text : List Char) : List Char := text.filter (· ≠ '\r')

/-- The output behind the echo of the command. Where it does not begin with the echo it is all
kept. -/
def withoutEcho (commandEcho body : List Char) : List Char :=
  if commandEcho = [] then body
  else
    let trimmed := body.dropWhile (· == '\n')
    if commandEcho ++ ['\n'] <+: trimmed then trimmed.drop (commandEcho.length + 1)
    else if trimmed = commandEcho then []
    else body

def extractSftpPromptOutput (output pendingCommand : List Char) : Option (List Char) :=
  (beforeLast promptMark (withoutReturns output)).map
    (withoutEcho (trim isWhitespace pendingCommand))

/-- What a wait learns: an event of the reader, that there is no reader any more, that `sftp` has
exited, or that asking for this failed. -/
inductive Arrival where
  | output (bytes : List UInt8)
  | error (message : List Char)
  | eof
  | disconnected
  | exited (status : List Char)
  | failed (message : List Char)
  deriving DecidableEq, Repr

structure Capture where
  decoder : Utf8StreamDecoder
  capturedOutput : List Char
  deriving DecidableEq, Repr

namespace Capture
variable (c : Capture)

def push (bytes : List UInt8) : Capture :=
  let decoded := c.decoder.decode bytes
  ⟨decoded.2, c.capturedOutput ++ decoded.1⟩

def finish : Capture :=
  let decoded := c.decoder.finish
  ⟨decoded.2, c.capturedOutput ++ decoded.1⟩

/-- The captured output as an error, or another message where there is none. -/
def message (otherwise : List Char) : List Char :=
  let message := trimSshOutput c.capturedOutput
  if message = [] then otherwise else message

end Capture

/-- The loops of `wait_for_sftp_prompt`, with what arrives before the time is up. -/
def waitFrom (pendingCommand : List Char) (c : Capture) :
    List Arrival → Except (List Char) (List Char × List Arrival)
  | [] => .error (c.message "Timed out while waiting for the sftp prompt".toList)
  | .output bytes :: arrivals =>
    let c := c.push bytes
    match extractSftpPromptOutput c.capturedOutput pendingCommand with
    | some promptOutput => .ok (promptOutput, arrivals)
    | none => waitFrom pendingCommand c arrivals
  | .error error :: _ => .error (trimSshOutput (c.finish.capturedOutput ++ error))
  | .eof :: _ => .error (c.finish.message "sftp exited before becoming ready".toList)
  | .disconnected :: _ =>
    .error (c.message "sftp output stream disconnected unexpectedly".toList)
  | .exited status :: _ => .error (c.message ("sftp exited with status ".toList ++ status))
  | .failed error :: _ => .error error

def waitForSftpPrompt (pendingCommand : List Char) (arrivals : List Arrival) :
    Except (List Char) (List Char × List Arrival) :=
  waitFrom pendingCommand ⟨⟨[]⟩, []⟩ arrivals

/-- `trim_start_matches('@')` -/
def interactiveCommand (command : List Char) : List Char := command.dropWhile (· == '@')

section Batch
variable (write : List Char → Except (List Char) Unit)

/-- The output that each command adds to that of the session. -/
def commandOutputs : List (List Char) → List Arrival → Except (List Char) (List (List Char))
  | [], _ => .ok []
  | command :: commands, arrivals => do
    write (interactiveCommand command ++ ['\n'])
    let (output, arrivals) ← waitForSftpPrompt (interactiveCommand command) arrivals
    let outputs ← commandOutputs commands arrivals
    return output :: outputs

/-- What stands before the first prompt, and the outputs of the commands. -/
def sessionOutputs (commands : List (List Char)) (arrivals : List Arrival) :
    Except (List Char) (List Char × List (List Char)) := do
  let (greeting, arrivals) ← waitForSftpPrompt [] arrivals
  let outputs ← commandOutputs write commands arrivals
  return (greeting, outputs)

/-- `run_sftp_batch_commands` once `sftp` has been started; `write` is how its input takes a
text. -/
def runSftpBatchCommands (commands : List (List Char)) (arrivals : List Arrival) :
    Except (List Char) (List Char) := do
  let (greeting, outputs) ← sessionOutputs write commands arrivals
  write "bye\n".toList
  return trimSshOutput (greeting ++ outputs.flatten)

end Batch

/-! ## What a wait has read -/

/-- What a decoder has put out for the bytes so far. -/
def heard (bytes : List UInt8) : List Char := withoutReturns (render (feed none bytes).1)

/-- What the bytes show, with nothing behind them. -/
def shown (bytes : List UInt8) : List Char := withoutReturns (decodeLossy bytes)

/-- No event but the last completes a prompt. -/
def Quiet (events : List (List UInt8)) : Prop :=
  ∀ first, first <+: events → first ≠ events → ¬ promptMark <:+: shown first.flatten

def Capture.Captures (c : Capture) (bytes : List UInt8) : Prop :=
  c.decoder.Tracks bytes ∧ c.capturedOutput = render (feed none bytes).1

theorem captures_nil : Capture.Captures ⟨⟨[]⟩, []⟩ [] := ⟨Utf8StreamDecoder.tracks_nil, rfl⟩

theorem Capture.Captures.push {c : Capture} {consumed : List UInt8} (h : c.Captures consumed)
    (bytes : List UInt8) : (c.push bytes).Captures (consumed ++ bytes) := by
  obtain ⟨htracks, hcaptured⟩ := h
  obtain ⟨htext, htracks'⟩ := htracks.decode bytes
  refine ⟨htracks', ?_⟩
  rw [Capture.push, hcaptured, htext]

theorem Capture.Captures.extract {c : Capture} {consumed : List UInt8} (h : c.Captures consumed)
    (pendingCommand : List Char) :
    extractSftpPromptOutput c.capturedOutput pendingCommand =
      (beforeLast promptMark (heard consumed)).map
        (withoutEcho (trim isWhitespace pendingCommand)) := by
  rw [extractSftpPromptOutput, h.2]
  rfl

theorem withoutReturns_append (s t : List Char) :
    withoutReturns (s ++ t) = withoutReturns s ++ withoutReturns t := List.filter_append s t

theorem heard_prefix_append (a b : List UInt8) : heard a <+: heard (a ++ b) := by
  rw [heard, heard, feed_append, render, render, List.map_append, withoutReturns_append]
  exact List.prefix_append _ _

/-- Behind what was heard the bytes show an unfinished character at most. -/
theorem shown_cases (bytes : List UInt8) :
    shown bytes = heard bytes ∧ (feed none bytes).2 = none ∨
      shown bytes = heard bytes ++ [Char.ofNat 0xFFFD] := by
  have hshown : shown bytes = heard bytes ++ withoutReturns (render (flush (feed none bytes).2)) := by
    rw [shown, heard, decodeLossy, items, List.map_append, withoutReturns_append]
    rfl
  rw [hshown]
  cases (feed none bytes).2 with
  | none => exact .inl ⟨List.append_nil _, rfl⟩
  | some p => exact .inr rfl

/-- An unfinished character is no part of a prompt. -/
theorem marked_shown_iff (bytes : List UInt8) :
    promptMark <:+: shown bytes ↔ promptMark <:+: heard bytes := by
  rcases shown_cases bytes with ⟨heq, -⟩ | hcut
  · rw [heq]
  · rw [hcut, List.infix_concat_iff]
    refine or_iff_right ?_
    rintro ⟨before, hbefore⟩
    have hmark : promptMark = "sftp".toList ++ ['>'] := rfl
    rw [hmark, ← List.append_assoc] at hbefore
    obtain ⟨-, hlast⟩ := List.append_inj' hbefore rfl
    cases hlast

/-! ## What a wait returns -/

section Waits
variable {pendingCommand : List Char} {events : List (List UInt8)} {body : List Char}

theorem waitFrom_of_quiet {c : Capture} {consumed : List UInt8} (hc : c.Captures consumed)
    (hne : events ≠ [])
    (hquiet : ∀ first, first <+: events → first ≠ events →
      ¬ promptMark <:+: heard (consumed ++ first.flatten))
    (hbody : beforeLast promptMark (heard (consumed ++ events.flatten)) = some body)
    (rest : List Arrival) :
    waitFrom pendingCommand c (events.map .output ++ rest) =
      .ok (withoutEcho (trim isWhitespace pendingCommand) body, rest) := by
  induction events generalizing c consumed with
  | nil => exact absurd rfl hne
  | cons bytes events ih =>
    have hpush := hc.push bytes
    rw [List.map_cons, List.cons_append, waitFrom, hpush.extract]
    rw [List.flatten_cons, ← List.append_assoc] at hbody
    by_cases hlast : events = []
    · subst hlast
      rw [List.flatten_nil, List.append_nil] at hbody
      rw [hbody]
      rfl
    · have hnot := hquiet [bytes] (by simp) (by simpa using Ne.symm hlast)
      rw [List.flatten_singleton] at hnot
      rw [LastPlace.beforeLast_eq_none_iff.mpr hnot]
      refine ih hpush hlast (fun first hfirst hproper => ?_) hbody
      have hlater := hquiet (bytes :: first) (List.cons_prefix_cons.mpr ⟨rfl, hfirst⟩)
        (by simpa using hproper)
      rwa [List.flatten_cons, ← List.append_assoc] at hlater

/-- A wait ends with the event that completes a prompt, and the next one starts behind it. -/
theorem waitForSftpPrompt_of_quiet (pendingCommand : List Char) (hquiet : Quiet events)
    (hbody : beforeLast promptMark (heard events.flatten) = some body)
    (rest : List (List UInt8)) :
    waitForSftpPrompt pendingCommand ((events ++ rest).map .output) =
      .ok (withoutEcho (trim isWhitespace pendingCommand) body, rest.map .output) := by
  have hne : events ≠ [] := by
    rintro rfl
    cases hbody
  rw [List.map_append]
  refine waitFrom_of_quiet captures_nil hne (fun first hfirst hproper => ?_) hbody _
  exact (marked_shown_iff _).not.mp (hquiet first hfirst hproper)

theorem quiet_of_unmarked (h : ¬ promptMark <:+: shown events.flatten) (bytes : List UInt8) :
    Quiet (events ++ [bytes]) := by
  intro first hfirst hproper hmark
  rcases List.prefix_concat_iff.mp hfirst with heq | hprefix
  · exact hproper heq
  · obtain ⟨rest, rfl⟩ := hprefix
    rw [marked_shown_iff] at h hmark
    rw [List.flatten_append] at h
    exact h (hmark.trans (heard_prefix_append _ _).isInfix)

/-- The events up to the one that completes the first prompt. -/
theorem exists_quiet (h : promptMark <:+: shown events.flatten) :
    ∃ first rest, events = first ++ rest ∧ Quiet first ∧ promptMark <:+: shown first.flatten := by
  induction events using List.reverseRecOn with
  | nil => exact absurd h (by decide)
  | append_singleton events bytes ih =>
    by_cases hearlier : promptMark <:+: shown events.flatten
    · obtain ⟨first, rest, rfl, hquiet, hmark⟩ := ih hearlier
      exact ⟨first, rest ++ [bytes], List.append_assoc _ _ _, hquiet, hmark⟩
    · exact ⟨events ++ [bytes], [], (List.append_nil _).symm, quiet_of_unmarked hearlier bytes, h⟩

end Waits

end NativeTransport
