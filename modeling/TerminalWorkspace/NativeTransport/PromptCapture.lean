import TerminalWorkspace.Foundation.JoinedWords
import TerminalWorkspace.NativeTransport.SftpCapture

/-! Which text of `sftp` each command is given, and for which places at which the text is cut
into events. -/
namespace NativeTransport
open NativeHostKeys (isWhitespace)
open RecordFile (trim)
open LastPlace (beforeLast)
open Utf8 (feed feed_append)

def promptBytes : List UInt8 := asciiBytes "sftp>"

/-- The blank behind the mark. -/
def blankIf (printed : Bool) : List UInt8 := if printed then asciiBytes " " else []

/-- Complete lines, none of which begins with the mark. -/
structure OutputLines (bytes : List UInt8) : Prop where
  complete : shown bytes = [] ∨ ∃ text, shown bytes = text ++ ['\n']
  unmarked : ∀ line ∈ (shown bytes).splitOn '\n', ¬ promptMark <+: line

/-- A command, and what is printed between two prompts when it is read. -/
structure Exchange where
  command : List Char
  echo : List UInt8
  output : List UInt8
  echoed : shown echo = interactiveCommand command ++ ['\n']
  outputLines : OutputLines output

def Exchange.bytes (e : Exchange) : List UInt8 := e.echo ++ e.output

structure Transcript where
  greeting : List UInt8
  outputLines : OutputLines greeting
  exchanges : List Exchange

/-- Each prompt ends an event, in its mark when nothing comes behind it, and no earlier event
since the prompt before ends behind a mark. -/
def Aligned : List (List UInt8) → List (List UInt8) → Prop
  | [], _ => True
  | piece :: pieces, events => ∃ group rest, events = group ++ rest ∧ Quiet group ∧
      (∃ blank, group.flatten = piece ++ promptBytes ++ blankIf blank ∧
        (pieces ≠ [] → blank = true)) ∧
      Aligned pieces rest

/-- An event ends between each mark and what comes behind its prompt; the blank may be `late`,
on the other side. -/
def Parted : Bool → List (List UInt8) → List (List UInt8) → Prop
  | late, [], events => events.flatten = blankIf late
  | late, piece :: pieces, events => ∃ group rest after, events = group ++ rest ∧
      group.flatten = blankIf late ++ (piece ++ promptBytes ++ blankIf !after) ∧
      Parted after pieces rest

def Plain (command : List Char) : Prop :=
  interactiveCommand command ≠ [] ∧
    trim isWhitespace (interactiveCommand command) = interactiveCommand command

def OneLine (command : List Char) : Prop :=
  '\n' ∉ interactiveCommand command ∧ ¬ promptMark <+: interactiveCommand command

namespace Transcript
variable (t : Transcript)

def pieces : List (List UInt8) := t.greeting :: t.exchanges.map Exchange.bytes

def bytes : List UInt8 := t.pieces.flatMap fun piece => piece ++ promptBytes ++ blankIf true

/-- A read returns some bytes at least. -/
def CutInto (events : List (List UInt8)) : Prop := events.flatten = t.bytes ∧ [] ∉ events

/-- Each command is given what was shown between its echo and the next prompt. -/
def Attributed (events : List (List UInt8)) : Prop :=
  (sessionOutputs (fun _ => .ok ()) (t.exchanges.map Exchange.command)
    (events.map .output)).map Prod.snd = .ok (t.exchanges.map fun e => shown e.output)

def Settled (events : List (List UInt8)) : Prop :=
  (∀ e ∈ t.exchanges, Plain e.command) ∧ Aligned t.pieces events

/-- The client reads commands of one line, as `sftp` prints them: the echo of a command comes when
the mark in front of it has been read, and the first mark is that of the first prompt. -/
structure Prompted (events : List (List UInt8)) : Prop where
  oneLine : ∀ e ∈ t.exchanges, OneLine e.command
  unmarked : ¬ promptMark <:+: shown t.greeting
  parted : Parted false t.pieces events

end Transcript

/-! ## The text of a piece -/

section Pieces

theorem heard_of_complete {bytes : List UInt8}
    (h : shown bytes = [] ∨ ∃ text, shown bytes = text ++ ['\n']) :
    heard bytes = shown bytes ∧ (feed none bytes).2 = none := by
  rcases shown_cases bytes with ⟨heq, hidle⟩ | hcut
  · exact ⟨heq.symm, hidle⟩
  · exfalso
    rcases h with hempty | ⟨text, htext⟩
    · exact List.append_ne_nil_of_right_ne_nil _ (List.cons_ne_nil _ _) (hcut.symm.trans hempty)
    · obtain ⟨-, hlast⟩ := List.append_inj' (hcut.symm.trans htext) rfl
      cases hlast

theorem heard_append {a : List UInt8} (h : (feed none a).2 = none) (b : List UInt8) :
    heard (a ++ b) = heard a ++ heard b := by
  rw [heard, feed_append, h, Utf8.render, List.map_append, withoutReturns_append]
  rfl

/-- Output in front of a prompt. -/
theorem heard_outputLines {bytes : List UInt8} (h : OutputLines bytes) (tail : List UInt8) :
    heard (bytes ++ tail) = shown bytes ++ heard tail := by
  obtain ⟨heard_eq, hidle⟩ := heard_of_complete h.complete
  rw [heard_append hidle, heard_eq]

/-- The text of an exchange. -/
def Exchange.text (e : Exchange) : List Char :=
  interactiveCommand e.command ++ '\n' :: shown e.output

theorem Exchange.heard_bytes (e : Exchange) (tail : List UInt8) :
    heard (e.bytes ++ tail) = e.text ++ heard tail := by
  obtain ⟨heard_eq, hidle⟩ := heard_of_complete (.inr ⟨_, e.echoed⟩)
  rw [Exchange.bytes, List.append_assoc, heard_append hidle, heard_eq, e.echoed,
    heard_outputLines e.outputLines, Exchange.text]
  simp

theorem heard_prompt (blank : Bool) :
    ∃ tail, heard (promptBytes ++ blankIf blank) = 's' :: tail ∧ promptMark <+: 's' :: tail ∧
      ¬ promptMark <:+: tail := by
  cases blank with
  | false => exact ⟨"ftp>".toList, by decide, by decide, by decide⟩
  | true => exact ⟨"ftp> ".toList, by decide, by decide, by decide⟩

/-- The last mark of a piece is that of its prompt. -/
theorem beforeLast_piece {bytes : List UInt8} {text : List Char}
    (h : ∀ tail, heard (bytes ++ tail) = text ++ heard tail) (blank : Bool) :
    beforeLast promptMark (heard (bytes ++ promptBytes ++ blankIf blank)) = some text := by
  obtain ⟨tail, htail, hmark, hlast⟩ := heard_prompt blank
  rw [List.append_assoc, h, htail]
  exact LastPlace.beforeLast_append hmark hlast text

theorem not_space_of_trim {p : Char → Bool} {s t : List Char} {c : Char}
    (h : trim p s = c :: t) : p c = false := by
  have hprefix : c :: t <+: s.dropWhile p := h ▸ List.rdropWhile_prefix p _
  obtain ⟨rest, hrest⟩ := hprefix
  have hne : s.dropWhile p ≠ [] := by
    rw [← hrest]
    exact List.cons_ne_nil _ _
  have hhead := List.head_dropWhile_not p hne
  simpa [← hrest] using hhead

theorem withoutEcho_plain {echo : List Char} (hne : echo ≠ []) (htrim : trim isWhitespace echo = echo)
    (output : List Char) : withoutEcho echo (echo ++ '\n' :: output) = output := by
  obtain ⟨c, rest, rfl⟩ := List.exists_cons_of_ne_nil hne
  have hc : c ≠ '\n' := by
    rintro rfl
    exact absurd (not_space_of_trim htrim) (by decide)
  have hdrop : (c :: rest ++ '\n' :: output).dropWhile (· == '\n') = c :: rest ++ '\n' :: output :=
    List.dropWhile_cons_of_neg (by simpa using hc)
  have hsplit : c :: rest ++ '\n' :: output = c :: rest ++ ['\n'] ++ output := by simp
  rw [withoutEcho, if_neg hne, hdrop, hsplit, if_pos (List.prefix_append _ _)]
  exact List.drop_left' (by simp)

end Pieces

/-! ## Settled cuts -/

section Settled

/-- The rest of a batch goes on behind what one wait has taken. -/
theorem commandOutputs_cons {command : List Char} {commands : List (List Char)}
    {arrivals rest : List Arrival} {output : List Char}
    (h : waitForSftpPrompt (interactiveCommand command) arrivals = .ok (output, rest)) :
    commandOutputs (fun _ => .ok ()) (command :: commands) arrivals =
      (commandOutputs (fun _ => .ok ()) commands rest).map (output :: ·) := by
  simp only [commandOutputs, h, bind, Except.bind, pure, Except.pure]
  cases commandOutputs (fun _ => .ok ()) commands rest <;> rfl

theorem sessionOutputs_of_greeting {commands : List (List Char)} {arrivals rest : List Arrival}
    {greeting : List Char} (h : waitForSftpPrompt [] arrivals = .ok (greeting, rest)) :
    (sessionOutputs (fun _ => .ok ()) commands arrivals).map Prod.snd =
      commandOutputs (fun _ => .ok ()) commands rest := by
  simp only [sessionOutputs, h, bind, Except.bind, pure, Except.pure]
  cases commandOutputs (fun _ => .ok ()) commands rest <;> rfl

theorem commandOutputs_of_aligned {exchanges : List Exchange} {events : List (List UInt8)}
    (hplain : ∀ e ∈ exchanges, Plain e.command)
    (haligned : Aligned (exchanges.map Exchange.bytes) events) :
    commandOutputs (fun _ => .ok ()) (exchanges.map Exchange.command) (events.map .output) =
      .ok (exchanges.map fun e => shown e.output) := by
  induction exchanges generalizing events with
  | nil => rfl
  | cons e exchanges ih =>
    obtain ⟨group, rest, rfl, hquiet, ⟨blank, hgroup, -⟩, haligned⟩ := haligned
    obtain ⟨hne, htrim⟩ := hplain e List.mem_cons_self
    have hbody := beforeLast_piece e.heard_bytes blank
    rw [← hgroup] at hbody
    have hwait := waitForSftpPrompt_of_quiet (interactiveCommand e.command) hquiet hbody rest
    rw [htrim, Exchange.text, withoutEcho_plain hne htrim] at hwait
    rw [List.map_cons, commandOutputs_cons hwait,
      ih (fun e he => hplain e (List.mem_cons_of_mem _ he)) haligned]
    rfl

variable {t : Transcript} {events : List (List UInt8)}

theorem Transcript.Settled.attributed (h : t.Settled events) : t.Attributed events := by
  obtain ⟨hplain, group, rest, rfl, hquiet, ⟨blank, hgroup, -⟩, haligned⟩ := h
  have hbody := beforeLast_piece (heard_outputLines t.outputLines) blank
  rw [← hgroup] at hbody
  rw [Transcript.Attributed,
    sessionOutputs_of_greeting (waitForSftpPrompt_of_quiet [] hquiet hbody rest)]
  exact commandOutputs_of_aligned hplain haligned

end Settled

/-! ## Late blanks -/

section Late

/-- A blank in front keeps the echo from being found. -/
theorem withoutEcho_blank (command body : List Char) :
    withoutEcho (trim isWhitespace command) (' ' :: body) = ' ' :: body := by
  cases htrim : trim isWhitespace command with
  | nil => exact if_pos rfl
  | cons c echo =>
    have hc : c ≠ ' ' := by
      rintro rfl
      exact absurd (not_space_of_trim htrim) (by decide)
    have hprefix : ¬ c :: echo ++ ['
'] <+: ' ' :: body := fun h =>
      hc (List.cons_prefix_cons.mp h).1
    have hne : ' ' :: body ≠ c :: echo := fun h => hc (List.cons.inj h).1.symm
    have hdrop : (' ' :: body).dropWhile (· == '
') = ' ' :: body :=
      List.dropWhile_cons_of_neg (by decide)
    rw [withoutEcho, if_neg (List.cons_ne_nil _ _), hdrop, if_neg hprefix, if_neg hne]

theorem quiet_singleton (bytes : List UInt8) : Quiet [bytes] := by
  have hquiet : Quiet ([] ++ [bytes]) := quiet_of_unmarked (by decide) bytes
  exact hquiet

/-- A wait that finds a prompt in the first event. -/
theorem waitForSftpPrompt_cons (pendingCommand : List Char) {body : List Char} {bytes : List UInt8}
    (h : beforeLast promptMark (heard bytes) = some body) (rest : List (List UInt8)) :
    waitForSftpPrompt pendingCommand ((bytes :: rest).map .output) =
      .ok (withoutEcho (trim isWhitespace pendingCommand) body, rest.map .output) := by
  have hbody : beforeLast promptMark (heard [bytes].flatten) = some body := by
    rwa [List.flatten_singleton]
  exact waitForSftpPrompt_of_quiet pendingCommand (quiet_singleton bytes) hbody rest

/-- The first command is given its echo where the first prompt has been cut before its blank. -/
theorem exists_not_attributed {t : Transcript} (h : t.exchanges ≠ []) :
    ∃ events, t.CutInto events ∧ ¬ t.Attributed events := by
  obtain ⟨e, exchanges, hexchanges⟩ := List.exists_cons_of_ne_nil h
  let first := t.greeting ++ promptBytes ++ blankIf false
  let second := blankIf true ++ e.bytes ++ promptBytes ++ blankIf true
  let rest := exchanges.map fun e => e.bytes ++ promptBytes ++ blankIf true
  refine ⟨first :: second :: rest, ⟨?_, ?_⟩, ?_⟩
  · simp [first, second, rest, Transcript.bytes, Transcript.pieces, hexchanges, blankIf,
      List.flatMap, Function.comp_def]
  · simp [first, second, rest, promptBytes, asciiBytes]
  · have hgreeting := waitForSftpPrompt_cons []
      (beforeLast_piece (heard_outputLines t.outputLines) false) (second :: rest)
    have hheard (tail : List UInt8) : heard (blankIf true ++ e.bytes ++ tail) =
        ' ' :: e.text ++ heard tail := by
      rw [List.append_assoc, heard_append (by decide), e.heard_bytes]
      rfl
    have hsecond := waitForSftpPrompt_cons (interactiveCommand e.command)
      (beforeLast_piece hheard true) rest
    rw [withoutEcho_blank] at hsecond
    intro hattributed
    have hcommands := (sessionOutputs_of_greeting hgreeting).symm.trans hattributed
    rw [hexchanges, List.map_cons] at hcommands
    have houtputs := (commandOutputs_cons hsecond).symm.trans hcommands
    cases hrest : commandOutputs (fun _ => .ok ()) (exchanges.map Exchange.command)
      (rest.map .output) with
    | error message =>
      rw [hrest] at houtputs
      cases houtputs
    | ok outputs =>
      rw [hrest] at houtputs
      obtain ⟨hhead, -⟩ := List.cons.inj (Except.ok.inj houtputs)
      have hlength := congrArg List.length hhead
      simp [Exchange.text] at hlength
      omega

end Late

/-! ## Marks inside a line -/

section Marks
variable {line output body after : List Char}

theorem newline_not_mem_mark : '\n' ∉ promptMark := by decide

theorem eq_nil_of_prompt {earlier : List Char}
    (h : "sftp> ".toList = earlier ++ (promptMark ++ after)) : earlier = [] := by
  cases earlier with
  | nil => rfl
  | cons c earlier =>
    have hcons : ['s', 'f', 't', 'p', '>', ' '] = c :: (earlier ++ (promptMark ++ after)) := h
    obtain ⟨-, htail⟩ := List.cons.inj hcons
    have hoccurs : promptMark <:+: ['f', 't', 'p', '>', ' '] :=
      ⟨earlier, after, (List.append_assoc _ _ _).trans htail.symm⟩
    exact absurd hoccurs (by decide)

/-- Where a mark stands in a piece: at its prompt, in its output or in the line of its echo. -/
theorem body_cases (hout : output = [] ∨ ∃ text, output = text ++ ['\n'])
    (h : body ++ (promptMark ++ after) = line ++ '\n' :: (output ++ "sftp> ".toList)) :
    body = line ++ '\n' :: output ∨
      (∃ o rest, body = line ++ '\n' :: o ∧ output = o ++ (promptMark ++ rest)) ∨
      ∃ rest, line = body ++ (promptMark ++ rest) := by
  have hsplit : line ++ '\n' :: (output ++ "sftp> ".toList) =
      line ++ ['\n'] ++ (output ++ "sftp> ".toList) := by simp
  rw [hsplit] at h
  rcases LastPlace.occurrence_cases newline_not_mem_mark (.inr ⟨line, rfl⟩) h with
    ⟨rest, hrest⟩ | ⟨o, rfl, htail⟩
  · right; right
    rcases List.eq_nil_or_concat rest with rfl | ⟨rest, c, rfl⟩
    · have hmark : promptMark = "sftp".toList ++ ['>'] := rfl
      rw [List.append_nil, hmark, ← List.append_assoc] at hrest
      obtain ⟨-, hlast⟩ := List.append_inj' hrest rfl
      cases hlast
    · rw [List.concat_eq_append, ← List.append_assoc, ← List.append_assoc] at hrest
      obtain ⟨hline, -⟩ := List.append_inj' hrest rfl
      exact ⟨rest, hline.trans (List.append_assoc _ _ _)⟩
  · rcases LastPlace.occurrence_cases newline_not_mem_mark hout htail.symm with
      ⟨rest, hrest⟩ | ⟨earlier, rfl, hprompt⟩
    · exact .inr (.inl ⟨o, rest, by simp, hrest⟩)
    · rw [eq_nil_of_prompt hprompt]
      exact .inl (by simp)

/-- A body with a line in front keeps all of it, unless that line is the echo. -/
theorem withoutEcho_line {echo : List Char} (hecho : '\n' ∉ echo) (hline : '\n' ∉ line)
    (hne : echo ≠ [] → line ≠ []) (output : List Char) :
    withoutEcho echo (line ++ '\n' :: output) =
      if echo ≠ [] ∧ echo = line then output else line ++ '\n' :: output := by
  by_cases hempty : echo = []
  · rw [withoutEcho, if_pos hempty, if_neg (fun h => h.1 hempty)]
  · obtain ⟨c, rest, hcons⟩ := List.exists_cons_of_ne_nil (hne hempty)
    subst hcons
    have hc : c ≠ '\n' := fun h => hline (h ▸ List.mem_cons_self)
    have hdrop : (c :: rest ++ '\n' :: output).dropWhile (· == '\n') =
        c :: rest ++ '\n' :: output :=
      List.dropWhile_cons_of_neg (by simpa using hc)
    have hsplit : c :: rest ++ '\n' :: output = c :: rest ++ ['\n'] ++ output := by simp
    rw [withoutEcho, if_neg hempty, hdrop]
    by_cases heq : echo = c :: rest
    · subst heq
      rw [if_pos (And.intro hempty rfl), hsplit, if_pos (List.prefix_append _ _)]
      exact List.drop_left' (by simp)
    · have hprefix : ¬ echo ++ ['\n'] <+: c :: rest ++ '\n' :: output := by
        rintro ⟨tail, htail⟩
        rw [List.append_assoc] at htail
        exact heq (LastPlace.line_eq hecho hline htail)
      have hwhole : c :: rest ++ '\n' :: output ≠ echo := by
        rintro rfl
        exact hecho (by simp)
      rw [if_neg hprefix, if_neg hwhole, if_neg (fun h => heq h.2)]

/-- Part of a line is kept, unless it is the echo itself. -/
theorem withoutEcho_inner {echo : List Char} (hbody : '\n' ∉ body) :
    withoutEcho echo body = if echo ≠ [] ∧ body = echo then [] else body := by
  by_cases hempty : echo = []
  · rw [withoutEcho, if_pos hempty, if_neg (fun h => h.1 hempty)]
  · have hdrop : body.dropWhile (· == '\n') = body := by
      cases body with
      | nil => rfl
      | cons c body => exact List.dropWhile_cons_of_neg (by simpa using Ne.symm (List.ne_of_not_mem_cons hbody))
    have hprefix : ¬ echo ++ ['\n'] <+: body := fun h => hbody (h.subset (by simp))
    rw [withoutEcho, if_neg hempty, hdrop, if_neg hprefix]
    by_cases heq : body = echo
    · rw [if_pos heq, if_pos (And.intro hempty heq)]
    · rw [if_neg heq, if_neg (fun h => heq h.2)]

theorem filter_trim (p : Char → Bool) (s : List Char) :
    (trim p s).filter (fun c => !p c) = s.filter fun c => !p c := by
  rw [← JoinedWords.flatten_words, RecordFile.words_trim, JoinedWords.flatten_words]

/-- No mark follows what a line keeps of white space at its ends. -/
theorem trim_append_mark_ne (s rest : List Char) :
    trim isWhitespace s ++ (promptMark ++ rest) ≠ s := by
  intro h
  have hfilter := congrArg (fun s => (s.filter fun c => !isWhitespace c).length) h
  have hmark : (promptMark.filter fun c => !isWhitespace c).length = 5 := by decide
  simp only [List.filter_append, List.length_append, filter_trim, hmark] at hfilter
  omega

/-- The blank that came late. -/
def lead (late : Bool) : List Char := if late then [' '] else []

/-- A command is given its output in one case only: the blank was not late, the command is plain
and the mark is that of the prompt. -/
theorem eq_of_output {command : List Char} {late : Bool} (hline : '\n' ∉ command)
    (hmark : ¬ promptMark <+: command) (hout : output = [] ∨ ∃ text, output = text ++ ['\n'])
    (htext : body ++ (promptMark ++ after) =
      lead late ++ command ++ '\n' :: (output ++ "sftp> ".toList))
    (hresult : withoutEcho (trim isWhitespace command) body = output) :
    late = false ∧ (command ≠ [] ∧ trim isWhitespace command = command) ∧
      body = command ++ '\n' :: output := by
  have hecho : '\n' ∉ trim isWhitespace command := fun h => hline (RecordFile.mem_of_mem_trim _ h)
  have hlead : trim isWhitespace command ≠ lead true ++ command := fun h =>
    absurd (not_space_of_trim h) (by decide)
  have hline' : '\n' ∉ lead late ++ command := by
    cases late <;> simpa [lead] using hline
  have hmark' : ¬ promptMark <+: lead late ++ command := by
    cases late with
    | false => exact hmark
    | true => exact fun h => absurd (List.cons_prefix_cons.mp h).1 (by decide)
  have hne : trim isWhitespace command ≠ [] → lead late ++ command ≠ [] := by
    intro hecho hempty
    obtain ⟨-, rfl⟩ := List.append_eq_nil_iff.mp hempty
    exact hecho rfl
  rcases body_cases hout htext with rfl | ⟨o, rest, rfl, hrest⟩ | ⟨rest, hrest⟩
  · rw [withoutEcho_line hecho hline' hne] at hresult
    split_ifs at hresult with hwhole
    · obtain ⟨hecho, heq⟩ := hwhole
      cases late with
      | true => exact absurd heq hlead
      | false => exact ⟨rfl, ⟨fun h => hecho (by rw [h]; rfl), heq⟩, rfl⟩
    · have hlength := congrArg List.length hresult
      simp at hlength
      omega
  · rw [withoutEcho_line hecho hline' hne] at hresult
    exfalso
    split_ifs at hresult with hwhole
    · have hlength := congrArg List.length (hresult.trans hrest)
      simp [promptMark] at hlength
    · obtain ⟨text, htext⟩ : ∃ text, promptMark ++ rest = text ++ ['\n'] := by
        rcases hout with hempty | ⟨text, hend⟩
        · rw [hempty] at hrest
          simp [promptMark] at hrest
        · have hsuffix : promptMark ++ rest <:+ text ++ ['\n'] := ⟨o, hrest.symm.trans hend⟩
          rcases List.suffix_concat_iff.mp hsuffix with hnil | ⟨text, htext, -⟩
          · simp [promptMark] at hnil
          · exact ⟨text, htext⟩
      have hshift : lead late ++ command ++ ['\n'] ++ o = o ++ (promptMark ++ rest) := by
        rw [← hrest, ← hresult]
        simp
      have heq := LastPlace.line_eq_of_shift hline' ⟨text, htext⟩ hshift
      rcases List.prefix_concat_iff.mp ⟨rest, heq⟩ with hwhole' | hprefix
      · exact newline_not_mem_mark (hwhole' ▸ by simp)
      · exact hmark' hprefix
  · exfalso
    have hbody : '\n' ∉ body := fun h => hline' (hrest ▸ List.mem_append_left _ h)
    rw [withoutEcho_inner hbody] at hresult
    split_ifs at hresult with hwhole
    · rw [hwhole.2] at hrest
      cases late with
      | false => exact trim_append_mark_ne _ _ hrest.symm
      | true =>
        obtain ⟨c, echo, hcons⟩ := List.exists_cons_of_ne_nil hwhole.1
        rw [hcons] at hrest
        obtain ⟨rfl, -⟩ := List.cons.inj hrest
        exact absurd (not_space_of_trim hcons) (by decide)
    · obtain rfl : body = [] := by
        rcases hout with rfl | ⟨text, rfl⟩
        · exact hresult
        · rw [hresult] at hbody
          exact absurd (by simp) hbody
      exact hmark' ⟨rest, hrest.symm⟩

end Marks

/-! ## Parted cuts -/

section Parted
variable {base taken tail : List UInt8} {text body : List Char}
  {group rest first later : List (List UInt8)}

theorem heard_prompt_begins (blank : Bool) :
    heard (promptBytes ++ blankIf blank) <+: "sftp> ".toList := by
  cases blank <;> decide

/-- A wait ends inside the events that bring the next prompt, at a mark that stands in the text
of the piece or is that of the prompt. -/
theorem exists_first_wait (rest : List (List UInt8))
    (h : ∀ tail, heard (base ++ tail) = text ++ heard tail) {blank : Bool}
    (hgroup : group.flatten = base ++ (promptBytes ++ blankIf blank)) :
    ∃ first later body, group ++ rest = first ++ later ∧ Quiet first ∧ first <+: group ∧
      beforeLast promptMark (heard first.flatten) = some body ∧
      ∃ after, body ++ (promptMark ++ after) = text ++ "sftp> ".toList := by
  have hheard : heard group.flatten = text ++ heard (promptBytes ++ blankIf blank) := by
    rw [hgroup, h]
  have hmarked : promptMark <:+: shown group.flatten := by
    obtain ⟨tail, htail, hprefix, -⟩ := heard_prompt blank
    rw [marked_shown_iff, hheard, htail]
    exact hprefix.isInfix.trans (List.suffix_append _ _).isInfix
  obtain ⟨first, later, rfl, hquiet, hmark⟩ := exists_quiet hmarked
  rw [marked_shown_iff] at hmark
  cases hbody : beforeLast promptMark (heard first.flatten) with
  | none => exact absurd hmark (LastPlace.beforeLast_eq_none_iff.mp hbody)
  | some body =>
    refine ⟨first, later ++ rest, body, List.append_assoc _ _ _, hquiet,
      List.prefix_append _ _, hbody, ?_⟩
    obtain ⟨after, hafter⟩ := LastPlace.eq_of_beforeLast hbody
    have hprefix : heard first.flatten <+: text ++ "sftp> ".toList := by
      refine List.IsPrefix.trans ?_ (List.prefix_append_right_inj _ |>.mpr (heard_prompt_begins blank))
      rw [← hheard, List.flatten_append]
      exact heard_prefix_append _ _
    obtain ⟨last, hlast⟩ := hprefix
    refine ⟨after ++ last, ?_⟩
    rw [← hlast, hafter]
    simp

/-- Bytes in which the prompt of a piece was heard hold its mark. -/
theorem exists_extra (h : ∀ tail, heard (base ++ tail) = text ++ heard tail)
    (htaken : taken <+: base ++ promptBytes ++ tail) (hheard : text ++ promptMark <+: heard taken) :
    ∃ extra, taken = base ++ promptBytes ++ extra ∧ extra <+: tail := by
  rcases List.prefix_or_prefix_of_prefix htaken (List.prefix_append (base ++ promptBytes) tail) with
    hshort | ⟨extra, rfl⟩
  · have hsplit : base ++ promptBytes = base ++ asciiBytes "sftp" ++ [0x3E] := by
      rw [List.append_assoc]
      rfl
    rw [hsplit] at hshort
    rcases List.prefix_concat_iff.mp hshort with heq | ⟨rest, hrest⟩
    · exact ⟨[], by rw [heq, hsplit, List.append_nil], List.nil_prefix⟩
    · have hfour : (heard (asciiBytes "sftp")).length = 4 := by decide
      have hfive : promptMark.length = 5 := by decide
      have hlong := (hheard.trans (heard_prefix_append taken rest)).length_le
      rw [hrest, h, List.length_append, List.length_append, hfour, hfive] at hlong
      omega
  · exact ⟨extra, rfl, (List.prefix_append_right_inj _).mp htaken⟩

theorem parted_blank {pieces : List (List UInt8)} (hparted : Parted false pieces rest)
    (hfirst : first.flatten = blankIf true) : Parted true pieces (first ++ rest) := by
  cases pieces with
  | nil =>
    have hrest : rest.flatten = blankIf false := hparted
    rw [Parted, List.flatten_append, hfirst, hrest]
    rfl
  | cons piece pieces =>
    obtain ⟨group, rest, after, rfl, hgroup, hparted⟩ := hparted
    refine ⟨first ++ group, rest, after, (List.append_assoc _ _ _).symm, ?_, hparted⟩
    rw [List.flatten_append, hfirst, hgroup]
    rfl

/-- What is left behind the mark is parted again. -/
theorem parted_later {pieces : List (List UInt8)} {after : Bool} {extra : List UInt8}
    (hne : [] ∉ group) (hgroup : group.flatten = base ++ promptBytes ++ blankIf !after)
    (hfirst : first.flatten = base ++ promptBytes ++ extra) (hsplit : group = first ++ later)
    (hparted : Parted after pieces rest) :
    ∃ after', first.flatten = base ++ promptBytes ++ blankIf !after' ∧
      Parted after' pieces (later ++ rest) := by
  have hlater : extra ++ later.flatten = blankIf !after := by
    rw [hsplit, List.flatten_append, hfirst, List.append_assoc] at hgroup
    exact List.append_cancel_left hgroup
  have hnil (h : later.flatten = []) : later = [] := by
    cases later with
    | nil => rfl
    | cons bytes later =>
      obtain ⟨rfl, -⟩ := List.append_eq_nil_iff.mp h
      exact absurd (hsplit ▸ by simp) hne
  cases extra with
  | nil =>
    cases after with
    | true =>
      rw [hnil hlater]
      exact ⟨true, hfirst, hparted⟩
    | false => exact ⟨true, hfirst, parted_blank hparted hlater⟩
  | cons b extra =>
    cases after with
    | true => cases hlater
    | false =>
      obtain ⟨rfl, hrest⟩ := List.cons.inj hlater
      obtain ⟨rfl, hempty⟩ := List.append_eq_nil_iff.mp hrest
      rw [hnil hempty]
      exact ⟨false, hfirst, hparted⟩

/-- Bytes that may begin with the blank of the prompt before. -/
theorem heard_late (late : Bool) (e : Exchange) (tail : List UInt8) :
    heard (blankIf late ++ e.bytes ++ tail) = lead late ++ e.text ++ heard tail := by
  have hidle : (feed none (blankIf late)).2 = none := by cases late <;> decide
  have hlead : heard (blankIf late) = lead late := by cases late <;> decide
  rw [List.append_assoc, heard_append hidle, hlead, e.heard_bytes, List.append_assoc]

theorem aligned_of_outputs {exchanges : List Exchange} {late : Bool} {events : List (List UInt8)}
    (hline : ∀ e ∈ exchanges, OneLine e.command) (hne : [] ∉ events)
    (hparted : Parted late (exchanges.map Exchange.bytes) events)
    (houtputs : commandOutputs (fun _ => .ok ()) (exchanges.map Exchange.command)
      (events.map .output) = .ok (exchanges.map fun e => shown e.output)) :
    (exchanges ≠ [] → late = false) ∧ (∀ e ∈ exchanges, Plain e.command) ∧
      Aligned (exchanges.map Exchange.bytes) events := by
  induction exchanges generalizing late events with
  | nil => exact ⟨fun h => absurd rfl h, nofun, trivial⟩
  | cons e exchanges ih =>
    obtain ⟨group, rest, after, rfl, hgroup, hparted⟩ := hparted
    rw [List.append_assoc e.bytes, ← List.append_assoc] at hgroup
    obtain ⟨first, later, body, heq, hquiet, ⟨more, rfl⟩, hbody, last, htext⟩ :=
      exists_first_wait rest (heard_late late e) hgroup
    obtain rfl : later = more ++ rest := by
      rw [List.append_assoc] at heq
      exact (List.append_cancel_left heq).symm
    obtain ⟨hone, hmark⟩ := hline e List.mem_cons_self
    rw [heq, List.map_cons,
      commandOutputs_cons (waitForSftpPrompt_of_quiet _ hquiet hbody (more ++ rest))] at houtputs
    cases hlater : commandOutputs (fun _ => .ok ()) (exchanges.map Exchange.command)
      ((more ++ rest).map .output) with
    | error message =>
      rw [hlater] at houtputs
      cases houtputs
    | ok outputs =>
      rw [hlater] at houtputs
      obtain ⟨hresult, rfl⟩ := List.cons.inj (Except.ok.inj houtputs)
      have hpiece : body ++ (promptMark ++ last) = lead late ++ interactiveCommand e.command ++
          '\n' :: (shown e.output ++ "sftp> ".toList) := by
        rw [htext, Exchange.text]
        simp
      obtain ⟨rfl, hplain, rfl⟩ :=
        eq_of_output hone hmark e.outputLines.complete hpiece hresult
      obtain ⟨behind, hbehind⟩ := LastPlace.eq_of_beforeLast hbody
      have htaken : first.flatten <+: e.bytes ++ promptBytes ++ blankIf !after := by
        rw [List.flatten_append] at hgroup
        exact ⟨more.flatten, hgroup.trans (List.append_assoc _ _ _).symm⟩
      obtain ⟨extra, hextra, -⟩ := exists_extra e.heard_bytes htaken
        ⟨behind, by rw [hbehind, List.append_assoc]; rfl⟩
      obtain ⟨after', hfirst, hparted⟩ := parted_later (fun h => hne (List.mem_append_left _ h))
        (hgroup.trans (List.append_assoc _ _ _).symm) hextra rfl hparted
      obtain ⟨hlate, hplains, haligned⟩ := ih (fun e he => hline e (List.mem_cons_of_mem _ he))
        (fun h => hne (by rw [heq]; exact List.mem_append_right _ h)) hparted hlater
      refine ⟨fun _ => rfl, List.forall_mem_cons.mpr ⟨hplain, hplains⟩, first, more ++ rest, heq,
        hquiet, ⟨!after', hfirst, fun h => ?_⟩, haligned⟩
      rw [hlate (by simpa using h)]
      rfl

theorem Transcript.Attributed.settled {t : Transcript} {events : List (List UInt8)}
    (h : t.Attributed events) (hne : [] ∉ events) (hprompted : t.Prompted events) :
    t.Settled events := by
  obtain ⟨hline, hgreeting, group, rest, after, rfl, hgroup, hparted⟩ := hprompted
  have hgroup' : group.flatten = t.greeting ++ (promptBytes ++ blankIf !after) :=
    hgroup.trans (List.append_assoc _ _ _)
  obtain ⟨first, later, body, heq, hquiet, ⟨more, rfl⟩, hbody, last, htext⟩ :=
    exists_first_wait rest (heard_outputLines t.outputLines) hgroup'
  obtain rfl : later = more ++ rest := by
    rw [List.append_assoc] at heq
    exact (List.append_cancel_left heq).symm
  obtain rfl : body = shown t.greeting := by
    rcases LastPlace.occurrence_cases newline_not_mem_mark t.outputLines.complete htext with
      ⟨rest, hrest⟩ | ⟨earlier, rfl, hprompt⟩
    · exact absurd ⟨body, rest, (List.append_assoc _ _ _).trans hrest.symm⟩ hgreeting
    · rw [eq_nil_of_prompt hprompt, List.append_nil]
  obtain ⟨behind, hbehind⟩ := LastPlace.eq_of_beforeLast hbody
  have htaken : first.flatten <+: t.greeting ++ promptBytes ++ blankIf !after := by
    rw [List.flatten_append] at hgroup'
    exact ⟨more.flatten, hgroup'.trans (List.append_assoc _ _ _).symm⟩
  obtain ⟨extra, hextra, -⟩ := exists_extra (heard_outputLines t.outputLines) htaken
    ⟨behind, by rw [hbehind, List.append_assoc]⟩
  obtain ⟨after', hfirst, hparted⟩ := parted_later (fun h => hne (List.mem_append_left _ h)) hgroup hextra rfl
    hparted
  have hwait := waitForSftpPrompt_of_quiet [] hquiet hbody (more ++ rest)
  rw [Transcript.Attributed, heq, sessionOutputs_of_greeting hwait] at h
  obtain ⟨hlate, hplain, haligned⟩ := aligned_of_outputs hline
    (fun h => hne (by rw [heq]; exact List.mem_append_right _ h)) hparted h
  refine ⟨hplain, first, more ++ rest, heq, hquiet, ⟨!after', hfirst, fun h => ?_⟩, haligned⟩
  rw [hlate (by simpa using h)]
  rfl

/-- Without commands there is nothing to be attributed. -/
theorem Transcript.CutInto.attributed_of_nil {t : Transcript} {events : List (List UInt8)}
    (h : t.CutInto events) (hnil : t.exchanges = []) : t.Attributed events := by
  have hbytes : events.flatten = t.greeting ++ (promptBytes ++ blankIf true) := by
    rw [h.1, Transcript.bytes, Transcript.pieces, hnil]
    simp
  obtain ⟨first, later, body, heq, hquiet, -, hbody, -⟩ :=
    exists_first_wait [] (heard_outputLines t.outputLines) hbytes
  rw [List.append_nil] at heq
  rw [Transcript.Attributed, heq, hnil,
    sessionOutputs_of_greeting (waitForSftpPrompt_of_quiet [] hquiet hbody later)]
  rfl

end Parted

/-- Every settled cut is attributed; the cuts of a transcript all are only when it holds no
command; and where the client prints the echo of a command when the mark in front of it has been
read, the settled cuts are all that are. -/
theorem attributed_iff (t : Transcript) :
    (∀ events, t.CutInto events → t.Settled events → t.Attributed events) ∧
      ((∀ events, t.CutInto events → t.Attributed events) ↔ t.exchanges = []) ∧
      ∀ events, t.CutInto events → t.Prompted events →
        (t.Attributed events ↔ t.Settled events) := by
  refine ⟨fun events _ hsettled => hsettled.attributed, ⟨fun h => ?_, fun hnil events hcut => ?_⟩,
    fun events hcut hprompted => ⟨fun h => ?_, fun h => ?_⟩⟩
  · by_contra hne
    obtain ⟨events, hcut, hnot⟩ := exists_not_attributed hne
    exact hnot (h events hcut)
  · exact hcut.attributed_of_nil hnil
  · exact h.settled hcut.2 hprompted
  · exact h.attributed

/-- A directory with a file `a sftp> b`. -/
def nameListing : Transcript where
  greeting := []
  outputLines := ⟨.inl rfl, by decide +kernel⟩
  exchanges :=
    [{ command := "@ls -la \x22/\x22".toList
       echo := asciiBytes "ls -la \x22/\x22\r\n"
       output := asciiBytes "-rw-r--r-- 1 me me 0 Jan 1 10:00 a sftp> b\r\n"
       echoed := by decide +kernel
       outputLines := ⟨.inr ⟨"-rw-r--r-- 1 me me 0 Jan 1 10:00 a sftp> b".toList,
         by decide +kernel⟩, by decide +kernel⟩ }]

def cutInName : List (List UInt8) :=
  [asciiBytes "sftp> ",
    asciiBytes "ls -la \x22/\x22\r\n-rw-r--r-- 1 me me 0 Jan 1 10:00 a sftp>",
    asciiBytes " b\r\nsftp> "]

/-- The command is given the listing up to the mark in the name. -/
theorem not_attributed_cutInName :
    nameListing.CutInto cutInName ∧ ¬ nameListing.Attributed cutInName := by
  have houtputs : sessionOutputs (fun _ => .ok ()) ["@ls -la \x22/\x22".toList]
      (cutInName.map .output) =
        .ok ([], ["-rw-r--r-- 1 me me 0 Jan 1 10:00 a ".toList]) := by
    decide +kernel
  refine ⟨⟨by decide +kernel, by decide +kernel⟩, fun h => ?_⟩
  have heq := (congrArg (Except.map Prod.snd) houtputs).symm.trans h
  exact absurd heq (by decide +kernel)

theorem attributed_iff_nameListing :
    nameListing.Attributed [asciiBytes "sftp> ",
      asciiBytes "ls -la \x22/\x22\r\n-rw-r--r-- 1 me me 0 Jan 1 10:00 a sftp> b\r\nsftp> "] := by
  refine (attributed_iff nameListing).1 _ ⟨by decide +kernel, by decide +kernel⟩ ⟨?_, ?_⟩
  · rintro e he
    obtain rfl := List.mem_singleton.mp he
    exact ⟨by decide +kernel, by decide +kernel⟩
  · refine ⟨[asciiBytes "sftp> "], _, rfl, quiet_singleton _,
      ⟨true, by decide +kernel, fun _ => rfl⟩, ?_⟩
    exact ⟨[_], [], rfl, quiet_singleton _, ⟨true, by decide +kernel, fun _ => rfl⟩, trivial⟩

end NativeTransport
