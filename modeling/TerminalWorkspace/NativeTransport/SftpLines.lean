import TerminalWorkspace.NativeTransport.ConfigMeaning
import TerminalWorkspace.NativeTransport.SftpCommands

/-! When `sftp` reads one command for a request. -/
namespace NativeTransport
open QuotedWords

/-- The words of a command: white space separates them outside double quotes, and a backslash
inside takes the next character as it is. -/
def sftp : Quoting Char where
  space c := c ∈ [' ', '\t', '\n', '\x0b', '\x0c', '\r']
  quote := '\x22'
  comment _ := false
  escape c := c = '\\'

/-- The characters at which the terminal ends a line, `\n` among them and none that is printed. -/
structure Terminal where
  ends : Char → Bool
  newline : ends '\n' = true
  printed : ∀ c : Char, 0x20 ≤ c.toNat → c.toNat < 0x7F → ends c = false

def readCommands : List (List Char) → Option (List (List (List UInt8)))
  | [] => some []
  | line :: rest => do
    let lineWords ← words sftp .between line
    let commands ← readCommands rest
    return lineWords.map Utf8.encode :: commands

/-- What the lines say that are complete. -/
def Terminal.commands (terminal : Terminal) (text : List Char) :
    Option (List (List (List UInt8))) :=
  readCommands (text.splitOnP terminal.ends).dropLast

/-- A value that does not end a line. -/
def Terminal.Passes (terminal : Terminal) (value : WrittenValue) : Prop :=
  value.Is fun text => ∀ c ∈ text, terminal.ends c = false

namespace SftpRequest
variable (request : SftpRequest) (sessionDir : OsPath)

def verb : List (List Char) :=
  match request.operation with
  | .listDirectory _ => ["ls".toList, "-la".toList]
  | .createDirectory _ => ["mkdir".toList]
  | .renameEntry _ _ => ["rename".toList]
  | .deleteEntry _ isDirectory => [(if isDirectory then "rmdir" else "rm").toList]
  | .uploadFile _ _ _ => ["put".toList]
  | .downloadFile _ => ["get".toList]

/-- The resolved paths that the command is about. -/
def operands : List WrittenValue :=
  match request.operation with
  | .listDirectory path | .createDirectory path | .deleteEntry path _ =>
    [.text (request.targetPath path)]
  | .renameEntry currentPath nextPath =>
    [.text (request.targetPath currentPath), .text (request.targetPath nextPath)]
  | .uploadFile path filename _ =>
    [.path (uploadPath sessionDir filename), .text (request.targetPath path)]
  | .downloadFile path =>
    [.text (request.targetPath path), .path (downloadPath sessionDir (request.targetPath path))]

/-- The commands of a session: the one of the operation, and the end. -/
def meant : List (List (List UInt8)) :=
  [request.verb.map Utf8.encode ++ (request.operands sessionDir).map WrittenValue.intended,
    [Utf8.encode "bye".toList]]

/-- Nothing is written, or the commands that are meant, as far as `sftp` asks for them. -/
def WritesWhatIsMeant (backend : SftpBackend) (terminal : Terminal) (prompts : ℕ) : Prop :=
  request.writtenText backend prompts = [] ∨
    ∃ sessionDir, request.accept backend = .ok sessionDir ∧
      terminal.commands (request.writtenText backend prompts) =
        some ((request.meant sessionDir).take prompts)

end SftpRequest

section Format

theorem escapeSftpArgument_eq (value : List Char) :
    escapeSftpArgument value = quotedText sftp '\\' value := by
  have hescaped : ∀ c, replaceChar '\x22' ['\\', '\x22'] (if c = '\\' then ['\\', '\\'] else [c]) =
      escaped sftp '\\' c := by
    intro c
    by_cases hslash : c = '\\'
    · subst hslash
      rfl
    · by_cases hquote : c = '\x22'
      · subst hquote
        rfl
      · simp [replaceChar, escaped, sftp, hslash, hquote]
  rw [escapeSftpArgument, quotedText]
  congr 2
  rw [replaceChar, replaceChar, List.flatMap_assoc]
  exact List.flatMap_congr fun c _ => hescaped c

variable (request : SftpRequest) (sessionDir : OsPath)

/-- Every command is a verb and its quoted operands. -/
theorem dropWhile_command : (request.command sessionDir).dropWhile (· == '@') =
    List.intercalate [' '] request.verb ++ (request.operands sessionDir).flatMap fun operand =>
      ' ' :: quotedText sftp '\\' operand.written := by
  simp only [SftpRequest.command, SftpRequest.verb, SftpRequest.operands, escapeSftpArgument_eq]
  cases request.operation with
  | listDirectory path => simp [WrittenValue.written]
  | createDirectory path => simp [WrittenValue.written]
  | renameEntry currentPath nextPath => simp [WrittenValue.written]
  | deleteEntry path isDirectory => cases isDirectory <;> simp [WrittenValue.written]
  | uploadFile path filename contentsBase64 => simp [WrittenValue.written]
  | downloadFile path => simp [WrittenValue.written]

def sftpWords : List (List Char) :=
  ["ls", "-la", "mkdir", "rename", "rmdir", "rm", "put", "get"].map String.toList

theorem sftpWords_bare : ∀ word ∈ sftpWords, Bare sftp word := by decide

theorem sftpWords_printed : ∀ word ∈ sftpWords, ∀ c ∈ word,
    0x20 ≤ c.toNat ∧ c.toNat < 0x7F := by
  simp [sftpWords]

theorem mem_sftpWords : request.verb ≠ [] ∧ ∀ word ∈ request.verb, word ∈ sftpWords := by
  unfold SftpRequest.verb
  cases request.operation with
  | deleteEntry path isDirectory => cases isDirectory <;> simp [sftpWords]
  | listDirectory | createDirectory | renameEntry | uploadFile | downloadFile =>
    simp [sftpWords]

/-- The line of the command is read as its verb and what was written for its operands. -/
theorem words_command_line :
    words sftp .between ((request.command sessionDir).dropWhile (· == '@')) =
      some (request.verb ++ (request.operands sessionDir).map WrittenValue.written) := by
  obtain ⟨hverb, hmem⟩ := mem_sftpWords request
  have hbare : ∀ word ∈ request.verb, Bare sftp word := fun word hword =>
    sftpWords_bare word (hmem word hword)
  have h : words sftp .between (List.intercalate [' '] request.verb ++
      ((request.operands sessionDir).map WrittenValue.written).flatMap fun argument =>
        ' ' :: quotedText sftp '\\' argument) =
      some (request.verb ++ (request.operands sessionDir).map WrittenValue.written) :=
    words_command (by decide) (by decide) (by decide) (by decide) (by decide) hverb hbare _
  rwa [List.flatMap_map, ← dropWhile_command] at h

end Format

section Lines
variable {terminal : Terminal}

theorem Terminal.commands_line {line : List Char} (hline : ∀ c ∈ line, terminal.ends c = false)
    {lineWords : List (List Char)} (hwords : words sftp .between line = some lineWords)
    (rest : List Char) : terminal.commands (line ++ '\n' :: rest) =
      (terminal.commands rest).map (lineWords.map Utf8.encode :: ·) := by
  rw [Terminal.commands, List.splitOnP_append_cons_of_forall_mem hline '\n' terminal.newline,
    List.dropLast_cons_of_ne_nil (List.splitOnP_ne_nil _ _), readCommands, hwords,
    Terminal.commands]
  cases readCommands (rest.splitOnP terminal.ends).dropLast <;> rfl

/-- Where a command was read. -/
theorem mem_readCommands {lines : List (List Char)} {commands : List (List (List UInt8))}
    (h : readCommands lines = some commands) {command : List (List UInt8)}
    (hmem : command ∈ commands) : ∃ line ∈ lines, ∃ lineWords,
      words sftp .between line = some lineWords ∧ command = lineWords.map Utf8.encode := by
  induction lines generalizing commands with
  | nil =>
    cases h
    cases hmem
  | cons line lines ih =>
    obtain ⟨lineWords, hwords, h⟩ := Option.bind_eq_some_iff.mp h
    obtain ⟨rest, hrest, h⟩ := Option.bind_eq_some_iff.mp h
    cases h
    obtain rfl | hmem := List.mem_cons.mp hmem
    · exact ⟨line, List.mem_cons_self, lineWords, hwords, rfl⟩
    · obtain ⟨line, hline, hread⟩ := ih hrest hmem
      exact ⟨line, List.mem_cons_of_mem _ hline, hread⟩

/-- What is read has no character at which a line ends. -/
theorem passes_of_commands {text : List Char} {commands : List (List (List UInt8))}
    (h : terminal.commands text = some commands) {command : List (List UInt8)}
    (hmem : command ∈ commands) {value : WrittenValue} (hvalue : value.intended ∈ command) :
    terminal.Passes value := by
  obtain ⟨line, hline, lineWords, hwords, rfl⟩ := mem_readCommands h hmem
  obtain ⟨word, hword, hencode⟩ := List.mem_map.mp hvalue
  obtain ⟨-, hends⟩ := RecordFile.mem_splitOnP _ (List.mem_of_mem_dropLast hline)
  exact is_of_encode (fun c hc => hends c (mem_line_of_words hwords word hword c hc)) hencode

theorem Terminal.ends_quotedText {value : List Char} (h : ∀ c ∈ value, terminal.ends c = false) :
    ∀ c ∈ quotedText sftp '\\' value, terminal.ends c = false := by
  have hquote : terminal.ends '\x22' = false := terminal.printed _ (by decide) (by decide)
  have hslash : terminal.ends '\\' = false := terminal.printed _ (by decide) (by decide)
  have hescaped : ∀ c ∈ value.flatMap (escaped sftp '\\'), terminal.ends c = false := by
    intro c hc
    obtain ⟨d, hd, hc⟩ := List.mem_flatMap.mp hc
    unfold escaped at hc
    split at hc
    · obtain rfl | hc := List.mem_cons.mp hc
      · exact hslash
      · exact List.mem_singleton.mp hc ▸ h d hd
    · exact List.mem_singleton.mp hc ▸ h d hd
  rw [quotedText, List.forall_mem_cons, List.forall_mem_append, List.forall_mem_singleton]
  exact ⟨hquote, hescaped, hquote⟩

end Lines

section Requests
variable {terminal : Terminal} {request : SftpRequest} {sessionDir : OsPath}

theorem ends_command (h : ∀ operand ∈ request.operands sessionDir, terminal.Passes operand) :
    ∀ c ∈ (request.command sessionDir).dropWhile (· == '@'), terminal.ends c = false := by
  have hblank : terminal.ends ' ' = false := terminal.printed _ (by decide) (by decide)
  rw [dropWhile_command, List.forall_mem_append]
  constructor
  · intro c hc
    obtain hc | ⟨word, hword, hc⟩ := mem_intercalate hc
    · exact List.mem_singleton.mp hc ▸ hblank
    · have hprinted := sftpWords_printed word ((mem_sftpWords request).2 word hword) c hc
      exact terminal.printed c hprinted.1 hprinted.2
  · intro c hc
    obtain ⟨operand, hoperand, hc⟩ := List.mem_flatMap.mp hc
    obtain rfl | hc := List.mem_cons.mp hc
    · exact hblank
    · exact terminal.ends_quotedText (WrittenValue.Is.written (h operand hoperand)).1 c hc

theorem commands_bye (prompts : ℕ) : terminal.commands (sftpInput prompts []) =
    some ([[Utf8.encode "bye".toList]].take prompts) := by
  cases prompts with
  | zero => rfl
  | succ prompts =>
    have hbye : ∀ c ∈ "bye".toList, 0x20 ≤ c.toNat ∧ c.toNat < 0x7F := by simp
    have hwords : words sftp .between "bye".toList = some ["bye".toList] :=
      Bare.words_eq (by decide)
    have hline := terminal.commands_line
      (fun c hc => terminal.printed c (hbye c hc).1 (hbye c hc).2) hwords []
    rw [List.take_succ_cons, List.take_nil]
    exact hline

/-- What a session reads when no operand ends a line. -/
theorem commands_sftpInput (h : ∀ operand ∈ request.operands sessionDir, terminal.Passes operand)
    (prompts : ℕ) : terminal.commands (sftpInput prompts [request.command sessionDir]) =
      some ((request.meant sessionDir).take prompts) := by
  cases prompts with
  | zero => rfl
  | succ prompts =>
    have hintended : (request.operands sessionDir).map (Utf8.encode ∘ WrittenValue.written) =
        (request.operands sessionDir).map WrittenValue.intended :=
      List.map_congr_left fun operand hoperand =>
        (WrittenValue.Is.written (h operand hoperand)).2
    rw [sftpInput, terminal.commands_line (ends_command h) (words_command_line request sessionDir),
      commands_bye, SftpRequest.meant, List.take_succ_cons, List.map_append, List.map_map,
      hintended]
    rfl

/-- The command of the operation has every operand. -/
theorem passes_operands {prompts : ℕ}
    (h : terminal.commands (sftpInput (prompts + 1) [request.command sessionDir]) =
      some ((request.meant sessionDir).take (prompts + 1))) :
    ∀ operand ∈ request.operands sessionDir, terminal.Passes operand := by
  intro operand hoperand
  rw [SftpRequest.meant, List.take_succ_cons] at h
  exact passes_of_commands h List.mem_cons_self
    (List.mem_append_right _ (List.mem_map_of_mem hoperand))

end Requests

/-- A terminal in its usual mode. -/
def Terminal.cooked : Terminal where
  ends c := c = '\n' || c = '\r'
  newline := by decide
  printed c hlow _ := by
    have hnewline : c ≠ '\n' := by
      rintro rfl
      exact absurd hlow (by decide)
    have hreturn : c ≠ '\r' := by
      rintro rfl
      exact absurd hlow (by decide)
    simp [hnewline, hreturn]

def SftpBackend.ready : SftpBackend where
  decodeBase64 _ := .ok []
  openControlSession _ := .ok (Utf8.encode "/tmp/tw-ssh-0".toList)
  writeFile _ _ := .ok ()

def createRequest (path : String) : SftpRequest where
  host := directHost "example.org".toList "alice".toList
  operation := .createDirectory path.toList

end NativeTransport
