import TerminalWorkspace.Foundation.Runs
import TerminalWorkspace.NativeTransport.Connection

/-! The reader of a session's terminal: it passes the output on, and answers the prompts it
finds in the last bytes of it with the stored credentials. -/
namespace NativeTransport
open Runs

inductive PromptResponseKind where
  | passphrase
  | password
  deriving DecidableEq, Repr

structure PromptResponse where
  kind : PromptResponseKind
  value : List Char
  deriving DecidableEq, Repr

/-- The responses of one hop. -/
def hopResponses (connection : BackendHostConnection) : List PromptResponse :=
  (if connection.authMethod = "privateKey" ∧ connection.passphrase ≠ [] then
    [⟨.passphrase, connection.passphrase⟩] else []) ++
  (if connection.authMethod = "password" ∧ connection.password ≠ [] then
    [⟨.password, connection.password⟩] else [])

def buildPromptResponses (host : BackendHostConnection) : List PromptResponse :=
  (buildConnectionChain host).flatMap hopResponses

def asciiBytes (text : String) : List UInt8 := text.toList.map fun c => UInt8.ofNat c.toNat

def toAsciiLowercase (b : UInt8) : UInt8 := if 0x41 ≤ b ∧ b ≤ 0x5A then b + 0x20 else b

def containsAsciiSubslice (haystack needle : List UInt8) : Bool :=
  haystack.tails.any fun window => needle.isPrefixOf window

def detectPromptKind (buffer : List UInt8) : Option PromptResponseKind :=
  let lowercase := buffer.map toAsciiLowercase
  if containsAsciiSubslice lowercase (asciiBytes "passphrase for key") &&
      lowercase.contains 0x3A then some .passphrase
  else if containsAsciiSubslice lowercase (asciiBytes "password:") then some .password
  else none

/-- The first response of a kind, and the responses without it. -/
def takePromptResponse (responses : List PromptResponse) (kind : PromptResponseKind) :
    Option (PromptResponse × List PromptResponse) :=
  (responses.find? (·.kind == kind)).map fun response =>
    (response, responses.eraseP (·.kind == kind))

def promptWindowSize : ℕ := 512

inductive JumpSessionEvent where
  | output (bytes : List UInt8)
  | eof
  | error
  deriving DecidableEq, Repr

/-- How a `read` of the terminal returns. -/
inductive ReadResult where
  | bytes (output : List UInt8)
  | eof
  | error
  deriving DecidableEq, Repr

/-- The variables of the reader's thread, the responses it has tried to write, and the events
it has sent. -/
structure Reader where
  promptWindow : List UInt8
  promptResponses : List PromptResponse
  reusableResponses : List PromptResponse
  attempts : List PromptResponse
  events : List JumpSessionEvent
  running : Bool
  deriving DecidableEq, Repr

section Reader
variable (writes : ℕ → Bool) (r : Reader)

/-- The response to a prompt: the first one left of its kind, or else the last one there was,
which stays. -/
def chooseResponse (kind : PromptResponseKind) : Option (PromptResponse × List PromptResponse) :=
  match takePromptResponse r.promptResponses kind with
  | some taken => some taken
  | none =>
    (r.reusableResponses.reverse.find? (·.kind == kind)).map fun response =>
      (response, r.promptResponses)

/-- The `while let` loop, at most `fuel` times round; `writes` says which attempts succeed. -/
def answerPrompts (fuel : ℕ) (r : Reader) : Reader :=
  match fuel with
  | 0 => r
  | fuel + 1 =>
    match detectPromptKind r.promptWindow with
    | none => r
    | some kind =>
      match chooseResponse r kind with
      | none => r
      | some (response, promptResponses) =>
        let tried := { r with promptResponses, attempts := r.attempts ++ [response] }
        if writes r.attempts.length then answerPrompts fuel { tried with promptWindow := [] }
        else tried

/-- The window keeps the last bytes. -/
def slideWindow (output : List UInt8) : List UInt8 :=
  let promptWindow := r.promptWindow ++ output
  promptWindow.drop (promptWindow.length - promptWindowSize)

/-- One turn of the reader's loop. A window that an answer has cleared holds no prompt, so the
inner loop ends within two rounds. -/
def readStep : ReadResult → Reader
  | .eof => if r.running then { r with events := r.events ++ [.eof], running := false } else r
  | .error => if r.running then { r with events := r.events ++ [.error], running := false } else r
  | .bytes output =>
    if r.running then
      let r := answerPrompts writes 2 { r with promptWindow := slideWindow r output }
      { r with events := r.events ++ [.output output] }
    else r

def spawnJumpSessionReader (promptResponses : List PromptResponse) : Reader :=
  { promptWindow := [], promptResponses, reusableResponses := promptResponses, attempts := [],
    events := [], running := true }

/-- Two rounds are all that the loop takes. -/
theorem answerPrompts_add (fuel : ℕ) :
    answerPrompts writes (fuel + 2) r = answerPrompts writes 2 r := by
  have hempty : detectPromptKind [] = none := by decide
  have hcleared (fuel : ℕ) (r : Reader) (h : r.promptWindow = []) :
      answerPrompts writes fuel r = r := by
    cases fuel with
    | zero => rfl
    | succ fuel => rw [answerPrompts, h, hempty]
  rw [answerPrompts, answerPrompts]
  split
  · rfl
  · split
    · rfl
    · split_ifs
      · rw [hcleared _ _ rfl, hcleared _ _ rfl]
      · rfl

end Reader
end NativeTransport
