import Mathlib.Data.List.Basic
import TerminalWorkspace.Foundation.JsText
import TerminalWorkspace.Inventory.NormalHosts

/-! The lines of an OpenSSH config, and what the regular expressions of the importer see in one.
Texts are split at `\n` or `\r\n` and joined with `\n`, so a line that ends in a carriage return
of its own loses it when it is joined to others and split again. -/
namespace SshConfig
open JsText Inventory
open RecordFile (trim words)

def newline : CodePoint := .scalar '\n'

def carriageReturn : CodePoint := .scalar '\r'

/-- The break of a line takes one carriage return with it. -/
def stripCarriageReturn (line : JsString) : JsString :=
  if line.getLast? = some carriageReturn then line.dropLast else line

/-- All lines but the last end at a break. -/
def stripBreaks : List JsString → List JsString
  | [] => []
  | [last] => [last]
  | line :: next :: rest => stripCarriageReturn line :: stripBreaks (next :: rest)

/-- `text.split(/\r?\n/)` -/
def splitLines (text : JsString) : List JsString := stripBreaks (text.splitOn newline)

/-- `out.join("\n")` -/
def joinLines (out : List JsString) : JsString := join [newline] out

def hash : CodePoint := .scalar '#'

/-- What `.` does not match in a regular expression. -/
def isLineTerminator : CodePoint → Bool
  | .scalar c => c.toNat ∈ [0x0A, 0x0D, 0x2028, 0x2029]
  | .surrogate _ => false

def isAsciiLetter : CodePoint → Bool
  | .scalar c => c.isAlpha
  | .surrogate _ => false

def isAsciiAlphanum : CodePoint → Bool
  | .scalar c => c.isAlphanum
  | .surrogate _ => false

/-- `/^\s*([A-Za-z][A-Za-z0-9]*)\s+(.*)$/`. The name ends at its first character that is neither a
letter nor a digit, and the white space after it is matched as far as it goes. -/
def matchDirective (line : JsString) : Option (JsString × JsString) :=
  let start := line.dropWhile isSpace
  let name := start.takeWhile isAsciiAlphanum
  let behind := start.dropWhile isAsciiAlphanum
  let value := behind.dropWhile isSpace
  if name.head?.any isAsciiLetter && behind.head?.any isSpace && !value.any isLineTerminator then
    some (name, value)
  else none

/-- What stands before `/\s+#/`, where there is such a comment. -/
def beforeComment : JsString → JsString
  | [] => []
  | c :: rest =>
    if isSpace c && (rest.dropWhile isSpace).head? = some hash then [] else c :: beforeComment rest

def normalizeDirectiveValue (rawValue : JsString) : JsString :=
  trim isSpace (beforeComment rawValue)

/-- A directive that is not empty, its name in lower case. -/
structure Directive where
  name : JsString
  value : JsString
  deriving DecidableEq

inductive ReadLine where
  | blank
  | unparseable
  | empty
  | directive (directive : Directive)
  deriving DecidableEq

/-- What the parser makes of a line before it looks at the directive. -/
def readLine (rawLine : JsString) : ReadLine :=
  let trimmed := trim isSpace rawLine
  if trimmed = [] || trimmed.head? = some hash then .blank
  else
    match matchDirective rawLine with
    | none => .unparseable
    | some (rawDirective, rawValue) =>
      let value := normalizeDirectiveValue rawValue
      if value = [] then .empty else .directive ⟨rawDirective.map asciiLower, value⟩

/-- The directive of a line that opens a block for the parser. -/
def blockDirective (line : JsString) : Option Directive :=
  match readLine line with
  | .directive directive =>
    if directive.name = js "host" || directive.name = js "match" then some directive else none
  | _ => none

def isBlockLine (line : JsString) : Bool := (blockDirective line).isSome

/-- Whether a line is a directive that belongs to the block it stands in. -/
def isOptionLine (line : JsString) : Bool :=
  match readLine line with
  | .directive directive => directive.name ∉ [js "host", js "match", js "include"]
  | _ => false

/-- A keyword at the start of a line, in any case, and the white space behind it; what comes then. -/
def afterKeyword (keyword : String) (line : JsString) : Option JsString :=
  let start := line.dropWhile isSpace
  let behind := start.drop keyword.length
  if (start.take keyword.length).map asciiLower = js keyword && behind.head?.any isSpace then
    some (behind.dropWhile isSpace)
  else none

/-- `/^\s*(host|match)\s+/i` -/
def blockDirectiveTest (line : JsString) : Bool :=
  (afterKeyword "host" line).isSome || (afterKeyword "match" line).isSome

/-- `/\s*(?:#.*)?$/` matches from here on. -/
def endsHere (rest : JsString) : Bool :=
  match rest.dropWhile isSpace with
  | [] => true
  | c :: comment => c = hash && !comment.any isLineTerminator

/-- `/(.*?)\s*(?:#.*)?$/`, the shortest such group. -/
def includeGroup : JsString → Option JsString
  | [] => some []
  | c :: rest =>
    if endsHere (c :: rest) then some []
    else if isLineTerminator c then none
    else (includeGroup rest).map (c :: ·)

/-- `/^\s*include\s+(.*?)\s*(?:#.*)?$/i` -/
def matchInclude (line : JsString) : Option JsString :=
  (afterKeyword "include" line).bind includeGroup

end SshConfig
