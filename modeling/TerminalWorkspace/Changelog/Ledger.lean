import TerminalWorkspace.Foundation.HeadedLists
import TerminalWorkspace.Foundation.JsText

/-! The release sections of the changelog, how they are rendered, read and merged; the ledger
that holds them, and what one run of the script does with it. -/
namespace Changelog
open HeadedLists JsText RecordFile

abbrev Line := List Char

inductive Label where
  | breaking
  | feature
  | fix
  | internal
  | security
  deriving DecidableEq, Repr

def LABELS : List Label := [.breaking, .feature, .fix, .internal, .security]

def Label.text : Label → Line
  | .breaking => "BREAKING".toList
  | .feature => "FEATURE".toList
  | .fix => "FIX".toList
  | .internal => "INTERNAL".toList
  | .security => "SECURITY".toList

/-- `### [LABEL]` -/
def Label.heading (label : Label) : Line := "### [".toList ++ label.text ++ [']']

abbrev Entries := Label → List Line

inductive RollError where
  | notAFragmentLine (file line : Line)
  | missingLedger
  | noUnreleased
  | nonLabelContent (line : Line)
  deriving DecidableEq, Repr

/-! ## Fragments -/

def isLineTerminator (c : Char) : Bool := c = '\n' || c.toNat = 0x0D || c.toNat = 0x2028 ||
  c.toNat = 0x2029

/-- `/^- \[(BREAKING|FEATURE|FIX|INTERNAL|SECURITY)\]\s+(.*)$/`, whose dot stops at the end of a
line. -/
def matchFragmentLine (line : Line) : Option (Label × Line) :=
  LABELS.findSome? fun label =>
    let opening := "- [".toList ++ label.text ++ [']']
    let rest := line.drop opening.length
    let text := rest.dropWhile isSpaceChar
    if opening.isPrefixOf line && text.length < rest.length && !text.any isLineTerminator then
      some (label, text)
    else none

def Entries.push (entries : Entries) (label : Label) (text : Line) : Entries :=
  Function.update entries label (entries label ++ [text])

def collectLines (file : Line) (entries : Entries) : List Line → Except RollError Entries
  | [] => .ok entries
  | raw :: lines =>
    let line := trim isSpaceChar raw
    if line = [] then collectLines file entries lines
    else
      match matchFragmentLine line with
      | none => .error (.notAFragmentLine file line)
      | some (label, text) => collectLines file (entries.push label text) lines

def collectFiles (entries : Entries) : List (Line × List Char) → Except RollError Entries
  | [] => .ok entries
  | (file, text) :: files =>
    match collectLines file entries (text.splitOn '\n') with
    | .error error => .error error
    | .ok entries => collectFiles entries files

/-- The fragment files in the order of their names, each with its text. -/
def collectFragments (files : List (Line × List Char)) : Except RollError Entries :=
  collectFiles (fun _ => []) files

/-! ## Sections -/

def versionHeading (version date : List Char) : Line :=
  "## ".toList ++ version ++ " — ".toList ++ date

def bullet (text : Line) : Line := "- ".toList ++ text

def renderEntries (entries : Entries) (label : Label) : List Line :=
  if entries label = [] then []
  else [label.heading, []] ++ (entries label).map bullet ++ [[]]

def renderSection (version date : List Char) (entries : Entries) : List Char :=
  unlines '\n' ([versionHeading version date, []] ++ LABELS.flatMap (renderEntries entries))

def trimEdges (lines : List Line) : List Line := trim List.isEmpty lines

/-- `/^### \[(BREAKING|FEATURE|FIX|INTERNAL|SECURITY)\]$/` -/
def labelOf (text : Line) : Option Label := LABELS.find? fun label => text = label.heading

structure Block where
  label : Option Label
  raw : Line
  lines : List Line
  deriving DecidableEq, Repr

def isSubheading (line : Line) : Bool := "### ".toList.isPrefixOf line

def trimEnd (line : Line) : Line := line.rdropWhile isSpaceChar

/-- The block that a subheading opens. -/
def Block.opened (line : Line) (lines : List Line) : Block :=
  let label := labelOf (trimEnd line)
  { label, raw := if label.isSome then trimEnd line else line, lines }

structure Section where
  heading : Line
  preamble : List Line
  blocks : List Block
  deriving DecidableEq, Repr

/-- The lines below the heading, without the blank one that follows it. -/
def belowHeading (lines : List Line) : List Line :=
  if lines.tail.head? = some [] then lines.tail.tail else lines.tail

/-- Every line belongs to the subheading above it, or to the preamble. -/
def splitSection (text : List Char) : Section :=
  let lines := text.splitOn '\n'
  let cut := headed isSubheading (belowHeading lines)
  { heading := lines.headD []
    preamble := trimEdges cut.1
    blocks := cut.2.map fun part => .opened part.1 (trimEdges part.2) }

def rank (label : Label) : ℕ := LABELS.idxOf label

/-- In front of the first element of a kind, or at the end. -/
def insertBefore {β : Type*} (p : β → Bool) (x : β) : List β → List β
  | [] => [x]
  | b :: rest => if p b then x :: b :: rest else b :: insertBefore p x rest

/-- The first element of a kind is changed; `none` where there is none. -/
def updateFirst {β : Type*} (p : β → Bool) (f : β → β) : List β → Option (List β)
  | [] => none
  | b :: rest => if p b then some (f b :: rest) else (updateFirst p f rest).map (b :: ·)

def insertBlock (blocks : List Block) (block : Block) : List Block :=
  match block.label with
  | none => blocks ++ [block]
  | some label =>
    insertBefore (fun b => b.label.any fun other => rank label < rank other) block blocks

def renderBlock (block : Block) : List Line :=
  [block.raw, []] ++ if block.lines = [] then [] else block.lines ++ [[]]

def renderPreamble (preamble : List Line) : List Line :=
  if preamble = [] then [] else preamble ++ [[]]

def Section.rendered (s : Section) : List Line :=
  [s.heading, []] ++ renderPreamble s.preamble ++ s.blocks.flatMap renderBlock

def renderBlocks (s : Section) : List Char := unlines '\n' s.rendered

/-- `- None.` -/
def placeholder : Line := bullet "None.".toList

/-- Neither a blank line nor a placeholder. -/
def isContent (line : Line) : Bool := line ≠ [] && line ≠ placeholder

def mergePreamble (preamble incoming : List Line) : List Line :=
  incoming.foldl (fun preamble line =>
    if isContent line && !preamble.contains line then preamble ++ [line] else preamble) preamble

def sameBlock (block b : Block) : Bool :=
  b.label = block.label && (block.label ≠ none || b.raw = block.raw)

/-- The lines that a block has not, each once. -/
def addedLines (block : Block) (incoming : List Line) : List Line :=
  (incoming.filter isContent).eraseDups.filter fun line => !block.lines.contains line

def addLines (incoming : List Line) (block : Block) : Block :=
  let added := addedLines block incoming
  if added = [] then block
  else { block with lines := (if block.lines = [placeholder] then [] else block.lines) ++ added }

def mergeBlock (blocks : List Block) (block : Block) : List Block :=
  match updateFirst (sameBlock block) (addLines block.lines) blocks with
  | some merged => merged
  | none =>
    let lines := block.lines.filter (· ≠ placeholder)
    if block.label ≠ none ∧ lines.any isContent = false then blocks
    else insertBlock blocks { block with lines }

def mergeSections (ledger roll : Section) : Section :=
  { ledger with
    preamble := mergePreamble ledger.preamble roll.preamble
    blocks := roll.blocks.foldl mergeBlock ledger.blocks }

def mergeSection (existing incoming : List Char) : List Char :=
  renderBlocks (mergeSections (splitSection existing) (splitSection incoming))

/-! ## The ledger: its releases, where it is cut, and the text that a roll writes -/

/-- What may follow the version in its heading: `[\s—]`, or nothing. -/
def endsVersion : List Char → Bool
  | [] => true
  | c :: _ => isSpaceChar c || c = '—'

/-- `\n## ` -/
def startsRelease (text : List Char) : Bool := "\n## ".toList.isPrefixOf text

/-- A release and the text behind it. -/
def cutRelease (text : List Char) : List Char × List Char :=
  (cutAt startsRelease text).getD (text, [])

def atLineStart (before : List Char) : Bool := before.getLast?.elim true (· = '\n')

def needle (version : List Char) : Line := "## ".toList ++ version

abbrev Found := List (List Char × List Char) × List Char

/-- The scan from one occurrence of the needle to the next. `before` is all text in front of the
place it has got to, and `gap` what of it lies behind the last release. -/
def findFrom (version : List Char) : ℕ → List Char → List Char → List Char → Found
  | 0, _, gap, text => ([], gap ++ text)
  | fuel + 1, before, gap, text =>
    match cutAt (needle version).isPrefixOf text with
    | none => ([], gap ++ text)
    | some (skipped, found) =>
      let after := found.drop (needle version).length
      if atLineStart (before ++ skipped) && endsVersion after then
        let release := cutRelease found
        let later := findFrom version fuel (before ++ skipped ++ release.1) [] release.2
        ((gap ++ skipped, release.1) :: later.1, later.2)
      else
        findFrom version fuel (before ++ (skipped ++ needle version))
          (gap ++ (skipped ++ needle version)) after

/-- The releases of a version, each with the text in front of it, and the text behind the last. -/
def findReleases (changelog version : List Char) : Found :=
  findFrom version (changelog.length + 1) [] [] changelog

/-- The releases a roll finds, and the section it writes. -/
def rolledSection (tail rendered version : List Char) : Found × List Char :=
  let held := findReleases tail version
  match held.1 with
  | [] => (held, rendered)
  | (_, first) :: duplicates =>
    (held, duplicates.foldl (fun text duplicate => mergeSection text duplicate.2)
      (mergeSection first rendered))

def assertSkeletonOnly (block : List Char) : Except RollError Unit :=
  (block.splitOn '\n').forM fun raw =>
    let line := trim isSpaceChar raw
    if line = [] ∨ line = placeholder ∨ (labelOf line).isSome then .ok ()
    else .error (.nonLabelContent line)

/-- `## Unreleased` -/
def marker : Line := "## Unreleased".toList

/-- `## Unreleased[ \t]*$` -/
def headsUnreleased (text : List Char) : Bool :=
  marker.isPrefixOf text &&
    ((text.drop marker.length).dropWhile fun c => c = ' ' || c = '\t').head?.all isLineTerminator

/-- `\n## \d` -/
def startsNumbered (text : List Char) : Bool :=
  startsRelease text && (text.drop 4).head?.any Char.isDigit

/-- What stands above the heading, and the releases below its block. -/
def unreleasedSplit (changelog : List Char) :
    Except RollError (Option (List Char × List Char)) :=
  match cutLine isLineTerminator headsUnreleased true changelog with
  | none => .ok none
  | some (above, found) =>
    let rest := found.drop marker.length
    match cutAt startsNumbered rest with
    | none => do
      assertSkeletonOnly rest
      return some (above, [])
    | some (block, next) => do
      assertSkeletonOnly (block ++ ['\n'])
      return some (above, next.tail)

def skeleton : List Char :=
  unlines '\n' ([marker, []] ++ LABELS.flatMap fun label => [label.heading, [], placeholder, []])

/-- What is left of the text behind the first release once the duplicates are taken out. -/
def withoutDuplicates : List (List Char × List Char) → List Char → List Char
  | [], last => last
  | (gap, _) :: duplicates, last =>
    (if gap.all isSpaceChar then []
      else if duplicates.flatMap (fun found => found.1 ++ found.2) ++ last = [] then gap
      else gap.dropLast) ++ withoutDuplicates duplicates last

def insertRelease (changelog rendered version : List Char) : Except RollError (List Char) := do
  match ← unreleasedSplit changelog with
  | none => throw .noUnreleased
  | some (above, tail) =>
    let head := above ++ skeleton ++ ['\n']
    let rolled := rolledSection tail rendered version
    match rolled.1.1 with
    | [] => return head ++ rendered ++ '\n' :: tail
    | (gap, _) :: duplicates =>
      return head ++ gap ++ rolled.2 ++ withoutDuplicates duplicates rolled.1.2

/-! ## One run -/

/-- The fragment files of `changelog.d`, in the order of their names. -/
def readFragmentFiles (dir : List (Line × List Char)) : List (Line × List Char) :=
  (dir.filter fun file => ".md".toList.isSuffixOf file.1).mergeSort fun first second =>
    !before (ofText second.1) (ofText first.1)

/-- `/^\d+\.\d+\.\d+$/` -/
def isVersion (version : List Char) : Bool :=
  let parts := version.splitOn '.'
  parts.length = 3 && parts.all fun part => !part.isEmpty && part.all Char.isDigit

/-- `/^\d{4}-\d{2}-\d{2}$/` -/
def isDate (date : List Char) : Bool :=
  let parts := date.splitOn '-'
  parts.map List.length = [4, 2, 2] && parts.all fun part => part.all Char.isDigit

inductive Outcome where
  | usage
  | nothingToRoll
  | failed (error : RollError)
  | printed (text : List Char)
  | rolled (ledger : List Char)
  deriving DecidableEq, Repr

/-- What `--dry-run` prints. -/
def previewSection (changelog rendered version : List Char) : Except RollError (List Char) := do
  match ← unreleasedSplit changelog with
  | none => throw .noUnreleased
  | some (_, tail) => return (rolledSection tail rendered version).2

/-- `date` is the value of `--date`, or today's where it is not given. -/
def runScript (version date : List Char) (dryRun : Bool) (files : List (Line × List Char))
    (ledger : Option (List Char)) : Outcome :=
  if !isVersion version || !isDate date then .usage
  else
    match collectFragments files with
    | .error error => .failed error
    | .ok entries =>
      if files = [] ∨ ∀ label ∈ LABELS, entries label = [] then .nothingToRoll
      else
        let rendered := renderSection version date entries
        match ledger with
        | none => .failed .missingLedger
        | some changelog =>
          if dryRun then
            match previewSection changelog rendered version with
            | .error error => .failed error
            | .ok text => .printed text
          else
            match insertRelease changelog rendered version with
            | .error error => .failed error
            | .ok changelog => .rolled changelog

end Changelog
