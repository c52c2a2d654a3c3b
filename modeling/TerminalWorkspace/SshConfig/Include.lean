import TerminalWorkspace.SshConfig.Parser

/-! The expansion of Include directives. The text of each file that an Include names is pushed where
the directive stands, and the files are read one after the other through a reader and a glob lister
that may keep a state of their own. -/
namespace SshConfig
open JsText Inventory
open RecordFile (trim words)

structure SshConfigFileRead where
  cycleKey : JsString
  content : JsString

structure SshConfigResolutionContext where
  parentCycleKey : JsString
  relativePath : JsString

structure SshConfigGlobMatch where
  cycleKey : JsString
  name : JsString
  content : JsString

/-- How a call to the reader or to the lister settles. -/
inductive Settled (α : Type) where
  | resolved (value : α)
  | rejected (message : JsString)

structure ResolveSshIncludesOptions (σ : Type) where
  readFile : JsString → Option SshConfigResolutionContext →
    StateM σ (Settled (Option SshConfigFileRead))
  globFiles : Option (JsString → Option SshConfigResolutionContext →
    StateM σ (Settled (List SshConfigGlobMatch)))
  baseDir : Option JsString
  maxDepth : Option ℤ

def defaultBaseDir : JsString := js "~/.ssh"

def defaultMaxDepth : ℤ := 10

section Paths

def slash : CodePoint := .scalar '/'

def tilde : CodePoint := .scalar '~'

def isRelativePath (value : JsString) : Bool :=
  value.head? ≠ some slash && value.head? ≠ some tilde

def withoutLastSlash (path : JsString) : JsString :=
  if path.getLast? = some slash then path.dropLast else path

def normalizePath (rawPath baseDir : JsString) : JsString :=
  let trimmed := trim isSpace rawPath
  if trimmed = [] then trimmed
  else if isRelativePath trimmed then withoutLastSlash baseDir ++ [slash] ++ trimmed
  else trimmed

def dirnamePath (path : JsString) : JsString :=
  match (withoutLastSlash path).reverse.dropWhile (· ≠ slash) with
  | [] => js "."
  | [_] => [slash]
  | _ :: parent => parent.reverse

def hasGlobChar (value : JsString) : Bool :=
  CodePoint.scalar '*' ∈ value || CodePoint.scalar '?' ∈ value || CodePoint.scalar '[' ∈ value

def resolutionContext (entry : JsString) (currentFile : Option JsString) :
    Option SshConfigResolutionContext :=
  if isRelativePath entry then currentFile.map fun cycleKey => ⟨cycleKey, entry⟩ else none

end Paths

/-- What the expansion of a file pushes, line by line, before it is joined. The lines that hold an
Include are not pushed themselves. -/
inductive Expansion where
  | nil
  | line (text : JsString) (rest : Expansion)
  /-- An Include inside a Host or Match block. -/
  | dropped (text : JsString) (rest : Expansion)
  /-- An Include outside of them, with the files that it brings in behind it. -/
  | including (text : JsString) (rest : Expansion)
  | file (expanded : Expansion) (rest : Expansion)

namespace Expansion

/-- The array `out`. -/
def out : Expansion → List JsString
  | .nil => []
  | .line text rest => text :: rest.out
  | .dropped _ rest | .including _ rest => rest.out
  | .file expanded rest => joinLines expanded.out :: rest.out

def text (e : Expansion) : JsString := joinLines e.out

end Expansion

/-- The state of the reader and the lister, and what was skipped. -/
structure Expanding (σ : Type) where
  files : σ
  skipped : List SshConfigImportSkip

abbrev ExpandM (σ : Type) := StateM (Expanding σ)

section Expand
variable {σ : Type}

def ask {α : Type} (call : StateM σ α) : ExpandM σ α := fun s =>
  let (value, files) := call s.files
  (value, { s with files })

def skipInclude (detail : JsString) : ExpandM σ Unit := fun s =>
  ((), { s with skipped := s.skipped ++ [⟨.includeDirective, detail⟩] })

/-- The skip of an entry, which brings in nothing. -/
def skipEntry (entry : JsString) (reason : JsString) : ExpandM σ (List Expansion) := do
  skipInclude (js "Include " ++ entry ++ js " (" ++ reason ++ js ")")
  pure []

def forEach {α : Type} (body : α → ExpandM σ (List Expansion)) :
    List α → ExpandM σ (List Expansion)
  | [] => pure []
  | item :: items => do
    let first ← body item
    let rest ← forEach body items
    pure (first ++ rest)

/-- A call of `expandText` but for its depth. -/
structure FileVisit where
  text : JsString
  currentBaseDir : JsString
  currentFile : Option JsString
  visited : List JsString

variable (p : Platform) (options : ResolveSshIncludesOptions σ)
  (recurse : FileVisit → ExpandM σ Expansion) (visit : FileVisit)

/-- A file that has been read, unless it is being expanded already. -/
def expandFile (cycleKey content path : JsString) (onCycle : ExpandM σ (List Expansion)) :
    ExpandM σ (List Expansion) :=
  if cycleKey ∈ visit.visited then onCycle
  else do
    let expanded ← recurse
      { text := content
        currentBaseDir := dirnamePath path
        currentFile := some cycleKey
        visited := cycleKey :: visit.visited }
    pure [expanded]

def expandMatch (entry pattern : JsString) (matchEntry : SshConfigGlobMatch) :
    ExpandM σ (List Expansion) :=
  expandFile recurse visit matchEntry.cycleKey matchEntry.content
    (normalizePath matchEntry.name (dirnamePath pattern)) do
      skipInclude (js "Include " ++ entry ++ js " matched file " ++ quote matchEntry.name ++
        js " (cycle)")
      pure []

def expandGlob (entry : JsString) : ExpandM σ (List Expansion) :=
  match options.globFiles with
  | none => skipEntry entry (js "glob unsupported")
  | some globFiles => do
    let pattern := normalizePath entry visit.currentBaseDir
    match ← ask (globFiles pattern (resolutionContext entry visit.currentFile)) with
    | .rejected message => skipEntry entry (js "glob error: " ++ message)
    | .resolved [] => skipEntry entry (js "no matching files")
    | .resolved found =>
      let ordered := sortBy (fun left right => p.localeCompare left.name right.name) found
      forEach (expandMatch recurse visit entry pattern) ordered

def expandEntry (entry : JsString) : ExpandM σ (List Expansion) :=
  if hasGlobChar entry then expandGlob p options recurse visit entry
  else do
    let normalized := normalizePath entry visit.currentBaseDir
    match ← ask (options.readFile normalized (resolutionContext entry visit.currentFile)) with
    | .rejected message => skipEntry entry (js "read error: " ++ message)
    | .resolved none => skipEntry entry (js "not found or rejected")
    | .resolved (some included) =>
      expandFile recurse visit included.cycleKey included.content normalized
        (skipEntry entry (js "cycle"))

/-- The loop over the lines of a file. -/
def expandLines : (insideConditionalBlock : Bool) → List JsString → ExpandM σ Expansion
  | _, [] => pure .nil
  | insideConditionalBlock, line :: lines =>
    if blockDirectiveTest line then do
      let rest ← expandLines true lines
      pure (.line line rest)
    else
      match matchInclude line with
      | none | some [] => do
        let rest ← expandLines insideConditionalBlock lines
        pure (.line line rest)
      | some rawValue =>
        if insideConditionalBlock then do
          skipInclude (js "Include " ++ rawValue ++ js " (conditional block unsupported)")
          let rest ← expandLines insideConditionalBlock lines
          pure (.dropped line rest)
        else do
          let files ← forEach (expandEntry p options recurse visit) (words isSpace rawValue)
          let rest ← expandLines insideConditionalBlock lines
          pure (.including line (files.foldr .file rest))

/-- `expandText` at a depth at which so many more are allowed. -/
def expandText : (remaining : ℕ) → FileVisit → ExpandM σ Expansion
  | 0, _ => do
    skipInclude (js "Include depth limit (" ++
      js (toString (options.maxDepth.getD defaultMaxDepth)) ++ js ") exceeded")
    pure .nil
  | remaining + 1, visit =>
    expandLines p options (expandText remaining) visit false (splitLines visit.text)

structure ResolveSshIncludesResult where
  text : JsString
  skipped : List SshConfigImportSkip

/-- The expansion of the text that the user picked. A depth is allowed up to the limit itself. -/
def expandInitial (initialText : JsString) : ExpandM σ Expansion :=
  expandText p options ((options.maxDepth.getD defaultMaxDepth) + 1).toNat
    { text := initialText
      currentBaseDir := options.baseDir.getD defaultBaseDir
      currentFile := none
      visited := [] }

def resolveSshIncludes (initialText : JsString) (files : σ) : ResolveSshIncludesResult :=
  let (expanded, s) := expandInitial p options initialText ⟨files, []⟩
  ⟨expanded.text, s.skipped⟩

end Expand
end SshConfig
