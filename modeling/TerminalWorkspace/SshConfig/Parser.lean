import TerminalWorkspace.SshConfig.Lines

/-! The line loop of the config parser. A Host or Match line sets the registers that say where the
directives below it go; every other line leaves them as they are. -/
namespace SshConfig
open JsText Inventory
open RecordFile (trim words)

/-- What was dropped, and why. -/
inductive SkipReason where
  | wildcardOnly
  | matchBlock
  | includeDirective
  | unparseable
  | missingHostname
  deriving DecidableEq

structure SshConfigImportSkip where
  reason : SkipReason
  detail : JsString
  deriving DecidableEq

structure OrderedOption where
  order : ℕ
  value : JsString
  deriving DecidableEq

inductive OptionKey where
  | hostname
  | identityFile
  | port
  | proxyJump
  | user
  deriving DecidableEq

/-- The options that the importer knows, each with its place in the file. -/
structure OrderedSshConfigOptions where
  hostname : Option OrderedOption
  identityFile : Option OrderedOption
  port : Option OrderedOption
  proxyJump : Option OrderedOption
  user : Option OrderedOption
  deriving DecidableEq

def noOptions : OrderedSshConfigOptions := ⟨none, none, none, none, none⟩

namespace OrderedSshConfigOptions

def get (options : OrderedSshConfigOptions) : OptionKey → Option OrderedOption
  | .hostname => options.hostname
  | .identityFile => options.identityFile
  | .port => options.port
  | .proxyJump => options.proxyJump
  | .user => options.user

def put (options : OrderedSshConfigOptions) (value : OrderedOption) :
    OptionKey → OrderedSshConfigOptions
  | .hostname => { options with hostname := some value }
  | .identityFile => { options with identityFile := some value }
  | .port => { options with port := some value }
  | .proxyJump => { options with proxyJump := some value }
  | .user => { options with user := some value }

end OrderedSshConfigOptions

def setOptionIfUnset (options : OrderedSshConfigOptions) (key : OptionKey) (value : JsString)
    (order : ℕ) : OrderedSshConfigOptions :=
  match options.get key with
  | none => options.put ⟨order, value⟩ key
  | some _ => options

def hasAnyOptions (options : OrderedSshConfigOptions) : Bool :=
  options.hostname.isSome || options.identityFile.isSome || options.port.isSome ||
    options.proxyJump.isSome || options.user.isSome

/-- Of two values for an option the one that comes first in the file. -/
def earlier : Option OrderedOption → Option OrderedOption → Option OrderedOption
  | current, none => current
  | none, some candidate => some candidate
  | some current, some candidate =>
    if candidate.order < current.order then some candidate else some current

def mergeOptions (existing : Option OrderedSshConfigOptions) (next : OrderedSshConfigOptions) :
    OrderedSshConfigOptions :=
  let existing := existing.getD noOptions
  { hostname := earlier existing.hostname next.hostname
    identityFile := earlier existing.identityFile next.identityFile
    port := earlier existing.port next.port
    proxyJump := earlier existing.proxyJump next.proxyJump
    user := earlier existing.user next.user }

def isWildcardAlias (hostAlias : JsString) : Bool :=
  CodePoint.scalar '*' ∈ hostAlias || CodePoint.scalar '?' ∈ hostAlias ||
    hostAlias.head? = some (.scalar '!')

inductive MatchCriterion where
  | host (patterns : List JsString)
  | originalhost (patterns : List JsString)
  | user (patterns : List JsString)
  | all
  deriving DecidableEq

def rejectedMatchKeywords : List JsString :=
  [js "exec", js "localuser", js "canonical", js "final", js "localnetwork", js "tagged"]

/-- The criterion of a keyword that takes patterns. -/
def patternCriterion (keyword : JsString) : Option (List JsString → MatchCriterion) :=
  if keyword = js "host" then some .host
  else if keyword = js "originalhost" then some .originalhost
  else if keyword = js "user" then some .user
  else none

/-- The criteria of the tokens, or the reason for which the line is rejected. -/
def readCriteria (toLowerCase : JsString → JsString) :
    List JsString → Except JsString (List MatchCriterion)
  | [] => .ok []
  | token :: tokens =>
    let keyword := toLowerCase token
    if keyword ∈ rejectedMatchKeywords then .error keyword
    else if keyword = js "all" then (readCriteria toLowerCase tokens).map (.all :: ·)
    else
      match patternCriterion keyword, tokens with
      | none, _ => .error (js "unknown:" ++ keyword)
      | some _, [] => .error (keyword ++ js ":missing-pattern")
      | some criterion, rawPatterns :: rest =>
        let patterns := ((rawPatterns.splitOn (.scalar ',')).map (trim isSpace)).filter (· ≠ [])
        if patterns = [] then .error (keyword ++ js ":empty-pattern")
        else (readCriteria toLowerCase rest).map (criterion patterns :: ·)

def parseMatchCriteria (toLowerCase : JsString → JsString) (value : JsString) :
    Except JsString (List MatchCriterion) :=
  match readCriteria toLowerCase (words isSpace value) with
  | .error rejected => .error rejected
  | .ok [] => .error (js "empty")
  | .ok criteria =>
    if .all ∈ criteria && criteria.length > 1 then .error (js "all:combined") else .ok criteria

structure MatchBlockState where
  criteria : List MatchCriterion
  options : OrderedSshConfigOptions
  deriving DecidableEq

structure ParserState where
  globalOptions : OrderedSshConfigOptions
  currentAliases : List JsString
  currentOptions : OrderedSshConfigOptions
  currentInheritedDefault : Bool
  currentMatch : Option MatchBlockState
  currentSkip : Bool
  optionOrder : ℕ
  matchBlocks : List MatchBlockState
  aliasMap : OrderedMap JsString OrderedSshConfigOptions
  aliasInheritedDefault : List JsString
  skipped : List SshConfigImportSkip

def initialParserState : ParserState where
  globalOptions := noOptions
  currentAliases := []
  currentOptions := noOptions
  currentInheritedDefault := false
  currentMatch := none
  currentSkip := false
  optionOrder := 0
  matchBlocks := []
  aliasMap := .empty
  aliasInheritedDefault := []
  skipped := []

namespace ParserState
variable (s : ParserState)

def skip (reason : SkipReason) (detail : JsString) : ParserState :=
  { s with skipped := s.skipped ++ [⟨reason, detail⟩] }

/-- One alias of the block that ends. -/
def flushAlias (s : ParserState) (hostAlias : JsString) : ParserState :=
  { s with
    aliasMap := s.aliasMap.set hostAlias (mergeOptions (s.aliasMap.get? hostAlias) s.currentOptions)
    aliasInheritedDefault :=
      if s.currentInheritedDefault && hostAlias ∉ s.aliasInheritedDefault then
        s.aliasInheritedDefault ++ [hostAlias]
      else s.aliasInheritedDefault }

def flushCurrentBlock : ParserState :=
  if s.currentAliases ≠ [] then s.currentAliases.foldl flushAlias s
  else { s with matchBlocks := s.matchBlocks ++ s.currentMatch.toList }

def readMatch (toLowerCase : JsString → JsString) (value : JsString) : ParserState :=
  let s := { s.flushCurrentBlock with
    currentAliases := [], currentMatch := none, currentSkip := false }
  match parseMatchCriteria toLowerCase value with
  | .error rejected =>
    { s.skip .matchBlock (js "Match " ++ value ++ js " (skipped: " ++ rejected ++ js ")") with
      currentSkip := true }
  | .ok criteria => { s with currentMatch := some ⟨criteria, noOptions⟩ }

def readHost (value : JsString) : ParserState :=
  let s := { s.flushCurrentBlock with currentMatch := none, currentSkip := false }
  let allEntries := words isSpace value
  let concreteAliases := allEntries.filter fun hostAlias => !isWildcardAlias hostAlias
  let wildcards := allEntries.filter isWildcardAlias
  let wildcardOnly := if concreteAliases = [] then wildcards else []
  { s with
    skipped := s.skipped ++ wildcardOnly.map fun wildcard =>
      ⟨.wildcardOnly, js "Host " ++ wildcard⟩
    currentAliases := concreteAliases
    currentInheritedDefault := hasAnyOptions s.globalOptions
    currentOptions := s.globalOptions }

/-- Sets an option in the block that the directive stands in. -/
def setOption (key : OptionKey) (value : JsString) : ParserState :=
  if s.currentAliases ≠ [] then
    { s with currentOptions := setOptionIfUnset s.currentOptions key value s.optionOrder }
  else
    match s.currentMatch with
    | some block =>
      let options := setOptionIfUnset block.options key value s.optionOrder
      { s with currentMatch := some { block with options } }
    | none =>
      { s with globalOptions := setOptionIfUnset s.globalOptions key value s.optionOrder }

def optionKey (directive : JsString) : Option OptionKey :=
  if directive = js "hostname" then some .hostname
  else if directive = js "user" then some .user
  else if directive = js "port" then some .port
  else if directive = js "identityfile" then some .identityFile
  else if directive = js "proxyjump" then some .proxyJump
  else none

def readOption (directive value : JsString) : ParserState :=
  if s.currentSkip then s
  else
    let s := { s with optionOrder := s.optionOrder + 1 }
    match optionKey directive with
    | some key => s.setOption key value
    | none => s

def readDirective (toLowerCase : JsString → JsString) (directive : Directive) : ParserState :=
  if directive.name = js "match" then s.readMatch toLowerCase directive.value
  else if directive.name = js "include" then
    s.skip .includeDirective (js "Include " ++ directive.value)
  else if directive.name = js "host" then s.readHost directive.value
  else s.readOption directive.name directive.value

/-- A line of the loop. -/
def readLine (toLowerCase : JsString → JsString) (s : ParserState) (rawLine : JsString) :
    ParserState :=
  match SshConfig.readLine rawLine with
  | .blank | .empty => s
  | .unparseable => s.skip .unparseable (trim isSpace rawLine)
  | .directive directive => s.readDirective toLowerCase directive

/-- Where the directives of the current block go. -/
structure Registers where
  currentAliases : List JsString
  criteria : Option (List MatchCriterion)
  currentSkip : Bool
  deriving DecidableEq

def registers : Registers := ⟨s.currentAliases, s.currentMatch.map (·.criteria), s.currentSkip⟩

end ParserState

/-- The state of the parser behind the last of some lines. -/
def readLines (toLowerCase : JsString → JsString) (lines : List JsString) : ParserState :=
  lines.foldl (ParserState.readLine toLowerCase) initialParserState

open ParserState (Registers)

def globalRegisters : Registers := ⟨[], none, false⟩

/-- The registers that a Host or Match line sets. -/
def blockRegisters (toLowerCase : JsString → JsString) (directive : Directive) : Registers :=
  if directive.name = js "match" then
    match parseMatchCriteria toLowerCase directive.value with
    | .error _ => ⟨[], none, true⟩
    | .ok criteria => ⟨[], some criteria, false⟩
  else ⟨(words isSpace directive.value).filter fun hostAlias => !isWildcardAlias hostAlias, none, false⟩

/-- The place of the last Host or Match line of some lines, counted from an offset, or that of the
block they stand in. -/
def scopeAfter (scope : Option ℕ) (offset : ℕ) : List JsString → Option ℕ
  | [] => scope
  | line :: lines =>
    scopeAfter (if isBlockLine line then some offset else scope) (offset + 1) lines

section Registers
variable {toLowerCase : JsString → JsString} {s : ParserState}

theorem registers_readMatch (value : JsString) :
    (s.readMatch toLowerCase value).registers =
      blockRegisters toLowerCase ⟨js "match", value⟩ := by
  unfold ParserState.readMatch blockRegisters
  rw [if_pos rfl]
  cases parseMatchCriteria toLowerCase value <;> rfl

theorem registers_readHost (value : JsString) :
    (s.readHost value).registers = blockRegisters toLowerCase ⟨js "host", value⟩ := by
  unfold blockRegisters
  have hhost : js "host" ≠ js "match" := by decide
  rw [if_neg hhost]
  rfl

theorem registers_setOption (key : OptionKey) (value : JsString) :
    (s.setOption key value).registers = s.registers := by
  unfold ParserState.setOption
  split_ifs
  · rfl
  · cases hmatch : s.currentMatch with
    | none => simp only [ParserState.registers, hmatch]
    | some block => simp only [ParserState.registers, hmatch, Option.map_some]

theorem registers_readOption (directive value : JsString) :
    (s.readOption directive value).registers = s.registers := by
  unfold ParserState.readOption
  split_ifs
  · rfl
  · cases ParserState.optionKey directive with
    | none => rfl
    | some key => exact registers_setOption key value

/-- Only a Host or Match line changes where directives go. -/
theorem registers_readLine (line : JsString) :
    (s.readLine toLowerCase line).registers =
      (blockDirective line).elim s.registers (blockRegisters toLowerCase) := by
  unfold ParserState.readLine blockDirective
  cases readLine line with
  | blank => rfl
  | unparseable => rfl
  | empty => rfl
  | directive directive =>
    obtain ⟨name, value⟩ := directive
    simp only [ParserState.readDirective]
    by_cases hmatch : name = js "match"
    · subst hmatch
      exact registers_readMatch value
    by_cases hhost : name = js "host"
    · subst hhost
      exact registers_readHost value
    · rw [if_neg hmatch, if_neg hhost]
      have hother : (decide (name = js "host") || decide (name = js "match")) = false := by
        rw [decide_eq_false hmatch, decide_eq_false hhost]
        rfl
      simp only [hother, Bool.false_eq_true, if_false, Option.elim_none]
      split_ifs
      · rfl
      · exact registers_readOption name value

theorem scopeAfter_concat (scope : Option ℕ) (offset : ℕ) (lines : List JsString)
    (line : JsString) :
    scopeAfter scope offset (lines ++ [line]) =
      if isBlockLine line then some (offset + lines.length)
      else scopeAfter scope offset lines := by
  induction lines generalizing scope offset with
  | nil => rfl
  | cons first lines ih =>
    rw [List.cons_append, scopeAfter, ih, scopeAfter, List.length_cons]
    congr 2
    omega

theorem scopeAfter_lt {scope : Option ℕ} {offset place : ℕ} {lines : List JsString}
    (hscope : ∀ before, scope = some before → before < offset)
    (h : scopeAfter scope offset lines = some place) : place < offset + lines.length := by
  induction lines generalizing scope offset with
  | nil => exact hscope place h
  | cons line lines ih =>
    have hnext : ∀ before, (if isBlockLine line then some offset else scope) = some before →
        before < offset + 1 := by
      intro before hbefore
      split_ifs at hbefore
      · obtain rfl := Option.some.inj hbefore
        exact Nat.lt_succ_self offset
      · exact Nat.lt_succ_of_lt (hscope before hbefore)
    have hlt := ih hnext h
    rw [List.length_cons]
    omega

/-- A directive goes where the last Host or Match line before it says, and where there is none it is
global. -/
theorem registers_readLines (lines : List JsString) :
    (readLines toLowerCase lines).registers =
      ((scopeAfter none 0 lines).bind fun place => lines[place]?.bind blockDirective).elim
        globalRegisters (blockRegisters toLowerCase) := by
  induction lines using List.reverseRecOn with
  | nil => rfl
  | append_singleton lines line ih =>
    rw [readLines, List.foldl_append]
    refine (registers_readLine line).trans ?_
    rw [scopeAfter_concat]
    cases hblock : blockDirective line with
    | some directive =>
      rw [if_pos (by rw [isBlockLine, hblock]; rfl), Nat.zero_add, Option.bind_some,
        List.getElem?_concat_length, Option.bind_some, hblock]
      rfl
    | none =>
      rw [if_neg (by rw [isBlockLine, hblock]; exact Bool.false_ne_true)]
      refine ih.trans ?_
      cases hscope : scopeAfter none 0 lines with
      | none => rfl
      | some place =>
        have hlt : place < lines.length := by
          have hglobal : ∀ before, (none : Option ℕ) = some before → before < 0 := nofun
          have hplace := scopeAfter_lt hglobal hscope
          omega
        rw [Option.bind_some, Option.bind_some, List.getElem?_append_left hlt]

end Registers
end SshConfig
