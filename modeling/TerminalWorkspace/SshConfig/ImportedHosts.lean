import TerminalWorkspace.SshConfig.Parser
import TerminalWorkspace.VaultStores.Hosts

/-! The hosts of a config: the options of its Match blocks are merged into those of the aliases
that they match, and each alias becomes a host. -/
namespace SshConfig
open JsText Inventory
open RecordFile (trim)

section Globs

def star : ℕ := '*'.toNat

def questionMark : ℕ := '?'.toNat

/-- Where the matcher goes back to: the pattern behind the last star, and the value at which that
star was tried. Neither is behind the current place. -/
abbrev StarPlace (pattern value : List ℕ) :=
  { s : List ℕ × List ℕ // pattern.length ≤ s.1.length ∧ value.length ≤ s.2.length }

/-- The loop of the matcher on the code units that are left. It goes on at a new star, one unit
further behind the last one, or one unit further in both. -/
def globLoop (pattern value : List ℕ) (last : Option (StarPlace pattern value)) : Bool :=
  match value with
  | [] => pattern.dropWhile (· = star) = []
  | unit :: value =>
    if hunit : pattern.head? = some questionMark ∨ pattern.head? = some unit then
      globLoop pattern.tail value (last.map fun s => ⟨s.val,
        (pattern.length_tail ▸ Nat.sub_le _ _).trans s.property.1,
        (Nat.le_succ _).trans s.property.2⟩)
    else if hstar : pattern.head? = some star then
      globLoop pattern.tail (unit :: value)
        (some ⟨(pattern.tail, unit :: value), Nat.le_refl _, Nat.le_refl _⟩)
    else
      match last with
      | some ⟨(starPattern, starValue), hs⟩ =>
        globLoop starPattern starValue.tail
          (some ⟨(starPattern, starValue.tail), Nat.le_refl _, Nat.le_refl _⟩)
      | none => false
termination_by (last.elim (pattern.length + 1) (·.val.1.length), last.elim 0 (·.val.2.length),
  pattern.length + value.length)
decreasing_by
  · cases last with
    | none =>
      have hpos : 0 < pattern.length :=
        List.length_pos_of_ne_nil fun hnil => by simp [hnil] at hunit
      refine Prod.Lex.left _ _ ?_
      simp only [Option.map_none, Option.elim_none, List.length_tail]
      omega
    | some s =>
      refine Prod.Lex.right _ (Prod.Lex.right _ ?_)
      simp only [List.length_tail, List.length_cons]
      omega
  · obtain ⟨rest, hrest⟩ := List.head?_eq_some_iff.mp hstar
    subst hrest
    refine Prod.Lex.left _ _ ?_
    cases last with
    | none =>
      simp only [Option.elim_some, Option.elim_none, List.tail_cons, List.length_cons]
      omega
    | some s => exact s.property.1
  · have hshorter := hs.2
    refine Prod.Lex.right _ (Prod.Lex.left _ _ ?_)
    simp only [Option.elim_some, List.length_tail, List.length_cons] at hshorter ⊢
    omega

def matchesGlob (pattern value : JsString) : Bool :=
  globLoop (pattern.flatMap CodePoint.units) (value.flatMap CodePoint.units) none

def isNegated (pattern : JsString) : Bool := pattern.head? = some (.scalar '!')

/-- A negated pattern that matches excludes the value. Without a positive pattern all other values
are hits. -/
def patternListMatches (patterns : List JsString) (value : JsString) : Bool :=
  let patterns := patterns.filter (· ≠ [])
  let positive := patterns.filter fun pattern => !isNegated pattern
  if (patterns.filter isNegated).any fun pattern => matchesGlob pattern.tail value then false
  else positive = [] || positive.any fun pattern => matchesGlob pattern value

end Globs

section Match

def optionValue (options : OrderedSshConfigOptions) (key : OptionKey) : Option JsString :=
  (options.get key).map OrderedOption.value

/-- A criterion holds of an alias with a user. -/
def MatchCriterion.holds (hostAlias user : JsString) : MatchCriterion → Bool
  | .all => true
  | .user patterns => patternListMatches patterns user
  | .host patterns | .originalhost patterns => patternListMatches patterns hostAlias

/-- The options of an alias, with those of a block where it matches. -/
def applyMatchBlock (block : MatchBlockState) (hostAlias : JsString)
    (options : OrderedSshConfigOptions) : OrderedSshConfigOptions :=
  let aliasUser := (optionValue options .user).getD []
  if block.criteria.all (MatchCriterion.holds hostAlias aliasUser) then
    mergeOptions (some options) block.options
  else options

/-- The values are replaced while the entries are gone through, and no key is new. -/
def applyMatchBlocks (blocks : List MatchBlockState)
    (aliasMap : OrderedMap JsString OrderedSshConfigOptions) :
    OrderedMap JsString OrderedSshConfigOptions :=
  blocks.foldl (fun aliasMap block =>
    if hasAnyOptions block.options then
      aliasMap.entries.foldl (fun aliasMap entry =>
        aliasMap.set entry.1 (applyMatchBlock block entry.1 entry.2)) aliasMap
    else aliasMap) aliasMap

end Match

section Hosts

/-- A port that is no positive finite number is the default one. -/
def parsePort (value : Option JsString) : ℕ :=
  match VaultStores.parseInt (value.getD []) with
  | some (.ofNat (n + 1)) => (JsNumbers.nearestNumber (n + 1)).getD 22
  | _ => 22

structure ImportedSshConfigHost where
  hostAlias : JsString
  hostname : JsString
  username : JsString
  port : ℕ
  privateKeyPath : JsString
  jumpHostAlias : Option JsString
  deriving DecidableEq

/-- A text, unless it is empty. -/
def nonEmpty (value : JsString) : Option JsString := if value = [] then none else some value

/-- The first target of a ProxyJump. -/
def firstTarget (value : JsString) : Option JsString :=
  nonEmpty (trim isSpace ((value.splitOn (.scalar ',')).headD []))

/-- The host of an alias, unless neither the options nor the alias give a hostname. -/
def importedHost (hostAlias : JsString) (options : OrderedSshConfigOptions) :
    Option ImportedSshConfigHost :=
  let trimmed (key : OptionKey) := (optionValue options key).map (trim isSpace)
  let hostname := ((trimmed .hostname).bind nonEmpty).getD hostAlias
  if hostname = [] then none
  else some
    { hostAlias
      hostname
      username := (trimmed .user).getD []
      port := parsePort (optionValue options .port)
      privateKeyPath := (trimmed .identityFile).getD []
      jumpHostAlias := (optionValue options .proxyJump).bind firstTarget }

structure SshConfigImportResult where
  hosts : List ImportedSshConfigHost
  skipped : List SshConfigImportSkip
  defaultsAppliedCount : ℕ
  unresolvedProxyJumpAliases : List JsString

def parseSshConfig (p : Platform) (toLowerCase : JsString → JsString) (text : JsString) :
    SshConfigImportResult :=
  let s := (readLines toLowerCase (splitLines text)).flushCurrentBlock
  let aliasMap := applyMatchBlocks s.matchBlocks s.aliasMap
  let nameless := aliasMap.entries.filter fun entry => importedHost entry.1 entry.2 = none
  let hosts := aliasMap.entries.filterMap fun entry => importedHost entry.1 entry.2
  let referenced := (hosts.filterMap (·.jumpHostAlias)).eraseDups
  { hosts := sortBy (fun left right => p.localeCompare left.hostAlias right.hostAlias) hosts
    skipped := s.skipped ++ nameless.map fun entry => ⟨.missingHostname, js "Host " ++ entry.1⟩
    defaultsAppliedCount := s.aliasInheritedDefault.length
    unresolvedProxyJumpAliases := referenced.filter fun target => target ∉ aliasMap.keys }

end Hosts
end SshConfig
