import TerminalWorkspace.Foundation.Places
import TerminalWorkspace.SshConfig.ImportedHosts

/-! The places of a config's directives: the block each stands in, and the first of some places
that sets an option. -/
namespace SshConfig
open JsText FirstPlace
open ParserState (Registers)

section Places
variable (toLowerCase : JsString → JsString) (lines : List JsString)

/-- Where the directives behind a Host or Match line go. -/
def headerAt (place : ℕ) : Option Registers :=
  (lines[place]?.bind blockDirective).map (blockRegisters toLowerCase)

/-- The Host or Match line whose block a place stands in. -/
def blockAt (place : ℕ) : Option ℕ := scopeAfter none 0 (lines.take place)

def registersAt (place : ℕ) : Registers :=
  ((blockAt lines place).bind (headerAt toLowerCase lines)).getD globalRegisters

/-- The option and the value that the directive at a place gives it, unless it stands in a
rejected Match block. -/
def settingAt (place : ℕ) : Option (OptionKey × JsString) :=
  match lines[place]?.map readLine with
  | some (.directive directive) =>
    if (registersAt toLowerCase lines place).currentSkip then none
    else (ParserState.optionKey directive.name).map (·, directive.value)
  | _ => none

def optionAt (key : OptionKey) (place : ℕ) : Option JsString :=
  ((settingAt toLowerCase lines place).filter (·.1 = key)).map Prod.snd

/-- The value of the earliest of some directives that sets an option. -/
noncomputable def earliestValue (key : OptionKey) (S : ℕ → Prop) : Option JsString :=
  (first (optionAt toLowerCase lines key) S).map Prod.snd

def HostLine (hostAlias : JsString) (place : ℕ) : Prop :=
  ∃ registers, headerAt toLowerCase lines place = some registers ∧
    hostAlias ∈ registers.currentAliases

def InHostBlock (hostAlias : JsString) (place : ℕ) : Prop :=
  ∃ block, blockAt lines place = some block ∧ HostLine toLowerCase lines hostAlias block

/-- A place before the first block, or in a block of wildcards only. -/
def IsGlobal (place : ℕ) : Prop := registersAt toLowerCase lines place = globalRegisters

/-- The criteria of an accepted Match line. -/
def criteriaAt (place : ℕ) : Option (List MatchCriterion) :=
  (headerAt toLowerCase lines place).bind (·.criteria)

end Places

section Blocks
variable (toLowerCase : JsString → JsString) {lines : List JsString}

theorem blockAt_succ (place : ℕ) : blockAt lines (place + 1) =
    if (headerAt toLowerCase lines place).isSome then some place else blockAt lines place := by
  by_cases hplace : place < lines.length
  · have hlength : (lines.take place).length = place := List.length_take_of_le hplace.le
    rw [blockAt, List.take_succ_eq_append_getElem hplace, scopeAfter_concat, hlength, headerAt,
      List.getElem?_eq_getElem hplace, Option.isSome_map, Option.bind_some, Nat.zero_add]
    rfl
  · have hle : lines.length ≤ place := Nat.le_of_not_lt hplace
    rw [blockAt, blockAt, List.take_of_length_le (hle.trans (Nat.le_succ place)),
      List.take_of_length_le hle, headerAt, List.getElem?_eq_none hle]
    rfl

theorem blockAt_cases (lines : List JsString) (place : ℕ) :
    (blockAt lines place = none ∧ ∀ i < place, headerAt toLowerCase lines i = none) ∨
    ∃ block < place, blockAt lines place = some block ∧
      (headerAt toLowerCase lines block).isSome ∧
        ∀ i, block < i → i < place → headerAt toLowerCase lines i = none := by
  induction place with
  | zero => exact .inl ⟨rfl, fun i hi => absurd hi (Nat.not_lt_zero i)⟩
  | succ place ih =>
    rw [blockAt_succ toLowerCase]
    split_ifs with hheader
    · exact .inr ⟨place, Nat.lt_succ_self place, rfl, hheader, fun i _ _ => by omega⟩
    · have hnone := Option.not_isSome_iff_eq_none.mp hheader
      rcases ih with ⟨hblock, hbefore⟩ | ⟨block, hlt, hblock, hsome, hbetween⟩
      · refine .inl ⟨hblock, fun i hi => ?_⟩
        rcases Nat.lt_succ_iff_lt_or_eq.mp hi with hlt | rfl
        · exact hbefore i hlt
        · exact hnone
      · refine .inr ⟨block, Nat.lt_succ_of_lt hlt, hblock, hsome, fun i hi hlast => ?_⟩
        rcases Nat.lt_succ_iff_lt_or_eq.mp hlast with hlt | rfl
        · exact hbetween i hi hlt
        · exact hnone

variable {toLowerCase} {place block : ℕ}

/-- The block of a place starts before it, and no other starts between them. -/
theorem blockAt_eq_some (toLowerCase : JsString → JsString) (h : blockAt lines place = some block) :
    block < place ∧ (headerAt toLowerCase lines block).isSome ∧
      ∀ i, block < i → i < place → headerAt toLowerCase lines i = none := by
  rcases blockAt_cases toLowerCase lines place with ⟨hnone, -⟩ | ⟨b, hlt, hb, hsome, hbetween⟩
  · exact absurd (h.symm.trans hnone) nofun
  · obtain rfl := Option.some.inj (hb.symm.trans h)
    exact ⟨hlt, hsome, hbetween⟩

theorem headerAt_of_blockAt_none (h : blockAt lines place = none) {i : ℕ} (hi : i < place) :
    headerAt toLowerCase lines i = none := by
  rcases blockAt_cases toLowerCase lines place with ⟨-, hbefore⟩ | ⟨b, -, hb, -⟩
  · exact hbefore i hi
  · exact absurd (hb.symm.trans h) nofun

theorem blockAt_of_none (h : blockAt lines place = none) {i : ℕ} (hi : i ≤ place) :
    blockAt lines i = none := by
  rcases blockAt_cases id lines i with ⟨hnone, -⟩ | ⟨b, hlt, -, hsome, -⟩
  · exact hnone
  · rw [headerAt_of_blockAt_none h (hlt.trans_le hi)] at hsome
    cases hsome

theorem blockAt_between (h : blockAt lines place = some block) {i : ℕ} (hlt : block < i)
    (hle : i ≤ place) : blockAt lines i = some block := by
  obtain ⟨-, hsome, hbetween⟩ := blockAt_eq_some id h
  rcases blockAt_cases id lines i with ⟨-, hbefore⟩ | ⟨b, hb, hblock, hsomeb, hbetweenb⟩
  · rw [hbefore block hlt] at hsome
    cases hsome
  · rcases Nat.lt_trichotomy b block with hless | heq | hmore
    · rw [hbetweenb block hless hlt] at hsome
      cases hsome
    · exact heq ▸ hblock
    · rw [hbetween b hmore (hb.trans_le hle)] at hsomeb
      cases hsomeb

/-- A Host or Match line sets no option. -/
theorem settingAt_of_header (h : (headerAt toLowerCase lines place).isSome) :
    settingAt toLowerCase lines place = none := by
  rw [headerAt, Option.isSome_map] at h
  rw [settingAt]
  cases hline : lines[place]? with
  | none => rfl
  | some line =>
    rw [hline, Option.bind_some, blockDirective] at h
    rw [Option.map_some]
    cases hread : readLine line with
    | blank => rfl
    | unparseable => rfl
    | empty => rfl
    | directive directive =>
      simp only [hread] at h
      have hname : directive.name = js "host" ∨ directive.name = js "match" := by
        by_contra hnot
        rw [not_or] at hnot
        simp [hnot.1, hnot.2] at h
      have hkey : ParserState.optionKey directive.name = none := by
        rcases hname with hname | hname <;> rw [hname] <;> decide
      simp only [hkey, Option.map_none, ite_self]

theorem optionAt_eq_some_iff {key : OptionKey} {value : JsString} :
    optionAt toLowerCase lines key place = some value ↔
      settingAt toLowerCase lines place = some (key, value) := by
  rw [optionAt]
  cases settingAt toLowerCase lines place with
  | none => simp
  | some setting =>
    obtain ⟨key', value'⟩ := setting
    by_cases hkey : key' = key
    · simp [hkey]
    · simp [hkey]

/-- What the registers are behind the lines before a place. -/
theorem registers_readLines_take (place : ℕ) :
    (readLines toLowerCase (lines.take place)).registers =
      registersAt toLowerCase lines place := by
  rw [registers_readLines, registersAt, blockAt]
  cases hblock : scopeAfter none 0 (lines.take place) with
  | none => rfl
  | some block =>
    have hlt : block < place := (blockAt_eq_some id hblock).1
    rw [Option.bind_some, Option.bind_some, List.getElem?_take_of_lt hlt, headerAt]
    cases lines[block]?.bind blockDirective <;> rfl

end Blocks
end SshConfig
