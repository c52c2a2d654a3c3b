import TerminalWorkspace.SshConfig.Gathered

/-! What the line loop holds at each place of a config: the options of the blocks that have ended,
of the current one and of none, each the earliest of its directives. -/
namespace SshConfig
open JsText FirstPlace
open ParserState (Registers)

section Phase
variable (toLowerCase : JsString → JsString) (lines : List JsString)

/-- The directives before `last` that an alias takes from Host blocks that name it, and from the
global ones before a Host line that names it. -/
def FromHosts (hostAlias : JsString) (last place : ℕ) : Prop :=
  place < last ∧ (InHostBlock toLowerCase lines hostAlias place ∨
    IsGlobal toLowerCase lines place ∧
      ∃ host, place < host ∧ host < last ∧ HostLine toLowerCase lines hostAlias host)

open Classical in
noncomputable def aliasOptions (last : ℕ) (hostAlias : JsString) :
    Option OrderedSshConfigOptions :=
  if ∃ host < last, HostLine toLowerCase lines hostAlias host then
    some (gathered toLowerCase lines (FromHosts toLowerCase lines hostAlias last))
  else none

noncomputable def matchBlockAt (last block : ℕ) : Option MatchBlockState :=
  (criteriaAt toLowerCase lines block).map fun criteria =>
    ⟨criteria, gathered toLowerCase lines fun i => i < last ∧ blockAt lines i = some block⟩

/-- The blocks that have ended. -/
structure FlushedTo (last : ℕ) (s : ParserState) : Prop where
  aliasMap : ∀ hostAlias,
    s.aliasMap.get? hostAlias = aliasOptions toLowerCase lines last hostAlias
  matchBlocks : s.matchBlocks = (List.range last).filterMap (matchBlockAt toLowerCase lines last)

structure ReadTo (place : ℕ) (s : ParserState) : Prop where
  registers : s.registers = registersAt toLowerCase lines place
  globalOptions : s.globalOptions =
    gathered toLowerCase lines fun i => i < place ∧ IsGlobal toLowerCase lines i
  currentOptions : s.currentAliases ≠ [] → s.currentOptions =
    gathered toLowerCase lines fun i => i < place ∧
      (IsGlobal toLowerCase lines i ∨ blockAt lines i = blockAt lines place)
  currentMatch : ∀ block, s.currentMatch = some block → block.options =
    gathered toLowerCase lines fun i => i < place ∧ blockAt lines i = blockAt lines place
  flushed : FlushedTo toLowerCase lines ((blockAt lines place).getD 0) s

end Phase

section Flush
variable {toLowerCase : JsString → JsString} {lines : List JsString} {s : ParserState}
  {hostAlias : JsString} {place block last : ℕ}

theorem get?_flushAliases (aliases : List JsString) (s : ParserState) (hostAlias : JsString) :
    (aliases.foldl ParserState.flushAlias s).aliasMap.get? hostAlias =
      if hostAlias ∈ aliases then
        some (mergeOptions (s.aliasMap.get? hostAlias) s.currentOptions)
      else s.aliasMap.get? hostAlias := by
  induction aliases generalizing s with
  | nil => rfl
  | cons first aliases ih =>
    have hfirst : (s.flushAlias first).aliasMap.get? hostAlias =
        if hostAlias = first then
          some (mergeOptions (s.aliasMap.get? hostAlias) s.currentOptions)
        else s.aliasMap.get? hostAlias := by
      rw [ParserState.flushAlias, OrderedMap.get?_set]
      split_ifs with heq
      · rw [heq]
      · rfl
    have hcurrent : (s.flushAlias first).currentOptions = s.currentOptions := rfl
    rw [List.foldl_cons, ih, hfirst, hcurrent]
    by_cases heq : hostAlias = first
    · rw [if_pos heq, if_pos (List.mem_cons.mpr (.inl heq)), mergeOptions_twice, ite_self]
    · rw [if_neg heq]
      simp only [List.mem_cons, heq, false_or]

theorem matchBlocks_flushAliases (aliases : List JsString) (s : ParserState) :
    (aliases.foldl ParserState.flushAlias s).matchBlocks = s.matchBlocks := by
  induction aliases generalizing s with
  | nil => rfl
  | cons first aliases ih => exact ih (s.flushAlias first)

theorem get?_flushCurrentBlock (s : ParserState) (hostAlias : JsString) :
    s.flushCurrentBlock.aliasMap.get? hostAlias =
      if hostAlias ∈ s.currentAliases then
        some (mergeOptions (s.aliasMap.get? hostAlias) s.currentOptions)
      else s.aliasMap.get? hostAlias := by
  rw [ParserState.flushCurrentBlock]
  by_cases haliases : s.currentAliases ≠ []
  · rw [if_pos haliases]
    exact get?_flushAliases s.currentAliases s hostAlias
  · rw [if_neg haliases, not_not.mp haliases, if_neg List.not_mem_nil]

theorem matchBlocks_flushCurrentBlock (h : s.currentAliases ≠ [] → s.currentMatch = none) :
    s.flushCurrentBlock.matchBlocks = s.matchBlocks ++ s.currentMatch.toList := by
  rw [ParserState.flushCurrentBlock]
  split_ifs with haliases
  · rw [matchBlocks_flushAliases, h haliases, Option.toList_none, List.append_nil]
  · rfl

/-- A Host line that names an alias opens no Match block and is not skipped. -/
theorem criteria_of_currentAliases {registers : Registers}
    (h : headerAt toLowerCase lines place = some registers) (haliases : registers.currentAliases ≠ []) :
    registers.criteria = none ∧ registers.currentSkip = false := by
  obtain ⟨directive, -, rfl⟩ := Option.map_eq_some_iff.mp h
  unfold blockRegisters at haliases ⊢
  split_ifs at haliases ⊢
  · split at haliases <;> exact absurd rfl haliases
  · exact ⟨rfl, rfl⟩

theorem registersAt_of_blockAt (toLowerCase : JsString → JsString)
    (h : blockAt lines place = some block) :
    headerAt toLowerCase lines block = some (registersAt toLowerCase lines place) := by
  obtain ⟨registers, hregisters⟩ :=
    Option.isSome_iff_exists.mp (blockAt_eq_some toLowerCase h).2.1
  rw [registersAt, h, Option.bind_some, hregisters, Option.getD_some]

theorem registersAt_of_none (h : blockAt lines place = none) :
    registersAt toLowerCase lines place = globalRegisters := by
  rw [registersAt, h]
  rfl

theorem HostLine.isSome (h : HostLine toLowerCase lines hostAlias place) :
    (headerAt toLowerCase lines place).isSome := by
  obtain ⟨registers, hregisters, -⟩ := h
  rw [hregisters]
  rfl

/-- The global directives are before the line of a block that names an alias. -/
theorem not_isGlobal (h : blockAt lines place = some block)
    (hhost : HostLine toLowerCase lines hostAlias block) : ¬ IsGlobal toLowerCase lines place := by
  intro hglobal
  obtain ⟨registers, hregisters, hmem⟩ := hhost
  rw [registersAt_of_blockAt toLowerCase h, hglobal] at hregisters
  obtain rfl := Option.some.inj hregisters
  cases hmem

theorem ne_of_setting {setting : OptionKey × JsString}
    (hsetting : settingAt toLowerCase lines place = some setting)
    (h : (headerAt toLowerCase lines block).isSome) : place ≠ block := by
  rintro rfl
  rw [settingAt_of_header h] at hsetting
  cases hsetting

/-- A block that names the alias ends: what it takes is what it took, the global directives, and
those of the block. -/
theorem fromHosts_of_hostLine (hblock : blockAt lines last = some block)
    (hhost : HostLine toLowerCase lines hostAlias block) {setting : OptionKey × JsString}
    (hsetting : settingAt toLowerCase lines place = some setting) :
    FromHosts toLowerCase lines hostAlias last place ↔
      FromHosts toLowerCase lines hostAlias block place ∨
        place < last ∧ (IsGlobal toLowerCase lines place ∨ blockAt lines place = some block) := by
  have hlast := (blockAt_eq_some toLowerCase hblock).1
  have hne := ne_of_setting hsetting hhost.isSome
  have hbehind : block < place → place < last → blockAt lines place = some block :=
    fun hlt hle => blockAt_between hblock hlt hle.le
  constructor
  · rintro ⟨hplace, hin | ⟨hglobal, -⟩⟩
    · rcases Nat.lt_or_gt_of_ne hne with hlt | hlt
      · exact .inl ⟨hlt, .inl hin⟩
      · exact .inr ⟨hplace, .inr (hbehind hlt hplace)⟩
    · exact .inr ⟨hplace, .inl hglobal⟩
  · rintro (⟨hlt, hin | ⟨hglobal, host, hbefore, hlate, hline⟩⟩ | ⟨hplace, hglobal | hin⟩)
    · exact ⟨hlt.trans hlast, .inl hin⟩
    · exact ⟨hlt.trans hlast, .inr ⟨hglobal, host, hbefore, hlate.trans hlast, hline⟩⟩
    · refine ⟨hplace, .inr ⟨hglobal, block, ?_, hlast, hhost⟩⟩
      refine Nat.lt_of_le_of_ne (Nat.le_of_not_lt fun hlt => ?_) hne
      exact not_isGlobal (hbehind hlt hplace) hhost hglobal
    · exact ⟨hplace, .inl ⟨block, hin, hhost⟩⟩

/-- A block that does not name the alias changes nothing for it. -/
theorem fromHosts_of_not_hostLine (hblock : blockAt lines last = some block)
    (hhost : ¬ HostLine toLowerCase lines hostAlias block) {setting : OptionKey × JsString}
    (hsetting : settingAt toLowerCase lines place = some setting) :
    FromHosts toLowerCase lines hostAlias last place ↔
      FromHosts toLowerCase lines hostAlias block place := by
  obtain ⟨hlast, hsome, hbetween⟩ := blockAt_eq_some toLowerCase hblock
  constructor
  · rintro ⟨hplace, hin | ⟨hglobal, host, hbefore, hlate, hline⟩⟩
    · refine ⟨?_, .inl hin⟩
      refine Nat.lt_of_le_of_ne (Nat.le_of_not_lt fun hlt => ?_) (ne_of_setting hsetting hsome)
      obtain ⟨b, hb, hline⟩ := hin
      obtain rfl := Option.some.inj (hb.symm.trans (blockAt_between hblock hlt hplace.le))
      exact hhost hline
    · have hless : host < block := by
        refine Nat.lt_of_le_of_ne (Nat.le_of_not_lt fun hlt => ?_) (fun heq => hhost (heq ▸ hline))
        have hheader := hline.isSome
        rw [hbetween host hlt hlate] at hheader
        cases hheader
      exact ⟨hbefore.trans hless, .inr ⟨hglobal, host, hbefore, hless, hline⟩⟩
  · rintro ⟨hlt, hin | ⟨hglobal, host, hbefore, hlate, hline⟩⟩
    · exact ⟨hlt.trans hlast, .inl hin⟩
    · exact ⟨hlt.trans hlast, .inr ⟨hglobal, host, hbefore, hlate.trans hlast, hline⟩⟩

end Flush
section Ended
variable {toLowerCase : JsString → JsString} {lines : List JsString} {s : ParserState}
  {place block : ℕ}

theorem gathered_fromHosts_of_not (hostAlias : JsString)
    (h : ¬ ∃ host < place, HostLine toLowerCase lines hostAlias host) :
    gathered toLowerCase lines (FromHosts toLowerCase lines hostAlias place) = noOptions := by
  refine gathered_false fun i hi => ?_
  obtain ⟨hplace, ⟨b, hb, hline⟩ | ⟨-, host, -, hlate, hline⟩⟩ := hi
  · exact h ⟨b, (blockAt_eq_some toLowerCase hb).1.trans hplace, hline⟩
  · exact h ⟨host, hlate, hline⟩

theorem mergeOptions_aliasOptions (hostAlias : JsString) (next : OrderedSshConfigOptions) :
    mergeOptions (aliasOptions toLowerCase lines place hostAlias) next =
      mergeOptions (some (gathered toLowerCase lines (FromHosts toLowerCase lines hostAlias place)))
        next := by
  rw [aliasOptions]
  split_ifs with h
  · rfl
  · rw [gathered_fromHosts_of_not hostAlias h]
    rfl

theorem filterMap_range_of_none {α : Type} {f : ℕ → Option α} {last block : ℕ} (hlt : block < last)
    (h : ∀ i, block < i → i < last → f i = none) :
    (List.range last).filterMap f = (List.range block).filterMap f ++ (f block).toList := by
  induction last with
  | zero => exact absurd hlt (Nat.not_lt_zero block)
  | succ last ih =>
    rw [List.range_succ, List.filterMap_append]
    rcases Nat.lt_succ_iff_lt_or_eq.mp hlt with hless | rfl
    · rw [ih hless fun i hi hlast => h i hi (Nat.lt_succ_of_lt hlast),
        List.filterMap_cons_none (h last hless (Nat.lt_succ_self last)), List.filterMap_nil,
        List.append_nil]
    · cases hf : f block with
      | none => rw [List.filterMap_cons_none hf]; rfl
      | some value => rw [List.filterMap_cons_some hf]; rfl

theorem ReadTo.flushed_none (h : ReadTo toLowerCase lines place s)
    (hblock : blockAt lines place = none) :
    FlushedTo toLowerCase lines place s.flushCurrentBlock := by
  have hregisters : s.registers = globalRegisters := h.registers.trans (registersAt_of_none hblock)
  have haliases : s.currentAliases = [] := congrArg Registers.currentAliases hregisters
  have hmatch : s.currentMatch = none :=
    Option.map_eq_none_iff.mp (congrArg Registers.criteria hregisters)
  have hheader {i : ℕ} (hi : i < place) : headerAt toLowerCase lines i = none :=
    headerAt_of_blockAt_none hblock hi
  have hflushed := h.flushed
  rw [hblock, Option.getD_none] at hflushed
  refine ⟨fun hostAlias => ?_, ?_⟩
  · rw [get?_flushCurrentBlock, haliases, if_neg List.not_mem_nil, hflushed.aliasMap, aliasOptions,
      aliasOptions, if_neg, if_neg]
    · rintro ⟨host, hlt, hline⟩
      have hsome := hline.isSome
      rw [hheader hlt] at hsome
      cases hsome
    · rintro ⟨host, hlt, -⟩
      exact Nat.not_lt_zero host hlt
  · rw [matchBlocks_flushCurrentBlock fun hne => absurd haliases hne, hmatch, hflushed.matchBlocks]
    refine (List.filterMap_eq_nil_iff.mpr fun i hi => ?_).symm
    rw [matchBlockAt, criteriaAt, hheader (List.mem_range.mp hi)]
    rfl

theorem ReadTo.flushed_some (h : ReadTo toLowerCase lines place s)
    (hblock : blockAt lines place = some block) :
    FlushedTo toLowerCase lines place s.flushCurrentBlock := by
  obtain ⟨hlt, hsome, hbetween⟩ := blockAt_eq_some toLowerCase hblock
  have hheader := registersAt_of_blockAt toLowerCase hblock
  rw [← h.registers] at hheader
  have hflushed := h.flushed
  rw [hblock, Option.getD_some] at hflushed
  have hname (hostAlias : JsString) :
      HostLine toLowerCase lines hostAlias block ↔ hostAlias ∈ s.currentAliases := by
    rw [HostLine, hheader]
    constructor
    · rintro ⟨registers, heq, hmem⟩
      obtain rfl := Option.some.inj heq
      exact hmem
    · exact fun hmem => ⟨_, rfl, hmem⟩
  refine ⟨fun hostAlias => ?_, ?_⟩
  · rw [get?_flushCurrentBlock, hflushed.aliasMap]
    by_cases hmem : hostAlias ∈ s.currentAliases
    · have hhost := (hname hostAlias).mpr hmem
      rw [if_pos hmem, mergeOptions_aliasOptions, h.currentOptions (List.ne_nil_of_mem hmem), hblock,
        merge_gathered, aliasOptions, if_pos ⟨block, hlt, hhost⟩]
      exact congrArg some (gathered_congr fun i setting hsetting =>
        (fromHosts_of_hostLine hblock hhost hsetting).symm)
    · have hhost := mt (hname hostAlias).mp hmem
      have hexists : (∃ host < place, HostLine toLowerCase lines hostAlias host) ↔
          ∃ host < block, HostLine toLowerCase lines hostAlias host := by
        constructor
        · rintro ⟨host, hlate, hline⟩
          rcases Nat.lt_trichotomy host block with hless | rfl | hmore
          · exact ⟨host, hless, hline⟩
          · exact absurd hline hhost
          · have hnone := hline.isSome
            rw [hbetween host hmore hlate] at hnone
            cases hnone
        · rintro ⟨host, hless, hline⟩
          exact ⟨host, hless.trans hlt, hline⟩
      rw [if_neg hmem, aliasOptions, aliasOptions]
      by_cases hany : ∃ host < block, HostLine toLowerCase lines hostAlias host
      · rw [if_pos hany, if_pos (hexists.mpr hany)]
        exact congrArg some (gathered_congr fun i setting hsetting =>
          (fromHosts_of_not_hostLine hblock hhost hsetting).symm)
      · rw [if_neg hany, if_neg (mt hexists.mp hany)]
  · have hnone : s.currentAliases ≠ [] → s.currentMatch = none := fun hne =>
      Option.map_eq_none_iff.mp (criteria_of_currentAliases hheader hne).1
    have hearlier : (List.range block).filterMap (matchBlockAt toLowerCase lines place) =
        (List.range block).filterMap (matchBlockAt toLowerCase lines block) := by
      refine List.filterMap_congr fun b hb => ?_
      have hless := List.mem_range.mp hb
      have hsame : gathered toLowerCase lines (fun i => i < place ∧ blockAt lines i = some b) =
          gathered toLowerCase lines fun i => i < block ∧ blockAt lines i = some b := ?_
      · rw [matchBlockAt, matchBlockAt, hsame]
      refine gathered_congr fun i setting hsetting => ?_
      refine ⟨fun hi => ⟨?_, hi.2⟩, fun hi => ⟨hi.1.trans hlt, hi.2⟩⟩
      refine Nat.lt_of_le_of_ne (Nat.le_of_not_lt fun hmore => ?_) (ne_of_setting hsetting hsome)
      have hsame := Option.some.inj (hi.2.symm.trans (blockAt_between hblock hmore hi.1.le))
      exact absurd hsame hless.ne
    have hcurrent : matchBlockAt toLowerCase lines place block = s.currentMatch := by
      rw [matchBlockAt, criteriaAt, hheader, Option.bind_some]
      cases hmatch : s.currentMatch with
      | none => simp [ParserState.registers, hmatch]
      | some current =>
        have hoptions := h.currentMatch current hmatch
        rw [hblock] at hoptions
        simp only [ParserState.registers, hmatch, Option.map_some, ← hoptions]
    rw [matchBlocks_flushCurrentBlock hnone, hflushed.matchBlocks, filterMap_range_of_none hlt,
      hearlier, hcurrent]
    intro i hi hlast
    rw [matchBlockAt, criteriaAt, hbetween i hi hlast]
    rfl

theorem ReadTo.flush (h : ReadTo toLowerCase lines place s) :
    FlushedTo toLowerCase lines place s.flushCurrentBlock := by
  cases hblock : blockAt lines place with
  | none => exact h.flushed_none hblock
  | some block => exact h.flushed_some hblock

end Ended

section Steps
variable {toLowerCase : JsString → JsString} {lines : List JsString} {s : ParserState}
  {place : ℕ} {P : ℕ → Prop}

theorem gathered_lt_succ (h : (settingAt toLowerCase lines place).isSome → ¬ P place) :
    gathered toLowerCase lines (fun i => i < place ∧ P i) =
      gathered toLowerCase lines fun i => i < place + 1 ∧ P i := by
  refine gathered_congr fun i setting hsetting => ?_
  rw [Nat.lt_succ_iff_lt_or_eq]
  refine ⟨fun hi => ⟨.inl hi.1, hi.2⟩, ?_⟩
  rintro ⟨hlt | rfl, hP⟩
  · exact ⟨hlt, hP⟩
  · exact absurd hP (h (by rw [hsetting]; rfl))

theorem withSettingAt_gathered_lt (h : P place) :
    withSettingAt toLowerCase lines place
        (gathered toLowerCase lines fun i => i < place ∧ P i) =
      gathered toLowerCase lines fun i => i < place + 1 ∧ P i := by
  rw [withSettingAt_gathered fun i hi => hi.1]
  refine gathered_congr fun i _ _ => ?_
  rw [Nat.lt_succ_iff_lt_or_eq]
  constructor
  · rintro (⟨hlt, hP⟩ | rfl)
    · exact ⟨.inl hlt, hP⟩
    · exact ⟨.inr rfl, h⟩
  · rintro ⟨hlt | rfl, hP⟩
    · exact .inl ⟨hlt, hP⟩
    · exact .inr rfl

theorem blockAt_succ_of_none (h : headerAt toLowerCase lines place = none) :
    blockAt lines (place + 1) = blockAt lines place := by
  rw [blockAt_succ toLowerCase, h]
  rfl

theorem registersAt_succ_of_none (h : headerAt toLowerCase lines place = none) :
    registersAt toLowerCase lines (place + 1) = registersAt toLowerCase lines place := by
  rw [registersAt, registersAt, blockAt_succ_of_none h]

/-- A line that sets no option and opens no block. -/
theorem ReadTo.plain (h : ReadTo toLowerCase lines place s)
    (hheader : headerAt toLowerCase lines place = none)
    (hsetting : settingAt toLowerCase lines place = none) (skipped : List SshConfigImportSkip)
    (optionOrder : ℕ) : ReadTo toLowerCase lines (place + 1) { s with skipped, optionOrder } := by
  have hblock := blockAt_succ_of_none hheader
  have hnot {Q : Prop} : (settingAt toLowerCase lines place).isSome → Q := by
    rw [hsetting]
    exact nofun
  refine ⟨?_, ?_, fun hne => ?_, fun block hmatch => ?_, ?_⟩
  · exact h.registers.trans (registersAt_succ_of_none hheader).symm
  · exact h.globalOptions.trans (gathered_lt_succ hnot)
  · rw [hblock]
    exact (h.currentOptions hne).trans (gathered_lt_succ hnot)
  · rw [hblock]
    exact (h.currentMatch block hmatch).trans (gathered_lt_succ hnot)
  · rw [hblock]
    exact ⟨h.flushed.aliasMap, h.flushed.matchBlocks⟩

theorem ReadTo.currentMatch_eq_none (h : ReadTo toLowerCase lines place s)
    (hne : s.currentAliases ≠ []) : s.currentMatch = none := by
  have hregisters := h.registers
  cases hblock : blockAt lines place with
  | none =>
    rw [registersAt_of_none hblock] at hregisters
    exact absurd (congrArg Registers.currentAliases hregisters) hne
  | some block =>
    have hheader := registersAt_of_blockAt toLowerCase hblock
    rw [← hregisters] at hheader
    exact Option.map_eq_none_iff.mp (criteria_of_currentAliases hheader hne).1

theorem ReadTo.setting (h : ReadTo toLowerCase lines place s)
    (hheader : headerAt toLowerCase lines place = none) {key : OptionKey} {value : JsString}
    (hsetting : settingAt toLowerCase lines place = some (key, value))
    (hskip : (registersAt toLowerCase lines place).currentSkip = false)
    (horder : s.optionOrder + 1 = orderAt toLowerCase lines place) :
    ReadTo toLowerCase lines (place + 1)
      (({ s with optionOrder := s.optionOrder + 1 } : ParserState).setOption key value) := by
  have hblock := blockAt_succ_of_none hheader
  have hregisters : (({ s with optionOrder := s.optionOrder + 1 } : ParserState).setOption key
      value).registers = registersAt toLowerCase lines (place + 1) :=
    (registers_setOption key value).trans
      (h.registers.trans (registersAt_succ_of_none hheader).symm)
  have hset (options : OrderedSshConfigOptions) :
      setOptionIfUnset options key value (s.optionOrder + 1) =
        withSettingAt toLowerCase lines place options := by
    rw [withSettingAt, hsetting, horder, Option.elim_some]
  have hflushed := h.flushed
  rw [← hblock] at hflushed
  unfold ParserState.setOption at hregisters ⊢
  by_cases haliases : s.currentAliases ≠ []
  · rw [if_pos haliases] at hregisters ⊢
    have hglobal : ¬ IsGlobal toLowerCase lines place := fun hglobal =>
      haliases (congrArg Registers.currentAliases (h.registers.trans hglobal))
    refine ⟨hregisters, ?_, fun _ => ?_, fun block hmatch => ?_, hflushed.aliasMap,
      hflushed.matchBlocks⟩
    · exact h.globalOptions.trans (gathered_lt_succ fun _ => hglobal)
    · rw [hblock]
      refine (hset s.currentOptions).trans ?_
      rw [h.currentOptions haliases]
      exact withSettingAt_gathered_lt (.inr rfl)
    · exact absurd (hmatch.symm.trans (h.currentMatch_eq_none haliases)) (by simp)
  · rw [if_neg haliases] at hregisters ⊢
    cases hcurrent : s.currentMatch with
    | some current =>
      simp only [hcurrent] at hregisters ⊢
      have hglobal : ¬ IsGlobal toLowerCase lines place := by
        intro hglobal
        have hnone := congrArg Registers.criteria (h.registers.trans hglobal)
        rw [ParserState.registers, hcurrent] at hnone
        cases hnone
      refine ⟨hregisters, ?_, fun hne => absurd hne haliases, fun block hmatch => ?_,
        hflushed.aliasMap, hflushed.matchBlocks⟩
      · exact h.globalOptions.trans (gathered_lt_succ fun _ => hglobal)
      · obtain rfl := Option.some.inj hmatch
        rw [hblock]
        refine (hset current.options).trans ?_
        rw [h.currentMatch current hcurrent]
        exact withSettingAt_gathered_lt rfl
    | none =>
      simp only [hcurrent] at hregisters ⊢
      have hglobal : IsGlobal toLowerCase lines place := by
        rw [IsGlobal, ← h.registers, ParserState.registers, hcurrent, not_not.mp haliases]
        rw [← h.registers] at hskip
        exact congrArg (Registers.mk [] none) hskip
      refine ⟨hregisters, ?_, fun hne => absurd hne haliases, fun block hmatch => ?_,
        hflushed.aliasMap, hflushed.matchBlocks⟩
      · refine (hset s.globalOptions).trans ?_
        rw [h.globalOptions]
        exact withSettingAt_gathered_lt hglobal
      · cases hmatch

theorem globalOptions_flushCurrentBlock (s : ParserState) :
    s.flushCurrentBlock.globalOptions = s.globalOptions := by
  rw [ParserState.flushCurrentBlock]
  split_ifs
  · have hfold : ∀ (aliases : List JsString) (s : ParserState),
        (aliases.foldl ParserState.flushAlias s).globalOptions = s.globalOptions := by
      intro aliases
      induction aliases with
      | nil => exact fun _ => rfl
      | cons hostAlias aliases ih => exact fun s => ih (s.flushAlias hostAlias)
    exact hfold s.currentAliases s
  · rfl

/-- The registers that a Host or Match line leaves. -/
structure Opened (s opened : ParserState) : Prop where
  globalOptions : opened.globalOptions = s.globalOptions
  currentOptions : opened.currentAliases ≠ [] → opened.currentOptions = s.globalOptions
  currentMatch : ∀ block, opened.currentMatch = some block → block.options = noOptions
  aliasMap : opened.aliasMap = s.flushCurrentBlock.aliasMap
  matchBlocks : opened.matchBlocks = s.flushCurrentBlock.matchBlocks

theorem opened_readMatch (s : ParserState) (value : JsString) :
    Opened s (s.readMatch toLowerCase value) := by
  rw [ParserState.readMatch]
  cases parseMatchCriteria toLowerCase value with
  | error rejected =>
    exact ⟨globalOptions_flushCurrentBlock s, fun hne => absurd rfl hne, by rintro _ ⟨⟩, rfl, rfl⟩
  | ok criteria =>
    refine ⟨globalOptions_flushCurrentBlock s, fun hne => absurd rfl hne, ?_, rfl, rfl⟩
    rintro block hblock
    obtain rfl := Option.some.inj hblock
    rfl

theorem opened_readHost (s : ParserState) (value : JsString) : Opened s (s.readHost value) :=
  ⟨globalOptions_flushCurrentBlock s, fun _ => globalOptions_flushCurrentBlock s, nofun, rfl, rfl⟩

theorem ReadTo.opened (h : ReadTo toLowerCase lines place s) {opened : ParserState}
    (hopened : Opened s opened)
    (hheader : headerAt toLowerCase lines place = some opened.registers) :
    ReadTo toLowerCase lines (place + 1) opened := by
  have hsome : (headerAt toLowerCase lines place).isSome := by rw [hheader]; rfl
  have hblock : blockAt lines (place + 1) = some place := by
    rw [blockAt_succ toLowerCase, if_pos hsome]
  have hother (i : ℕ) (hi : i < place + 1) : blockAt lines i ≠ some place := fun hin =>
    absurd (blockAt_eq_some toLowerCase hin).1 (Nat.not_lt_of_le (Nat.le_of_lt_succ hi))
  have hglobal : s.globalOptions =
      gathered toLowerCase lines fun i => i < place + 1 ∧ IsGlobal toLowerCase lines i := by
    rw [h.globalOptions]
    refine gathered_lt_succ fun hset => ?_
    rw [settingAt_of_header hsome] at hset
    cases hset
  refine ⟨?_, hopened.globalOptions.trans hglobal, fun hne => ?_, fun block hmatch => ?_, ?_⟩
  · rw [registersAt, hblock, Option.bind_some, hheader, Option.getD_some]
  · rw [hopened.currentOptions hne, hglobal, hblock]
    refine gathered_congr fun i _ _ => and_congr_right fun hi => ?_
    exact (or_iff_left (hother i hi)).symm
  · rw [hopened.currentMatch block hmatch, hblock]
    exact (gathered_false fun i hi => hother i hi.1 hi.2).symm
  · rw [hblock, Option.getD_some]
    have hflushed := h.flush
    exact ⟨fun hostAlias => hopened.aliasMap ▸ hflushed.aliasMap hostAlias,
      hopened.matchBlocks.trans hflushed.matchBlocks⟩

theorem ReadTo.line (h : ReadTo toLowerCase lines place (stateAt toLowerCase lines place))
    (hplace : place < lines.length) :
    ReadTo toLowerCase lines (place + 1) (stateAt toLowerCase lines (place + 1)) := by
  have hget := List.getElem?_eq_getElem hplace
  have hregisters := h.registers
  rw [stateAt_succ hplace]
  cases hblock : blockDirective lines[place] with
  | some directive =>
    have hheader : headerAt toLowerCase lines place =
        some (((stateAt toLowerCase lines place).readLine toLowerCase lines[place]).registers) := by
      rw [registers_readLine, hblock, headerAt, hget, Option.bind_some, hblock]
      rfl
    refine h.opened ?_ hheader
    unfold blockDirective at hblock
    cases hread : readLine lines[place] with
    | blank | empty | unparseable => rw [hread] at hblock; cases hblock
    | directive directive' =>
      simp only [hread] at hblock
      rw [ParserState.readLine, hread]
      simp only [ParserState.readDirective]
      by_cases hmatch : directive'.name = js "match"
      · rw [if_pos hmatch]
        exact opened_readMatch _ _
      by_cases hhost : directive'.name = js "host"
      · have hinclude : directive'.name ≠ js "include" := by
          rw [hhost]
          decide
        rw [if_neg hmatch, if_neg hinclude, if_pos hhost]
        exact opened_readHost _ _
      · simp [hmatch, hhost] at hblock
  | none =>
    have hheader : headerAt toLowerCase lines place = none := by
      rw [headerAt, hget, Option.bind_some, hblock]
      rfl
    unfold blockDirective at hblock
    rw [ParserState.readLine]
    cases hread : readLine lines[place] with
    | blank | empty | unparseable =>
      have hsetting : settingAt toLowerCase lines place = none := by
        rw [settingAt, hget, Option.map_some, hread]
      exact h.plain hheader hsetting _ _
    | directive directive =>
      have hsetting : settingAt toLowerCase lines place =
          if (registersAt toLowerCase lines place).currentSkip then none
          else (ParserState.optionKey directive.name).map (·, directive.value) := by
        rw [settingAt, hget, Option.map_some, hread]
      simp only [hread] at hblock ⊢
      have hmatch : directive.name ≠ js "match" := fun hname => by simp [hname] at hblock
      have hhost : directive.name ≠ js "host" := fun hname => by simp [hname] at hblock
      simp only [ParserState.readDirective, if_neg hmatch, if_neg hhost]
      by_cases hinclude : directive.name = js "include"
      · have hkey : ParserState.optionKey directive.name = none := by
          rw [hinclude]
          decide
        rw [hkey, Option.map_none, ite_self] at hsetting
        rw [if_pos hinclude]
        exact h.plain hheader hsetting _ _
      · rw [if_neg hinclude, ParserState.readOption]
        have hskip : (stateAt toLowerCase lines place).currentSkip =
            (registersAt toLowerCase lines place).currentSkip :=
          congrArg Registers.currentSkip hregisters
        rw [← hskip] at hsetting
        by_cases hskipped : (stateAt toLowerCase lines place).currentSkip = true
        · rw [if_pos hskipped] at hsetting
          rw [if_pos hskipped]
          exact h.plain hheader hsetting _ _
        · rw [if_neg hskipped] at hsetting
          rw [if_neg hskipped]
          have hfalse := Bool.eq_false_of_not_eq_true hskipped
          cases hkey : ParserState.optionKey directive.name with
          | none =>
            rw [hkey] at hsetting
            exact h.plain hheader hsetting _ _
          | some key =>
            rw [hkey] at hsetting
            exact h.setting hheader hsetting (hskip.symm.trans hfalse) rfl

theorem readTo_zero : ReadTo toLowerCase lines 0 initialParserState := by
  have hnone {Q : ℕ → Prop} (i : ℕ) : ¬ (i < 0 ∧ Q i) := fun hi => Nat.not_lt_zero i hi.1
  refine ⟨rfl, (gathered_false hnone).symm, fun hne => absurd rfl hne, nofun, fun hostAlias => ?_,
    rfl⟩
  have hno : ¬ ∃ host < 0, HostLine toLowerCase lines hostAlias host :=
    fun ⟨host, hlt, _⟩ => Nat.not_lt_zero host hlt
  exact (if_neg hno).symm

theorem readTo_stateAt (toLowerCase : JsString → JsString) (hplace : place ≤ lines.length) :
    ReadTo toLowerCase lines place (stateAt toLowerCase lines place) := by
  induction place with
  | zero => exact readTo_zero
  | succ place ih => exact (ih (Nat.le_of_succ_le hplace)).line hplace

/-- What the line loop leaves behind the last line. -/
theorem flushedTo_readLines (toLowerCase : JsString → JsString) (lines : List JsString) :
    FlushedTo toLowerCase lines lines.length (readLines toLowerCase lines).flushCurrentBlock := by
  have h := (readTo_stateAt toLowerCase (Nat.le_refl lines.length)).flush
  rwa [stateAt, List.take_length] at h

end Steps

end SshConfig
