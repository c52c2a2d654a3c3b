import TerminalWorkspace.SshConfig.HostPhase

/-! First match: each option of an imported host is the value of the earliest directive that applies
to its alias, wherever the Host and Match blocks of the file stand. -/
namespace SshConfig
open JsText FirstPlace
open RecordFile (trim words)

section Rule
variable (toLowerCase : JsString → JsString) (lines : List JsString)

/-- A directive applies to an alias from a Host block that names it, from the global scope before
some Host line that names it, and from the given Match blocks. -/
def Applies (hostAlias : JsString) (Matched : ℕ → Prop) (place : ℕ) : Prop :=
  InHostBlock toLowerCase lines hostAlias place ∨
    (IsGlobal toLowerCase lines place ∧
      ∃ host, place < host ∧ HostLine toLowerCase lines hostAlias host) ∨
    ∃ block, Matched block ∧ blockAt lines place = some block

/-- The accepted Match blocks that match an alias. The user is judged on the directives of Host
blocks and of the earlier blocks among them. -/
def Judged (hostAlias : JsString) (Matched : ℕ → Prop) : Prop :=
  ∀ block, Matched block ↔ ∃ criteria, criteriaAt toLowerCase lines block = some criteria ∧
    ∀ criterion ∈ criteria, criterion.holds hostAlias
      ((earliestValue toLowerCase lines .user (Applies toLowerCase lines hostAlias
        fun earlier => earlier < block ∧ Matched earlier)).getD [])

/-- A host with the values of its options. A jump host is the first target of a ProxyJump. -/
def hostWith (hostAlias : JsString) (value : OptionKey → Option JsString) :
    ImportedSshConfigHost where
  hostAlias
  hostname := (value .hostname).getD hostAlias
  username := (value .user).getD []
  port := parsePort (value .port)
  privateKeyPath := (value .identityFile).getD []
  jumpHostAlias := (value .proxyJump).bind firstTarget

end Rule

section Judged
variable {toLowerCase : JsString → JsString} {lines : List JsString} {hostAlias : JsString}

theorem earliestValue_congr {key : OptionKey} {S T : ℕ → Prop} (h : ∀ i, S i ↔ T i) :
    earliestValue toLowerCase lines key S = earliestValue toLowerCase lines key T :=
  congrArg (Option.map Prod.snd) (first_congr fun i _ _ => h i)

/-- The rule leaves no choice. -/
theorem Judged.unique {Matched Matched' : ℕ → Prop}
    (h : Judged toLowerCase lines hostAlias Matched)
    (h' : Judged toLowerCase lines hostAlias Matched') (block : ℕ) :
    Matched block ↔ Matched' block := by
  induction block using Nat.strong_induction_on with
  | _ block ih =>
    have happlies (i : ℕ) :
        Applies toLowerCase lines hostAlias (fun earlier => earlier < block ∧ Matched earlier) i ↔
          Applies toLowerCase lines hostAlias
            (fun earlier => earlier < block ∧ Matched' earlier) i := by
      refine or_congr_right (or_congr_right (exists_congr fun earlier => ?_))
      exact and_congr_left fun _ => and_congr_right (ih earlier)
    rw [h block, h' block, earliestValue_congr happlies]

end Judged

section MatchPhase
variable {toLowerCase : JsString → JsString} {lines : List JsString} {hostAlias : JsString}

theorem optionValue_gathered (S : ℕ → Prop) (key : OptionKey) :
    optionValue (gathered toLowerCase lines S) key =
      earliestValue toLowerCase lines key S := by
  rw [optionValue, get_gathered, gatheredOption, Option.map_map, earliestValue]
  rfl

theorem mergeOptions_noOptions (options : OrderedSshConfigOptions) :
    mergeOptions (some options) noOptions = options := by
  refine options_ext fun key => ?_
  rw [get_mergeOptions, get_noOptions, Option.getD_some]
  rfl

theorem applyMatchBlock_of_no_options {block : MatchBlockState}
    (h : hasAnyOptions block.options = false) (options : OrderedSshConfigOptions) :
    applyMatchBlock block hostAlias options = options := by
  rw [applyMatchBlock, hasAnyOptions_eq_false.mp h, mergeOptions_noOptions, ite_self]

theorem get?_mapEntries {κ ν : Type} [DecidableEq κ] (f : κ → ν → ν) (m : OrderedMap κ ν) (q : κ) :
    (m.entries.foldl (fun m e => m.set e.1 (f e.1 e.2)) m).get? q = (m.get? q).map (f q) := by
  have hsetAll : m.entries.foldl (fun m e => m.set e.1 (f e.1 e.2)) m =
      m.setAll (m.entries.map fun e => (e.1, f e.1 e.2)) := by
    rw [OrderedMap.setAll, List.foldl_map]
  have hkeys : (m.entries.map fun e => (e.1, f e.1 e.2)).map Prod.fst = m.entries.map Prod.fst := by
    rw [List.map_map]
    rfl
  rw [hsetAll, OrderedMap.get?_setAll, ← OrderedMap.get?_ofList, OrderedMap.get?,
    OrderedMap.ofList_entries (hkeys ▸ m.nodup), List.find?_map]
  cases hfind : m.entries.find? fun e => decide (e.1 = q) with
  | none =>
    have hget : m.get? q = none := by rw [OrderedMap.get?, hfind, Option.map_none]
    rw [hget]
    simpa using hfind
  | some e =>
    have hget : m.get? q = some e.2 := by rw [OrderedMap.get?, hfind, Option.map_some]
    have hkey : e.1 = q := by simpa using List.find?_some hfind
    have hcomp : ((fun e : κ × ν => decide (e.1 = q)) ∘ fun e : κ × ν => (e.1, f e.1 e.2)) =
        fun e => decide (e.1 = q) := rfl
    rw [hget, hcomp, hfind, Option.map_some, Option.map_some, Option.map_some, hkey, Option.some_or]

/-- The blocks go through the options of each alias by themselves. -/
theorem get?_applyMatchBlocks (blocks : List MatchBlockState)
    (aliasMap : OrderedMap JsString OrderedSshConfigOptions) (hostAlias : JsString) :
    (applyMatchBlocks blocks aliasMap).get? hostAlias =
      (aliasMap.get? hostAlias).map fun options =>
        blocks.foldl (fun options block => applyMatchBlock block hostAlias options) options := by
  rw [applyMatchBlocks]
  induction blocks generalizing aliasMap with
  | nil => simp
  | cons block blocks ih =>
    rw [List.foldl_cons, ih]
    by_cases hany : hasAnyOptions block.options = true
    · rw [if_pos hany, get?_mapEntries (applyMatchBlock block), Option.map_map]
      rfl
    · have hnone := Bool.eq_false_of_not_eq_true hany
      rw [if_neg hany]
      simp only [List.foldl_cons, applyMatchBlock_of_no_options hnone]

variable (toLowerCase lines hostAlias)

/-- The options of an alias before the Match blocks from a place on. -/
noncomputable def optionsBefore (place : ℕ) : OrderedSshConfigOptions :=
  ((List.range place).filterMap (matchBlockAt toLowerCase lines lines.length)).foldl
    (fun options block => applyMatchBlock block hostAlias options)
    (gathered toLowerCase lines (FromHosts toLowerCase lines hostAlias lines.length))

def MatchedBlock (block : ℕ) : Prop :=
  ∃ criteria, criteriaAt toLowerCase lines block = some criteria ∧
    ∀ criterion ∈ criteria, criterion.holds hostAlias
      ((optionValue (optionsBefore toLowerCase lines hostAlias block) .user).getD [])

variable {toLowerCase lines hostAlias}

theorem lt_length_of_setting {place : ℕ} {setting : OptionKey × JsString}
    (h : settingAt toLowerCase lines place = some setting) : place < lines.length :=
  (readLine_of_settingAt h).1

theorem lt_length_of_hostLine {place : ℕ} (h : HostLine toLowerCase lines hostAlias place) :
    place < lines.length := by
  by_contra hnot
  have hsome := h.isSome
  rw [headerAt, List.getElem?_eq_none (Nat.le_of_not_lt hnot)] at hsome
  cases hsome

/-- What applies to an alias with some of its matched blocks. -/
theorem gathered_applies (Matched : ℕ → Prop) :
    gathered toLowerCase lines (fun i =>
        FromHosts toLowerCase lines hostAlias lines.length i ∨
          ∃ block, Matched block ∧ i < lines.length ∧ blockAt lines i = some block) =
      gathered toLowerCase lines (Applies toLowerCase lines hostAlias Matched) := by
  refine gathered_congr fun i setting hsetting => ?_
  have hlt := lt_length_of_setting hsetting
  have hhost (host : ℕ) : (host < lines.length ∧ HostLine toLowerCase lines hostAlias host) ↔
      HostLine toLowerCase lines hostAlias host := and_iff_right_of_imp lt_length_of_hostLine
  simp only [FromHosts, Applies, hlt, hhost, true_and, or_assoc]

theorem optionsBefore_eq (place : ℕ) : optionsBefore toLowerCase lines hostAlias place =
    gathered toLowerCase lines (Applies toLowerCase lines hostAlias fun block =>
      block < place ∧ MatchedBlock toLowerCase lines hostAlias block) := by
  rw [← gathered_applies]
  induction place with
  | zero =>
    exact gathered_congr fun i _ _ => by simp
  | succ place ih =>
    have hstep : optionsBefore toLowerCase lines hostAlias (place + 1) =
        (matchBlockAt toLowerCase lines lines.length place).elim
          (optionsBefore toLowerCase lines hostAlias place) fun block =>
            applyMatchBlock block hostAlias (optionsBefore toLowerCase lines hostAlias place) := by
      rw [optionsBefore, List.range_succ, List.filterMap_append, List.foldl_append]
      cases hblock : matchBlockAt toLowerCase lines lines.length place with
      | none => rw [List.filterMap_cons_none hblock]; rfl
      | some block => rw [List.filterMap_cons_some hblock]; rfl
    have hsplit (Q : ℕ → Prop) : (∃ block, (block < place + 1 ∧
        MatchedBlock toLowerCase lines hostAlias block) ∧ Q block) ↔
          (∃ block, (block < place ∧ MatchedBlock toLowerCase lines hostAlias block) ∧ Q block) ∨
            MatchedBlock toLowerCase lines hostAlias place ∧ Q place := by
      constructor
      · rintro ⟨block, ⟨hlt, hmatched⟩, hQ⟩
        rcases Nat.lt_succ_iff_lt_or_eq.mp hlt with hless | rfl
        · exact .inl ⟨block, ⟨hless, hmatched⟩, hQ⟩
        · exact .inr ⟨hmatched, hQ⟩
      · rintro (⟨block, ⟨hlt, hmatched⟩, hQ⟩ | ⟨hmatched, hQ⟩)
        · exact ⟨block, ⟨Nat.lt_succ_of_lt hlt, hmatched⟩, hQ⟩
        · exact ⟨place, ⟨Nat.lt_succ_self place, hmatched⟩, hQ⟩
    rw [hstep, matchBlockAt]
    by_cases hmatched : MatchedBlock toLowerCase lines hostAlias place
    · obtain ⟨criteria, hcriteria, hall⟩ := id hmatched
      rw [hcriteria, Option.map_some, Option.elim_some, applyMatchBlock,
        if_pos (List.all_eq_true.mpr hall), ih, merge_gathered]
      refine gathered_congr fun i _ _ => ?_
      rw [hsplit, or_assoc]
      simp only [hmatched, true_and]
    · have hsame : (fun i => FromHosts toLowerCase lines hostAlias lines.length i ∨
          ∃ block, (block < place + 1 ∧ MatchedBlock toLowerCase lines hostAlias block) ∧
            i < lines.length ∧ blockAt lines i = some block) =
          fun i => FromHosts toLowerCase lines hostAlias lines.length i ∨
            ∃ block, (block < place ∧ MatchedBlock toLowerCase lines hostAlias block) ∧
              i < lines.length ∧ blockAt lines i = some block := by
        funext i
        rw [hsplit]
        simp only [hmatched, false_and, or_false]
      rw [hsame, ← ih]
      cases hcriteria : criteriaAt toLowerCase lines place with
      | none => rfl
      | some criteria =>
        have hnot : ¬ criteria.all (MatchCriterion.holds hostAlias
            ((optionValue (optionsBefore toLowerCase lines hostAlias place) .user).getD [])) :=
          fun hall => hmatched ⟨criteria, hcriteria, List.all_eq_true.mp hall⟩
        rw [Option.map_some, Option.elim_some, applyMatchBlock, if_neg hnot]

theorem judged_matchedBlock :
    Judged toLowerCase lines hostAlias (MatchedBlock toLowerCase lines hostAlias) := by
  intro block
  rw [MatchedBlock, optionsBefore_eq, optionValue_gathered]

end MatchPhase
section Imported
variable {toLowerCase : JsString → JsString} {lines : List JsString} {hostAlias : JsString}

theorem value_of_settingAt {place : ℕ} {key : OptionKey} {value : JsString}
    (h : settingAt toLowerCase lines place = some (key, value)) :
    value ≠ [] ∧ trim isSpace value = value := by
  obtain ⟨hplace, directive, hread, -, -, rfl⟩ := readLine_of_settingAt h
  unfold readLine at hread
  simp only at hread
  split_ifs at hread
  split at hread
  · cases hread
  split_ifs at hread with hempty
  obtain rfl := ReadLine.directive.inj hread
  exact ⟨hempty, RecordFile.trim_trim isSpace _⟩

theorem earliestValue_trimmed {key : OptionKey} {S : ℕ → Prop} {value : JsString}
    (h : earliestValue toLowerCase lines key S = some value) :
    value ≠ [] ∧ trim isSpace value = value := by
  obtain ⟨found, hfirst, rfl⟩ := Option.map_eq_some_iff.mp h
  exact value_of_settingAt (optionAt_eq_some_iff.mp (first_eq_some_iff.mp hfirst).2.1)

theorem HostLine.ne_nil {place : ℕ} (h : HostLine toLowerCase lines hostAlias place) :
    hostAlias ≠ [] := by
  obtain ⟨registers, hheader, hmem⟩ := h
  obtain ⟨directive, -, rfl⟩ := Option.map_eq_some_iff.mp hheader
  unfold blockRegisters at hmem
  split_ifs at hmem
  · split at hmem <;> cases hmem
  · exact (RecordFile.mem_words isSpace (List.mem_of_mem_filter hmem)).1

theorem importedHost_gathered (hne : hostAlias ≠ []) (S : ℕ → Prop) :
    importedHost hostAlias (gathered toLowerCase lines S) =
      some (hostWith hostAlias fun key => earliestValue toLowerCase lines key S) := by
  have htrim (key : OptionKey) : (earliestValue toLowerCase lines key S).map (trim isSpace) =
      earliestValue toLowerCase lines key S := by
    cases hvalue : earliestValue toLowerCase lines key S with
    | none => rfl
    | some value => rw [Option.map_some, (earliestValue_trimmed hvalue).2]
  have hnonEmpty : (earliestValue toLowerCase lines .hostname S).bind nonEmpty =
      earliestValue toLowerCase lines .hostname S := by
    cases hvalue : earliestValue toLowerCase lines .hostname S with
    | none => rfl
    | some value => rw [Option.bind_some, nonEmpty, if_neg (earliestValue_trimmed hvalue).1]
  have hhostname : (earliestValue toLowerCase lines .hostname S).getD hostAlias ≠ [] := by
    cases hvalue : earliestValue toLowerCase lines .hostname S with
    | none => exact hne
    | some value => exact (earliestValue_trimmed hvalue).1
  simp only [importedHost, optionValue_gathered, htrim, hnonEmpty, if_neg hhostname, hostWith]

/-- The options of the aliases, once the Match blocks have been applied. -/
theorem get?_importedAliases (toLowerCase : JsString → JsString) (lines : List JsString)
    (hostAlias : JsString) :
    (applyMatchBlocks (readLines toLowerCase lines).flushCurrentBlock.matchBlocks
        (readLines toLowerCase lines).flushCurrentBlock.aliasMap).get? hostAlias =
      (aliasOptions toLowerCase lines lines.length hostAlias).map fun _ =>
        gathered toLowerCase lines
          (Applies toLowerCase lines hostAlias (MatchedBlock toLowerCase lines hostAlias)) := by
  have hflushed := flushedTo_readLines toLowerCase lines
  rw [get?_applyMatchBlocks, hflushed.aliasMap, hflushed.matchBlocks, aliasOptions]
  split_ifs with hline
  · have hoptions : optionsBefore toLowerCase lines hostAlias lines.length =
        gathered toLowerCase lines
          (Applies toLowerCase lines hostAlias (MatchedBlock toLowerCase lines hostAlias)) := by
      rw [optionsBefore_eq, ← gathered_applies, ← gathered_applies]
      refine gathered_congr fun i _ _ => or_congr_right (exists_congr fun block => ?_)
      constructor
      · rintro ⟨⟨-, hmatched⟩, hin⟩
        exact ⟨hmatched, hin⟩
      · rintro ⟨hmatched, hlt, hblock⟩
        exact ⟨⟨(blockAt_eq_some toLowerCase hblock).1.trans hlt, hmatched⟩, hlt, hblock⟩
    rw [Option.map_some, Option.map_some, ← hoptions]
    rfl
  · rfl

theorem hosts_perm (p : Platform) (toLowerCase : JsString → JsString) (text : JsString) :
    ∃ aliasMap : OrderedMap JsString OrderedSshConfigOptions,
      (∀ hostAlias, aliasMap.get? hostAlias =
        (aliasOptions toLowerCase (splitLines text) (splitLines text).length hostAlias).map fun _ =>
          gathered toLowerCase (splitLines text) (Applies toLowerCase (splitLines text) hostAlias
            (MatchedBlock toLowerCase (splitLines text) hostAlias))) ∧
      (parseSshConfig p toLowerCase text).hosts.Perm (aliasMap.keys.map fun hostAlias =>
        hostWith hostAlias fun key => earliestValue toLowerCase (splitLines text) key
          (Applies toLowerCase (splitLines text) hostAlias
            (MatchedBlock toLowerCase (splitLines text) hostAlias))) := by
  have hget := get?_importedAliases toLowerCase (splitLines text)
  refine ⟨_, hget, (Inventory.sortBy_perm _ _).trans ?_⟩
  rw [OrderedMap.keys, List.map_map, ← List.filterMap_eq_map]
  refine List.Perm.of_eq (List.filterMap_congr fun entry hentry => ?_)
  have hentryOptions := (OrderedMap.get?_of_mem hentry).symm.trans (hget entry.1)
  obtain ⟨options, haliasOptions, hoptions⟩ := Option.map_eq_some_iff.mp hentryOptions.symm
  have hline : ∃ host < (splitLines text).length,
      HostLine toLowerCase (splitLines text) entry.1 host := by
    by_contra hnot
    rw [aliasOptions, if_neg hnot] at haliasOptions
    cases haliasOptions
  obtain ⟨host, -, hhost⟩ := hline
  rw [← hoptions, importedHost_gathered hhost.ne_nil]
  rfl

end Imported

end SshConfig
