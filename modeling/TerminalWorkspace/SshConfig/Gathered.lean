import TerminalWorkspace.SshConfig.Places

/-! The parser's options as the earliest of the directives that stand at some places. -/
namespace SshConfig
open JsText FirstPlace
open ParserState (Registers)

section Options

theorem options_ext {left right : OrderedSshConfigOptions}
    (h : ∀ key, left.get key = right.get key) : left = right := by
  obtain ⟨hostname, identityFile, port, proxyJump, user⟩ := left
  obtain ⟨hostname', identityFile', port', proxyJump', user'⟩ := right
  obtain rfl : hostname = hostname' := h .hostname
  obtain rfl : identityFile = identityFile' := h .identityFile
  obtain rfl : port = port' := h .port
  obtain rfl : proxyJump = proxyJump' := h .proxyJump
  obtain rfl : user = user' := h .user
  rfl

theorem get_put (options : OrderedSshConfigOptions) (value : OrderedOption) (key other : OptionKey) :
    (options.put value key).get other = if key = other then some value else options.get other := by
  cases key <;> cases other <;> rfl

theorem get_setOptionIfUnset (options : OrderedSshConfigOptions) (key other : OptionKey)
    (value : JsString) (order : ℕ) :
    (setOptionIfUnset options key value order).get other =
      (options.get other).or (if key = other then some ⟨order, value⟩ else none) := by
  rw [setOptionIfUnset]
  by_cases hkey : key = other
  · subst hkey
    cases hget : options.get key with
    | none => simp [get_put]
    | some current => simp [hget]
  · cases hget : options.get key with
    | none => simp [get_put, hkey]
    | some current => simp [hkey]

theorem get_mergeOptions (existing : Option OrderedSshConfigOptions)
    (next : OrderedSshConfigOptions) (key : OptionKey) :
    (mergeOptions existing next).get key =
      earlier ((existing.getD noOptions).get key) (next.get key) := by
  cases key <;> rfl

theorem get_noOptions (key : OptionKey) : noOptions.get key = none := by
  cases key <;> rfl

theorem earlier_none_left (candidate : Option OrderedOption) :
    earlier none candidate = candidate := by
  cases candidate <;> rfl

theorem mergeOptions_twice (existing : Option OrderedSshConfigOptions)
    (next : OrderedSshConfigOptions) :
    mergeOptions (some (mergeOptions existing next)) next = mergeOptions existing next := by
  refine options_ext fun key => ?_
  rw [get_mergeOptions, Option.getD_some, get_mergeOptions]
  cases next.get key with
  | none => rfl
  | some candidate =>
    cases (existing.getD noOptions).get key with
    | none => simp [earlier]
    | some current =>
      simp only [earlier]
      split_ifs with hlt
      · simp [earlier]
      · simp [earlier, hlt]

theorem hasAnyOptions_eq_false {options : OrderedSshConfigOptions} :
    hasAnyOptions options = false ↔ options = noOptions := by
  obtain ⟨hostname, identityFile, port, proxyJump, user⟩ := options
  simp [hasAnyOptions, noOptions, and_assoc]

end Options

section Order
variable {toLowerCase : JsString → JsString} {s : ParserState}

theorem optionOrder_flushCurrentBlock : s.flushCurrentBlock.optionOrder = s.optionOrder := by
  rw [ParserState.flushCurrentBlock]
  split_ifs
  · have hfold : ∀ (aliases : List JsString) (s : ParserState),
        (aliases.foldl ParserState.flushAlias s).optionOrder = s.optionOrder := by
      intro aliases
      induction aliases with
      | nil => exact fun _ => rfl
      | cons hostAlias aliases ih => exact fun s => ih (s.flushAlias hostAlias)
    exact hfold s.currentAliases s
  · rfl

theorem optionOrder_setOption (key : OptionKey) (value : JsString) :
    (s.setOption key value).optionOrder = s.optionOrder := by
  rw [ParserState.setOption]
  split_ifs
  · rfl
  · cases s.currentMatch <;> rfl

theorem optionOrder_readOption (directive value : JsString) :
    (s.readOption directive value).optionOrder =
      if s.currentSkip then s.optionOrder else s.optionOrder + 1 := by
  rw [ParserState.readOption]
  split_ifs
  · rfl
  · cases ParserState.optionKey directive with
    | none => rfl
    | some key => exact optionOrder_setOption key value

theorem optionOrder_le_readLine (line : JsString) :
    s.optionOrder ≤ (s.readLine toLowerCase line).optionOrder := by
  rw [ParserState.readLine]
  cases readLine line with
  | blank | empty | unparseable => exact Nat.le_refl _
  | directive directive =>
    simp only [ParserState.readDirective]
    split_ifs
    · rw [ParserState.readMatch]
      cases parseMatchCriteria toLowerCase directive.value <;>
        exact optionOrder_flushCurrentBlock.ge
    · exact Nat.le_refl _
    · exact optionOrder_flushCurrentBlock.ge
    · rw [optionOrder_readOption]
      split_ifs
      · exact Nat.le_refl _
      · exact Nat.le_succ _

end Order

section Gathered
variable (toLowerCase : JsString → JsString) (lines : List JsString)

def stateAt (place : ℕ) : ParserState := readLines toLowerCase (lines.take place)

/-- The number that the parser gives a directive. -/
def orderAt (place : ℕ) : ℕ := (stateAt toLowerCase lines place).optionOrder + 1

def ordered (found : ℕ × JsString) : OrderedOption :=
  ⟨orderAt toLowerCase lines found.1, found.2⟩

noncomputable def gatheredOption (S : ℕ → Prop) (key : OptionKey) : Option OrderedOption :=
  (first (optionAt toLowerCase lines key) S).map (ordered toLowerCase lines)

/-- The options that the directives at some places set, the earliest of each. -/
noncomputable def gathered (S : ℕ → Prop) : OrderedSshConfigOptions where
  hostname := gatheredOption toLowerCase lines S .hostname
  identityFile := gatheredOption toLowerCase lines S .identityFile
  port := gatheredOption toLowerCase lines S .port
  proxyJump := gatheredOption toLowerCase lines S .proxyJump
  user := gatheredOption toLowerCase lines S .user

/-- The options with the one that the directive at a place sets, where it is not set. -/
def withSettingAt (place : ℕ) (options : OrderedSshConfigOptions) : OrderedSshConfigOptions :=
  (settingAt toLowerCase lines place).elim options fun setting =>
    setOptionIfUnset options setting.1 setting.2 (orderAt toLowerCase lines place)

variable {toLowerCase lines} {S T : ℕ → Prop} {place : ℕ}

theorem get_gathered (S : ℕ → Prop) (key : OptionKey) :
    (gathered toLowerCase lines S).get key = gatheredOption toLowerCase lines S key := by
  cases key <;> rfl

theorem gathered_congr
    (h : ∀ i setting, settingAt toLowerCase lines i = some setting → (S i ↔ T i)) :
    gathered toLowerCase lines S = gathered toLowerCase lines T := by
  refine options_ext fun key => ?_
  rw [get_gathered, get_gathered, gatheredOption, gatheredOption]
  refine congrArg _ (first_congr fun i value hvalue => ?_)
  exact h i _ (optionAt_eq_some_iff.mp hvalue)

theorem gathered_false (h : ∀ i, ¬ S i) : gathered toLowerCase lines S = noOptions := by
  refine options_ext fun key => ?_
  have hnone : first (optionAt toLowerCase lines key) S = none :=
    first_eq_none_iff.mpr fun i hi => absurd hi (h i)
  rw [get_gathered, gatheredOption, hnone, get_noOptions, Option.map_none]

theorem stateAt_succ (hplace : place < lines.length) : stateAt toLowerCase lines (place + 1) =
    (stateAt toLowerCase lines place).readLine toLowerCase lines[place] := by
  rw [stateAt, List.take_succ_eq_append_getElem hplace, readLines, List.foldl_append]
  rfl

theorem orderAt_mono {i j : ℕ} (h : i ≤ j) :
    orderAt toLowerCase lines i ≤ orderAt toLowerCase lines j := by
  induction h with
  | refl => exact Nat.le_refl _
  | step _ ih =>
    rename_i j _
    refine ih.trans (Nat.succ_le_succ ?_)
    by_cases hj : j < lines.length
    · exact stateAt_succ hj ▸ optionOrder_le_readLine _
    · have hle : lines.length ≤ j := Nat.le_of_not_lt hj
      rw [stateAt, stateAt, List.take_of_length_le hle,
        List.take_of_length_le (hle.trans (Nat.le_succ j))]

/-- The line of a setting. -/
theorem readLine_of_settingAt {setting : OptionKey × JsString}
    (h : settingAt toLowerCase lines place = some setting) :
    ∃ (hplace : place < lines.length) (directive : Directive),
      readLine lines[place] = .directive directive ∧
        (registersAt toLowerCase lines place).currentSkip = false ∧
        ParserState.optionKey directive.name = some setting.1 ∧ directive.value = setting.2 := by
  rw [settingAt] at h
  split at h
  · rename_i directive hread
    obtain ⟨line, hline, hdirective⟩ := Option.map_eq_some_iff.mp hread
    obtain ⟨hplace, rfl⟩ := List.getElem?_eq_some_iff.mp hline
    split_ifs at h with hskip
    obtain ⟨key, hkey, rfl⟩ := Option.map_eq_some_iff.mp h
    exact ⟨hplace, directive, hdirective, Bool.eq_false_of_not_eq_true hskip, hkey, rfl⟩
  · cases h

theorem optionKey_ne_block {name : JsString} {key : OptionKey}
    (h : ParserState.optionKey name = some key) :
    name ≠ js "match" ∧ name ≠ js "include" ∧ name ≠ js "host" := by
  have hnone : ∀ word ∈ [js "match", js "include", js "host"],
      ParserState.optionKey word = none := by decide
  refine ⟨?_, ?_, ?_⟩ <;> rintro rfl <;> exact absurd (h.symm.trans (hnone _ (by simp))) nofun

theorem orderAt_lt {i j : ℕ} {setting : OptionKey × JsString}
    (h : settingAt toLowerCase lines i = some setting) (hij : i < j) :
    orderAt toLowerCase lines i < orderAt toLowerCase lines j := by
  obtain ⟨hplace, directive, hread, hskip, hkey, -⟩ := readLine_of_settingAt h
  obtain ⟨hmatch, hinclude, hhost⟩ := optionKey_ne_block hkey
  have hregisters : (stateAt toLowerCase lines i).currentSkip = false :=
    (congrArg Registers.currentSkip (registers_readLines_take i)).trans hskip
  refine Nat.lt_of_lt_of_le ?_ (orderAt_mono hij)
  rw [orderAt, orderAt, stateAt_succ hplace, ParserState.readLine, hread]
  simp only [ParserState.readDirective, if_neg hmatch, if_neg hinclude, if_neg hhost,
    optionOrder_readOption, hregisters]
  exact Nat.lt_succ_self _

theorem merge_gathered (S T : ℕ → Prop) :
    mergeOptions (some (gathered toLowerCase lines S)) (gathered toLowerCase lines T) =
      gathered toLowerCase lines fun i => S i ∨ T i := by
  refine options_ext fun key => ?_
  rw [get_mergeOptions, Option.getD_some, get_gathered, get_gathered, get_gathered, gatheredOption,
    gatheredOption, gatheredOption, first_or]
  cases hS : first (optionAt toLowerCase lines key) S with
  | none =>
    rw [Option.map_none, earlier_none_left]
    cases first (optionAt toLowerCase lines key) T <;> rfl
  | some current =>
    cases hT : first (optionAt toLowerCase lines key) T with
    | none => rfl
    | some candidate =>
      have hset := optionAt_eq_some_iff.mp (first_eq_some_iff.mp hT).2.1
      have hlt : orderAt toLowerCase lines candidate.1 < orderAt toLowerCase lines current.1 ↔
          candidate.1 < current.1 :=
        ⟨fun h => Nat.lt_of_not_le fun hle => absurd (orderAt_mono hle) (Nat.not_le_of_lt h),
          orderAt_lt hset⟩
      simp only [Option.map_some, earlier, sooner, ordered, hlt]
      split_ifs <;> rfl

theorem withSettingAt_gathered (h : ∀ i, S i → i < place) :
    withSettingAt toLowerCase lines place (gathered toLowerCase lines S) =
      gathered toLowerCase lines fun i => S i ∨ i = place := by
  refine options_ext fun key => ?_
  rw [get_gathered, gatheredOption, first_insert h, withSettingAt]
  cases hsetting : settingAt toLowerCase lines place with
  | none =>
    have hoption : optionAt toLowerCase lines key place = none := by rw [optionAt, hsetting]; rfl
    rw [hoption, Option.map_none, Option.or_none, Option.elim_none, get_gathered, gatheredOption]
  | some setting =>
    rw [Option.elim_some, get_setOptionIfUnset, get_gathered, gatheredOption, optionAt, hsetting]
    by_cases hkey : setting.1 = key
    · rw [Option.filter_some_pos (by simpa using hkey), if_pos hkey]
      cases first (optionAt toLowerCase lines key) S <;> rfl
    · rw [Option.filter_some_neg (by simpa using hkey), if_neg hkey]
      cases first (optionAt toLowerCase lines key) S <;> rfl

end Gathered
end SshConfig
