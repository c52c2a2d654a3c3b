import TerminalWorkspace.Foundation.Indexed
import TerminalWorkspace.NativeTransport.ConfigMeaning

/-! When the file of a session is read as it was meant. -/
namespace NativeTransport
open Fallible QuotedWords

section Lines
variable {rest : List (List Char)}

theorem readLines_pair {line keyword word : List Char}
    (h : words openssh .between line = some [keyword, word]) :
    readLines (line :: rest) = (readLines rest).map (⟨keyword, [Utf8.encode word]⟩ :: ·) := by
  rw [readLines, h]
  cases readLines rest <;> rfl

theorem readLines_empty : readLines ([] :: rest) = readLines rest := by
  have h : words openssh .between [] = some [] := rfl
  rw [readLines, h]
  cases readLines rest <;> rfl

theorem Setting.words_line {setting : Setting} (hkeyword : PlainWord setting.keyword.toList)
    (hvalue : PlainWord setting.value.written) :
    words openssh .between setting.line =
      some [setting.keyword.toList, setting.value.written] := by
  have hblank : openssh.space ' ' = true := by decide
  rw [Setting.line, words_space hblank, words_space hblank]
  exact hkeyword.bare.words_pair hvalue.bare hblank

theorem readLines_settings {settings : List Setting}
    (h : ∀ setting ∈ settings, PlainWord setting.keyword.toList ∧ setting.value.Plain) :
    readLines (settings.map Setting.line ++ rest) =
      (readLines rest).map (settings.map Setting.directive ++ ·) := by
  induction settings with
  | nil => simp
  | cons setting settings ih =>
    obtain ⟨⟨hkeyword, hvalue⟩, hsettings⟩ := List.forall_mem_cons.mp h
    obtain ⟨hwritten, hencode⟩ := hvalue.written
    rw [List.map_cons, List.cons_append, readLines_pair (Setting.words_line hkeyword hwritten),
      ih hsettings, Option.map_map, hencode]
    rfl

/-- A block whose values are plain is read as its directives. -/
theorem readLines_block {block : HopBlock} (hname : PlainWord block.name)
    (h : ∀ setting ∈ block.settings, PlainWord setting.keyword.toList ∧ setting.value.Plain) :
    readLines (block.lines ++ rest) = (readLines rest).map (block.directives ++ ·) := by
  have hhost : Bare openssh "Host".toList := by decide
  have hwords : words openssh .between ("Host".toList ++ ' ' :: block.name) =
      some ["Host".toList, block.name] := hhost.words_pair hname.bare (by decide)
  rw [HopBlock.lines, List.cons_append, readLines_pair hwords, List.append_assoc,
    readLines_settings h, List.singleton_append, readLines_empty, Option.map_map]
  rfl

theorem readLines_blocks {blocks : List HopBlock} (hname : ∀ block ∈ blocks, PlainWord block.name)
    (h : ∀ block ∈ blocks, ∀ setting ∈ block.settings,
      PlainWord setting.keyword.toList ∧ setting.value.Plain) :
    readLines (blocks.flatMap HopBlock.lines) = some (blocks.flatMap HopBlock.directives) := by
  induction blocks with
  | nil => rfl
  | cons block blocks ih =>
    obtain ⟨hblock, hblocks⟩ := List.forall_mem_cons.mp h
    obtain ⟨hfirst, hnames⟩ := List.forall_mem_cons.mp hname
    rw [List.flatMap_cons, readLines_block hfirst hblock, ih hnames hblocks, List.flatMap_cons]
    rfl

/-- Where a directive was read. -/
theorem mem_readLines {lines : List (List Char)} {directives : List Directive}
    (h : readLines lines = some directives) {directive : Directive}
    (hmem : directive ∈ directives) : ∃ line ∈ lines, ∃ arguments,
      words openssh .between line = some (directive.keyword :: arguments) ∧
        directive.arguments = arguments.map Utf8.encode := by
  induction lines generalizing directives with
  | nil =>
    cases h
    cases hmem
  | cons line lines ih =>
    obtain ⟨lineWords, hwords, h⟩ := Option.bind_eq_some_iff.mp h
    obtain ⟨ds, hds, h⟩ := Option.bind_eq_some_iff.mp h
    cases lineWords with
    | nil =>
      cases h
      obtain ⟨line, hline, hread⟩ := ih hds hmem
      exact ⟨line, List.mem_cons_of_mem _ hline, hread⟩
    | cons keyword arguments =>
      cases h
      obtain rfl | hmem := List.mem_cons.mp hmem
      · exact ⟨line, List.mem_cons_self, arguments, hwords, rfl⟩
      · obtain ⟨line, hline, hread⟩ := ih hds hmem
        exact ⟨line, List.mem_cons_of_mem _ hline, hread⟩

theorem newline_not_mem_lines {block : HopBlock} (hname : '\n' ∉ block.name)
    (h : ∀ setting ∈ block.settings,
      '\n' ∉ setting.keyword.toList ∧ '\n' ∉ setting.value.written) :
    ∀ line ∈ block.lines, '\n' ∉ line := by
  rw [HopBlock.lines, List.forall_mem_cons, List.forall_mem_append, List.forall_mem_singleton]
  refine ⟨by simpa using hname, fun line hline => ?_, List.not_mem_nil⟩
  obtain ⟨setting, hsetting, rfl⟩ := List.mem_map.mp hline
  obtain ⟨hkeyword, hvalue⟩ := h setting hsetting
  simp [Setting.line, hkeyword, hvalue]

end Lines

section Options
variable {name : List UInt8}

theorem optionsFor_settings {settings : List Setting} (applies : Bool) (rest : List Directive)
    (h : ∀ setting ∈ settings, setting.keyword ≠ "Host") :
    optionsFor name applies (settings.map Setting.directive ++ rest) =
      (if applies then settings.map Setting.directive else []) ++
        optionsFor name applies rest := by
  induction settings with
  | nil => cases applies <;> rfl
  | cons setting settings ih =>
    obtain ⟨hkeyword, hsettings⟩ := List.forall_mem_cons.mp h
    have hhost : setting.directive.keyword ≠ "Host".toList := fun h =>
      hkeyword (String.toList_inj.mp h)
    rw [List.map_cons, List.cons_append, optionsFor, if_neg hhost, ih hsettings]
    cases applies <;> rfl

/-- A name has the settings of the blocks of that name. -/
theorem optionsFor_blocks {blocks : List HopBlock} (applies : Bool)
    (h : ∀ block ∈ blocks, ∀ setting ∈ block.settings, setting.keyword ≠ "Host") :
    optionsFor name applies (blocks.flatMap HopBlock.directives) =
      (blocks.filter fun block => Utf8.encode block.name = name).flatMap fun block =>
        block.settings.map Setting.directive := by
  induction blocks generalizing applies with
  | nil => rfl
  | cons block blocks ih =>
    obtain ⟨hblock, hblocks⟩ := List.forall_mem_cons.mp h
    rw [List.flatMap_cons, HopBlock.directives, List.cons_append, optionsFor, if_pos rfl,
      optionsFor_settings _ _ hblock, ih _ hblocks, List.filter_cons]
    by_cases hname : Utf8.encode block.name = name
    · simp [hname]
    · simp [hname, Ne.symm hname]

theorem argumentsOf_settings (keyword : String) (settings : List Setting) :
    argumentsOf keyword (settings.map Setting.directive) =
      (settings.filter fun setting => setting.keyword = keyword).map
        fun setting => [setting.value.intended] := by
  induction settings with
  | nil => rfl
  | cons setting settings ih =>
    have hkeyword : setting.directive.keyword = keyword.toList ↔ setting.keyword = keyword :=
      String.toList_inj
    by_cases h : setting.keyword = keyword
    · simp_all [argumentsOf, Setting.directive]
    · simp_all [argumentsOf, Setting.directive]

end Options

section Chain
variable {files : SshFiles} {sessionDir knownHostsPath : OsPath} {controlPath : Option OsPath}
  {connection : BackendHostConnection} {lastIndex index : ℕ}

theorem filter_controlSettings {keyword : String}
    (h : keyword ∉ ["ControlMaster", "ControlPath", "ControlPersist"]) :
    (controlSettings controlPath).filter (fun setting => setting.keyword = keyword) = [] := by
  simp only [List.mem_cons, List.not_mem_nil, or_false, not_or] at h
  obtain ⟨h1, h2, h3⟩ := h
  cases controlPath with
  | none => rfl
  | some path => simp [controlSettings, fixedSetting, Ne.symm h1, Ne.symm h2, Ne.symm h3]

theorem filter_jumpSettings {keyword : String} (h : keyword ≠ "ProxyJump") :
    (jumpSettings index lastIndex).filter (fun setting => setting.keyword = keyword) = [] := by
  unfold jumpSettings
  split
  · simp [Ne.symm h]
  · rfl

theorem filter_authSettings {name : List Char} {auth : List Setting}
    (hauth : authSettings files sessionDir connection name = .ok auth) {keyword : String}
    (h : keyword ∉ ["IdentityFile", "IdentitiesOnly", "PreferredAuthentications",
      "PubkeyAuthentication", "NumberOfPasswordPrompts"]) :
    auth.filter (fun setting => setting.keyword = keyword) = [] := by
  simp only [List.mem_cons, List.not_mem_nil, or_false, not_or] at h
  obtain ⟨h1, h2, h3, h4, h5⟩ := h
  obtain ⟨-, rfl⟩ | ⟨-, rfl | rfl⟩ := authSettings_cases hauth
  · simp [fixedSetting, Ne.symm h1, Ne.symm h2, Ne.symm h3]
  · simp [fixedSetting, Ne.symm h3, Ne.symm h4, Ne.symm h5]
  · rfl

theorem identityFile_authSettings {name : List Char} {auth : List Setting}
    (hauth : authSettings files sessionDir connection name = .ok auth) :
    (auth.filter fun setting => setting.keyword = "IdentityFile").map
        (fun setting => [setting.value.intended]) =
      if connection.authMethod = "privateKey" then
        [[identityPath files.home sessionDir connection name]] else [] := by
  obtain ⟨hmethod, rfl⟩ | ⟨hmethod, rfl | rfl⟩ := authSettings_cases hauth
  · rw [if_pos hmethod]
    simp [fixedSetting, WrittenValue.intended]
  · rw [if_neg hmethod]
    simp [fixedSetting]
  · rw [if_neg hmethod]
    rfl

theorem jumpAliases_ne_nil : jumpAliases lastIndex ≠ [] ↔ 0 < lastIndex := by
  simp [jumpAliases, Nat.pos_iff_ne_zero]

theorem proxyJump_jumpSettings :
    ((jumpSettings index lastIndex).filter fun setting => setting.keyword = "ProxyJump").map
        (fun setting => [setting.value.intended]) =
      if index = lastIndex ∧ 0 < lastIndex then
        [[Utf8.encode (List.intercalate [','] (jumpAliases lastIndex))]] else [] := by
  simp only [jumpSettings, jumpAliases_ne_nil]
  split
  · simp [WrittenValue.intended]
  · rfl

/-- The settings of a hop are what was asked for. -/
theorem hopConfig_hopBlock {block : HopBlock}
    (h : hopBlock files sessionDir knownHostsPath controlPath lastIndex index connection =
      .ok block) :
    hopConfig (block.settings.map Setting.directive) =
      askedHop files sessionDir knownHostsPath lastIndex index connection := by
  obtain ⟨known, auth, hknown, hauth, rfl⟩ := hopBlock_eq_ok h
  have hfile : (if hopIsPinned connection then [[knownHostsPath]]
      else files.durableKnownHosts.toList.map fun path => [path]) = [[known]] := by
    obtain ⟨hpinned, rfl⟩ | ⟨hpinned, hdurable⟩ := hopKnownHosts_cases hknown
    · exact if_pos hpinned
    · rw [if_neg hpinned, hdurable]
      rfl
  simp only [hopConfig, askedHop, argumentsOf_settings, hfile, HopConfig.mk.injEq]
  simp only [hopSettings, List.filter_append, List.map_append, identityFile_authSettings hauth,
    proxyJump_jumpSettings]
  -- no keyword of the fixed part is written again by the parts that depend on the connection
  refine ⟨?_, ?_, ?_, ?_, ?_, ?_, ?_⟩ <;>
    simp [filter_controlSettings, filter_jumpSettings, filter_authSettings hauth, fixedSetting,
      WrittenValue.intended]

theorem hopBlocks_getElem? {chain : List BackendHostConnection} {blocks : List HopBlock}
    (h : hopBlocks files sessionDir knownHostsPath controlPath lastIndex index chain = .ok blocks)
    {i : ℕ} {block : HopBlock} : blocks[i]? = some block ↔
      ∃ connection, chain[i]? = some connection ∧
        hopBlock files sessionDir knownHostsPath controlPath lastIndex (index + i) connection =
          .ok block := by
  induction chain generalizing blocks index i with
  | nil =>
    cases h
    simp
  | cons connection chain ih =>
    obtain ⟨first, hfirst, h⟩ := bind_eq_ok.mp h
    obtain ⟨others, hothers, h⟩ := bind_eq_ok.mp h
    cases h
    cases i with
    | zero => simp [hfirst]
    | succ i =>
      have hi := ih hothers (i := i)
      rw [Nat.add_right_comm, Nat.add_assoc] at hi
      simpa using hi

theorem length_hopBlocks {chain : List BackendHostConnection} {blocks : List HopBlock}
    (h : hopBlocks files sessionDir knownHostsPath controlPath lastIndex index chain =
      .ok blocks) : blocks.length = chain.length := by
  induction chain generalizing blocks index with
  | nil =>
    cases h
    rfl
  | cons connection chain ih =>
    obtain ⟨first, -, h⟩ := bind_eq_ok.mp h
    obtain ⟨others, hothers, h⟩ := bind_eq_ok.mp h
    cases h
    exact congrArg Nat.succ (ih hothers)

/-- The block of a connection. -/
theorem exists_hopBlock {chain : List BackendHostConnection} {blocks : List HopBlock}
    (h : hopBlocks files sessionDir knownHostsPath controlPath lastIndex 0 chain = .ok blocks)
    {i : ℕ} (hi : chain[i]? = some connection) : ∃ block, blocks[i]? = some block ∧
      hopBlock files sessionDir knownHostsPath controlPath lastIndex i connection =
        .ok block := by
  obtain ⟨hlt, -⟩ := List.getElem?_eq_some_iff.mp hi
  rw [← length_hopBlocks h] at hlt
  have hblock : blocks[i]? = some blocks[i] := List.getElem?_eq_getElem hlt
  obtain ⟨connection', hi', hok⟩ := (hopBlocks_getElem? h).mp hblock
  obtain rfl := Option.some_inj.mp (hi.symm.trans hi')
  rw [Nat.zero_add] at hok
  exact ⟨_, hblock, hok⟩

/-- What holds of every block that a connection is given. -/
theorem forall_hopBlocks {chain : List BackendHostConnection} {blocks : List HopBlock}
    (h : hopBlocks files sessionDir knownHostsPath controlPath lastIndex 0 chain = .ok blocks)
    {P : HopBlock → Prop}
    (hP : ∀ i connection block, chain[i]? = some connection →
      hopBlock files sessionDir knownHostsPath controlPath lastIndex i connection = .ok block →
        P block) : ∀ block ∈ blocks, P block := by
  intro block hblock
  obtain ⟨i, hi⟩ := List.mem_iff_getElem?.mp hblock
  obtain ⟨connection, hconnection, hok⟩ := (hopBlocks_getElem? h).mp hi
  rw [Nat.zero_add] at hok
  exact hP i connection block hconnection hok

theorem hopBlock_name {block : HopBlock}
    (h : hopBlock files sessionDir knownHostsPath controlPath lastIndex index connection =
      .ok block) : block.name = buildSshHostAlias index lastIndex := by
  obtain ⟨known, auth, -, -, rfl⟩ := hopBlock_eq_ok h
  rfl

theorem buildSshHostAlias_injective (lastIndex : ℕ) :
    Function.Injective fun index => buildSshHostAlias index lastIndex := by
  intro i j h
  simp only [buildSshHostAlias] at h
  split_ifs at h with hi hj hj
  · exact hi.trans hj.symm
  · exact absurd (congrArg (fun name => name[9]?) h) (by simp)
  · exact absurd (congrArg (fun name => name[9]?) h) (by simp)
  · have hdigits := List.append_cancel_left h
    exact Function.LeftInverse.injective (fun _ => Nat.ofDigitChars_ten_toDigits) hdigits

/-- Every hop finds its own settings under its name. -/
theorem hop_of_blocks {chain : List BackendHostConnection} {blocks : List HopBlock}
    (h : hopBlocks files sessionDir knownHostsPath controlPath lastIndex 0 chain = .ok blocks)
    (hi : chain[index]? = some connection) :
    hopConfig (optionsFor (Utf8.encode (buildSshHostAlias index lastIndex)) true
        (blocks.flatMap HopBlock.directives)) =
      askedHop files sessionDir knownHostsPath lastIndex index connection := by
  obtain ⟨block, hblock, hok⟩ := exists_hopBlock h hi
  have hkeyword : ∀ block ∈ blocks, ∀ setting ∈ block.settings, setting.keyword ≠ "Host" :=
    forall_hopBlocks h fun i connection block _ hok setting hsetting =>
      (settingKeywords_plain _ (hopBlock_keyword hok setting hsetting)).2
  have hfilter : (blocks.filter fun block =>
      Utf8.encode block.name = Utf8.encode (buildSshHostAlias index lastIndex)) = [block] := by
    refine Indexed.filter_eq_singleton hblock fun j other hj => ?_
    obtain ⟨connection', -, hother⟩ := (hopBlocks_getElem? h).mp hj
    rw [Nat.zero_add] at hother
    rw [decide_eq_true_eq, Utf8.encode_injective.eq_iff, hopBlock_name hother]
    exact (buildSshHostAlias_injective lastIndex).eq_iff
  rw [optionsFor_blocks true hkeyword, hfilter, List.flatMap_singleton]
  exact hopConfig_hopBlock hok

theorem buildNativeSshConfig_eq_ok {host : BackendHostConnection} {config : NativeSshConfig}
    (h : buildNativeSshConfig files sessionDir knownHostsPath controlPath host = .ok config) :
    ∃ blocks, hopBlocks files sessionDir knownHostsPath controlPath
        ((buildConnectionChain host).length - 1) 0 (buildConnectionChain host) = .ok blocks ∧
      config.contents = List.intercalate ['\n'] (blocks.flatMap HopBlock.lines) := by
  obtain ⟨blocks, hblocks, h⟩ := bind_eq_ok.mp h
  obtain ⟨_, -, h⟩ := bind_eq_ok.mp h
  cases h
  exact ⟨blocks, hblocks, rfl⟩

end Chain

section Contents

theorem readConfig_intercalate {lines : List (List Char)} (h : ∀ line ∈ lines, '\n' ∉ line) :
    readConfig (List.intercalate ['\n'] lines) = readLines lines := by
  cases lines with
  | nil => rfl
  | cons line lines => rw [readConfig, List.splitOn_intercalate _ h (List.cons_ne_nil _ _)]

variable {blocks : List HopBlock}

/-- Blocks with plain values are read as their directives. -/
theorem readConfig_blocks (hname : ∀ block ∈ blocks, PlainWord block.name)
    (h : ∀ block ∈ blocks, ∀ setting ∈ block.settings,
      PlainWord setting.keyword.toList ∧ setting.value.Plain) :
    readConfig (List.intercalate ['\n'] (blocks.flatMap HopBlock.lines)) =
      some (blocks.flatMap HopBlock.directives) := by
  rw [readConfig_intercalate, readLines_blocks hname h]
  intro line hline
  obtain ⟨block, hblock, hline⟩ := List.mem_flatMap.mp hline
  refine newline_not_mem_lines (hname block hblock).line (fun setting hsetting => ?_) line hline
  obtain ⟨hkeyword, hvalue⟩ := h block hblock setting hsetting
  exact ⟨hkeyword.line, hvalue.written.1.line⟩

/-- A file that is read as the directives of its blocks has no quote, since no word has. -/
theorem quote_not_mem_contents (hname : ∀ block ∈ blocks, PlainWord block.name)
    (hkeyword : ∀ block ∈ blocks, ∀ setting ∈ block.settings, PlainWord setting.keyword.toList)
    (hvalue : ∀ block ∈ blocks, ∀ setting ∈ block.settings, '\x22' ∉ setting.value.written) :
    '\x22' ∉ List.intercalate ['\n'] (blocks.flatMap HopBlock.lines) := by
  intro hquote
  obtain h | ⟨line, hline, h⟩ := mem_intercalate hquote
  · exact absurd h (by decide)
  obtain ⟨block, hblock, hline⟩ := List.mem_flatMap.mp hline
  rw [HopBlock.lines, List.mem_cons, List.mem_append, List.mem_singleton] at hline
  rcases hline with rfl | hline | rfl
  · have hnot : '\x22' ∉ block.name := (hname block hblock).bare.not_quote
    simp [hnot] at h
  · obtain ⟨setting, hsetting, rfl⟩ := List.mem_map.mp hline
    have hkey : '\x22' ∉ setting.keyword.toList :=
      (hkeyword block hblock setting hsetting).bare.not_quote
    simp [Setting.line, hkey, hvalue block hblock setting hsetting] at h
  · cases h

/-- The word that a value is read as, when the directives of the blocks are read. -/
theorem exists_word_of_readConfig {contents : List Char}
    (h : readConfig contents = some (blocks.flatMap HopBlock.directives)) {block : HopBlock}
    (hblock : block ∈ blocks) {setting : Setting} (hsetting : setting ∈ block.settings) :
    ∃ line ∈ contents.splitOn '\n', ∃ keyword word,
      words openssh .between line = some [keyword, word] ∧
        Utf8.encode word = setting.value.intended := by
  have hmem : setting.directive ∈ blocks.flatMap HopBlock.directives :=
    List.mem_flatMap.mpr ⟨block, hblock, List.mem_cons_of_mem _ (List.mem_map_of_mem hsetting)⟩
  obtain ⟨line, hline, arguments, hwords, harguments⟩ := mem_readLines h hmem
  obtain ⟨word, rfl, hencode⟩ := List.map_eq_singleton_iff.mp harguments.symm
  exact ⟨line, hline, _, word, hwords, hencode⟩

/-- Values that are read as they were meant are plain. -/
theorem plain_of_readConfig (hname : ∀ block ∈ blocks, PlainWord block.name)
    (hkeyword : ∀ block ∈ blocks, ∀ setting ∈ block.settings, PlainWord setting.keyword.toList)
    (h : readConfig (List.intercalate ['\n'] (blocks.flatMap HopBlock.lines)) =
      some (blocks.flatMap HopBlock.directives)) :
    ∀ block ∈ blocks, ∀ setting ∈ block.settings, setting.value.Plain := by
  have hquote := quote_not_mem_contents hname hkeyword (fun block hblock setting hsetting => by
    obtain ⟨line, -, keyword, word, hwords, hencode⟩ :=
      exists_word_of_readConfig h hblock hsetting
    rw [written_of_encode hencode]
    exact quote_not_mem_words (fun _ => rfl) hwords word (by simp))
  intro block hblock setting hsetting
  obtain ⟨line, hline, keyword, word, hwords, hencode⟩ :=
    exists_word_of_readConfig h hblock hsetting
  obtain ⟨hsublist, hnewline⟩ := RecordFile.mem_splitOnP (· == '\n') hline
  have hbare := bare_of_words (fun hc => hquote (hsublist.subset hc)) hwords word (by simp)
  refine is_of_encode ⟨hbare, fun hc => ?_⟩ hencode
  have hmem := mem_line_of_words hwords word (by simp) _ hc
  exact absurd (hnewline _ hmem) (by decide)

end Contents

/-- The file means what was asked for just when every text that it takes from outside is a word
without spaces, quotes or line breaks that does not begin with a number sign. -/
theorem config_means_iff {files : SshFiles} {sessionDir knownHostsPath : OsPath}
    {controlPath : Option OsPath} {host : BackendHostConnection} {config : NativeSshConfig}
    (hbuild : buildNativeSshConfig files sessionDir knownHostsPath controlPath host =
      .ok config) :
    (∃ directives, readConfig config.contents = some directives ∧
      MeansWhatWasAsked files sessionDir knownHostsPath controlPath host directives) ↔
    ∀ index connection, (buildConnectionChain host)[index]? = some connection →
      PlainHop files sessionDir knownHostsPath controlPath
        ((buildConnectionChain host).length - 1) index connection := by
  obtain ⟨blocks, hblocks, hcontents⟩ := buildNativeSshConfig_eq_ok hbuild
  have hname : ∀ block ∈ blocks, PlainWord block.name :=
    forall_hopBlocks hblocks fun i connection block _ hok => by
      rw [hopBlock_name hok]
      exact alias_plain i _
  have hkeyword : ∀ block ∈ blocks, ∀ setting ∈ block.settings,
      PlainWord setting.keyword.toList :=
    forall_hopBlocks hblocks fun i connection block _ hok setting hsetting =>
      (settingKeywords_plain _ (hopBlock_keyword hok setting hsetting)).1
  rw [hcontents]
  constructor
  · rintro ⟨directives, hread, hmeans⟩ index connection hi
    obtain ⟨blocks', hblocks', rfl⟩ := hmeans.nothingElse
    obtain rfl := Except.ok.inj (hblocks.symm.trans hblocks')
    obtain ⟨block, hblock, hok⟩ := exists_hopBlock hblocks hi
    exact (hopBlock_plain_iff hok).mp
      (plain_of_readConfig hname hkeyword hread block (List.mem_of_getElem? hblock))
  · intro hplain
    have hvalue : ∀ block ∈ blocks, ∀ setting ∈ block.settings, setting.value.Plain :=
      forall_hopBlocks hblocks fun i connection block hi hok =>
        (hopBlock_plain_iff hok).mpr (hplain i connection hi)
    refine ⟨_, readConfig_blocks hname fun block hblock setting hsetting =>
      ⟨hkeyword block hblock setting hsetting, hvalue block hblock setting hsetting⟩, ?_⟩
    exact ⟨fun index connection hi => hop_of_blocks hblocks hi, blocks, hblocks, rfl⟩

/-- A workstation on which every file can be written. -/
def SshFiles.withStore (durableKnownHosts : String) : SshFiles where
  home := some (Utf8.encode "/Users/a".toList)
  durableKnownHosts := some (Utf8.encode durableKnownHosts.toList)
  stageIdentity _ _ _ := .ok ()
  writePrivateFile _ _ := .ok ()

/-- The file for a host of one hop that has no pin. -/
def unpinnedConfig (durableKnownHosts : String) : Except (List Char) NativeSshConfig :=
  buildNativeSshConfig (.withStore durableKnownHosts) (Utf8.encode "/tmp/tw-ssh-0".toList)
    (Utf8.encode "/tmp/tw-ssh-0/known_hosts".toList) none
    (directHost "example.org".toList "alice".toList)

theorem unpinnedConfig_means : ∃ config, unpinnedConfig "/Users/a/app/known_hosts" = .ok config ∧
    ∃ directives, readConfig config.contents = some directives ∧
      MeansWhatWasAsked (.withStore "/Users/a/app/known_hosts")
        (Utf8.encode "/tmp/tw-ssh-0".toList) (Utf8.encode "/tmp/tw-ssh-0/known_hosts".toList) none
        (directHost "example.org".toList "alice".toList) directives := by
  refine ⟨_, rfl, (config_means_iff rfl).mpr fun index connection hi => ?_⟩
  cases index with
  | zero =>
    obtain rfl := Option.some_inj.mp hi
    refine ⟨by decide, by decide, nofun, fun _ path hpath => ?_, nofun, fun h => ?_⟩
    · obtain rfl := Option.some_inj.mp hpath
      exact ⟨"/Users/a/app/known_hosts".toList, by decide, rfl⟩
    · exact absurd h (by decide)
  | succ index => cases hi

def storeWithBlank : String := "/Users/a/Library/Application Support/app/ssh/known_hosts"

/-- The blank in the path of the durable store makes two files of it. -/
theorem store_with_blank_misread :
    validateSshHost (directHost "example.org".toList "alice".toList) = .ok () ∧
    ∃ config, unpinnedConfig storeWithBlank = .ok config ∧
      ¬ ∃ directives, readConfig config.contents = some directives ∧
        MeansWhatWasAsked (.withStore storeWithBlank) (Utf8.encode "/tmp/tw-ssh-0".toList)
          (Utf8.encode "/tmp/tw-ssh-0/known_hosts".toList) none
          (directHost "example.org".toList "alice".toList) directives := by
  have hfiles : (unpinnedConfig storeWithBlank).toOption.bind (fun config =>
      (readConfig config.contents).map fun directives =>
        (hopConfig (optionsFor (Utf8.encode (buildSshHostAlias 0 0)) true
          directives)).userKnownHostsFile) =
      some [[Utf8.encode "/Users/a/Library/Application".toList,
        Utf8.encode "Support/app/ssh/known_hosts".toList]] := by
    decide +kernel
  refine ⟨rfl, ?_⟩
  cases hbuild : unpinnedConfig storeWithBlank with
  | error e =>
    rw [hbuild] at hfiles
    cases hfiles
  | ok config =>
    rw [hbuild] at hfiles
    refine ⟨config, rfl, ?_⟩
    rintro ⟨directives, hread, hmeans⟩
    obtain ⟨directives', hread', hfile⟩ := Option.map_eq_some_iff.mp hfiles
    obtain rfl := Option.some_inj.mp (hread.symm.trans hread')
    have hhop := congrArg HopConfig.userKnownHostsFile (hmeans.hop 0 _ rfl)
    exact absurd (congrArg (List.map List.length) (hfile.symm.trans hhop)) (by decide)

end NativeTransport
