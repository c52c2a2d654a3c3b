import TerminalWorkspace.Foundation.Fallible
import TerminalWorkspace.Foundation.QuotedWords
import TerminalWorkspace.NativeTransport.OpensshConfig

/-! The configuration that OpenSSH reads from the file of a session. -/
namespace NativeTransport
open NativeHostKeys (isWhitespace)
open RecordFile (trim)
open Fallible QuotedWords

/-- The words of a line: white space outside double quotes separates them, and a word that
begins with a number sign starts a comment. -/
def openssh : Quoting Char where
  space c := c ∈ [' ', '\t', '\r']
  quote := '\x22'
  comment c := c = '#'
  escape _ := false

structure Directive where
  keyword : List Char
  arguments : List (List UInt8)
  deriving DecidableEq

/-- One directive a line; a line without words has none. -/
def readLines : List (List Char) → Option (List Directive)
  | [] => some []
  | line :: rest => do
    let lineWords ← words openssh .between line
    let directives ← readLines rest
    match lineWords with
    | [] => some directives
    | keyword :: arguments => some (⟨keyword, arguments.map Utf8.encode⟩ :: directives)

def readConfig (contents : List Char) : Option (List Directive) :=
  readLines (contents.splitOn '\n')

/-- The directives that apply to a name. The names of the file have no wildcards. -/
def optionsFor (name : List UInt8) : Bool → List Directive → List Directive
  | _, [] => []
  | applies, directive :: rest =>
    if directive.keyword = "Host".toList then optionsFor name (name ∈ directive.arguments) rest
    else if applies then directive :: optionsFor name applies rest
    else optionsFor name applies rest

/-- What every directive of a keyword is given. -/
def argumentsOf (keyword : String) (options : List Directive) : List (List (List UInt8)) :=
  (options.filter fun directive => directive.keyword = keyword.toList).map Directive.arguments

/-- The settings of a hop that the user has asked for, each with the arguments of every directive
that gives it. -/
structure HopConfig where
  hostName : List (List (List UInt8))
  user : List (List (List UInt8))
  port : List (List (List UInt8))
  userKnownHostsFile : List (List (List UInt8))
  strictHostKeyChecking : List (List (List UInt8))
  identityFile : List (List (List UInt8))
  proxyJump : List (List (List UInt8))
  deriving DecidableEq

def hopConfig (options : List Directive) : HopConfig where
  hostName := argumentsOf "HostName" options
  user := argumentsOf "User" options
  port := argumentsOf "Port" options
  userKnownHostsFile := argumentsOf "UserKnownHostsFile" options
  strictHostKeyChecking := argumentsOf "StrictHostKeyChecking" options
  identityFile := argumentsOf "IdentityFile" options
  proxyJump := argumentsOf "ProxyJump" options

/-- What a value stands for: text itself, and a path the bytes of the path. -/
def WrittenValue.intended : WrittenValue → List UInt8
  | text value => Utf8.encode value
  | path value => value

def Setting.directive (setting : Setting) : Directive :=
  ⟨setting.keyword.toList, [setting.value.intended]⟩

def HopBlock.directives (block : HopBlock) : List Directive :=
  ⟨"Host".toList, [Utf8.encode block.name]⟩ :: block.settings.map Setting.directive

/-- The key of a hop: a copy when its passphrase has to be removed. -/
def identityPath (home : Option OsPath) (sessionDir : OsPath) (connection : BackendHostConnection)
    (name : List Char) : OsPath :=
  if trim isWhitespace connection.passphrase = [] then expandHome home connection.privateKeyPath
  else stagedIdentityPath sessionDir name

section Asked
variable (files : SshFiles) (sessionDir knownHostsPath : OsPath) (controlPath : Option OsPath)

/-- What the connection of a chain asks for: one value of each, or none. -/
def askedHop (lastIndex index : ℕ) (connection : BackendHostConnection) : HopConfig where
  hostName := [[Utf8.encode connection.hostname]]
  user := [[Utf8.encode connection.username]]
  port := [[Utf8.encode (decimal connection.port.toNat)]]
  userKnownHostsFile :=
    if hopIsPinned connection then [[knownHostsPath]]
    else files.durableKnownHosts.toList.map fun path => [path]
  strictHostKeyChecking :=
    [[Utf8.encode (if hopIsPinned connection then "yes" else "accept-new").toList]]
  identityFile :=
    if connection.authMethod = "privateKey" then
      [[identityPath files.home sessionDir connection (buildSshHostAlias index lastIndex)]]
    else []
  proxyJump :=
    if index = lastIndex ∧ 0 < lastIndex then
      [[Utf8.encode (List.intercalate [','] (jumpAliases lastIndex))]]
    else []

/-- Every hop has the settings asked for, and the file has the directives of the writer only. -/
structure MeansWhatWasAsked (host : BackendHostConnection) (directives : List Directive) :
    Prop where
  hop : ∀ index connection, (buildConnectionChain host)[index]? = some connection →
    hopConfig (optionsFor
        (Utf8.encode (buildSshHostAlias index ((buildConnectionChain host).length - 1))) true
        directives) =
      askedHop files sessionDir knownHostsPath ((buildConnectionChain host).length - 1) index
        connection
  nothingElse : ∃ blocks, hopBlocks files sessionDir knownHostsPath controlPath
      ((buildConnectionChain host).length - 1) 0 (buildConnectionChain host) = .ok blocks ∧
    directives = blocks.flatMap HopBlock.directives

/-- Text that is read as one word, and as itself. -/
structure PlainWord (word : List Char) : Prop where
  bare : Bare openssh word
  line : '\n' ∉ word

instance (word : List Char) : Decidable (PlainWord word) :=
  decidable_of_iff (Bare openssh word ∧ '\n' ∉ word)
    ⟨fun h => ⟨h.1, h.2⟩, fun h => ⟨h.bare, h.line⟩⟩

/-- A path that is text, and such a word. -/
def PlainPath (path : OsPath) : Prop := ∃ word, PlainWord word ∧ Utf8.encode word = path

/-- The texts of a hop can be written as they are. -/
structure PlainHop (lastIndex index : ℕ) (connection : BackendHostConnection) : Prop where
  hostname : PlainWord connection.hostname
  username : PlainWord connection.username
  knownHosts : hopIsPinned connection → PlainPath knownHostsPath
  durable : ¬ hopIsPinned connection → ∀ path ∈ files.durableKnownHosts, PlainPath path
  control : ∀ path ∈ controlPath, PlainPath path
  identity : connection.authMethod = "privateKey" →
    PlainPath (identityPath files.home sessionDir connection (buildSshHostAlias index lastIndex))

end Asked

/-- The text of a value, which a path need not have, is of a kind. -/
def WrittenValue.Is (P : List Char → Prop) : WrittenValue → Prop
  | text value => P value
  | path value => ∃ word, P word ∧ Utf8.encode word = value

def WrittenValue.Plain (value : WrittenValue) : Prop := value.Is PlainWord

section Values
variable {P : List Char → Prop} {value : WrittenValue}

theorem WrittenValue.Is.written (h : value.Is P) :
    P value.written ∧ Utf8.encode value.written = value.intended := by
  cases value with
  | text value => exact ⟨h, rfl⟩
  | path value =>
    obtain ⟨word, hword, rfl⟩ := h
    have hwritten : (WrittenValue.path (Utf8.encode word)).written = word :=
      Utf8.decodeLossy_encode word
    rw [hwritten]
    exact ⟨hword, rfl⟩

/-- A word with the bytes of a value is what was written for it. -/
theorem written_of_encode {word : List Char} (h : Utf8.encode word = value.intended) :
    value.written = word := by
  cases value with
  | text value => exact (Utf8.encode_injective h).symm
  | path value =>
    obtain rfl : Utf8.encode word = value := h
    exact Utf8.decodeLossy_encode word

theorem is_of_encode {word : List Char} (hword : P word)
    (h : Utf8.encode word = value.intended) : value.Is P := by
  cases value with
  | text value =>
    obtain rfl := Utf8.encode_injective h
    exact hword
  | path value => exact ⟨word, hword, h⟩

end Values

section Writer
variable {files : SshFiles} {sessionDir knownHostsPath : OsPath} {controlPath : Option OsPath}
  {connection : BackendHostConnection}

theorem prepare_eq_identityPath {name : List Char} {path : OsPath}
    (h : prepareNativeIdentityFile files connection sessionDir name = .ok path) :
    path = identityPath files.home sessionDir connection name := by
  unfold prepareNativeIdentityFile at h
  unfold identityPath
  split at h
  · rename_i hblank
    cases h
    exact (if_pos hblank).symm
  · rename_i hpassphrase
    obtain ⟨_, -, h⟩ := bind_eq_ok.mp h
    cases h
    exact (if_neg hpassphrase).symm

theorem authSettings_cases {name : List Char} {auth : List Setting}
    (h : authSettings files sessionDir connection name = .ok auth) :
    connection.authMethod = "privateKey" ∧
      auth = [⟨"IdentityFile", .path (identityPath files.home sessionDir connection name)⟩,
        fixedSetting "IdentitiesOnly" "yes",
        fixedSetting "PreferredAuthentications" "publickey"] ∨
    connection.authMethod ≠ "privateKey" ∧
      (auth = [fixedSetting "PubkeyAuthentication" "no",
        fixedSetting "PreferredAuthentications" "keyboard-interactive,password",
        fixedSetting "NumberOfPasswordPrompts" "1"] ∨ auth = []) := by
  unfold authSettings at h
  split at h
  · rename_i hmethod
    obtain ⟨path, hpath, h⟩ := bind_eq_ok.mp h
    cases h
    obtain rfl := prepare_eq_identityPath hpath
    exact .inl ⟨hmethod, rfl⟩
  · rename_i hmethod
    cases h
    exact .inr ⟨by simp [hmethod], .inl rfl⟩
  · rename_i hmethod _
    cases h
    exact .inr ⟨hmethod, .inr rfl⟩

theorem hopKnownHosts_cases {known : OsPath}
    (h : hopKnownHosts files knownHostsPath connection = .ok known) :
    hopIsPinned connection ∧ known = knownHostsPath ∨
      ¬ hopIsPinned connection ∧ files.durableKnownHosts = some known := by
  unfold hopKnownHosts durableKnownHostsPath at h
  split at h
  · rename_i hpinned
    cases h
    exact .inl ⟨hpinned, rfl⟩
  · rename_i hpinned
    split at h
    · rename_i path hpath
      cases h
      exact .inr ⟨hpinned, hpath⟩
    · cases h

theorem hopBlock_eq_ok {lastIndex index : ℕ} {block : HopBlock}
    (h : hopBlock files sessionDir knownHostsPath controlPath lastIndex index connection =
      .ok block) :
    ∃ known auth, hopKnownHosts files knownHostsPath connection = .ok known ∧
      authSettings files sessionDir connection (buildSshHostAlias index lastIndex) = .ok auth ∧
      block = ⟨buildSshHostAlias index lastIndex,
        hopSettings controlPath connection known auth (jumpSettings index lastIndex)⟩ := by
  obtain ⟨known, hknown, h⟩ := bind_eq_ok.mp h
  obtain ⟨auth, hauth, h⟩ := bind_eq_ok.mp h
  cases h
  exact ⟨known, auth, hknown, hauth, rfl⟩

/-- The keywords of the settings. -/
def settingKeywords : List String :=
  ["HostName", "User", "Port", "RequestTTY", "LogLevel", "BatchMode", "ServerAliveInterval",
    "ServerAliveCountMax", "ConnectTimeout", "GlobalKnownHostsFile", "UserKnownHostsFile",
    "UpdateHostKeys", "HashKnownHosts", "ControlMaster", "ControlPath", "ControlPersist",
    "StrictHostKeyChecking", "ForwardAgent", "IdentityFile", "IdentitiesOnly",
    "PreferredAuthentications", "PubkeyAuthentication", "NumberOfPasswordPrompts", "ProxyJump"]

theorem settingKeywords_plain :
    ∀ keyword ∈ settingKeywords, PlainWord keyword.toList ∧ keyword ≠ "Host" := by
  decide

theorem controlSettings_keyword : ∀ setting ∈ controlSettings controlPath,
    setting.keyword ∈ settingKeywords := by
  cases controlPath with
  | none => exact List.forall_mem_nil _
  | some path => simp [controlSettings, fixedSetting, settingKeywords]

theorem jumpSettings_keyword (index lastIndex : ℕ) : ∀ setting ∈ jumpSettings index lastIndex,
    setting.keyword ∈ settingKeywords := by
  unfold jumpSettings
  split
  · simp [settingKeywords]
  · exact List.forall_mem_nil _

theorem authSettings_keyword {name : List Char} {auth : List Setting}
    (h : authSettings files sessionDir connection name = .ok auth) :
    ∀ setting ∈ auth, setting.keyword ∈ settingKeywords := by
  obtain ⟨-, rfl⟩ | ⟨-, rfl | rfl⟩ := authSettings_cases h
  · simp [fixedSetting, settingKeywords]
  · simp [fixedSetting, settingKeywords]
  · exact List.forall_mem_nil _

theorem hopBlock_keyword {lastIndex index : ℕ} {block : HopBlock}
    (h : hopBlock files sessionDir knownHostsPath controlPath lastIndex index connection =
      .ok block) : ∀ setting ∈ block.settings, setting.keyword ∈ settingKeywords := by
  obtain ⟨known, auth, -, hauth, rfl⟩ := hopBlock_eq_ok h
  simp only [hopSettings, List.forall_mem_append]
  refine ⟨⟨⟨⟨?_, controlSettings_keyword⟩, ?_⟩, authSettings_keyword hauth⟩,
    jumpSettings_keyword index lastIndex⟩
  · simp [fixedSetting, settingKeywords]
  · simp [fixedSetting, settingKeywords]

theorem fixed_plain {keyword value : String} (h : PlainWord value.toList) :
    (fixedSetting keyword value).value.Plain := h

theorem decimal_plain (n : ℕ) : PlainWord (decimal n) := by
  have hdigit : ∀ c ∈ decimal n, c.isDigit := fun c =>
    Nat.isDigit_of_mem_toDigits (by decide) (by decide)
  have hchar : ∀ c : Char, c.isDigit → c ≠ ' ' ∧ c ≠ '\t' ∧ c ≠ '\r' ∧ c ≠ '\x22' ∧ c ≠ '#' ∧
      c ≠ '\n' := by
    rintro c hc
    refine ⟨?_, ?_, ?_, ?_, ?_, ?_⟩ <;>
    · rintro rfl
      exact absurd hc (by decide)
  refine ⟨⟨Nat.toDigits_ne_nil, fun c hc => ?_, fun hc => ?_, fun c hc => ?_⟩, fun hc => ?_⟩
  · obtain ⟨h1, h2, h3, -⟩ := hchar c (hdigit c hc)
    simp [openssh, h1, h2, h3]
  · exact (hchar _ (hdigit _ hc)).2.2.2.1 rfl
  · have hne := (hchar c (hdigit c (List.mem_of_head? hc))).2.2.2.2.1
    simp [openssh, hne]
  · exact (hchar _ (hdigit _ hc)).2.2.2.2.2 rfl

theorem plainWord_append {v w : List Char} (hv : PlainWord v)
    (hspace : ∀ c ∈ w, openssh.space c = false) (hquote : '\x22' ∉ w) (hline : '\n' ∉ w) :
    PlainWord (v ++ w) where
  bare :=
    { ne_nil := List.append_ne_nil_of_left_ne_nil hv.bare.ne_nil w
      not_space := List.forall_mem_append.mpr ⟨hv.bare.not_space, hspace⟩
      not_quote := fun h => (List.mem_append.mp h).elim hv.bare.not_quote hquote
      not_comment := by
        rw [List.head?_append_of_ne_nil _ hv.bare.ne_nil]
        exact hv.bare.not_comment }
  line := fun h => (List.mem_append.mp h).elim hv.line hline

theorem PlainWord.append {v w : List Char} (hv : PlainWord v) (hw : PlainWord w) :
    PlainWord (v ++ w) :=
  plainWord_append hv hw.bare.not_space hw.bare.not_quote hw.line

theorem alias_plain (index lastIndex : ℕ) : PlainWord (buildSshHostAlias index lastIndex) := by
  unfold buildSshHostAlias
  split
  · decide
  · have hprefix : PlainWord "termsnip-hop-".toList := by decide
    exact hprefix.append (decimal_plain index)

/-- Words joined by a comma are one word. -/
theorem intercalate_plain {ws : List (List Char)} (hne : ws ≠ []) (h : ∀ w ∈ ws, PlainWord w) :
    PlainWord (List.intercalate [','] ws) := by
  have hcomma : PlainWord [','] := by decide
  induction ws with
  | nil => exact absurd rfl hne
  | cons w ws ih =>
    obtain ⟨hw, hws⟩ := List.forall_mem_cons.mp h
    cases ws with
    | nil => simpa using hw
    | cons v ws =>
      rw [List.intercalate_cons_cons]
      exact (hw.append hcomma).append (ih (by simp) hws)

theorem jumpSettings_plain (index lastIndex : ℕ) : ∀ setting ∈ jumpSettings index lastIndex,
    setting.value.Plain := by
  unfold jumpSettings
  split
  · rename_i h
    refine List.forall_mem_singleton.mpr (intercalate_plain h.2 ?_)
    rintro _ hname
    obtain ⟨i, -, rfl⟩ := List.mem_map.mp hname
    exact alias_plain i lastIndex
  · exact List.forall_mem_nil _

theorem controlSettings_plain : (∀ setting ∈ controlSettings controlPath, setting.value.Plain) ↔
    ∀ path ∈ controlPath, PlainPath path := by
  cases controlPath with
  | none => exact iff_of_true (List.forall_mem_nil _) nofun
  | some path =>
    simp only [controlSettings, List.forall_mem_cons, Option.mem_some_iff, forall_eq']
    exact ⟨fun h => h.2.1,
      fun h => ⟨fixed_plain (by decide), h, fixed_plain (by decide), List.forall_mem_nil _⟩⟩

theorem authSettings_plain {name : List Char} {auth : List Setting}
    (h : authSettings files sessionDir connection name = .ok auth) :
    (∀ setting ∈ auth, setting.value.Plain) ↔ (connection.authMethod = "privateKey" →
      PlainPath (identityPath files.home sessionDir connection name)) := by
  obtain ⟨hmethod, rfl⟩ | ⟨hmethod, rfl | rfl⟩ := authSettings_cases h
  · simp only [List.forall_mem_cons]
    exact ⟨fun h _ => h.1, fun h => ⟨h hmethod, fixed_plain (by decide), fixed_plain (by decide),
      List.forall_mem_nil _⟩⟩
  · simp only [List.forall_mem_cons]
    exact iff_of_true ⟨fixed_plain (by decide), fixed_plain (by decide), fixed_plain (by decide),
      List.forall_mem_nil _⟩ fun h => absurd h hmethod
  · exact iff_of_true (List.forall_mem_nil _) fun h => absurd h hmethod

theorem hopKnownHosts_plain {known : OsPath}
    (h : hopKnownHosts files knownHostsPath connection = .ok known) :
    PlainPath known ↔ (hopIsPinned connection → PlainPath knownHostsPath) ∧
      (¬ hopIsPinned connection → ∀ path ∈ files.durableKnownHosts, PlainPath path) := by
  obtain ⟨hpinned, rfl⟩ | ⟨hpinned, hdurable⟩ := hopKnownHosts_cases h
  · exact ⟨fun h => ⟨fun _ => h, fun hnot => absurd hpinned hnot⟩, fun h => h.1 hpinned⟩
  · rw [hdurable]
    simp only [Option.mem_some_iff, forall_eq']
    exact ⟨fun h => ⟨fun hyes => absurd hyes hpinned, fun _ => h⟩, fun h => h.2 hpinned⟩

/-- The values of a block are plain just when the texts that it takes from outside are. -/
theorem hopBlock_plain_iff {lastIndex index : ℕ} {block : HopBlock}
    (h : hopBlock files sessionDir knownHostsPath controlPath lastIndex index connection =
      .ok block) :
    (∀ setting ∈ block.settings, setting.value.Plain) ↔
      PlainHop files sessionDir knownHostsPath controlPath lastIndex index connection := by
  obtain ⟨known, auth, hknown, hauth, rfl⟩ := hopBlock_eq_ok h
  have hyesno : ∀ b : Bool, PlainWord (if b then "yes" else "no").toList := by decide
  have hchecking : ∀ b : Bool, PlainWord (if b then "yes" else "accept-new").toList := by decide
  simp only [hopSettings, List.forall_mem_append, List.forall_mem_cons,
    controlSettings_plain, authSettings_plain hauth]
  constructor
  · rintro ⟨⟨⟨⟨hbase, hcontrol⟩, -⟩, hidentity⟩, -⟩
    obtain ⟨hhostname, husername, -, -, -, -, -, -, -, -, hpath, -⟩ := hbase
    obtain ⟨hpinned, hdurable⟩ := (hopKnownHosts_plain hknown).mp hpath
    exact ⟨hhostname, husername, hpinned, hdurable, hcontrol, hidentity⟩
  · rintro ⟨hhostname, husername, hpinned, hdurable, hcontrol, hidentity⟩
    have hpath := (hopKnownHosts_plain hknown).mpr ⟨hpinned, hdurable⟩
    refine ⟨⟨⟨⟨⟨hhostname, husername, decimal_plain _, ?_⟩, hcontrol⟩, fixed_plain (hchecking _),
      fixed_plain (hyesno _), ?_⟩, hidentity⟩, jumpSettings_plain index lastIndex⟩
    swap
    · exact List.forall_mem_nil _
    exact ⟨fixed_plain (by decide), fixed_plain (by decide), fixed_plain (by decide),
      fixed_plain (by decide), fixed_plain (by decide), fixed_plain (by decide),
      fixed_plain (by decide), hpath, fixed_plain (by decide), fixed_plain (by decide),
      List.forall_mem_nil _⟩

end Writer
end NativeTransport
