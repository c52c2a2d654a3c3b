import TerminalWorkspace.Foundation.Fallible
import TerminalWorkspace.Foundation.JsText
import TerminalWorkspace.Foundation.ShellWords
import TerminalWorkspace.NativeTransport.KeyPaths
import TerminalWorkspace.NativeTransport.ShellCommands

/-! What a shell reads back of the quoted texts that the backend puts in commands. -/
namespace NativeTransport
open NativeHostKeys (isWhitespace)
open RecordFile (trim)
open ShellWords

section Exports

/-- The words of `export key=value;`. -/
def exportTokens (entry : List Char × List Char) : List Token :=
  [.word "export".toList, .word (entry.1 ++ '=' :: entry.2), .operator ';']

theorem shellSingleQuote_eq (value : List Char) : shellSingleQuote value = singleQuoted value := rfl

theorem isPlain_of_safe {c : Char} (h : isShellSafe c = true ∨ c = '_') : IsPlain c := by
  have hspecial : ∀ d ∈ ShellWords.special, ¬(isShellSafe d = true ∨ d = '_') :=
    JsText.forall_mem_of_all (by decide)
  exact isPlain_of_not_special fun hmem => hspecial c hmem h

theorem isPlain_of_alphanum {c : Char} (h : c.isAlphanum = true ∨ c = '_') : IsPlain c := by
  refine isPlain_of_safe (h.imp_left fun h => ?_)
  rw [isShellSafe, h, Bool.true_or]

theorem isPlain_of_validKey {key : List Char} (hkey : isValidEnvironmentKey key = true) :
    key ≠ [] ∧ key.head? ≠ some '#' ∧ ∀ c ∈ key, IsPlain c := by
  cases key with
  | nil => cases hkey
  | cons first characters =>
    simp only [isValidEnvironmentKey, Bool.and_eq_true, Bool.or_eq_true, decide_eq_true_eq,
      List.all_eq_true] at hkey
    have hfirst : first.isAlphanum = true ∨ first = '_' := hkey.1.imp_left fun halpha => by
      rw [Char.isAlphanum, halpha, Bool.true_or]
    refine ⟨List.cons_ne_nil _ _, ?_, List.forall_mem_cons.mpr
      ⟨isPlain_of_alphanum hfirst, fun c hc => isPlain_of_alphanum (hkey.2 c hc)⟩⟩
    rintro ⟨⟩
    exact absurd hfirst (by decide)

theorem read_exportText {entry : List Char × List Char} (hkey : isValidEnvironmentKey entry.1 = true)
    (rest : List Char) :
    read .between (exportText entry ++ "; ".toList ++ rest) =
      exportTokens entry ++ read .between rest := by
  obtain ⟨hne, hhash, hplain⟩ := isPlain_of_validKey hkey
  have hexport : ∀ c ∈ "export".toList, IsPlain c := JsText.forall_mem_of_all (by decide)
  have hassigned : ∀ c ∈ entry.1 ++ ['='], IsPlain c :=
    List.forall_mem_append.mpr ⟨hplain, List.forall_mem_singleton.mpr (by decide)⟩
  have htext : exportText entry ++ "; ".toList ++ rest =
      "export".toList ++ ' ' :: ((entry.1 ++ ['=']) ++ (singleQuoted entry.2 ++ ';' :: ' ' :: rest)) := by
    have hspace : "export ".toList = "export".toList ++ [' '] := rfl
    have hend : "; ".toList = [';', ' '] := rfl
    unfold exportText
    rw [shellSingleQuote_eq, hspace, hend]
    simp only [List.append_assoc, List.cons_append, List.nil_append]
  rw [htext, read_plain (by decide) (by decide) hexport, read_word_blank rfl,
    read_plain (by simp) (by rwa [List.head?_append_of_ne_nil _ hne]) hassigned,
    read_word_singleQuoted, read_word_operator rfl rfl, read_blank rfl, List.append_assoc]
  rfl

theorem exportText_ne_nil (entry : List Char × List Char) : exportText entry ≠ [] := by
  have hverb : "export ".toList ≠ [] := by decide
  unfold exportText
  rw [List.append_assoc]
  exact List.append_ne_nil_of_left_ne_nil hverb _

/-- Exports one after the other, and the command behind them. -/
theorem read_exports {entries : List (List Char × List Char)} (hne : entries ≠ [])
    (hkeys : ∀ entry ∈ entries, isValidEnvironmentKey entry.1 = true) (command : List Char) :
    read .between (List.intercalate "; ".toList (entries.map exportText) ++ "; ".toList ++ command) =
      entries.flatMap exportTokens ++ read .between command := by
  induction entries with
  | nil => exact absurd rfl hne
  | cons entry entries ih =>
    obtain ⟨hkey, hkeys⟩ := List.forall_mem_cons.mp hkeys
    cases entries with
    | nil =>
      rw [List.map_cons, List.map_nil, List.intercalate_singleton, read_exportText hkey,
        List.flatMap_cons, List.flatMap_nil, List.append_nil]
    | cons next entries =>
      rw [List.map_cons, List.map_cons, List.intercalate_cons_cons, ← List.map_cons,
        List.append_assoc, List.append_assoc, read_exportText hkey, ← List.append_assoc,
        ih (List.cons_ne_nil _ _) hkeys, ← List.append_assoc, ← List.flatMap_cons]

/-- The entries of the environment whose keys are valid. -/
def validEntries (environment : Option HashMap) : List (List Char × List Char) :=
  (environment.elim [] OrderedMap.entries).filter fun entry => isValidEnvironmentKey entry.1

theorem channelEnvironment_perm (environment : Option HashMap) :
    ((getChannelEnvironment environment).getD []).Perm (validEntries environment) := by
  cases environment with
  | none => exact .nil
  | some environment =>
    have hperm := List.perm_insertionSort keyOrder
      (environment.entries.filter fun entry => isValidEnvironmentKey entry.1)
    simp only [getChannelEnvironment, Option.bind_some]
    split_ifs with hnil
    · rw [hnil] at hperm
      exact hperm
    · exact hperm

theorem read_buildExecCommand (command : List Char) (environment : Option HashMap) :
    read .between (buildExecCommand command environment) =
      ((getChannelEnvironment environment).getD []).flatMap exportTokens ++ read .between command := by
  have hvalid : ∀ entry ∈ (getChannelEnvironment environment).getD [],
      isValidEnvironmentKey entry.1 = true := fun entry hentry =>
    (List.mem_filter.mp ((channelEnvironment_perm environment).mem_iff.mp hentry)).2
  rw [buildExecCommand, buildEnvironmentExportPrefix]
  generalize (getChannelEnvironment environment).getD [] = entries at hvalid ⊢
  cases entries with
  | nil => rfl
  | cons entry entries =>
    have hne : List.intercalate "; ".toList ((entry :: entries).map exportText) ≠ [] := by
      cases entries with
      | nil =>
        rw [List.map_cons, List.map_nil, List.intercalate_singleton]
        exact exportText_ne_nil entry
      | cons next entries =>
        rw [List.map_cons, List.map_cons, List.intercalate_cons_cons, List.append_assoc]
        exact List.append_ne_nil_of_left_ne_nil (exportText_ne_nil entry) _
    simp only [if_neg hne]
    exact read_exports (List.cons_ne_nil _ _) hvalid command

end Exports

section Identity

/-- `Path::components` of an absolute path. -/
def components (path : OsPath) : KeyPath :=
  (path.splitOn separator).filterMap fun name =>
    if name = [] ∨ name = ['.'.toUInt8] then none
    else if name = ['.'.toUInt8, '.'.toUInt8] then some .parentDir
    else some (.normal name)

def requestedPath (path : OsPath) : RequestedPath :=
  if path = [] then .empty
  else if path.head? = some separator then .absolute (components path)
  else .relative

variable (tree : KeyTree) (home tmpdir : Option OsPath)
  (keyCommandFailureJson : KeyCommandFailure → List Char)

def validateConnectionIdentityKeyPath (privateKeyPath : List Char) : Except (List Char) OsPath := do
  let resolvedPath := expandHome home privateKeyPath
  (validateUserOwnedKeyPath tree (home.map components) (tmpdir.map components)
    (requestedPath resolvedPath) privateKeyPath).mapError keyCommandFailureJson
  return resolvedPath

/-- The workstation whose keys are checked so. -/
def Workstation.checkingKeys (w : Workstation) : Workstation :=
  { w with
    validateIdentityKeyPath := fun privateKeyPath =>
      (validateConnectionIdentityKeyPath tree home tmpdir keyCommandFailureJson privateKeyPath).map
        OsPath.toStringLossy }

/-- The path of a key that passes begins with a slash. -/
theorem toStringLossy_ne_nil {path : OsPath} (h : path.head? = some separator) :
    path.toStringLossy ≠ [] := by
  obtain ⟨rest, rfl⟩ := List.head?_eq_some_iff.mp h
  exact List.cons_ne_nil _ _

variable {tree home tmpdir keyCommandFailureJson}

theorem head_of_validated {privateKeyPath : List Char} {path : OsPath}
    (h : validateConnectionIdentityKeyPath tree home tmpdir keyCommandFailureJson privateKeyPath =
      .ok path) : path.head? = some separator := by
  rw [validateConnectionIdentityKeyPath, requestedPath] at h
  by_cases hempty : expandHome home privateKeyPath = []
  · rw [if_pos hempty] at h
    cases h
  · by_cases hhead : (expandHome home privateKeyPath).head? = some separator
    · rw [if_neg hempty, if_pos hhead] at h
      obtain ⟨_, -, hpath⟩ := Fallible.bind_eq_ok.mp h
      cases hpath
      exact hhead
    · rw [if_neg hempty, if_neg hhead] at h
      cases h

end Identity

section Mosh

theorem read_shellQuote {value : List Char} (hne : value ≠ []) (rest : List Char) :
    read .between (shellQuote value ++ rest) = read (.word value) rest := by
  rw [shellQuote]
  split_ifs with hsafe
  · have hplain : ∀ c ∈ value, IsPlain c := fun c hc =>
      isPlain_of_safe (.inl (List.all_eq_true.mp hsafe c hc))
    refine read_plain hne ?_ hplain rest
    intro hhash
    have hmem := List.mem_of_mem_head? hhash
    exact absurd (List.all_eq_true.mp hsafe _ hmem) (by decide)
  · exact read_singleQuoted value rest

variable (w : Workstation) (host : BackendHostConnection)

def moshIdentityArguments : Except (List Char) (List (List Char)) :=
  if host.authMethod = "privateKey" ∧ trim isWhitespace host.privateKeyPath ≠ [] then
    (w.validateIdentityKeyPath host.privateKeyPath).map fun privateKeyPath =>
      ["-i".toList, privateKeyPath, "-o".toList, "IdentitiesOnly=yes".toList]
  else .ok []

/-- The arguments that `build_mosh_ssh_command` quotes. -/
def moshSshArguments (knownHostsPath : Option (List Char)) :
    Except (List Char) (List (List Char)) :=
  (moshIdentityArguments w host).map fun identity =>
    ["/usr/bin/ssh".toList, "-p".toList, decimal host.port.toNat, "-o".toList,
      "BatchMode=no".toList, "-o".toList, "GlobalKnownHostsFile=/dev/null".toList] ++
    (match knownHostsPath with
      | some path => ["-o".toList, "UserKnownHostsFile=".toList ++ path]
      | none => []) ++
    (if host.knownHostPublicKey.isSome ∧ host.knownHostAlgorithm.isSome then
        ["-o".toList, "StrictHostKeyChecking=yes".toList]
      else ["-o".toList, "StrictHostKeyChecking=accept-new".toList]) ++
    (if host.agentForwarding ∧ w.sshAuthSock then ["-A".toList] else []) ++ identity

theorem buildMoshSshCommand_eq (knownHostsPath : Option (List Char)) :
    buildMoshSshCommand w host knownHostsPath =
      (moshSshArguments w host knownHostsPath).map fun arguments =>
        List.intercalate [' '] (arguments.map shellQuote) := by
  unfold buildMoshSshCommand moshSshArguments moshIdentityArguments
  by_cases hkey : host.authMethod = "privateKey" ∧ trim isWhitespace host.privateKeyPath ≠ []
  · simp only [if_pos hkey]
    cases w.validateIdentityKeyPath host.privateKeyPath <;> rfl
  · simp only [if_neg hkey]
    rfl

variable {w host} {tree : KeyTree} {home tmpdir : Option OsPath}
  {keyCommandFailureJson : KeyCommandFailure → List Char}

/-- No argument is empty: an empty one would be quoted as nothing. -/
theorem moshSshArguments_ne_nil {knownHostsPath : Option (List Char)} {arguments : List (List Char)}
    (h : moshSshArguments (w.checkingKeys tree home tmpdir keyCommandFailureJson) host
      knownHostsPath = .ok arguments) : ∀ argument ∈ arguments, argument ≠ [] := by
  unfold moshSshArguments at h
  obtain ⟨identity, hidentity, rfl⟩ := Fallible.map_eq_ok.mp h
  refine List.forall_mem_append.mpr ⟨List.forall_mem_append.mpr ⟨List.forall_mem_append.mpr
    ⟨List.forall_mem_append.mpr ⟨?_, ?_⟩, ?_⟩, ?_⟩, ?_⟩
  · simp only [List.forall_mem_cons]
    exact ⟨by decide, by decide, Nat.toDigits_ne_nil, by decide, by decide, by decide, by decide,
      List.forall_mem_nil _⟩
  · cases knownHostsPath with
    | none => exact List.forall_mem_nil _
    | some path =>
      have hoption : "UserKnownHostsFile=".toList ≠ [] := by decide
      simp only [List.forall_mem_cons]
      exact ⟨by decide, List.append_ne_nil_of_left_ne_nil hoption _, List.forall_mem_nil _⟩
  · split_ifs
    · exact JsText.forall_mem_of_all (by decide)
    · exact JsText.forall_mem_of_all (by decide)
  · split_ifs
    · exact JsText.forall_mem_of_all (by decide)
    · exact List.forall_mem_nil _
  · unfold moshIdentityArguments at hidentity
    split_ifs at hidentity
    · obtain ⟨path, hpath, rfl⟩ := Fallible.map_eq_ok.mp hidentity
      obtain ⟨bytes, hbytes, rfl⟩ := Fallible.map_eq_ok.mp hpath
      simp only [List.forall_mem_cons]
      exact ⟨by decide, toStringLossy_ne_nil (head_of_validated hbytes), by decide, by decide,
        List.forall_mem_nil _⟩
    · cases hidentity
      exact List.forall_mem_nil _

/-- A mosh server is reached over the arguments that were quoted. -/
theorem read_buildMoshSshCommand {knownHostsPath : Option (List Char)} :
    (buildMoshSshCommand (w.checkingKeys tree home tmpdir keyCommandFailureJson) host
        knownHostsPath).map (read .between) =
      (moshSshArguments (w.checkingKeys tree home tmpdir keyCommandFailureJson) host
        knownHostsPath).map (List.map Token.word) := by
  rw [buildMoshSshCommand_eq]
  cases harguments : moshSshArguments (w.checkingKeys tree home tmpdir keyCommandFailureJson) host
      knownHostsPath with
  | error failure => rfl
  | ok arguments =>
    refine congrArg Except.ok (read_intercalate fun argument hargument rest => ?_)
    exact read_shellQuote (moshSshArguments_ne_nil harguments argument hargument) rest

end Mosh

/-- What a shell reads of the quoted texts: a single-quoted text is one word, the environment
comes before the command as exports of its valid keys, and the command that reaches a mosh server
has the words that were quoted. -/
theorem quoting_survives :
    (∀ value, read .between (shellSingleQuote value) = [.word value]) ∧
      (∀ command environment, ∃ entries : List (List Char × List Char),
        entries.Perm (validEntries environment) ∧ read .between (buildExecCommand command environment) =
          entries.flatMap exportTokens ++ read .between command) ∧
      ∀ tree home tmpdir keyCommandFailureJson (w : Workstation) host knownHostsPath,
        (buildMoshSshCommand (w.checkingKeys tree home tmpdir keyCommandFailureJson) host
            knownHostsPath).map (read .between) =
          (moshSshArguments (w.checkingKeys tree home tmpdir keyCommandFailureJson) host
            knownHostsPath).map (List.map Token.word) := by
  refine ⟨fun value => ?_, fun command environment => ?_,
    fun _ _ _ _ _ _ _ => read_buildMoshSshCommand⟩
  · have hread := read_singleQuoted value []
    rwa [List.append_nil] at hread
  · exact ⟨_, channelEnvironment_perm environment, read_buildExecCommand command environment⟩

end NativeTransport
