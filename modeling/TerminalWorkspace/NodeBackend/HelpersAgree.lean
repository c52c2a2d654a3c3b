import Mathlib.Data.List.DropRight
import Mathlib.Data.List.Lex
import Mathlib.Data.List.Sort
import TerminalWorkspace.Foundation.JsText
import TerminalWorkspace.Foundation.OrderedMap
import TerminalWorkspace.Foundation.RecordReaders
import TerminalWorkspace.HostKeys.TwoReaders
import TerminalWorkspace.NativeTransport.DirectoryListing
import TerminalWorkspace.NativeTransport.ShellCommands

/-! The helpers of the Node backend for remote paths, file names and shell commands. -/
namespace NodeHelpers
open JsText RecordFile

def normalizeRemotePath (pathname : JsString) : JsString :=
  let segments := (pathname.splitOn (.scalar '/')).foldl (fun segments segment =>
    if segment = [] ∨ segment = js "." then segments
    else if segment = js ".." then segments.dropLast
    else segments ++ [segment]) []
  if segments ≠ [] then .scalar '/' :: List.intercalate (js "/") segments else js "/"

def resolveRemotePath (rootPath pathname : JsString) : JsString :=
  if pathname = [] ∨ trim isSpace pathname = [] then normalizeRemotePath rootPath
  else if pathname.head? = some (.scalar '/') then normalizeRemotePath pathname
  else
    let base := rootPath.rdropWhile (· == .scalar '/')
    normalizeRemotePath
      (if base = [] then .scalar '/' :: pathname else base ++ .scalar '/' :: pathname)

/-- `[a-zA-Z0-9._-]`, which matches whole code points. -/
def isFilenameCharacter : CodePoint → Bool
  | .scalar c => c.isAlphanum || c = '.' || c = '_' || c = '-'
  | .surrogate _ => false

def sanitizeFilename (value : JsString) : JsString :=
  let sanitized := value.map fun c => if isFilenameCharacter c then c else .scalar '_'
  if sanitized = [] then js "download" else sanitized

def shellSingleQuote (value : JsString) : JsString :=
  js "'" ++ (value.flatMap fun c => if c = .scalar '\'' then js "'\\''" else [c]) ++ js "'"

/-- `[A-Za-z0-9_]` -/
def isKeyCharacter : CodePoint → Bool
  | .scalar c => c.isAlphanum || c = '_'
  | .surrogate _ => false

/-- `/^[A-Za-z_][A-Za-z0-9_]*$/` -/
def isValidEnvironmentKey : JsString → Bool
  | .scalar first :: characters => (first.isAlpha || first = '_') && characters.all isKeyCharacter
  | _ => false

/-- The comparator is not positive. -/
def keyOrder (left right : JsString × JsString) : Prop := ¬ before right.1 left.1

instance : DecidableRel keyOrder := fun _ _ => inferInstanceAs (Decidable (¬ _))

def getChannelEnvironment (environment : Option (OrderedMap JsString JsString)) :
    Option (OrderedMap JsString JsString) :=
  environment.bind fun environment =>
    let entries := (environment.entries.filter fun entry =>
      isValidEnvironmentKey entry.1).insertionSort keyOrder
    if entries = [] then none else some (.ofList entries)

def exportText (entry : JsString × JsString) : JsString :=
  js "export " ++ entry.1 ++ js "=" ++ shellSingleQuote entry.2

def buildEnvironmentExportPrefix (environment : Option (OrderedMap JsString JsString)) :
    JsString :=
  match getChannelEnvironment environment with
  | none => []
  | some channelEnvironment =>
    List.intercalate (js "; ") (channelEnvironment.entries.map exportText)

def buildInteractiveShellCommand (environment : Option (OrderedMap JsString JsString)) :
    Option JsString :=
  let exportPrefix := buildEnvironmentExportPrefix environment
  if exportPrefix = [] then none
  else some (exportPrefix ++ js "; exec \x22$\x7bSHELL:-/bin/sh\x7d\x22 -l")

def buildExecCommand (command : JsString) (environment : Option (OrderedMap JsString JsString)) :
    JsString :=
  let exportPrefix := buildEnvironmentExportPrefix environment
  if exportPrefix = [] then command else exportPrefix ++ js "; " ++ command

end NodeHelpers

/-! The helpers of the two backends on the same text: they agree on everything but the question
whether a path is blank. -/
namespace NodeHelpers
open JsText RecordFile
open NativeHostKeys (isWhitespace)

/-! ## Paths -/

theorem scalar_injective : Function.Injective CodePoint.scalar :=
  fun _ _ h => CodePoint.scalar.inj h

theorem splitOn_ofText (s : List Char) :
    (ofText s).splitOn (.scalar '/') = (s.splitOn '/').map ofText := by
  have hpred : (fun c => CodePoint.scalar c == CodePoint.scalar '/') = fun c => c == '/' := by
    funext c
    simp
  rw [List.splitOn_eq_splitOnP, ofText, splitOnP_map, hpred, List.splitOn_eq_splitOnP]
  rfl

theorem intercalate_ofText (separator : List Char) (parts : List (List Char)) :
    List.intercalate (ofText separator) (parts.map ofText) =
      ofText (List.intercalate separator parts) := by
  induction parts with
  | nil => rfl
  | cons part parts ih =>
    cases parts with
    | nil => rw [List.map_singleton, List.intercalate_singleton, List.intercalate_singleton]
    | cons next parts =>
      rw [List.map_cons, List.map_cons, List.intercalate_cons_cons, ← List.map_cons, ih,
        List.intercalate_cons_cons, ofText_append, ofText_append]

@[simp] theorem ofText_eq_nil {s : List Char} : ofText s = [] ↔ s = [] := List.map_eq_nil_iff

theorem ofText_eq_js {s : List Char} {t : String} : ofText s = js t ↔ s = t.toList :=
  ofText_injective.eq_iff

theorem segments_ofText (pathname : List Char) :
    ((ofText pathname).splitOn (.scalar '/')).foldl (fun segments segment =>
      if segment = [] ∨ segment = js "." then segments
      else if segment = js ".." then segments.dropLast
      else segments ++ [segment]) [] = (NativeTransport.remoteSegments pathname).map ofText := by
  rw [splitOn_ofText, List.foldl_map, NativeTransport.remoteSegments]
  change List.foldl _ ([].map ofText) _ = _
  refine List.foldl_hom (List.map ofText) fun segments segment => ?_
  rw [NativeTransport.pushSegment]
  have hdot : ofText segment = js "." ↔ segment = ['.'] := ofText_eq_js
  have hdots : ofText segment = js ".." ↔ segment = ['.', '.'] := ofText_eq_js
  simp only [ofText_eq_nil, hdot, hdots]
  split_ifs <;> simp [List.map_dropLast]

theorem normalizeRemotePath_ofText (pathname : List Char) :
    normalizeRemotePath (ofText pathname) =
      ofText (NativeTransport.normalizeRemotePath pathname) := by
  rw [normalizeRemotePath, segments_ofText, NativeTransport.normalizeRemotePath_eq,
    NativeTransport.renderSegments]
  simp only [ne_eq, List.map_eq_nil_iff, ite_not]
  split_ifs with hnil
  · rfl
  · change .scalar '/' :: List.intercalate (ofText ['/']) _ = _
    rw [intercalate_ofText]
    rfl

theorem rdropWhile_ofText (s : List Char) :
    (ofText s).rdropWhile (· == .scalar '/') = ofText (s.rdropWhile (· == '/')) := by
  have hpred : (fun c => c == CodePoint.scalar '/') ∘ CodePoint.scalar = fun c => c == '/' := by
    funext c
    simp
  rw [List.rdropWhile, ofText, ← List.map_reverse, List.dropWhile_map, hpred, ← List.map_reverse]
  rfl

theorem trim_isSpace_eq_nil {s : List Char} :
    trim isSpace (ofText s) = [] ↔ ∀ c ∈ s, isSpaceChar c := by
  rw [trim_eq_nil_iff, words_eq_nil_iff, ofText, List.forall_mem_map]
  rfl

/-- The two languages call the same text blank. -/
def BlankAlike (pathname : List Char) : Prop :=
  (∀ c ∈ pathname, isSpaceChar c) ↔ ∀ c ∈ pathname, isWhitespace c

theorem resolveRemotePath_of_blank {rootPath pathname : List Char}
    (h : ∀ c ∈ pathname, isSpaceChar c) :
    resolveRemotePath (ofText rootPath) (ofText pathname) =
      ofText (NativeTransport.normalizeRemotePath rootPath) := by
  rw [resolveRemotePath, if_pos (.inr (trim_isSpace_eq_nil.mpr h)), normalizeRemotePath_ofText]

theorem resolveRemotePath_of_not_blank {rootPath pathname : List Char}
    (h : ¬ ∀ c ∈ pathname, isSpaceChar c) :
    resolveRemotePath (ofText rootPath) (ofText pathname) =
      if pathname.head? = some '/' then ofText (NativeTransport.normalizeRemotePath pathname)
      else ofText (NativeTransport.normalizeRemotePath
        (rootPath.rdropWhile (· == '/') ++ '/' :: pathname)) := by
  have htrim : ¬ trim isSpace (ofText pathname) = [] := fun hnil => h (trim_isSpace_eq_nil.mp hnil)
  have hne : ¬ ofText pathname = [] := by
    intro hnil
    exact htrim (by rw [hnil]; rfl)
  have hhead : (ofText pathname).head? = some (.scalar '/') ↔ pathname.head? = some '/' := by
    rw [ofText, List.head?_map, ← Option.map_some (f := CodePoint.scalar),
      (Option.map_injective scalar_injective).eq_iff]
  rw [resolveRemotePath, if_neg (not_or.mpr ⟨hne, htrim⟩)]
  simp only [hhead, rdropWhile_ofText, ofText_eq_nil, normalizeRemotePath_ofText]
  split_ifs with hslash hnil
  · rfl
  · rw [hnil, List.nil_append]
    exact normalizeRemotePath_ofText ('/' :: pathname)
  · rw [← normalizeRemotePath_ofText, ofText_append]
    rfl

/-- A path that is white space to one language only is a name to the other. -/
theorem isSegment_of_blank {pathname : List Char} (hne : pathname ≠ [])
    (h : ∀ c ∈ pathname, isSpaceChar c ∨ isWhitespace c) : NativeTransport.IsSegment pathname := by
  have hslash : ¬ (isSpaceChar '/' ∨ isWhitespace '/') := by decide
  have hdot : ¬ (isSpaceChar '.' ∨ isWhitespace '.') := by decide
  refine ⟨fun hmem => hslash (h _ hmem), hne, ?_, ?_⟩
  · rintro rfl
    exact hdot (h _ List.mem_cons_self)
  · rintro rfl
    exact hdot (h _ List.mem_cons_self)

theorem resolveRemotePath_ofText_iff (rootPath pathname : List Char) :
    resolveRemotePath (ofText rootPath) (ofText pathname) =
      ofText (NativeTransport.resolveRemotePath rootPath pathname) ↔ BlankAlike pathname := by
  by_cases hnode : ∀ c ∈ pathname, isSpaceChar c <;>
    by_cases hnative : ∀ c ∈ pathname, isWhitespace c
  · refine iff_of_true ?_ (iff_of_true hnode hnative)
    rw [resolveRemotePath_of_blank hnode, NativeTransport.resolveRemotePath,
      if_pos (NativeTransport.trim_isWhitespace_eq_nil.mpr hnative)]
  · refine iff_of_false (fun h => ?_) fun h => hnative (h.mp hnode)
    have hne : pathname ≠ [] := by
      rintro rfl
      exact hnative (by simp)
    have hname := isSegment_of_blank hne fun c hc => .inl (hnode c hc)
    rw [resolveRemotePath_of_blank hnode, NativeTransport.resolveRemotePath_segment hname
      fun hnil => hnative (NativeTransport.trim_isWhitespace_eq_nil.mp hnil)] at h
    exact NativeTransport.renderSegments_concat_ne _ hne (ofText_injective h).symm
  · refine iff_of_false (fun h => ?_) fun h => hnode (h.mpr hnative)
    have hne : pathname ≠ [] := by
      rintro rfl
      exact hnode (by simp)
    have hname := isSegment_of_blank hne fun c hc => .inr (hnative c hc)
    have hhead : pathname.head? ≠ some '/' := fun h => hname.no_slash (List.mem_of_mem_head? h)
    rw [resolveRemotePath_of_not_blank hnode, if_neg hhead, NativeTransport.resolveRemotePath,
      if_pos (NativeTransport.trim_isWhitespace_eq_nil.mpr hnative),
      NativeTransport.normalizeRemotePath_eq, NativeTransport.remoteSegments_join hname,
      NativeTransport.remoteSegments_rdropWhile] at h
    exact NativeTransport.renderSegments_concat_ne _ hne (ofText_injective h)
  · refine iff_of_true ?_ (iff_of_false hnode hnative)
    have htrim : trim isWhitespace pathname ≠ [] :=
      fun hnil => hnative (NativeTransport.trim_isWhitespace_eq_nil.mp hnil)
    rw [resolveRemotePath_of_not_blank hnode]
    split_ifs with hhead
    · rw [NativeTransport.resolveRemotePath, if_neg htrim, if_pos hhead]
    · rw [NativeTransport.resolveRemotePath_relative htrim hhead]

/-! ## File names and shell words -/

theorem sanitizeFilename_ofText (value : List Char) :
    sanitizeFilename (ofText value) = ofText (NativeTransport.sanitizeFilename value) := by
  have hmap : (ofText value).map (fun c => if isFilenameCharacter c then c else .scalar '_') =
      ofText (value.map fun c => if c.isAlphanum ∨ c ∈ ['.', '_', '-'] then c else '_') := by
    rw [ofText, List.map_map, ofText, List.map_map]
    refine List.map_congr_left fun c _ => ?_
    simp only [Function.comp_apply, isFilenameCharacter, apply_ite CodePoint.scalar]
    exact if_congr (by simp [or_assoc]) rfl rfl
  rw [sanitizeFilename, hmap, NativeTransport.sanitizeFilename]
  simp only [ofText_eq_nil]
  split_ifs <;> rfl

theorem shellSingleQuote_ofText (value : List Char) :
    shellSingleQuote (ofText value) = ofText (NativeTransport.shellSingleQuote value) := by
  have hbody : ((ofText value).flatMap fun c => if c = .scalar '\'' then js "'\\''" else [c]) =
      ofText (value.flatMap fun c => if c = '\'' then "'\\''".toList else [c]) := by
    rw [ofText, List.flatMap_map, ofText, List.map_flatMap]
    refine List.flatMap_congr fun c _ => ?_
    by_cases hc : c = '\'' <;> simp [hc, js, ofText]
  rw [shellSingleQuote, hbody, NativeTransport.shellSingleQuote]
  simp [js, ofText]

/-! ## Environments -/

/-- The same key or value, or the same variable. -/
def variableOfText (entry : List Char × List Char) : JsString × JsString :=
  (ofText entry.1, ofText entry.2)

/-- The two backends are given the same variables, each in its own order. -/
def SameEnvironment : Option (OrderedMap JsString JsString) → Option NativeTransport.HashMap → Prop
  | none, none => True
  | some node, some native => node.entries.Perm (native.entries.map variableOfText)
  | _, _ => False

theorem isValidEnvironmentKey_ofText (key : List Char) :
    isValidEnvironmentKey (ofText key) = NativeTransport.isValidEnvironmentKey key := by
  cases key with
  | nil => rfl
  | cons first characters =>
    have hrest : (ofText characters).all isKeyCharacter =
        characters.all fun c => c.isAlphanum || c = '_' := by
      rw [ofText, List.all_map]
      rfl
    simp only [ofText, List.map_cons, isValidEnvironmentKey,
      NativeTransport.isValidEnvironmentKey] at hrest ⊢
    rw [hrest]

theorem toNat_lt_of_isAlphanum {c : Char} (h : c.isAlphanum) : c.toNat < 0x80 := by
  have hcode : ((decide (65 ≤ c.val ∧ c.val ≤ 90) ||
      (decide (97 ≤ c.val) && decide (c.val ≤ 122))) ||
      (decide (48 ≤ c.val) && decide (c.val ≤ 57))) = true := h
  simp only [Bool.or_eq_true, Bool.and_eq_true, decide_eq_true_eq,
    UInt32.le_iff_toNat_le] at hcode
  change ((65 ≤ c.toNat ∧ c.toNat ≤ 90) ∨ (97 ≤ c.toNat ∧ c.toNat ≤ 122)) ∨
    (48 ≤ c.toNat ∧ c.toNat ≤ 57) at hcode
  omega

/-- The keys a shell can use are ASCII. -/
theorem ascii_of_isValidEnvironmentKey {key : List Char}
    (h : NativeTransport.isValidEnvironmentKey key) : ∀ c ∈ key, c.toNat < 0x80 := by
  cases key with
  | nil => exact fun c hc => absurd hc List.not_mem_nil
  | cons first characters =>
    simp only [NativeTransport.isValidEnvironmentKey, Bool.and_eq_true, Bool.or_eq_true,
      decide_eq_true_eq, List.all_eq_true] at h
    refine List.forall_mem_cons.mpr ⟨?_, fun c hc => ?_⟩
    · rcases h.1 with hfirst | rfl
      · exact toNat_lt_of_isAlphanum (by simp [Char.isAlphanum, hfirst])
      · decide
    · rcases h.2 c hc with halphanum | rfl
      · exact toNat_lt_of_isAlphanum halphanum
      · decide

theorem units_of_ascii {key : List Char} (h : ∀ c ∈ key, c.toNat < 0x80) :
    (ofText key).flatMap CodePoint.units = key.map Char.toNat := by
  rw [ofText, List.flatMap_map, List.map_eq_flatMap]
  refine List.flatMap_congr fun c hc => ?_
  have hlt := h c hc
  rw [CodePoint.units, if_pos (by omega)]

theorem bytes_of_ascii {key : List Char} (h : ∀ c ∈ key, c.toNat < 0x80) :
    (Utf8.encode key).map UInt8.toNat = key.map Char.toNat := by
  rw [Utf8.encode, List.map_flatMap, List.map_eq_flatMap]
  refine List.flatMap_congr fun c hc => ?_
  have hlt := h c hc
  have hone : c.utf8Size = 1 :=
    Char.utf8Size_eq_one_iff.mpr (UInt32.le_iff_toNat_le.mpr (Nat.le_of_lt_succ hlt))
  rw [String.utf8EncodeChar_eq_singleton hone, List.map_singleton]
  change [c.toNat % 256] = [c.toNat]
  rw [Nat.mod_eq_of_lt (by omega)]

theorem map_toNat_lt_iff {s t : List UInt8} : s.map UInt8.toNat < t.map UInt8.toNat ↔ s < t := by
  have hmono : ∀ x y : UInt8, x < y → x.toNat < y.toNat := fun _ _ => UInt8.lt_iff_toNat_lt.mp
  constructor
  · intro h
    by_contra hnot
    exact List.map_le hmono (List.not_lt.mp hnot) h
  · exact List.map_lt hmono

/-- The order of the keys' code points. -/
def codeOrder (left right : List Char × List Char) : Prop :=
  left.1.map Char.toNat ≤ right.1.map Char.toNat

section Keys
variable {left right : List Char × List Char}

theorem keyOrder_iff (hleft : NativeTransport.isValidEnvironmentKey left.1)
    (hright : NativeTransport.isValidEnvironmentKey right.1) :
    keyOrder (variableOfText left) (variableOfText right) ↔ codeOrder left right := by
  simp only [keyOrder, before, variableOfText, decide_eq_true_eq,
    units_of_ascii (ascii_of_isValidEnvironmentKey hleft),
    units_of_ascii (ascii_of_isValidEnvironmentKey hright)]
  exact not_lt

theorem nativeKeyOrder_iff (hleft : NativeTransport.isValidEnvironmentKey left.1)
    (hright : NativeTransport.isValidEnvironmentKey right.1) :
    NativeTransport.keyOrder left right ↔ codeOrder left right := by
  rw [NativeTransport.keyOrder, ← map_toNat_lt_iff,
    bytes_of_ascii (ascii_of_isValidEnvironmentKey hleft),
    bytes_of_ascii (ascii_of_isValidEnvironmentKey hright)]
  exact not_lt

theorem key_eq_of_codeOrder (h : codeOrder left right) (h' : codeOrder right left) :
    left.1 = right.1 :=
  List.map_injective_iff.mpr (fun _ _ => Char.toNat_inj.mp) (le_antisymm h h')

end Keys

instance : Std.Total keyOrder where
  total left right := by
    simp only [keyOrder, before, decide_eq_true_eq, not_lt]
    exact le_total _ _

instance : IsTrans (JsString × JsString) keyOrder where
  trans left middle right := by
    simp only [keyOrder, before, decide_eq_true_eq, not_lt]
    exact le_trans

instance : Std.Total NativeTransport.keyOrder where
  total left right := by
    simp only [NativeTransport.keyOrder, ← map_toNat_lt_iff, not_lt]
    exact le_total _ _

instance : IsTrans (List Char × List Char) NativeTransport.keyOrder where
  trans left middle right := by
    simp only [NativeTransport.keyOrder, ← map_toNat_lt_iff, not_lt]
    exact le_trans

/-- Sorting the usable variables gives the same list, whatever order they come in. -/
theorem sorted_ofText {node : List (JsString × JsString)}
    {native : List (List Char × List Char)} (h : node.Perm (native.map variableOfText))
    (hvalid : ∀ entry ∈ native, NativeTransport.isValidEnvironmentKey entry.1)
    (hnodup : (native.map Prod.fst).Nodup) :
    node.insertionSort keyOrder =
      (native.insertionSort NativeTransport.keyOrder).map variableOfText := by
  have hnode : ∀ entry ∈ node.insertionSort keyOrder, ∃ e ∈ native, variableOfText e = entry :=
    fun entry hentry => List.mem_map.mp (h.mem_iff.mp ((List.mem_insertionSort _).mp hentry))
  have hnative : ∀ e ∈ native.insertionSort NativeTransport.keyOrder, e ∈ native :=
    fun e => (List.mem_insertionSort _).mp
  refine List.Perm.eq_of_pairwise  ?_ (List.pairwise_insertionSort _ _) ?_ ?_
  · intro left right hleft hright hle hge
    obtain ⟨e, he, rfl⟩ := hnode left hleft
    obtain ⟨f, hf, rfl⟩ := List.mem_map.mp hright
    have hkey : e.1 = f.1 := key_eq_of_codeOrder
      ((keyOrder_iff (hvalid e he) (hvalid f (hnative f hf))).mp hle)
      ((keyOrder_iff (hvalid f (hnative f hf)) (hvalid e he)).mp hge)
    exact congrArg _ (List.inj_on_of_nodup_map hnodup he (hnative f hf) hkey)
  · rw [List.pairwise_map]
    refine (List.pairwise_insertionSort _ native).imp_of_mem fun {e f} he hf hle => ?_
    rw [keyOrder_iff (hvalid e (hnative e he)) (hvalid f (hnative f hf))]
    exact (nativeKeyOrder_iff (hvalid e (hnative e he)) (hvalid f (hnative f hf))).mp hle
  · exact (List.perm_insertionSort _ _).trans
      (h.trans ((List.perm_insertionSort _ _).symm.map variableOfText))

theorem variableOfText_fst_nodup {entries : List (List Char × List Char)}
    (h : (entries.map Prod.fst).Nodup) : ((entries.map variableOfText).map Prod.fst).Nodup := by
  have hfst : (entries.map variableOfText).map Prod.fst = (entries.map Prod.fst).map ofText := by
    rw [List.map_map, List.map_map]
    rfl
  rw [hfst]
  exact h.map ofText_injective

theorem getChannelEnvironment_ofText {node : Option (OrderedMap JsString JsString)}
    {native : Option NativeTransport.HashMap} (h : SameEnvironment node native) :
    (getChannelEnvironment node).map (·.entries) =
      (NativeTransport.getChannelEnvironment native).map (List.map variableOfText) := by
  cases node with
  | none =>
    cases native with
    | none => rfl
    | some native => exact h.elim
  | some node =>
    cases native with
    | none => exact h.elim
    | some native =>
      have hfilter : (node.entries.filter fun entry => isValidEnvironmentKey entry.1).Perm
          ((native.entries.filter fun entry =>
            NativeTransport.isValidEnvironmentKey entry.1).map variableOfText) := by
        refine (List.Perm.filter _ h).trans (.of_eq ?_)
        rw [List.filter_map]
        congr 2
        funext entry
        exact isValidEnvironmentKey_ofText entry.1
      have hnodup : ((native.entries.filter fun entry =>
          NativeTransport.isValidEnvironmentKey entry.1).map Prod.fst).Nodup :=
        native.nodup.sublist (List.filter_sublist.map Prod.fst)
      have hsorted := sorted_ofText hfilter
        (fun entry hentry => (List.mem_filter.mp hentry).2) hnodup
      simp only [getChannelEnvironment, NativeTransport.getChannelEnvironment, Option.bind_some,
        hsorted, List.map_eq_nil_iff]
      split_ifs with hnil
      · rfl
      · have hkeys := variableOfText_fst_nodup (hnodup.perm
          ((List.perm_insertionSort NativeTransport.keyOrder _).symm.map Prod.fst))
        exact congrArg some (OrderedMap.ofList_entries hkeys)

theorem exportText_ofText (entry : List Char × List Char) :
    exportText (variableOfText entry) = ofText (NativeTransport.exportText entry) := by
  change js "export " ++ ofText entry.1 ++ js "=" ++ shellSingleQuote (ofText entry.2) =
    ofText ("export ".toList ++ entry.1 ++ ("=".toList ++ NativeTransport.shellSingleQuote entry.2))
  rw [shellSingleQuote_ofText, ofText_append, ofText_append, ofText_append,
    List.append_assoc _ (js "=")]
  rfl

theorem buildEnvironmentExportPrefix_ofText {node : Option (OrderedMap JsString JsString)}
    {native : Option NativeTransport.HashMap} (h : SameEnvironment node native) :
    buildEnvironmentExportPrefix node =
      ofText (NativeTransport.buildEnvironmentExportPrefix native) := by
  have hchannel := getChannelEnvironment_ofText h
  rw [buildEnvironmentExportPrefix, NativeTransport.buildEnvironmentExportPrefix,
    ← intercalate_ofText]
  cases hnative : NativeTransport.getChannelEnvironment native with
  | none =>
    rw [hnative] at hchannel
    rw [Option.map_eq_none_iff.mp hchannel]
    rfl
  | some entries =>
    rw [hnative] at hchannel
    obtain ⟨channelEnvironment, hnode, hentries⟩ := Option.map_eq_some_iff.mp hchannel
    rw [hnode, Option.getD_some, List.map_map]
    simp only [hentries, List.map_map]
    congr 2
    funext entry
    exact exportText_ofText entry

theorem buildInteractiveShellCommand_ofText {node : Option (OrderedMap JsString JsString)}
    {native : Option NativeTransport.HashMap} (h : SameEnvironment node native) :
    buildInteractiveShellCommand node =
      (NativeTransport.buildInteractiveShellCommand native).map ofText := by
  rw [buildInteractiveShellCommand, NativeTransport.buildInteractiveShellCommand,
    buildEnvironmentExportPrefix_ofText h]
  simp only [ofText_eq_nil]
  split_ifs
  · rfl
  · rw [Option.map_some, ofText_append]
    rfl

theorem buildExecCommand_ofText {node : Option (OrderedMap JsString JsString)}
    {native : Option NativeTransport.HashMap} (h : SameEnvironment node native)
    (command : List Char) :
    buildExecCommand (ofText command) node =
      ofText (NativeTransport.buildExecCommand command native) := by
  rw [buildExecCommand, NativeTransport.buildExecCommand, buildEnvironmentExportPrefix_ofText h]
  simp only [ofText_eq_nil]
  split_ifs
  · rfl
  · rw [ofText_append, ofText_append]
    rfl

/-- All helpers return the same text in both backends. -/
structure HelpersAgree (rootPath pathname value command : List Char)
    (node : Option (OrderedMap JsString JsString)) (native : Option NativeTransport.HashMap) :
    Prop where
  normalizeRemotePath : normalizeRemotePath (ofText pathname) =
    ofText (NativeTransport.normalizeRemotePath pathname)
  resolveRemotePath : resolveRemotePath (ofText rootPath) (ofText pathname) =
    ofText (NativeTransport.resolveRemotePath rootPath pathname)
  sanitizeFilename : sanitizeFilename (ofText value) =
    ofText (NativeTransport.sanitizeFilename value)
  shellSingleQuote : shellSingleQuote (ofText value) =
    ofText (NativeTransport.shellSingleQuote value)
  buildEnvironmentExportPrefix : buildEnvironmentExportPrefix node =
    ofText (NativeTransport.buildEnvironmentExportPrefix native)
  buildInteractiveShellCommand : buildInteractiveShellCommand node =
    (NativeTransport.buildInteractiveShellCommand native).map ofText
  buildExecCommand : buildExecCommand (ofText command) node =
    ofText (NativeTransport.buildExecCommand command native)

theorem helpers_agree_iff_blankAlike (rootPath pathname value command : List Char)
    {node : Option (OrderedMap JsString JsString)} {native : Option NativeTransport.HashMap}
    (h : SameEnvironment node native) :
    HelpersAgree rootPath pathname value command node native ↔ BlankAlike pathname := by
  constructor
  · exact fun hagree => (resolveRemotePath_ofText_iff rootPath pathname).mp hagree.resolveRemotePath
  · intro hblank
    exact ⟨normalizeRemotePath_ofText pathname,
      (resolveRemotePath_ofText_iff rootPath pathname).mpr hblank,
      sanitizeFilename_ofText value, shellSingleQuote_ofText value,
      buildEnvironmentExportPrefix_ofText h, buildInteractiveShellCommand_ofText h,
      buildExecCommand_ofText h command⟩

def nodeVariables : OrderedMap JsString JsString :=
  ⟨[(js "B", js "2"), (js "A", js "1")], by decide⟩

def nativeVariables : NativeTransport.HashMap :=
  ⟨[("A".toList, "1".toList), ("B".toList, "2".toList)], by decide⟩

/-- The two backends list the variables in different orders. -/
theorem helpers_agree_on_two_variables :
    HelpersAgree "/srv".toList "docs".toList "it's".toList "ls".toList (some nodeVariables)
      (some nativeVariables) := by
  have hsame : SameEnvironment (some nodeVariables) (some nativeVariables) := List.Perm.swap _ _ _
  have hblank : BlankAlike "docs".toList :=
    iff_of_false (fun h => absurd (h 'd' (by decide)) (by decide))
      fun h => absurd (h 'd' (by decide)) (by decide)
  exact (helpers_agree_iff_blankAlike _ _ _ _ hsame).mpr hblank

/-- To Node a byte order mark is a blank path, and the native backend joins it to the root. -/
theorem byte_order_mark_resolves_apart :
    ¬ HelpersAgree "/srv".toList [Char.ofNat 0xFEFF] [] "ls".toList none none := by
  intro h
  exact absurd h.resolveRemotePath (by decide +kernel)

end NodeHelpers

/-! Both backends resolve remote paths to canonical ones. -/
namespace NativeTransport
open NativeHostKeys (isWhitespace)
open RecordFile (trim)

theorem normalizeRemotePath_eq_normalize :
    normalizeRemotePath = RootedPaths.normalize '/' '.' := rfl

theorem resolveRemotePath_eq_resolve : resolveRemotePath =
    RootedPaths.resolve '/' '.' fun pathname => trim isWhitespace pathname = [] := by
  funext rootPath pathname
  unfold RootedPaths.resolve
  by_cases hblank : trim isWhitespace pathname = []
  · rw [resolveRemotePath, if_pos hblank, if_pos hblank]
    rfl
  · rw [if_neg hblank]
    by_cases hhead : pathname.head? = some '/'
    · rw [resolveRemotePath, if_neg hblank, if_pos hhead, if_pos hhead]
      rfl
    · rw [resolveRemotePath_relative hblank hhead, if_neg hhead]
      exact RootedPaths.normalize_rdropWhile_append rootPath pathname

end NativeTransport

namespace NodeHelpers
open JsText RecordFile
open NativeHostKeys (isWhitespace)

theorem normalizeRemotePath_eq_normalize :
    normalizeRemotePath = RootedPaths.normalize (.scalar '/') (.scalar '.') := by
  funext pathname
  rw [normalizeRemotePath, RootedPaths.normalize, RootedPaths.render]
  simp only [ne_eq, ite_not]
  rfl

theorem resolveRemotePath_eq_resolve : resolveRemotePath =
    RootedPaths.resolve (.scalar '/') (.scalar '.') fun pathname => trim isSpace pathname = [] := by
  funext rootPath pathname
  unfold RootedPaths.resolve
  by_cases hblank : trim isSpace pathname = []
  · rw [resolveRemotePath, if_pos (.inr hblank), if_pos hblank, normalizeRemotePath_eq_normalize]
  · have hne : ¬ (pathname = [] ∨ trim isSpace pathname = []) := by
      rintro (rfl | h)
      · exact hblank rfl
      · exact hblank h
    rw [resolveRemotePath, if_neg hne, if_neg hblank, normalizeRemotePath_eq_normalize]
    by_cases hhead : pathname.head? = some (.scalar '/')
    · rw [if_pos hhead, if_pos hhead]
    · rw [if_neg hhead, if_neg hhead, ← RootedPaths.normalize_rdropWhile_append]
      by_cases hbase : rootPath.rdropWhile (· == .scalar '/') = []
      · simp only [hbase, if_pos, List.nil_append]
      · simp only [hbase, if_false]

theorem trim_append_eq_nil {α : Type*} {p : α → Bool} {path rest : List α}
    (h : trim p (path ++ rest) = []) : trim p path = [] := by
  rw [trim_eq_nil_iff, words_eq_nil_iff] at h ⊢
  exact fun c hc => h c (List.mem_append_left rest hc)

/-- Both backends: a normalised path is canonical and stays, a path below a root is one text,
and of the pieces of a path given one after the other only the blank ones are passed over. -/
theorem remotePaths_canonical :
    RootedPaths.Resolves '/' '.' (fun pathname => trim isWhitespace pathname = [])
        NativeTransport.normalizeRemotePath NativeTransport.resolveRemotePath ∧
      RootedPaths.Resolves (.scalar '/') (.scalar '.') (fun pathname => trim isSpace pathname = [])
        normalizeRemotePath resolveRemotePath := by
  constructor
  · rw [NativeTransport.normalizeRemotePath_eq_normalize,
      NativeTransport.resolveRemotePath_eq_resolve]
    exact RootedPaths.resolves_resolve rfl fun _ _ => trim_append_eq_nil
  · rw [normalizeRemotePath_eq_normalize, resolveRemotePath_eq_resolve]
    exact RootedPaths.resolves_resolve rfl fun _ _ => trim_append_eq_nil

/-- A blank name is passed over alone and kept in front of a separator. -/
theorem blank_piece_kept :
    [' '].head? ≠ some '/' ∧ ['x'].head? ≠ some '/' ∧
      NativeTransport.resolveRemotePath (NativeTransport.resolveRemotePath "/srv".toList [' '])
        ['x'] ≠ NativeTransport.resolveRemotePath "/srv".toList ([' '] ++ '/' :: ['x']) := by
  decide +kernel

end NodeHelpers
