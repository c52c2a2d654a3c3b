import TerminalWorkspace.VaultStores.Hosts
import TerminalWorkspace.Foundation.RecordAppend
import TerminalWorkspace.Foundation.MovedItems

/-! The form of a host, and what saving it back does to the record. -/
namespace VaultStores
open JsText JsNumbers Inventory
open RecordFile (trim)

section Form

/-- The number that a key spells, where it is the index of an array. -/
def arrayIndex (key : JsString) : Option ℕ :=
  match parseInt key with
  | some (.ofNat index) =>
    if ofText (Nat.toDigits 10 index) = key ∧ index < 2 ^ 32 - 1 then some index else none
  | _ => none

/-- An object lists its array indices in order, and before all other keys. -/
def listedBefore (left right : JsString × JsString) : Bool :=
  match arrayIndex left.1, arrayIndex right.1 with
  | some i, some j => i ≤ j
  | none, some _ => false
  | _, none => true

/-- `Object.entries(object)`. -/
def objectEntries (object : OrderedMap JsString JsString) : List (JsString × JsString) :=
  object.entries.insertionSort fun left right => listedBefore left right

def formatEnvironmentEntry (entry : JsString × JsString) : JsString := entry.1 ++ js "=" ++ entry.2

def hostToFormValues (host : HostRecord) : HostFormValues where
  label := host.label
  protocol := host.protocol
  hostname := host.hostname
  username := host.username
  port := numberString host.port
  authMethod := host.authMethod
  privateKeyPath := host.privateKeyPath
  group := host.group
  tags :=
    (js ", ").intercalate
      (host.tags.filter fun tag => (trim isSpace tag).map asciiLower ≠ js "favorite")
  note := host.note
  favorite := host.favorite
  keyLabel := host.keyLabel
  hostKeyPolicy := host.hostKeyPolicy
  agentForwarding := host.agentForwarding
  environment := (js "\n").intercalate ((objectEntries host.environment).map formatEnvironmentEntry)
  jumpHostId := host.jumpHostId.get?.getD []
  sftpRoot := host.sftpRoot
  identityId := host.identityId.get?.getD []

end Form

section Pieces
variable {separator : Char}

/-- What is left of a piece of a list that was typed in. -/
structure IsPiece (separator : Char) (piece : JsString) : Prop where
  nonempty : piece ≠ []
  trimmed : trim isSpace piece = piece
  whole : .scalar separator ∉ piece

theorem isPiece_of_mem {value piece : JsString} (h : piece ∈ splitTrimmed separator value) :
    IsPiece separator piece := by
  obtain ⟨hmem, hne⟩ := List.mem_filter.mp h
  obtain ⟨part, hpart, rfl⟩ := List.mem_map.mp hmem
  refine ⟨of_decide_eq_true hne, RecordFile.trim_trim _ _, fun hseparator => ?_⟩
  have hin : .scalar separator ∈ part :=
    (List.dropWhile_suffix _).subset ((List.rdropWhile_prefix _ _).subset hseparator)
  exact absurd ((RecordFile.mem_splitOnP _ hpart).2 _ hin) (by simp)

theorem trim_append_blanks {blanks : JsString} (h : ∀ c ∈ blanks, isSpace c = true)
    (s : JsString) : trim isSpace (blanks ++ s) = trim isSpace s := by
  rw [trim, List.dropWhile_append_of_pos h, trim]

theorem splitTrimmed_append (s t : JsString) :
    splitTrimmed separator (s ++ .scalar separator :: t) =
      splitTrimmed separator s ++ splitTrimmed separator t := by
  simp only [splitTrimmed, List.splitOn_append_cons_self, List.map_append, List.filter_append]

theorem splitTrimmed_blanks {blanks : JsString} (hspace : ∀ c ∈ blanks, isSpace c = true)
    (hseparator : .scalar separator ∉ blanks) (s : JsString) :
    splitTrimmed separator (blanks ++ s) = splitTrimmed separator s := by
  cases hs : s.splitOn (.scalar separator) with
  | nil => exact absurd hs (List.splitOnP_ne_nil _ _)
  | cons first rest =>
    rw [splitTrimmed, RecordFile.splitOn_append_first hseparator hs, List.map_cons,
      trim_append_blanks hspace, splitTrimmed, hs, List.map_cons]

theorem splitTrimmed_piece {piece : JsString} (h : IsPiece separator piece) :
    splitTrimmed separator piece = [piece] := by
  have hsplit : piece.splitOn (.scalar separator) = [piece] :=
    List.splitOnP_eq_singleton fun c hc =>
      beq_eq_false_iff_ne.mpr fun heq => h.whole (by rwa [← heq])
  simp [splitTrimmed, hsplit, h.trimmed, h.nonempty]

/-- Pieces that are joined again are split as they were. -/
theorem splitTrimmed_intercalate {blanks : JsString} {pieces : List JsString}
    (hspace : ∀ c ∈ blanks, isSpace c = true) (hseparator : .scalar separator ∉ blanks)
    (h : ∀ piece ∈ pieces, IsPiece separator piece) :
    splitTrimmed separator ((.scalar separator :: blanks).intercalate pieces) = pieces := by
  induction pieces with
  | nil => simp [splitTrimmed, RecordFile.trim]
  | cons piece pieces ih =>
    have hpiece := splitTrimmed_piece (h piece List.mem_cons_self)
    have hrest := ih fun other hother => h other (List.mem_cons_of_mem _ hother)
    cases pieces with
    | nil => simpa using hpiece
    | cons next pieces =>
      rw [List.intercalate_cons_cons, List.append_assoc, List.cons_append, splitTrimmed_append,
        splitTrimmed_blanks hspace hseparator, hrest, hpiece, List.singleton_append]

end Pieces

section Environment

/-- Nothing is trimmed from a text that has no blank at either end. -/
theorem trim_eq_self_iff {s : JsString} :
    trim isSpace s = s ↔
      (∀ c ∈ s.head?, isSpace c = false) ∧ ∀ c ∈ s.getLast?, isSpace c = false := by
  constructor
  · intro h
    have hsuffix := List.dropWhile_suffix (l := s) isSpace
    have hprefix := List.rdropWhile_prefix isSpace (s.dropWhile isSpace)
    have hdrop : s.dropWhile isSpace = s :=
      hsuffix.eq_of_length (le_antisymm hsuffix.length_le ((congrArg List.length h).ge.trans
        hprefix.length_le))
    have hrdrop : s.rdropWhile isSpace = s := by rwa [trim, hdrop] at h
    refine ⟨fun c hc => ?_, fun c hc => ?_⟩
    · obtain ⟨rest, rfl⟩ := List.head?_eq_some_iff.mp hc
      simpa using List.dropWhile_eq_self_iff.mp hdrop
    · obtain ⟨init, rfl⟩ := List.getLast?_eq_some_iff.mp hc
      simpa using List.rdropWhile_eq_self_iff.mp hrdrop
  · rintro ⟨hhead, hlast⟩
    have hdrop : s.dropWhile isSpace = s := List.dropWhile_eq_self_iff.mpr fun hs => by
      rw [hhead s[0] (by rw [List.head?_eq_getElem?, List.getElem?_eq_getElem hs, Option.mem_some])]
      exact Bool.false_ne_true
    rw [trim, hdrop]
    refine List.rdropWhile_eq_self_iff.mpr fun hs => ?_
    rw [hlast _ (List.getLast?_eq_getLast_of_ne_nil hs)]
    exact Bool.false_ne_true

/-- A variable of the environment that a form can show. -/
structure IsVariable (entry : JsString × JsString) : Prop where
  named : entry.1 ≠ []
  key_trimmed : trim isSpace entry.1 = entry.1
  key_whole : .scalar '=' ∉ entry.1
  value_trimmed : trim isSpace entry.2 = entry.2
  key_line : .scalar '\n' ∉ entry.1
  value_line : .scalar '\n' ∉ entry.2

theorem isVariable_parse {piece : JsString} (h : IsPiece '\n' piece)
    (hnamed : (parseEnvironmentEntry piece).1 ≠ []) : IsVariable (parseEnvironmentEntry piece) := by
  rw [parseEnvironmentEntry] at hnamed ⊢
  split_ifs at hnamed ⊢ with hsign
  · refine ⟨hnamed, RecordFile.trim_trim _ _, fun hmem => ?_, RecordFile.trim_trim _ _,
      fun hmem => ?_, fun hmem => ?_⟩
    · exact absurd (List.mem_takeWhile_imp (RecordFile.mem_of_mem_trim _ hmem)) (by simp)
    · exact h.whole ((List.takeWhile_prefix _).subset (RecordFile.mem_of_mem_trim _ hmem))
    · exact h.whole ((List.dropWhile_suffix _).subset (List.mem_of_mem_tail (RecordFile.mem_of_mem_trim _ hmem)))
  · exact ⟨hnamed, h.trimmed, hsign, rfl, h.whole, List.not_mem_nil⟩

theorem isVariable_of_mem {value : JsString} {entry : JsString × JsString}
    (h : entry ∈ (parseEnvironmentVariables value).entries) : IsVariable entry := by
  obtain ⟨hmem, hnamed⟩ := List.mem_filter.mp (OrderedMap.mem_ofList h)
  obtain ⟨piece, hpiece, rfl⟩ := List.mem_map.mp hmem
  exact isVariable_parse (isPiece_of_mem hpiece) (of_decide_eq_true hnamed)

theorem formatEnvironmentEntry_eq (entry : JsString × JsString) :
    formatEnvironmentEntry entry = entry.1 ++ .scalar '=' :: entry.2 := by
  simp [formatEnvironmentEntry, js, ofText]

theorem IsVariable.isPiece {entry : JsString × JsString} (h : IsVariable entry) :
    IsPiece '\n' (formatEnvironmentEntry entry) := by
  rw [formatEnvironmentEntry_eq]
  have hkey := trim_eq_self_iff.mp h.key_trimmed
  have hvalue := trim_eq_self_iff.mp h.value_trimmed
  refine ⟨by simp, trim_eq_self_iff.mpr ⟨?_, ?_⟩, ?_⟩
  · rw [List.head?_append_of_ne_nil _ h.named]
    exact hkey.1
  · intro c hc
    rcases List.eq_nil_or_concat entry.2 with hnil | ⟨init, last, hlast⟩
    · rw [hnil] at hc
      have hsign : c = .scalar '=' := by simpa using hc.symm
      rw [hsign]
      decide
    · refine hvalue.2 c ?_
      have hend : entry.1 ++ .scalar '=' :: entry.2 = entry.1 ++ .scalar '=' :: init ++ [last] := by
        simp [hlast]
      rw [hend, List.getLast?_concat] at hc
      rwa [hlast, List.concat_eq_append, List.getLast?_concat]
  · simp [h.key_line, h.value_line]

theorem IsVariable.parse {entry : JsString × JsString} (h : IsVariable entry) :
    parseEnvironmentEntry (formatEnvironmentEntry entry) = entry := by
  have hkey : ∀ c ∈ entry.1, decide (c ≠ .scalar '=') = true := fun c hc =>
    decide_eq_true fun heq => h.key_whole (heq ▸ hc)
  rw [formatEnvironmentEntry_eq, parseEnvironmentEntry, if_pos (by simp),
    List.takeWhile_append_of_pos hkey, List.dropWhile_append_of_pos hkey]
  simp [h.key_trimmed, h.value_trimmed]

/-- The variables that a form shows are read as they are. -/
theorem parse_format {entries : List (JsString × JsString)} (h : ∀ e ∈ entries, IsVariable e)
    (hnodup : (entries.map Prod.fst).Nodup) :
    (parseEnvironmentVariables
      ((js "\n").intercalate (entries.map formatEnvironmentEntry))).entries = entries := by
  have hpieces : ∀ piece ∈ entries.map formatEnvironmentEntry, IsPiece '\n' piece := by
    intro piece hpiece
    obtain ⟨entry, hentry, rfl⟩ := List.mem_map.mp hpiece
    exact (h entry hentry).isPiece
  have hlines : js "\n" = [.scalar '\n'] := rfl
  have hparsed : entries.map (parseEnvironmentEntry ∘ formatEnvironmentEntry) = entries := by
    conv_rhs => rw [← List.map_id entries]
    exact List.map_congr_left fun e he => (h e he).parse
  have hnamed : (entries.filter fun e => e.1 ≠ []) = entries :=
    List.filter_eq_self.mpr fun e he => decide_eq_true (h e he).named
  rw [parseEnvironmentVariables, hlines,
    splitTrimmed_intercalate (by simp) List.not_mem_nil hpieces, List.map_map, hparsed, hnamed,
    OrderedMap.ofList_entries hnodup]

theorem listedBefore_total (left right : JsString × JsString) :
    listedBefore left right = true ∨ listedBefore right left = true := by
  simp only [listedBefore]
  cases arrayIndex left.1 <;> cases arrayIndex right.1 <;> simp [le_total]

theorem objectEntries_perm (object : OrderedMap JsString JsString) :
    (objectEntries object).Perm object.entries := List.perm_insertionSort _ _

theorem objectEntries_congr {object other : OrderedMap JsString JsString}
    (h : other.entries = objectEntries object) : objectEntries other = objectEntries object := by
  rw [objectEntries, h, objectEntries]
  exact StableSort.insertionSort_idem _ listedBefore_total _

/-- An environment that was typed in comes back from its text. -/
theorem objectEntries_parse_format (value : JsString) :
    objectEntries (parseEnvironmentVariables ((js "\n").intercalate
      ((objectEntries (parseEnvironmentVariables value)).map formatEnvironmentEntry))) =
    objectEntries (parseEnvironmentVariables value) := by
  have hperm := objectEntries_perm (parseEnvironmentVariables value)
  refine objectEntries_congr (parse_format (fun e he => isVariable_of_mem (hperm.mem_iff.mp he)) ?_)
  exact (hperm.map Prod.fst).nodup_iff.mpr (parseEnvironmentVariables value).nodup

end Environment

end VaultStores
