import TerminalWorkspace.NativeTransport.ListedEntries

/-! When a long listing is read back as the entries it was printed for. -/
namespace NativeTransport
open NativeHostKeys (isWhitespace lines)
open RecordFile (trim words)
open JoinedWords

/-- What a listing shows of an entry. -/
structure ShownEntry where
  kind : FileKind
  name : List Char
  path : List Char
  size : ℕ
  deriving DecidableEq, Repr

def RemoteFileEntry.shown (entry : RemoteFileEntry) : ShownEntry where
  kind := entry.kind
  name := entry.name
  path := entry.path
  size := entry.size

def ListedKind.fileKind : ListedKind → FileKind
  | .directory => .directory
  | .file | .link _ => .file

theorem ListedEntry.fileKind_eq (e : ListedEntry) :
    (if e.typeCharacter = 'd' then FileKind.directory else .file) = e.kind.fileKind := by
  rw [ListedEntry.typeCharacter]
  cases e.kind <;> rfl

/-- What should be returned for an entry, its name joined to the target path. -/
def ListedEntry.expected (targetPath : List Char) (e : ListedEntry) : Option ShownEntry :=
  if isDots e.name.text then none
  else some
    { kind := e.kind.fileKind
      name := e.name.text
      path := normalizeRemotePath (targetPath ++ '/' :: e.name.text)
      size := e.size }

/-- Each entry is returned once, from its own line. -/
structure ReadBack (platform : ListingPlatform) (targetPath : List Char)
    (entries : List ListedEntry) : Prop where
  own_line : ∀ e ∈ entries,
    (parseSftpLine platform targetPath e.line).map RemoteFileEntry.shown = e.expected targetPath
  returned : ((parseSftpDirectoryListing platform targetPath (listing entries)).map
    RemoteFileEntry.shown).Perm (entries.filterMap (ListedEntry.expected targetPath))

/-! ## Which names keep -/

def arrowWord : List Char := "->".toList

/-- White space separates the words of the text only, one blank at a time. -/
def SinglySpaced (s : List Char) : Prop := join ' ' (words isWhitespace s) = s

/-- The name keeps behind `lead`: it is singly spaced, an arrow between two words of it would cut
a plain name, and one behind a word of it would cut the name of a link. -/
def KeepsName (lead name : List Char) : ListedKind → Prop
  | .directory | .file =>
    SinglySpaced (lead ++ name) ∧ arrowWord ∉ (words isWhitespace (lead ++ name)).tail.dropLast
  | .link target =>
    SinglySpaced (lead ++ name) ∧ arrowWord ∉ (words isWhitespace (lead ++ name)).tail ∧
      words isWhitespace target.val ≠ []

/-- Both are the directory itself or its parent, or both are the same name. -/
def Alike (name other : List Char) : Prop := name = other ∨ isDots name ∧ isDots other

/-- The directory's path has an arrow between words, and what stands before the first one ends in
the name. -/
def EndsAlike (directory name : List Char) : Prop :=
  Alike (lastSegment (cutBefore arrow (join ' ' (words isWhitespace directory)))) name

def HasArrow (directory : List Char) : Prop := arrowWord ∈ (words isWhitespace directory).tail

instance (directory : List Char) : Decidable (HasArrow directory) :=
  inferInstanceAs (Decidable (_ ∈ _))

def ListedEntry.Readable (e : ListedEntry) : Prop :=
  match e.directory with
  | none => KeepsName [] e.name.text e.kind
  | some directory =>
    if HasArrow (directoryPrefix directory.val) then
      EndsAlike (directoryPrefix directory.val) e.name.text
    else KeepsName ['/'] e.name.text e.kind

/-! ## Segments and arrows -/

theorem lastSegment_of_not_mem {s : List Char} (h : '/' ∉ s) : lastSegment s = s := by
  rw [lastSegment, splitOn_of_not_mem h]
  rfl

theorem lastSegment_append (s t : List Char) : lastSegment (s ++ '/' :: t) = lastSegment t := by
  have hsplit : (s ++ '/' :: t).splitOnP (· == '/') =
      s.splitOnP (· == '/') ++ t.splitOnP (· == '/') := List.splitOnP_append_cons s t rfl
  obtain ⟨earlier, last, hlast⟩ := (List.eq_nil_or_concat (t.splitOnP (· == '/'))).resolve_left
    (List.splitOnP_ne_nil (· == '/') t)
  rw [lastSegment, lastSegment, List.splitOn_eq_splitOnP, List.splitOn_eq_splitOnP, hsplit, hlast,
    List.concat_eq_append, ← List.append_assoc, List.getLast?_concat, List.getLast?_concat]
  rfl

theorem blank_not_mem_of_isWord {w : List Char} (h : IsWord isWhitespace w) : ' ' ∉ w :=
  fun hmem => absurd (h.2 _ hmem) (by decide)

theorem isWord_arrowWord : IsWord isWhitespace arrowWord := by
  refine ⟨by decide, forall_not_of_all isWhitespace (by decide)⟩

/-- The name a list of columns shows: the words up to the first arrow between two of them. -/
theorem shownName_cons {first : List Char} {rest : List (List Char)}
    (h : ∀ w ∈ first :: rest, IsWord isWhitespace w) :
    shownName (first :: rest) = lastSegment (join ' ' (first :: untilInner arrowWord rest)) :=
  congrArg lastSegment (cutBefore_join ' ' (blank_not_mem_of_isWord isWord_arrowWord)
    fun w hw => blank_not_mem_of_isWord (h w hw))

theorem lastSegment_suffix (s : List Char) : lastSegment s <:+ s := by
  induction hn : s.length using Nat.strong_induction_on generalizing s with
  | _ n ih =>
    by_cases hslash : '/' ∈ s
    · obtain ⟨a, b, rfl⟩ := List.append_of_mem hslash
      rw [lastSegment_append]
      have hb := ih b.length (by simp at hn; omega) b rfl
      exact hb.trans ((List.suffix_cons '/' b).trans (List.suffix_append a ('/' :: b)))
    · rw [lastSegment_of_not_mem hslash]

/-- A text that ends with a word ends outside white space, and so does its last segment. -/
theorem exists_not_space_of_lastSegment {columns : List (List Char)} (hne : columns ≠ [])
    (h : ∀ w ∈ columns, IsWord isWhitespace w) (hname : lastSegment (join ' ' columns) ≠ []) :
    ∃ c ∈ lastSegment (join ' ' columns), isWhitespace c = false := by
  obtain ⟨ws, w, rfl⟩ := (List.eq_nil_or_concat columns).resolve_left hne
  rw [List.concat_eq_append] at h hname ⊢
  obtain ⟨s, hs⟩ := join_concat ' ' ws w
  obtain ⟨t, ht⟩ := lastSegment_suffix (join ' ' (ws ++ [w]))
  have hw := h w (List.mem_append_right ws (List.mem_singleton_self w))
  have hlast : (lastSegment (join ' ' (ws ++ [w]))).getLast? = w.getLast? := by
    rw [← List.getLast?_append_of_ne_nil t hname, ht, hs, List.getLast?_append_of_ne_nil s hw.1]
  refine ⟨w.getLast hw.1, List.mem_of_getLast? ?_, hw.2 _ (List.getLast_mem hw.1)⟩
  rw [hlast, List.getLast?_eq_some_getLast hw.1]

/-! ## The words of a printed name -/

def ListedKind.linkWords : ListedKind → List (List Char)
  | .directory | .file => []
  | .link target => arrowWord :: words isWhitespace target.val

theorem words_append_linkText (e : ListedEntry) (s : List Char) :
    words isWhitespace (s ++ e.linkText) = words isWhitespace s ++ e.kind.linkWords := by
  rw [ListedEntry.linkText]
  cases e.kind with
  | directory | file => simp [ListedKind.linkWords]
  | link target =>
    have harrow : arrow ++ target.val = ' ' :: (arrowWord ++ ' ' :: target.val) := rfl
    simp only [harrow, RecordFile.words_append isWhitespace blank_isWhitespace,
      words_of_isWord isWhitespace isWord_arrowWord]
    rfl

/-- The words that stay of a name and of a link's arrow behind its first word. -/
def keptWords (kind : ListedKind) (rest : List (List Char)) : List (List Char) :=
  untilInner arrowWord (rest ++ kind.linkWords)

theorem keptWords_eq_self_iff {kind : ListedKind} {rest : List (List Char)} :
    keptWords kind rest = rest ↔
      match kind with
      | .directory | .file => arrowWord ∉ rest.dropLast
      | .link target => arrowWord ∉ rest ∧ words isWhitespace target.val ≠ [] := by
  cases kind with
  | directory | file =>
    rw [keptWords, ListedKind.linkWords, List.append_nil]
    exact untilInner_eq_self_iff
  | link target =>
    rw [keptWords, ListedKind.linkWords]
    cases htarget : words isWhitespace target.val with
    | nil =>
      exact iff_of_false (untilInner_concat_ne arrowWord rest) fun h => h.2 htarget
    | cons w ws =>
      rw [untilInner_append rest (List.cons_ne_nil w ws), takeWhile_ne_eq_self_iff]
      exact (and_iff_left (htarget ▸ List.cons_ne_nil w ws)).symm

/-- Nothing of a link's target is kept. -/
theorem keptWords_subset (kind : ListedKind) (rest : List (List Char)) :
    keptWords kind rest ⊆ arrowWord :: rest := by
  cases kind with
  | directory | file =>
    rw [keptWords, ListedKind.linkWords, List.append_nil]
    exact List.subset_cons_of_subset _ (untilInner_subset arrowWord rest)
  | link target =>
    rw [keptWords, ListedKind.linkWords]
    cases htarget : words isWhitespace target.val with
    | nil =>
      refine fun w hw => ?_
      have hmem := untilInner_subset arrowWord _ hw
      simpa [or_comm] using hmem
    | cons w ws =>
      rw [untilInner_append rest (List.cons_ne_nil w ws)]
      exact List.subset_cons_of_subset _ (List.takeWhile_subset _)

theorem keepsName_iff {lead name : List Char} {kind : ListedKind} :
    KeepsName lead name kind ↔ SinglySpaced (lead ++ name) ∧
      keptWords kind (words isWhitespace (lead ++ name)).tail =
        (words isWhitespace (lead ++ name)).tail := by
  rw [keptWords_eq_self_iff]
  cases kind <;> rfl

/-- The name that is kept is the name if and only if all of it is kept. -/
theorem alike_iff_keepsName {lead name shown first : List Char} {rest : List (List Char)}
    {kind : ListedKind} (hwords : words isWhitespace (lead ++ name) = first :: rest)
    (hshown : lead ++ shown = join ' ' (first :: keptWords kind rest))
    (hlead : ∀ c ∈ lead, isWhitespace c = false) :
    Alike shown name ↔ KeepsName lead name kind := by
  have hkept : ∀ w ∈ first :: keptWords kind rest, IsWord isWhitespace w := by
    intro w hw
    have hname : ∀ v ∈ first :: rest, IsWord isWhitespace v :=
      fun v hv => isWord_of_mem_words isWhitespace (hwords ▸ hv)
    rcases List.mem_cons.mp hw with rfl | hw
    · exact hname w List.mem_cons_self
    · rcases List.mem_cons.mp (keptWords_subset kind rest hw) with rfl | hw
      · exact isWord_arrowWord
      · exact hname w (List.mem_cons_of_mem _ hw)
  have hback : words isWhitespace (lead ++ shown) = first :: keptWords kind rest :=
    hshown ▸ words_join isWhitespace ' ' blank_isWhitespace hkept
  have hdots : ∀ {s : List Char}, isDots s → words isWhitespace (lead ++ s) = [lead ++ s] := by
    intro s hs
    have hcases : s = ['.'] ∨ s = ['.', '.'] := by simpa [isDots] using hs
    refine words_of_isWord isWhitespace ⟨?_, List.forall_mem_append.mpr ⟨hlead, ?_⟩⟩
    · rcases hcases with rfl | rfl <;> simp
    · rcases hcases with rfl | rfl <;> exact forall_not_of_all isWhitespace (by decide)
  rw [keepsName_iff, hwords, List.tail_cons]
  constructor
  · intro halike
    have hname : shown = name := by
      rcases halike with h | ⟨hs, hn⟩
      · exact h
      · have hfirst := (List.cons.inj ((hdots hs).symm.trans hback)).1
        have hfirst' := (List.cons.inj ((hdots hn).symm.trans hwords)).1
        exact List.append_cancel_left (hfirst.trans hfirst'.symm)
    subst hname
    have hall : keptWords kind rest = rest := (List.cons.inj (hback.symm.trans hwords)).2
    exact ⟨by rw [SinglySpaced, hwords, hshown, hall], hall⟩
  · rintro ⟨hspaced, hall⟩
    rw [SinglySpaced, hwords] at hspaced
    rw [hall, hspaced] at hshown
    exact .inl (List.append_cancel_left hshown)

/-! ## What a printed name is read as -/

theorem isWord_of_isDots {s : List Char} (h : isDots s) : IsWord isWhitespace s := by
  have hcases : s = ['.'] ∨ s = ['.', '.'] := by simpa [isDots] using h
  rcases hcases with rfl | rfl
  · exact ⟨by decide, forall_not_of_all isWhitespace (by decide)⟩
  · exact ⟨by decide, forall_not_of_all isWhitespace (by decide)⟩

/-- The kept words of a name without slashes are one segment. -/
theorem lastSegment_join_kept {first : List Char} {rest : List (List Char)} (kind : ListedKind)
    (h : ∀ w ∈ first :: rest, '/' ∉ w) :
    lastSegment (join ' ' (first :: keptWords kind rest)) =
      join ' ' (first :: keptWords kind rest) := by
  refine lastSegment_of_not_mem fun hslash => ?_
  rcases mem_join _ hslash with heq | ⟨w, hw, hmem⟩
  · exact absurd heq (by decide)
  · rcases List.mem_cons.mp hw with rfl | hw
    · exact h w List.mem_cons_self hmem
    · rcases List.mem_cons.mp (keptWords_subset kind rest hw) with rfl | hw
      · exact absurd hmem (by decide)
      · exact h w (List.mem_cons_of_mem _ hw) hmem

/-- The line shows some name, and it is the entry's. -/
def ListedEntry.ShownAlike (e : ListedEntry) : Prop :=
  ∃ column columns, words isWhitespace e.printedName = column :: columns ∧
    Alike (shownName (column :: columns)) e.name.text

theorem ListedEntry.isWord_of_mem_printedName {e : ListedEntry} {ws : List (List Char)}
    (h : words isWhitespace e.printedName = ws) : ∀ w ∈ ws, IsWord isWhitespace w :=
  fun _ hw => isWord_of_mem_words isWhitespace (h ▸ hw)

theorem shownAlike_iff_of_words {e : ListedEntry} {column : List Char}
    {columns : List (List Char)} (h : words isWhitespace e.printedName = column :: columns) :
    e.ShownAlike ↔ Alike (shownName (column :: columns)) e.name.text := by
  constructor
  · rintro ⟨column', columns', h', halike⟩
    rwa [← h, h']
  · exact fun halike => ⟨column, columns, h, halike⟩

theorem shownAlike_bare {e : ListedEntry} (hdir : e.directory = none) :
    e.ShownAlike ↔ KeepsName [] e.name.text e.kind := by
  have hprinted : words isWhitespace e.printedName =
      words isWhitespace e.name.text ++ e.kind.linkWords := by
    rw [ListedEntry.printedName, hdir, Option.elim_none, List.nil_append, words_append_linkText]
  cases hname : words isWhitespace e.name.text with
  | nil =>
    -- a blank name is shown as something else, or not at all
    have hspace := (RecordFile.words_eq_nil_iff isWhitespace).mp hname
    refine iff_of_false ?_ fun hkeeps => ?_
    · rintro ⟨column, columns, hwords, hshown | ⟨-, hdots⟩⟩
      · rw [shownName_cons (e.isWord_of_mem_printedName hwords)] at hshown
        obtain ⟨c, hc, hnot⟩ := exists_not_space_of_lastSegment (List.cons_ne_nil _ _)
          (fun w hw => e.isWord_of_mem_printedName hwords w
            (List.cons_subset_cons column (untilInner_subset arrowWord columns) hw))
          (hshown ▸ e.name.ne_nil)
        rw [hshown] at hc
        exact absurd (hspace c hc) (by simp [hnot])
      · rw [words_of_isWord isWhitespace (isWord_of_isDots hdots)] at hname
        cases hname
    · have hspaced := (keepsName_iff.mp hkeeps).1
      rw [List.nil_append, SinglySpaced, hname] at hspaced
      exact e.name.ne_nil hspaced.symm
  | cons first rest =>
    rw [hname, List.cons_append] at hprinted
    have hslash : ∀ w ∈ first :: rest, '/' ∉ w := fun w hw hmem =>
      e.name.no_slash (((RecordFile.mem_words isWhitespace (hname ▸ hw)).2.1).subset hmem)
    rw [shownAlike_iff_of_words hprinted,
      shownName_cons (e.isWord_of_mem_printedName hprinted)]
    refine alike_iff_keepsName hname ?_ (by simp)
    exact lastSegment_join_kept e.kind hslash

theorem exists_directoryPrefix (directory : List Char) :
    ∃ s, directoryPrefix directory = s ++ ['/'] := by
  rw [directoryPrefix]
  split_ifs with h
  · exact List.getLast?_eq_some_iff.mp h
  · exact ⟨directory, rfl⟩

/-- The columns of a name behind its directory, with the word they share. -/
theorem words_prefixed (e : ListedEntry) {directory : LineText}
    (hdir : e.directory = some directory) :
    ∃ earlier before after later,
      words isWhitespace (directoryPrefix directory.val) = earlier ++ [before ++ ['/']] ∧
      words isWhitespace ('/' :: e.name.text) = ('/' :: after) :: later ∧
      words isWhitespace e.printedName =
        earlier ++ (before ++ '/' :: after) :: (later ++ e.kind.linkWords) ∧
      ∀ w ∈ after :: later, '/' ∉ w := by
  obtain ⟨s, hs⟩ := exists_directoryPrefix directory.val
  obtain ⟨earlier, before, after, later, hleft, hright, hboth⟩ :=
    words_append_word isWhitespace (c := '/') (by decide) s e.name.text
  have hprinted : e.printedName = s ++ '/' :: e.name.text ++ e.linkText := by
    rw [ListedEntry.printedName, hdir, Option.elim_some, hs, List.append_assoc s]
    rfl
  refine ⟨earlier, before, after, later, hs ▸ hleft, hright, ?_, fun w hw hmem => ?_⟩
  · rw [hprinted, words_append_linkText, hboth, List.append_assoc, List.cons_append]
  · -- the words of the name have only characters of it
    have hflat := flatten_words isWhitespace ('/' :: e.name.text)
    rw [hright, List.flatten_cons, List.cons_append, List.filter_cons_of_pos (by decide)] at hflat
    have hin : '/' ∈ after ++ later.flatten := by
      rcases List.mem_cons.mp hw with rfl | hw
      · exact List.mem_append_left _ hmem
      · exact List.mem_append_right _ (List.mem_flatten.mpr ⟨w, hw, hmem⟩)
    rw [(List.cons.inj hflat).2] at hin
    exact e.name.no_slash (List.mem_of_mem_filter hin)

theorem shownAlike_prefixed {e : ListedEntry} {directory : LineText}
    (hdir : e.directory = some directory) :
    e.ShownAlike ↔ if HasArrow (directoryPrefix directory.val) then
      EndsAlike (directoryPrefix directory.val) e.name.text else
        KeepsName ['/'] e.name.text e.kind := by
  obtain ⟨earlier, before, after, later, hshown, hname, hprinted, hslash⟩ :=
    words_prefixed e hdir
  have hword := e.isWord_of_mem_printedName hprinted
  have hbroken : ∀ t, arrowWord ≠ before ++ '/' :: t := fun t heq =>
    absurd (heq ▸ List.mem_append_right before List.mem_cons_self : '/' ∈ arrowWord) (by decide)
  -- without an arrow in the directory, what is shown starts at the slash
  have hkept : arrowWord ∉ earlier.tail →
      (e.ShownAlike ↔ KeepsName ['/'] e.name.text e.kind) := by
    intro hnone
    obtain ⟨s, hs⟩ := join_append_word ' ' earlier before '/' after (keptWords e.kind later)
    have hshown : ∃ column columns, words isWhitespace e.printedName = column :: columns ∧
        shownName (column :: columns) = join ' ' (after :: keptWords e.kind later) := by
      cases earlier with
      | nil =>
        refine ⟨_, _, hprinted, ?_⟩
        rw [shownName_cons hword]
        exact (congrArg lastSegment hs).trans
          ((lastSegment_append s _).trans (lastSegment_join_kept e.kind hslash))
      | cons first earlier =>
        have hbefore : arrowWord ∉ earlier ++ [before ++ '/' :: after] := by
          rw [List.mem_append, List.mem_singleton, not_or]
          exact ⟨hnone, hbroken after⟩
        have huntil := untilInner_of_not_mem hbefore (later ++ e.kind.linkWords)
        rw [← List.append_cons, ← List.append_cons] at huntil
        rw [List.cons_append] at hprinted hword
        refine ⟨_, _, hprinted, ?_⟩
        rw [shownName_cons hword, huntil]
        exact (congrArg lastSegment hs).trans
          ((lastSegment_append s _).trans (lastSegment_join_kept e.kind hslash))
    obtain ⟨column, columns, hwords, hshown⟩ := hshown
    rw [shownAlike_iff_of_words hwords, hshown]
    refine alike_iff_keepsName hname ?_ (forall_not_of_all isWhitespace (by decide))
    exact (join_cons_char ' ' '/' after _).symm
  cases earlier with
  | nil =>
    have hnone : ¬ HasArrow (directoryPrefix directory.val) := by simp [HasArrow, hshown]
    rw [if_neg hnone]
    exact hkept List.not_mem_nil
  | cons first earlier =>
    rw [List.cons_append] at hprinted hshown hword
    have harrow : HasArrow (directoryPrefix directory.val) ↔ arrowWord ∈ earlier := by
      simp [HasArrow, hshown, hbroken []]
    by_cases h : arrowWord ∈ earlier
    · -- both the line and the directory are cut inside the directory
      have hall : ∀ w ∈ first :: (earlier ++ [before ++ ['/']]), IsWord isWhitespace w :=
        fun w hw => isWord_of_mem_words isWhitespace (hshown ▸ hw)
      have hcut : lastSegment (cutBefore arrow
          (join ' ' (first :: (earlier ++ [before ++ ['/']])))) =
            shownName (first :: (earlier ++ [before ++ ['/']])) := rfl
      have hsame : shownName (first :: (earlier ++
          (before ++ '/' :: after) :: (later ++ e.kind.linkWords))) =
            shownName (first :: (earlier ++ [before ++ ['/']])) := by
        rw [shownName_cons hword, shownName_cons hall,
          untilInner_of_mem h (List.cons_ne_nil _ _), untilInner_of_mem h (List.cons_ne_nil _ _)]
      rw [if_pos (harrow.mpr h), EndsAlike, hshown, hcut, ← hsame]
      exact shownAlike_iff_of_words hprinted
    · rw [if_neg (mt harrow.mp h)]
      exact hkept h

theorem shownAlike_iff_readable (e : ListedEntry) : e.ShownAlike ↔ e.Readable := by
  rw [ListedEntry.Readable]
  cases hdir : e.directory with
  | none => exact shownAlike_bare hdir
  | some directory => exact shownAlike_prefixed hdir

/-! ## Listings -/

/-- A shown name that is not blank is joined to the target path. -/
theorem shown_eq_expected (platform : ListingPlatform) (targetPath : List Char) {e : ListedEntry}
    (halike : e.ShownAlike) :
    (parseSftpLine platform targetPath e.line).map RemoteFileEntry.shown =
      e.expected targetPath := by
  obtain ⟨column, columns, hwords, halike⟩ := halike
  rw [parseSftpLine_line, hwords, ListedEntry.expected]
  rcases halike with hname | ⟨hshown, hname⟩
  · by_cases hdots : isDots e.name.text
    · simp only [hname, if_pos hdots, Option.map_none]
    · have hne : lastSegment (join ' ' (column :: untilInner arrowWord columns)) ≠ [] := by
        rw [← shownName_cons (e.isWord_of_mem_printedName hwords), hname]
        exact e.name.ne_nil
      obtain ⟨c, hc, hspace⟩ := exists_not_space_of_lastSegment (List.cons_ne_nil _ _)
        (fun w hw => e.isWord_of_mem_printedName hwords w
          (List.cons_subset_cons column (untilInner_subset arrowWord columns) hw)) hne
      rw [← shownName_cons (e.isWord_of_mem_printedName hwords), hname] at hc
      have hblank : trim isWhitespace e.name.text ≠ [] := fun h =>
        absurd (trim_isWhitespace_eq_nil.mp h c hc) (by simp [hspace])
      have hsegment : IsSegment e.name.text :=
        { no_slash := e.name.no_slash
          ne_nil := e.name.ne_nil
          ne_dot := fun h => hdots (by simp [isDots, h])
          ne_dots := fun h => hdots (by simp [isDots, h]) }
      have hpath : resolveRemotePath targetPath e.name.text =
          normalizeRemotePath (targetPath ++ '/' :: e.name.text) := by
        rw [resolveRemotePath_segment hsegment hblank, normalizeRemotePath_eq,
          remoteSegments_join hsegment]
      simp only [hname, if_neg hdots, Option.map_some, RemoteFileEntry.shown, hpath,
        e.fileKind_eq]
  · simp only [if_pos hshown, if_pos hname, Option.map_none]

theorem shownAlike_of_shown_eq {platform : ListingPlatform} {targetPath : List Char}
    {e : ListedEntry} (h : (parseSftpLine platform targetPath e.line).map RemoteFileEntry.shown =
      e.expected targetPath) : e.ShownAlike := by
  rw [parseSftpLine_line, ListedEntry.expected] at h
  cases hwords : words isWhitespace e.printedName with
  | nil =>
    have hspace := (RecordFile.words_eq_nil_iff isWhitespace).mp hwords
    have hnot : ¬ isDots e.name.text := by
      intro hdots
      obtain ⟨c, hc⟩ := List.exists_mem_of_ne_nil _ e.name.ne_nil
      have hprinted : c ∈ e.printedName :=
        List.mem_append_left _ (List.mem_append_right _ hc)
      exact absurd (hspace c hprinted) (by simp [(isWord_of_isDots hdots).2 c hc])
    simp [hwords, hnot] at h
  | cons column columns =>
    refine ⟨column, columns, hwords, ?_⟩
    simp only [hwords] at h
    by_cases hshown : isDots (shownName (column :: columns))
    · rw [if_pos hshown, Option.map_none] at h
      by_cases hname : isDots e.name.text
      · exact .inr ⟨hshown, hname⟩
      · rw [if_neg hname] at h
        cases h
    · rw [if_neg hshown, Option.map_some] at h
      by_cases hname : isDots e.name.text
      · rw [if_pos hname] at h
        cases h
      · rw [if_neg hname] at h
        exact .inl (congrArg ShownEntry.name (Option.some.inj h))

theorem listing_eq (entries : List ListedEntry) :
    listing entries = (entries.map ListedEntry.line).flatMap fun l => l ++ ['\n'] := by
  rw [listing, List.flatMap_map]

theorem returned_of_own_line {platform : ListingPlatform} {targetPath : List Char}
    {entries : List ListedEntry} (h : ∀ e ∈ entries,
      (parseSftpLine platform targetPath e.line).map RemoteFileEntry.shown =
        e.expected targetPath) :
    ((parseSftpDirectoryListing platform targetPath (listing entries)).map
      RemoteFileEntry.shown).Perm (entries.filterMap (ListedEntry.expected targetPath)) := by
  have hlines : lines (listing entries) =
      (entries.map ListedEntry.line).map NativeHostKeys.stripCarriageReturn := by
    rw [listing_eq]
    exact lines_flatMap (List.forall_mem_map.mpr fun e _ => e.no_newline)
  have hread : ((lines (listing entries)).filterMap (parseSftpLine platform targetPath)).map
      RemoteFileEntry.shown = entries.filterMap (ListedEntry.expected targetPath) := by
    rw [hlines, List.map_map, List.filterMap_map, List.map_filterMap]
    refine List.filterMap_congr fun e he => ?_
    simp only [Function.comp_apply, parseSftpLine_stripCarriageReturn]
    exact h e he
  rw [parseSftpDirectoryListing, ← hread]
  exact (List.perm_insertionSort _ _).map RemoteFileEntry.shown

/-- The reader inverts the listing exactly where the names keep through it. -/
theorem readBack_iff_readable (platform : ListingPlatform) (targetPath : List Char)
    (entries : List ListedEntry) :
    ReadBack platform targetPath entries ↔ ∀ e ∈ entries, e.Readable := by
  constructor
  · intro h e he
    exact (shownAlike_iff_readable e).mp (shownAlike_of_shown_eq (h.own_line e he))
  · intro h
    have hown : ∀ e ∈ entries,
        (parseSftpLine platform targetPath e.line).map RemoteFileEntry.shown =
          e.expected targetPath :=
      fun e he => shown_eq_expected platform targetPath ((shownAlike_iff_readable e).mpr (h e he))
    exact ⟨hown, returned_of_own_line hown⟩

/-! A name with two blanks in a row is returned with one, as another file's. -/

def doubleBlank : ListedEntry where
  kind := .file
  permissions := ⟨"rw-r--r--".toList, forall_not_of_all isWhitespace (by decide)⟩
  links := 1
  owner := ⟨"root".toList, by decide, forall_not_of_all isWhitespace (by decide)⟩
  group := ⟨"root".toList, by decide, forall_not_of_all isWhitespace (by decide)⟩
  size := 12
  size_lt := by decide
  month := ⟨"Mar".toList, by decide, forall_not_of_all isWhitespace (by decide)⟩
  day := 20
  timeOrYear := ⟨"2024".toList, by decide, forall_not_of_all isWhitespace (by decide)⟩
  directory := none
  name :=
    { text := "a  b".toList
      ne_nil := by decide
      no_slash := by decide
      no_newline := by decide }

def undated : ListingPlatform where
  toLowercase := id
  now := 0
  year := fun _ => 1970
  withYmdAndHms := fun _ _ _ _ _ => none
  fromYmd := fun _ _ _ => none
  toRfc3339 := fun _ => []

theorem double_blank_returned_as_other_file :
    (parseSftpDirectoryListing undated "/srv".toList (listing [doubleBlank])).map
        RemoteFileEntry.shown =
      [{ kind := .file, name := "a b".toList, path := "/srv/a b".toList, size := 12 }] ∧
    ¬ ((parseSftpDirectoryListing undated "/srv".toList (listing [doubleBlank])).map
      RemoteFileEntry.shown).Perm
        ([doubleBlank].filterMap (ListedEntry.expected "/srv".toList)) := by
  have hreturned : (parseSftpDirectoryListing undated "/srv".toList (listing [doubleBlank])).map
      RemoteFileEntry.shown =
        [{ kind := .file, name := "a b".toList, path := "/srv/a b".toList, size := 12 }] := by
    decide +kernel
  have hexpected : [doubleBlank].filterMap (ListedEntry.expected "/srv".toList) =
      [{ kind := .file, name := "a  b".toList, path := "/srv/a  b".toList, size := 12 }] := by
    decide +kernel
  refine ⟨hreturned, ?_⟩
  rw [hreturned, hexpected, List.perm_singleton]
  decide

end NativeTransport
