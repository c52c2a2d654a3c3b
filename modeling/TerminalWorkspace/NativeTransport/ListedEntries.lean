import TerminalWorkspace.HostKeys.NativeTrust
import TerminalWorkspace.NativeTransport.DirectoryListing

/-! The lines of a long listing in OpenSSH's format, and the columns the reader finds in them. -/
namespace NativeTransport
open NativeHostKeys (isWhitespace lines stripCarriageReturn)
open RecordFile (trim words)
open JoinedWords

abbrev Column := { w : List Char // IsWord isWhitespace w }

/-- Text on one line. -/
abbrev LineText := { s : List Char // '\n' ∉ s }

structure FileName where
  text : List Char
  ne_nil : text ≠ []
  no_slash : '/' ∉ text
  no_newline : '\n' ∉ text

inductive ListedKind where
  | directory
  | file
  | link (target : LineText)

/-- An entry with its columns. A name is printed by itself or behind a directory. -/
structure ListedEntry where
  kind : ListedKind
  permissions : { s : List Char // ∀ c ∈ s, isWhitespace c = false }
  links : ℕ
  owner : Column
  group : Column
  size : ℕ
  size_lt : size < 2 ^ 64
  month : Column
  day : ℕ
  timeOrYear : Column
  directory : Option LineText
  name : FileName

def padLeft (width : ℕ) (s : List Char) : List Char := List.replicate (width - s.length) ' ' ++ s

def padRight (width : ℕ) (s : List Char) : List Char := s ++ List.replicate (width - s.length) ' '

/-- The path of a directory as names are appended to it. -/
def directoryPrefix (directory : List Char) : List Char :=
  if directory.getLast? = some '/' then directory else directory ++ ['/']

namespace ListedEntry
variable (e : ListedEntry)

def typeCharacter : Char :=
  match e.kind with
  | .directory => 'd'
  | .file => '-'
  | .link _ => 'l'

def mode : List Char := e.typeCharacter :: e.permissions.val

def linkText : List Char :=
  match e.kind with
  | .directory | .file => []
  | .link target => arrow ++ target.val

def printedName : List Char :=
  (e.directory.elim [] fun directory => directoryPrefix directory.val) ++ e.name.text ++ e.linkText

/-- The columns before the name. -/
def columns : List (List Char) :=
  [e.mode, decimal e.links, e.owner.val, e.group.val, decimal e.size, e.month.val, decimal e.day,
    e.timeOrYear.val]

/-- The line of an entry: the mode is followed by a blank of its own, and a year by one more
blank than a time of day. -/
def line : List Char :=
  e.mode ++ ' ' :: ' ' :: padLeft 3 (decimal e.links) ++ ' ' :: padRight 8 e.owner.val ++
    ' ' :: padRight 8 e.group.val ++ ' ' :: padLeft 8 (decimal e.size) ++ ' ' :: e.month.val ++
    ' ' :: padLeft 2 (decimal e.day) ++ ' ' :: padLeft 5 e.timeOrYear.val ++ ' ' :: e.printedName

end ListedEntry

def listing (entries : List ListedEntry) : List Char :=
  entries.flatMap fun e => e.line ++ ['\n']

/-! ## Columns -/

theorem blank_isWhitespace : isWhitespace ' ' = true := by decide

theorem words_padLeft (width : ℕ) (s : List Char) :
    words isWhitespace (padLeft width s) = words isWhitespace s := by
  rw [padLeft]
  induction width - s.length with
  | zero => rfl
  | succ n ih =>
    rw [List.replicate_succ, List.cons_append,
      RecordFile.words_cons_space isWhitespace blank_isWhitespace, ih]

theorem words_padRight (width : ℕ) (s : List Char) :
    words isWhitespace (padRight width s) = words isWhitespace s := by
  rw [padRight]
  induction width - s.length with
  | zero => simp
  | succ n ih =>
    rw [List.replicate_succ', ← List.append_assoc,
      RecordFile.words_concat_space isWhitespace blank_isWhitespace, ih]

theorem isWord_decimal (n : ℕ) : IsWord isWhitespace (decimal n) :=
  ⟨Nat.toDigits_ne_nil, NativeHostKeys.digits_not_space n⟩

namespace ListedEntry
variable (e : ListedEntry)

theorem typeCharacter_not_space : isWhitespace e.typeCharacter = false := by
  rw [typeCharacter]
  split <;> decide

theorem isWord_mode : IsWord isWhitespace e.mode :=
  ⟨List.cons_ne_nil _ _, List.forall_mem_cons.mpr ⟨e.typeCharacter_not_space, e.permissions.2⟩⟩

theorem words_line :
    words isWhitespace e.line = e.columns ++ words isWhitespace e.printedName := by
  have hword : ∀ {w : List Char}, IsWord isWhitespace w → words isWhitespace w = [w] :=
    words_of_isWord isWhitespace
  have happend := RecordFile.words_append isWhitespace blank_isWhitespace
  simp only [line, happend, RecordFile.words_cons_space isWhitespace blank_isWhitespace,
    words_padLeft, words_padRight, hword e.isWord_mode, hword (isWord_decimal _),
    hword e.owner.2, hword e.group.2, hword e.month.2, hword e.timeOrYear.2]
  rfl

/-- A line is no message of `sftp`. -/
theorem head?_trim_line : (trim isWhitespace e.line).head? = some e.typeCharacter := by
  rw [RecordFile.head?_trim, words_line]
  rfl

end ListedEntry

theorem parseU64_decimal {n : ℕ} (h : n < 2 ^ 64) : parseU64 (decimal n) = some n := by
  have hdigits : ∀ c ∈ decimal n, c.isDigit :=
    fun c => Nat.isDigit_of_mem_toDigits (by decide) (by decide)
  have hvalue : Nat.ofDigitChars 10 (decimal n) 0 = n := Nat.ofDigitChars_ten_toDigits
  have hparse : parseDigits (2 ^ 64 - 1) (decimal n) = some n := by
    rw [parseDigits, if_pos ⟨Nat.toDigits_ne_nil, List.all_eq_true.mpr hdigits, by omega⟩, hvalue]
  rw [parseU64]
  unfold parseUnsigned
  split
  · next digits hplus =>
    exact absurd (hdigits '+' (hplus ▸ List.mem_cons_self)) (by decide)
  · exact hparse

/-- What a line is read as, given the columns of its printed name. -/
theorem parseSftpLine_line (platform : ListingPlatform) (targetPath : List Char)
    (e : ListedEntry) :
    parseSftpLine platform targetPath e.line =
      match words isWhitespace e.printedName with
      | [] => none
      | column :: columns =>
        if isDots (shownName (column :: columns)) then none
        else some
          { kind := if e.typeCharacter = 'd' then .directory else .file
            modifiedAt := parseSftpModifiedAt platform e.month.val (decimal e.day) e.timeOrYear.val
            name := shownName (column :: columns)
            path := resolveRemotePath targetPath (shownName (column :: columns))
            permissions := symbolicPermissionsToOctal e.mode
            size := e.size } := by
  have hhead := e.head?_trim_line
  have hne : trim isWhitespace e.line ≠ [] := by
    intro hnil
    rw [hnil] at hhead
    cases hhead
  have hmessage : ∀ c message, c ≠ e.typeCharacter →
      ¬ c :: message <+: trim isWhitespace e.line := by
    rintro c message hc ⟨rest, hrest⟩
    rw [← hrest] at hhead
    exact hc (Option.some.inj hhead)
  have htype : 'C' ≠ e.typeCharacter ∧ 'R' ≠ e.typeCharacter := by
    rw [ListedEntry.typeCharacter]
    split <;> decide
  have hskip : ¬ (trim isWhitespace e.line = [] ∨
      "Connected to ".toList <+: trim isWhitespace e.line ∨
      "Remote working directory:".toList <+: trim isWhitespace e.line) := by
    rintro (h | h | h)
    exacts [hne h, hmessage _ _ htype.1 h, hmessage _ _ htype.2 h]
  simp only [parseSftpLine, if_neg hskip, RecordFile.words_trim, e.words_line,
    ListedEntry.columns, List.cons_append, List.nil_append]
  cases hname : words isWhitespace e.printedName with
  | nil => rfl
  | cons column columns =>
    simp only [parseU64_decimal e.size_lt, Option.map_some, ListedEntry.mode, List.head?_cons,
      Option.some.injEq]

/-! ## Lines -/

theorem parseSftpLine_stripCarriageReturn (platform : ListingPlatform) (targetPath l : List Char) :
    parseSftpLine platform targetPath (stripCarriageReturn l) =
      parseSftpLine platform targetPath l := by
  have htrim : trim isWhitespace (stripCarriageReturn l) = trim isWhitespace l := by
    rw [stripCarriageReturn]
    split_ifs with hlast
    · obtain ⟨s, rfl⟩ := List.getLast?_eq_some_iff.mp hlast
      rw [List.dropLast_concat, RecordFile.trim_concat_space isWhitespace (by decide)]
    · rfl
  rw [parseSftpLine, parseSftpLine, htrim]

theorem lines_flatMap {ls : List (List Char)} (h : ∀ l ∈ ls, '\n' ∉ l) :
    lines (ls.flatMap fun l => l ++ ['\n']) = ls.map stripCarriageReturn := by
  have hsplit : (ls.flatMap fun l => l ++ ['\n']).splitOn '\n' = ls ++ [[]] := by
    rw [List.splitOn_eq_splitOnP]
    induction ls with
    | nil => rfl
    | cons l ls ih =>
      have hl : ∀ c ∈ l, (c == '\n') = false :=
        fun c hc => beq_false_of_ne fun heq => h l List.mem_cons_self (heq ▸ hc)
      rw [List.flatMap_cons, List.append_assoc, List.singleton_append,
        List.splitOnP_append_cons_of_forall_mem hl '\n' rfl,
        ih fun l' hl' => h l' (List.mem_cons_of_mem _ hl')]
      rfl
  rw [lines, hsplit]
  simp

theorem ListedEntry.no_newline (e : ListedEntry) : '\n' ∉ e.line := by
  have hcolumn : ∀ {s : List Char}, (∀ c ∈ s, isWhitespace c = false) → '\n' ∉ s :=
    fun h hmem => absurd (h _ hmem) (by decide)
  have hword : ∀ w : Column, '\n' ∉ w.val := fun w => hcolumn w.2.2
  have hdecimal : ∀ n, '\n' ∉ decimal n := fun n => hcolumn (isWord_decimal n).2
  have hmode : '\n' ∉ e.mode := hcolumn e.isWord_mode.2
  have hlink : '\n' ∉ e.linkText := by
    rw [ListedEntry.linkText]
    split
    · exact List.not_mem_nil
    · exact List.not_mem_nil
    · next target _ => simpa [arrow] using target.2
  have hdirectory : '\n' ∉ e.directory.elim [] fun directory => directoryPrefix directory.val := by
    cases hdir : e.directory with
    | none => exact List.not_mem_nil
    | some directory =>
      rw [Option.elim_some, directoryPrefix]
      split_ifs
      · exact directory.2
      · simpa using directory.2
  have hname : '\n' ∉ e.printedName := by
    simpa [ListedEntry.printedName, not_or] using ⟨hdirectory, e.name.no_newline, hlink⟩
  simpa [ListedEntry.line, padLeft, padRight, not_or] using
    ⟨hmode, hdecimal e.links, hword e.owner, hword e.group, hdecimal e.size, hword e.month,
      hdecimal e.day, hword e.timeOrYear, hname⟩

end NativeTransport
