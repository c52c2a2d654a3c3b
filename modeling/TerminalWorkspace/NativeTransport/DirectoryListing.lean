import Mathlib.Data.List.Sort
import TerminalWorkspace.Foundation.JoinedWords
import TerminalWorkspace.Foundation.RootedPaths
import TerminalWorkspace.NativeTransport.ExternalCommands
import TerminalWorkspace.NativeTransport.SftpCommands

/-! Remote paths by their segments. -/
namespace NativeTransport
open NativeHostKeys (isWhitespace)
open RecordFile (trim trim_eq_nil_iff words_eq_nil_iff)

def pushSegment (segments : List (List Char)) (segment : List Char) : List (List Char) :=
  if segment = [] ∨ segment = ['.'] then segments
  else if segment = ['.', '.'] then segments.dropLast
  else segments ++ [segment]

def remoteSegments (pathname : List Char) : List (List Char) :=
  (pathname.splitOn '/').foldl pushSegment []

def renderSegments (segments : List (List Char)) : List Char :=
  if segments = [] then ['/'] else '/' :: List.intercalate ['/'] segments

theorem normalizeRemotePath_eq (pathname : List Char) :
    normalizeRemotePath pathname = renderSegments (remoteSegments pathname) := rfl

/-- A name that is a segment of its own. -/
structure IsSegment (name : List Char) : Prop where
  no_slash : '/' ∉ name
  ne_nil : name ≠ []
  ne_dot : name ≠ ['.']
  ne_dots : name ≠ ['.', '.']

theorem pushSegment_of_isSegment {name : List Char} (h : IsSegment name)
    (segments : List (List Char)) : pushSegment segments name = segments ++ [name] := by
  rw [pushSegment, if_neg (not_or.mpr ⟨h.ne_nil, h.ne_dot⟩), if_neg h.ne_dots]

theorem splitOn_of_not_mem {name : List Char} (h : '/' ∉ name) : name.splitOn '/' = [name] :=
  List.splitOn_eq_singleton h

theorem remoteSegments_append (path rest : List Char) :
    remoteSegments (path ++ '/' :: rest) =
      (rest.splitOn '/').foldl pushSegment (remoteSegments path) :=
  RootedPaths.names_append path rest

theorem remoteSegments_join {name : List Char} (h : IsSegment name) (path : List Char) :
    remoteSegments (path ++ '/' :: name) = remoteSegments path ++ [name] := by
  rw [remoteSegments_append, splitOn_of_not_mem h.no_slash]
  exact pushSegment_of_isSegment h _

/-- Slashes at the end of a path change nothing. -/
theorem remoteSegments_rdropWhile (path : List Char) :
    remoteSegments (path.rdropWhile (· == '/')) = remoteSegments path :=
  RootedPaths.names_rdropWhile path

theorem renderSegments_concat (segments : List (List Char)) (name : List Char) :
    renderSegments (segments ++ [name]) =
      if segments = [] then '/' :: name else renderSegments segments ++ '/' :: name := by
  have hconcat : ∀ first : List Char, ∀ segments : List (List Char),
      List.intercalate ['/'] (first :: segments ++ [name]) =
        List.intercalate ['/'] (first :: segments) ++ '/' :: name := by
    intro first segments
    induction segments generalizing first with
    | nil => simp [List.intercalate_cons_cons]
    | cons second segments ih =>
      rw [List.cons_append, List.cons_append, List.intercalate_cons_cons,
        List.intercalate_cons_cons, ← List.cons_append, ih second]
      simp
  cases segments with
  | nil => simp [renderSegments]
  | cons first segments =>
    rw [if_neg (List.cons_ne_nil _ _), renderSegments, if_neg (by simp), hconcat, renderSegments,
      if_neg (List.cons_ne_nil _ _), List.cons_append]

theorem renderSegments_concat_ne (segments : List (List Char)) {name : List Char}
    (h : name ≠ []) : renderSegments (segments ++ [name]) ≠ renderSegments segments := by
  rw [renderSegments_concat]
  split_ifs with hnil
  · simpa [hnil, renderSegments] using h
  · simp

theorem trim_isWhitespace_eq_nil {s : List Char} :
    trim isWhitespace s = [] ↔ ∀ c ∈ s, isWhitespace c := by
  rw [trim_eq_nil_iff, words_eq_nil_iff]

/-- A relative path is put behind the root. -/
theorem resolveRemotePath_relative {rootPath pathname : List Char}
    (hblank : trim isWhitespace pathname ≠ []) (hhead : pathname.head? ≠ some '/') :
    resolveRemotePath rootPath pathname =
      normalizeRemotePath (rootPath.rdropWhile (· == '/') ++ '/' :: pathname) := by
  rw [resolveRemotePath, if_neg hblank, if_neg hhead]
  have hbase : rootPath.rdropWhile (· == '/') ≠ ['/'] := by
    intro h
    have hlast := List.rdropWhile_last_not (· == '/') rootPath (h ▸ List.cons_ne_nil _ _)
    simp [h] at hlast
  by_cases hnil : rootPath.rdropWhile (· == '/') = []
  · simp [hnil]
  · simp [hnil, hbase]

/-- The name of an entry is joined to the path of its directory. -/
theorem resolveRemotePath_segment {name : List Char} (h : IsSegment name)
    (hblank : trim isWhitespace name ≠ []) (rootPath : List Char) :
    resolveRemotePath rootPath name = renderSegments (remoteSegments rootPath ++ [name]) := by
  have hhead : name.head? ≠ some '/' := fun hslash => h.no_slash (List.mem_of_mem_head? hslash)
  rw [resolveRemotePath_relative hblank hhead, normalizeRemotePath_eq, remoteSegments_join h,
    remoteSegments_rdropWhile]

end NativeTransport

/-! The reader of what `ls -la` prints in `sftp`. -/
namespace NativeTransport
open NativeHostKeys (isWhitespace lines)
open RecordFile (trim words)
open JoinedWords (cutBefore join)

/-- What the reader takes from the standard library and from `chrono`: lower case, the clock,
and dates as seconds in UTC. -/
structure ListingPlatform where
  toLowercase : List Char → List Char
  now : ℤ
  year : ℤ → ℤ
  withYmdAndHms : ℤ → ℕ → ℕ → ℕ → ℕ → Option ℤ
  fromYmd : ℤ → ℕ → ℕ → Option ℤ
  toRfc3339 : ℤ → List Char

inductive FileKind where
  | directory
  | file
  deriving DecidableEq, Repr

structure RemoteFileEntry where
  kind : FileKind
  modifiedAt : Option (List Char)
  name : List Char
  path : List Char
  permissions : Option (List Char)
  size : ℕ
  deriving DecidableEq, Repr

/-- The digits of an integer type up to `limit`. -/
def parseDigits (limit : ℕ) (digits : List Char) : Option ℕ :=
  if digits ≠ [] ∧ digits.all Char.isDigit ∧ Nat.ofDigitChars 10 digits 0 ≤ limit then
    some (Nat.ofDigitChars 10 digits 0)
  else none

/-- `str::parse` of an unsigned integer type. -/
def parseUnsigned (limit : ℕ) : List Char → Option ℕ
  | '+' :: digits => parseDigits limit digits
  | digits => parseDigits limit digits

/-- `parse::<i32>` -/
def parseI32 : List Char → Option ℤ
  | '-' :: digits => (parseDigits (2 ^ 31) digits).map fun n => -(n : ℤ)
  | digits => (parseUnsigned (2 ^ 31 - 1) digits).map Int.ofNat

def parseU32 : List Char → Option ℕ := parseUnsigned (2 ^ 32 - 1)

def parseU64 : List Char → Option ℕ := parseUnsigned (2 ^ 64 - 1)

def triadDigit (triad : List UInt8) : Char :=
  let bit (i weight : ℕ) : ℕ := if triad[i]? = some 0x2D then 0 else weight
  Char.ofNat ('0'.toNat + bit 0 4 + bit 1 2 + bit 2 1)

def symbolicPermissionsToOctal (value : List Char) : Option (List Char) :=
  let mode := Utf8.encode value
  if mode.length < 10 then none
  else some ([1, 4, 7].map fun start => triadDigit ((mode.drop start).take 3))

def monthNames : List (List Char) :=
  ["Jan", "Feb", "Mar", "Apr", "May", "Jun", "Jul", "Aug", "Sep", "Oct", "Nov", "Dec"].map
    String.toList

section Listing
variable (platform : ListingPlatform)

/-- A time of day is of this year, or of the last one where it would lie in the future. -/
def parseSftpModifiedAt (month day timeOrYear : List Char) : Option (List Char) := do
  let month ← (monthNames.findIdx? (· == month)).map (· + 1)
  let day ← parseU32 day
  match timeOrYear.span (· ≠ ':') with
  | (hour, _ :: minute) =>
    let hour ← parseU32 hour
    let minute ← parseU32 minute
    let year := platform.year platform.now
    let timestamp ← platform.withYmdAndHms year month day hour minute
    if platform.now + 86400 < timestamp then
      (platform.withYmdAndHms (year - 1) month day hour minute).map platform.toRfc3339
    else some (platform.toRfc3339 timestamp)
  | (year, []) => do
    let year ← parseI32 year
    (platform.fromYmd year month day).map platform.toRfc3339

def arrow : List Char := " -> ".toList

/-- The last piece between slashes. -/
def lastSegment (s : List Char) : List Char := (s.splitOn '/').getLast?.getD s

/-- The name in the columns from the ninth on. -/
def shownName (columns : List (List Char)) : List Char :=
  lastSegment (cutBefore arrow (join ' ' columns))

def isDots (name : List Char) : Bool := name = ['.'] || name = ['.', '.']

def parseSftpLine (targetPath line : List Char) : Option RemoteFileEntry :=
  let trimmed := trim isWhitespace line
  if trimmed = [] ∨ "Connected to ".toList <+: trimmed ∨
      "Remote working directory:".toList <+: trimmed then none
  else
    match words isWhitespace trimmed with
    | mode :: _ :: _ :: _ :: size :: month :: day :: timeOrYear :: column :: columns =>
      let name := shownName (column :: columns)
      if isDots name then none
      else
        (parseU64 size).map fun size =>
          { kind := if mode.head? = some 'd' then .directory else .file
            modifiedAt := parseSftpModifiedAt platform month day timeOrYear
            name
            path := resolveRemotePath targetPath name
            permissions := symbolicPermissionsToOctal mode
            size }
    | _ => none

/-- The comparator does not answer `Greater`: directories come first, and then names in lower
case compare by their bytes. -/
def entryOrder (left right : RemoteFileEntry) : Prop :=
  left.kind = .directory ∧ right.kind = .file ∨
    left.kind = right.kind ∧ ¬ Utf8.encode (platform.toLowercase right.name) <
      Utf8.encode (platform.toLowercase left.name)

instance : DecidableRel (entryOrder platform) :=
  fun _ _ => inferInstanceAs (Decidable (_ ∧ _ ∨ _ ∧ ¬ _))

def parseSftpDirectoryListing (targetPath output : List Char) : List RemoteFileEntry :=
  ((lines output).filterMap (parseSftpLine platform targetPath)).insertionSort
    (entryOrder platform)

end Listing
end NativeTransport
