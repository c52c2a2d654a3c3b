import TerminalWorkspace.Foundation.JsText
import TerminalWorkspace.Foundation.Occurrences

/-! The search in the rows of a terminal's buffer. -/
namespace Search
open JsText Occurrences

/-- A string as the language indexes it. -/
abbrev CodeUnits := List ℕ

def codeUnits (s : String) : CodeUnits := (js s).flatMap CodePoint.units

structure SearchableBufferLine where
  translateToString : (trimRight : Bool) → CodeUnits

structure SearchableBuffer where
  length : ℕ
  getLine : (y : ℕ) → Option SearchableBufferLine

structure SearchMatch where
  row : ℕ
  col : ℕ
  length : ℕ
  deriving DecidableEq, Repr

/-- The needle stands in the haystack at a place. -/
def StandsAt (haystack needle : CodeUnits) (place : ℕ) : Prop :=
  place ≤ haystack.length ∧ needle <+: haystack.drop place

instance (haystack needle : CodeUnits) : DecidablePred (StandsAt haystack needle) :=
  fun place => inferInstanceAs (Decidable (place ≤ haystack.length ∧ needle <+: haystack.drop place))

/-- `haystack.indexOf(needle, start)` with a start within the haystack. -/
def indexOf (haystack needle : CodeUnits) (start : ℕ) : Option ℕ :=
  firstFrom (StandsAt haystack needle) haystack.length start

section Scan
variable (haystack needle : CodeUnits)

/-- The loop over one row. -/
def matchColumns : ℕ → ℕ → List ℕ
  | 0, _ => []
  | fuel + 1, start =>
    if start ≤ haystack.length then
      match indexOf haystack needle start with
      | none => []
      | some index => index :: matchColumns fuel (index + max needle.length 1)
    else []

end Scan

section Rows
variable (toLowerCase : CodeUnits → CodeUnits)

/-- What is compared: a text as it is, or its lower case. -/
def folded (caseSensitive : Bool) (text : CodeUnits) : CodeUnits :=
  if caseSensitive then text else toLowerCase text

def matchesInRow (buffer : SearchableBuffer) (query : CodeUnits) (caseSensitive : Bool)
    (row : ℕ) : List SearchMatch :=
  match buffer.getLine row with
  | none => []
  | some line =>
    let haystack := folded toLowerCase caseSensitive (line.translateToString true)
    (matchColumns haystack (folded toLowerCase caseSensitive query) (haystack.length + 1) 0).map
      fun col => ⟨row, col, query.length⟩

def findMatchesInBuffer (buffer : SearchableBuffer) (query : CodeUnits) (caseSensitive : Bool) :
    List SearchMatch :=
  if query = [] then []
  else (List.range buffer.length).flatMap (matchesInRow toLowerCase buffer query caseSensitive)

end Rows

/-! The matches that the search finds, against the occurrences of the query in the rows. -/

section Matches
variable (fold : CodeUnits → CodeUnits)

/-- The row's own text over the length of the query is the query, up to case. -/
def Occurs (text query : CodeUnits) (col : ℕ) : Prop :=
  col + query.length ≤ text.length ∧ fold ((text.drop col).take query.length) = fold query

instance (text query : CodeUnits) : DecidablePred (Occurs fold text query) := fun col =>
  inferInstanceAs (Decidable (col + query.length ≤ text.length ∧
    fold ((text.drop col).take query.length) = fold query))

/-- The matches are, in reading order, the leftmost occurrences of the query in each row that
do not overlap. -/
structure FindsExactly (buffer : SearchableBuffer) (query : CodeUnits)
    (found : List SearchMatch) : Prop where
  inOrder : found.Pairwise fun first second =>
    first.row < second.row ∨ first.row = second.row ∧ first.col + first.length ≤ second.col
  equal : ∀ m ∈ found, m.length = query.length ∧ m.row < buffer.length ∧
    ∃ line, buffer.getLine m.row = some line ∧
      Occurs fold (line.translateToString true) query m.col
  covers : ∀ row < buffer.length, ∀ line, buffer.getLine row = some line →
    ∀ col, Occurs fold (line.translateToString true) query col →
      ∃ m ∈ found, m.row = row ∧ m.col ≤ col ∧ col < m.col + m.length

end Matches

section Columns
variable {haystack needle : CodeUnits}

theorem matchColumns_eq_scan (haystack needle : CodeUnits) (fuel start : ℕ) :
    matchColumns haystack needle fuel start =
      scan (StandsAt haystack needle) (max needle.length 1) haystack.length fuel start := by
  induction fuel generalizing start with
  | zero => rfl
  | succ fuel ih =>
    rw [matchColumns, scan, indexOf]
    split_ifs with hstart
    · cases firstFrom (StandsAt haystack needle) haystack.length start with
      | none => rfl
      | some index => exact congrArg _ (ih _)
    · have hnone : firstFrom (StandsAt haystack needle) haystack.length start = none :=
        (firstFrom_eq_none_iff fun place h => h.1).mpr fun place hle h => by
          have hplace := h.1
          omega
      rw [hnone]

/-- The columns of a row: those that reading the folded row from the left counts. -/
theorem matchColumns_spec (haystack needle : CodeUnits) :
    (matchColumns haystack needle (haystack.length + 1) 0).Pairwise (· < ·) ∧
      ∀ col, col ∈ matchColumns haystack needle (haystack.length + 1) 0 ↔
        Counted (StandsAt haystack needle) (max needle.length 1) col := by
  rw [matchColumns_eq_scan]
  exact scan_counted (by omega) fun place h => h.1

end Columns

section Rows
variable {fold : CodeUnits → CodeUnits} {buffer : SearchableBuffer} {query : CodeUnits}
  {columns : CodeUnits → List ℕ}

/-- The matches of one row at given columns. -/
def rowMatches (buffer : SearchableBuffer) (query : CodeUnits) (columns : CodeUnits → List ℕ)
    (row : ℕ) : List SearchMatch :=
  match buffer.getLine row with
  | none => []
  | some line =>
    (columns (line.translateToString true)).map fun col => ⟨row, col, query.length⟩

theorem rowMatches_eq {row : ℕ} {line : SearchableBufferLine} (hline : buffer.getLine row = some line) :
    rowMatches buffer query columns row =
      (columns (line.translateToString true)).map fun col => ⟨row, col, query.length⟩ := by
  rw [rowMatches, hline]

theorem mem_rowMatches {row : ℕ} {m : SearchMatch} : m ∈ rowMatches buffer query columns row ↔
    m.row = row ∧ m.length = query.length ∧ ∃ line, buffer.getLine row = some line ∧
      m.col ∈ columns (line.translateToString true) := by
  obtain ⟨mrow, mcol, mlength⟩ := m
  cases hline : buffer.getLine row with
  | none => simp [rowMatches, hline]
  | some line =>
    rw [rowMatches_eq hline, List.mem_map]
    constructor
    · rintro ⟨col, hcol, heq⟩
      obtain ⟨rfl, rfl, rfl⟩ := SearchMatch.mk.inj heq
      exact ⟨rfl, rfl, line, rfl, hcol⟩
    · rintro ⟨rfl, rfl, other, hother, hcol⟩
      obtain rfl := Option.some.inj hother
      exact ⟨mcol, hcol, rfl⟩

theorem rowMatches_pairwise_iff {row : ℕ} : (rowMatches buffer query columns row).Pairwise
    (fun first second => first.row < second.row ∨
      first.row = second.row ∧ first.col + first.length ≤ second.col) ↔
    ∀ line, buffer.getLine row = some line → (columns (line.translateToString true)).Pairwise
      fun first second => first + query.length ≤ second := by
  cases hline : buffer.getLine row with
  | none => simp [rowMatches, hline]
  | some line =>
    rw [rowMatches_eq hline, List.pairwise_map]
    simp only [lt_self_iff_false, true_and, false_or, Option.some.injEq, forall_eq']

/-- The rows one after another are the right matches just when the columns of each row are the
leftmost ones. -/
theorem findsExactly_iff :
    FindsExactly fold buffer query
        ((List.range buffer.length).flatMap (rowMatches buffer query columns)) ↔
      ∀ row < buffer.length, ∀ line, buffer.getLine row = some line →
        Leftmost (Occurs fold (line.translateToString true) query) query.length
          (columns (line.translateToString true)) := by
  have hmem : ∀ m : SearchMatch, m ∈ (List.range buffer.length).flatMap
      (rowMatches buffer query columns) ↔ m.row < buffer.length ∧ m.length = query.length ∧
        ∃ line, buffer.getLine m.row = some line ∧
          m.col ∈ columns (line.translateToString true) := by
    intro m
    simp only [List.mem_flatMap, List.mem_range, mem_rowMatches]
    exact ⟨fun ⟨row, hrow, heq, hrest⟩ => heq ▸ ⟨hrow, hrest⟩, fun ⟨hrow, hrest⟩ =>
      ⟨m.row, hrow, rfl, hrest⟩⟩
  constructor
  · intro h row hrow line hline
    obtain ⟨hrows, -⟩ := List.pairwise_flatMap.mp h.inOrder
    refine ⟨rowMatches_pairwise_iff.mp (hrows row (List.mem_range.mpr hrow)) line hline,
      fun col hcol => ?_, fun col hcol => ?_⟩
    · obtain ⟨-, -, other, hother, hoccurs⟩ :=
        h.equal ⟨row, col, query.length⟩ ((hmem _).mpr ⟨hrow, rfl, line, hline, hcol⟩)
      obtain rfl := Option.some.inj (hline.symm.trans hother)
      exact hoccurs
    · obtain ⟨m, hm, rfl, hle, hlt⟩ := h.covers row hrow line hline col hcol
      obtain ⟨-, hlength, other, hother, hin⟩ := (hmem m).mp hm
      obtain rfl := Option.some.inj (hline.symm.trans hother)
      exact ⟨m.col, hin, hle, hlength ▸ hlt⟩
  · intro h
    refine ⟨List.pairwise_flatMap.mpr ⟨fun row hrow => ?_, ?_⟩, fun m hm => ?_,
      fun row hrow line hline col hcol => ?_⟩
    · exact rowMatches_pairwise_iff.mpr fun line hline => (h row (List.mem_range.mp hrow) line hline).apart
    · refine List.pairwise_lt_range.imp fun {row later} hlt first hfirst second hsecond => .inl ?_
      rw [(mem_rowMatches.mp hfirst).1, (mem_rowMatches.mp hsecond).1]
      exact hlt
    · obtain ⟨hrow, hlength, line, hline, hin⟩ := (hmem m).mp hm
      exact ⟨hlength, hrow, line, hline, (h m.row hrow line hline).here m.col hin⟩
    · obtain ⟨first, hfirst, hle, hlt⟩ := (h row hrow line hline).covers col hcol
      exact ⟨⟨row, first, query.length⟩, (hmem _).mpr ⟨hrow, rfl, line, hline, hfirst⟩, rfl, hle, hlt⟩

end Rows

section Agreement
variable (toLowerCase : CodeUnits → CodeUnits)

/-- At each place of a row that the occurrence counted last leaves free, the folded query stands
in the folded row just when the row's own text there is the query up to case. -/
def FoldsAlike (text query : CodeUnits) : Prop :=
  ∀ col, Counted (Occurs toLowerCase text query) query.length col ↔
    StandsAt (toLowerCase text) (toLowerCase query) col ∧
      ∀ last ∈ lastCounted (Occurs toLowerCase text query) query.length col,
        last + max (toLowerCase query).length 1 ≤ col

variable {toLowerCase} {query : CodeUnits}

/-- One row. -/
theorem leftmost_matchColumns_iff (hquery : query ≠ []) (text : CodeUnits) :
    Leftmost (Occurs toLowerCase text query) query.length
        (matchColumns (toLowerCase text) (toLowerCase query) ((toLowerCase text).length + 1) 0) ↔
      FoldsAlike toLowerCase text query := by
  obtain ⟨hsorted, hmem⟩ := matchColumns_spec (toLowerCase text) (toLowerCase query)
  rw [leftmost_iff (List.length_pos_iff.mpr hquery), and_iff_right hsorted, FoldsAlike,
    ← counted_iff_counted]
  exact forall_congr' fun col => ⟨fun h => (h.symm.trans (hmem col)), fun h => (hmem col).trans h.symm⟩

theorem findMatchesInBuffer_eq (buffer : SearchableBuffer) (hquery : query ≠ [])
    (caseSensitive : Bool) : findMatchesInBuffer toLowerCase buffer query caseSensitive =
      (List.range buffer.length).flatMap (rowMatches buffer query fun text =>
        matchColumns (folded toLowerCase caseSensitive text)
          (folded toLowerCase caseSensitive query)
          ((folded toLowerCase caseSensitive text).length + 1) 0) := by
  rw [findMatchesInBuffer, if_neg hquery]
  rfl

/-- Lower-casing that goes unit by unit in the row, and keeps the length of the query. -/
theorem foldsAlike_of_map {text : CodeUnits} {lowerUnit : ℕ → ℕ} (hquery : query ≠ [])
    (htext : ∀ part ⊆ text, toLowerCase part = part.map lowerUnit)
    (hlength : (toLowerCase query).length = query.length) : FoldsAlike toLowerCase text query := by
  have hpos : 0 < query.length := List.length_pos_iff.mpr hquery
  have hiff : ∀ col, Occurs toLowerCase text query col ↔
      StandsAt (toLowerCase text) (toLowerCase query) col := by
    intro col
    have hpart : (text.drop col).take query.length ⊆ text := fun unit hunit =>
      List.mem_of_mem_drop (List.mem_of_mem_take hunit)
    rw [Occurs, StandsAt, htext _ hpart, htext text (List.Subset.refl _), List.prefix_iff_eq_take,
      hlength, List.map_take, List.map_drop, List.length_map]
    constructor
    · rintro ⟨hle, heq⟩
      exact ⟨by omega, heq.symm⟩
    · rintro ⟨hle, heq⟩
      have hall := congrArg List.length heq
      rw [hlength, List.length_take, List.length_drop, List.length_map] at hall
      exact ⟨by omega, heq.symm⟩
  intro col
  rw [Counted, Clear, hiff, hlength, max_eq_left hpos]

/-- A text that is its own folding is searched as it is. -/
theorem foldsAlike_id (hquery : query ≠ []) (text : CodeUnits) :
    FoldsAlike id text query :=
  foldsAlike_of_map hquery (fun part _ => (List.map_id part).symm) rfl

/-- The search finds exactly the occurrences of the query just when it minds the case, or each
row folds as the query does. -/
theorem findMatchesInBuffer_exact_iff (toLowerCase : CodeUnits → CodeUnits)
    (buffer : SearchableBuffer) {query : CodeUnits} (hquery : query ≠ []) (caseSensitive : Bool) :
    FindsExactly (folded toLowerCase caseSensitive) buffer query
        (findMatchesInBuffer toLowerCase buffer query caseSensitive) ↔
      caseSensitive = true ∨ ∀ row < buffer.length, ∀ line, buffer.getLine row = some line →
        FoldsAlike toLowerCase (line.translateToString true) query := by
  rw [findMatchesInBuffer_eq buffer hquery, findsExactly_iff]
  cases caseSensitive with
  | true =>
    refine iff_of_true (fun row _ line _ => ?_) (.inl rfl)
    have hfolds : FoldsAlike id (line.translateToString true) query := foldsAlike_id hquery _
    exact (leftmost_matchColumns_iff hquery _).mpr hfolds
  | false =>
    rw [or_iff_right Bool.false_ne_true]
    exact forall_congr' fun row => forall_congr' fun _ => forall_congr' fun line =>
      forall_congr' fun _ => leftmost_matchColumns_iff hquery _

def lowerLetter (unit : ℕ) : ℕ := if 0x41 ≤ unit ∧ unit ≤ 0x5A then unit + 32 else unit

/-- The lower case of the letters without accents, and of `İ`, which is two units long. -/
def sampleLowerCase (text : CodeUnits) : CodeUnits :=
  text.flatMap fun unit => if unit = 0x130 then [0x69, 0x307] else [lowerLetter unit]

/-- A buffer of one row. -/
def oneRow (text : CodeUnits) : SearchableBuffer where
  length := 1
  getLine y := if y = 0 then some ⟨fun _ => text⟩ else none

theorem findMatchesInBuffer_exact_iff_foo :
    FindsExactly (folded sampleLowerCase false) (oneRow (codeUnits "Foo FOO")) (codeUnits "foo")
      (findMatchesInBuffer sampleLowerCase (oneRow (codeUnits "Foo FOO")) (codeUnits "foo") false) := by
  have hfoo : codeUnits "foo" ≠ [] := by decide
  refine (findMatchesInBuffer_exact_iff sampleLowerCase _ hfoo false).mpr (.inr ?_)
  intro row hrow line hline
  obtain rfl : row = 0 := Nat.lt_one_iff.mp hrow
  obtain rfl := Option.some.inj hline
  have hunits : ∀ unit ∈ codeUnits "Foo FOO", unit ≠ 0x130 := by decide
  have htext : ∀ part ⊆ codeUnits "Foo FOO", sampleLowerCase part = part.map lowerLetter := by
    intro part hpart
    rw [sampleLowerCase, List.map_eq_flatMap]
    exact List.flatMap_congr fun unit hunit => if_neg (hunits unit (hpart hunit))
  exact foldsAlike_of_map hfoo htext (by decide)

/-- In `İx` the match for `x` is reported behind the end of the row. -/
theorem match_behind_row :
    ¬ FindsExactly (folded sampleLowerCase false) (oneRow [0x130, 0x78]) [0x78]
      (findMatchesInBuffer sampleLowerCase (oneRow [0x130, 0x78]) [0x78] false) := by
  have hfound : findMatchesInBuffer sampleLowerCase (oneRow [0x130, 0x78]) [0x78] false =
      [⟨0, 2, 1⟩] := by decide +kernel
  intro h
  rw [hfound] at h
  obtain ⟨-, -, line, hline, hle, -⟩ := h.equal _ (List.mem_singleton_self _)
  obtain rfl := Option.some.inj hline
  exact absurd hle (by decide)

end Agreement
end Search
