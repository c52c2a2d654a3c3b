import TerminalWorkspace.Foundation.PrefixFree
import TerminalWorkspace.SshConfig.Include

/-! Whether an expansion keeps the scopes of the files it puts together. The scope of a directive is
the last Host or Match line before it. A file that brings in such a line leaves its block open, and
what follows in the file that includes it stands in that block until a Host or Match line of its
own. -/
namespace SshConfig
open JsText Inventory
open RecordFile (trim words)

section Lines
variable {line : JsString} {lines : List JsString}

/-- A line with a directive does not end in a carriage return of its own. -/
theorem normalizeDirectiveValue_nil : normalizeDirectiveValue [] = [] := rfl

/-- The value of a directive ends the line, and no line terminator is in it. -/
theorem matchDirective_ends {name value : JsString} (h : matchDirective line = some (name, value)) :
    value <:+ line ∧ ∀ c ∈ value, isLineTerminator c = false := by
  unfold matchDirective at h
  simp only [Option.ite_none_right_eq_some, Bool.and_eq_true, Bool.not_eq_true'] at h
  obtain ⟨⟨-, hplain⟩, heq⟩ := h
  obtain ⟨-, rfl⟩ := Prod.mk.inj (Option.some.inj heq)
  refine ⟨?_, fun c hc => ?_⟩
  · exact (List.dropWhile_suffix _).trans
      ((List.dropWhile_suffix _).trans (List.dropWhile_suffix _))
  · exact Bool.eq_false_of_not_eq_true (List.any_eq_false.mp hplain c hc)

/-- A line with a directive does not end in a carriage return of its own. -/
theorem stripCarriageReturn_of_directive {directive : Directive}
    (h : readLine line = .directive directive) : stripCarriageReturn line = line := by
  unfold readLine at h
  simp only at h
  split_ifs at h
  split at h
  · cases h
  rename_i name value hmatch
  obtain ⟨⟨before, rfl⟩, hplain⟩ := matchDirective_ends hmatch
  split_ifs at h with hempty
  have hvalue : value ≠ [] := fun hnil => hempty (hnil ▸ normalizeDirectiveValue_nil)
  unfold stripCarriageReturn
  rw [List.getLast?_append_of_ne_nil _ hvalue, if_neg]
  intro hlast
  have hterminator := hplain carriageReturn (List.mem_of_getLast? hlast)
  exact absurd hterminator (by decide)

theorem afterKeyword_of_directive {keyword : String} {name value : JsString}
    (hmatch : matchDirective line = some (name, value))
    (hname : name.map asciiLower = js keyword) : (afterKeyword keyword line).isSome = true := by
  unfold matchDirective at hmatch
  simp only [Option.ite_none_right_eq_some, Bool.and_eq_true] at hmatch
  obtain ⟨⟨⟨-, hspace⟩, -⟩, heq⟩ := hmatch
  obtain ⟨rfl, -⟩ := Prod.mk.inj (Option.some.inj heq)
  have hlength : ((line.dropWhile isSpace).takeWhile isAsciiAlphanum).length = keyword.length := by
    have hlengths := congrArg List.length hname
    rwa [List.length_map, js, ofText, List.length_map, String.length_toList] at hlengths
  have hsplit : line.dropWhile isSpace = (line.dropWhile isSpace).takeWhile isAsciiAlphanum ++
      (line.dropWhile isSpace).dropWhile isAsciiAlphanum := List.takeWhile_append_dropWhile.symm
  have htake : (line.dropWhile isSpace).take keyword.length =
      (line.dropWhile isSpace).takeWhile isAsciiAlphanum :=
    (congrArg (List.take _) hsplit).trans (List.take_left' hlength)
  have hdrop : (line.dropWhile isSpace).drop keyword.length =
      (line.dropWhile isSpace).dropWhile isAsciiAlphanum :=
    (congrArg (List.drop _) hsplit).trans (List.drop_left' hlength)
  unfold afterKeyword
  simp only [htake, hdrop, hname, hspace, decide_true, Bool.and_self, if_true, Option.isSome_some]

/-- What opens a block for the parser may open one for the expansion. -/
theorem blockDirectiveTest_of_block (h : isBlockLine line = true) :
    blockDirectiveTest line = true := by
  unfold isBlockLine blockDirective at h
  split at h
  case h_2 => cases h
  case h_1 directive hread =>
  have hname : directive.name = js "host" ∨ directive.name = js "match" := by
    by_contra hnot
    rw [not_or] at hnot
    simp [hnot.1, hnot.2] at h
  unfold readLine at hread
  simp only at hread
  split_ifs at hread
  split at hread
  · cases hread
  rename_i name value hmatch
  split_ifs at hread
  obtain rfl := ReadLine.directive.inj hread
  rw [blockDirectiveTest, Bool.or_eq_true]
  exact hname.imp (afterKeyword_of_directive hmatch) (afterKeyword_of_directive hmatch)

theorem not_block_of_test (h : blockDirectiveTest line = false) : isBlockLine line = false :=
  Bool.eq_false_of_not_eq_true fun hblock =>
    Bool.false_ne_true (h.symm.trans (blockDirectiveTest_of_block hblock))

theorem stripCarriageReturn_of_block (h : isBlockLine line = true) :
    stripCarriageReturn line = line := by
  unfold isBlockLine blockDirective at h
  split at h
  · rename_i directive hread
    exact stripCarriageReturn_of_directive hread
  · cases h

end Lines

/-- A line of the expanded text, with the place of the block line that it stands in by its own file,
and whether it is of an included file or behind an Include. -/
structure ScopedLine where
  text : JsString
  scope : Option ℕ
  covered : Bool

/-- A file whose expansion is empty is pushed as an empty line. -/
def pushed {α : Type} (blank : α) : List α → List α
  | [] => [blank]
  | lines => lines

namespace Expansion

/-- The lines of the expanded text. -/
def outLines : Expansion → List JsString
  | .nil => []
  | .line text rest => text :: rest.outLines
  | .dropped _ rest | .including _ rest => rest.outLines
  | .file expanded rest => pushed [] expanded.outLines ++ rest.outLines

/-- The lines of the expanded text from an offset on. Each line of a file counts for the scope in it,
those of an Include too. -/
def scopedLines (covered : Bool) (offset : ℕ) (scope : Option ℕ) : Expansion → List ScopedLine
  | .nil => []
  | .line text rest =>
    ⟨text, scope, covered⟩ ::
      rest.scopedLines covered (offset + 1) (if isBlockLine text then some offset else scope)
  | .dropped text rest =>
    rest.scopedLines covered offset (if isBlockLine text then some offset else scope)
  | .including text rest =>
    rest.scopedLines true offset (if isBlockLine text then some offset else scope)
  | .file expanded rest =>
    let inner := pushed ⟨[], none, true⟩ (expanded.scopedLines true offset none)
    inner ++ rest.scopedLines covered (offset + inner.length) scope

/-- Each directive of an included file, and each one behind an Include, has in the expanded text the
scope that it has in its own file. -/
def ScopesKept (e : Expansion) (text : JsString) : Prop :=
  ∀ place line, (e.scopedLines false 0 none)[place]? = some line → line.covered = true →
    isOptionLine line.text = true →
    scopeAfter none 0 ((splitLines text).take place) = line.scope

/-- Whether the text of a file opens a block once it is joined to what comes behind it. -/
def opensBlock (e : Expansion) : Bool :=
  e.outLines.any fun line => isBlockLine (stripCarriageReturn line)

end Expansion

/-- The lines of an Include open no block. -/
def Expansion.IncludesPlain : Expansion → Prop
  | .nil => True
  | .line _ rest => rest.IncludesPlain
  | .dropped text rest | .including text rest => isBlockLine text = false ∧ rest.IncludesPlain
  | .file expanded rest => expanded.IncludesPlain ∧ rest.IncludesPlain

/-- Whose block is open in the text that has been put together. -/
inductive Standing where
  | global
  | own
  | foreign
  deriving DecidableEq

/-- A line that is a block line only without a carriage return at its end is none in its file. -/
def Standing.after (standing : Standing) (line : JsString) : Standing :=
  if isBlockLine line then .own
  else if isBlockLine (stripCarriageReturn line) then .foreign
  else standing

/-- No directive of an included file, or behind an Include, stands in a block of another file. -/
def Expansion.Contained (covered : Bool) (standing : Standing) : Expansion → Prop
  | .nil => True
  | .line text rest =>
    (covered = true → isOptionLine text = true → standing ≠ .foreign) ∧
      rest.Contained covered (standing.after text)
  | .dropped _ rest => rest.Contained covered standing
  | .including _ rest => rest.Contained true standing
  | .file expanded rest =>
    expanded.Contained true (if standing = .global then .global else .foreign) ∧
      rest.Contained covered (if expanded.opensBlock then .foreign else standing)

/-- The scopes of the lines agree with those that the last block lines before them give. -/
def Agrees (scope : Option ℕ) (offset : ℕ) : List ScopedLine → Prop
  | [] => True
  | line :: lines =>
    (line.covered = true → isOptionLine line.text = true → scope = line.scope) ∧
      Agrees (if isBlockLine (stripCarriageReturn line.text) then some offset else scope)
        (offset + 1) lines

section Scopes
variable {scope : Option ℕ} {offset : ℕ}

/-- The lines of a text that are followed by a break. -/
def brokenLines (lines : List ScopedLine) : List JsString :=
  lines.map fun line => stripCarriageReturn line.text

theorem agrees_append (first second : List ScopedLine) :
    Agrees scope offset (first ++ second) ↔
      Agrees scope offset first ∧
        Agrees (scopeAfter scope offset (brokenLines first)) (offset + first.length) second := by
  induction first generalizing scope offset with
  | nil => exact (and_iff_right trivial).symm
  | cons line first ih =>
    rw [List.cons_append, Agrees, Agrees, ih, and_assoc, List.length_cons]
    refine and_congr_right fun _ => and_congr_right fun _ => ?_
    rw [Nat.add_assoc, Nat.add_comm 1]
    rfl

theorem agrees_iff (lines : List ScopedLine) :
    Agrees scope offset lines ↔ ∀ place line, lines[place]? = some line → line.covered = true →
      isOptionLine line.text = true →
      scopeAfter scope offset ((brokenLines lines).take place) = line.scope := by
  induction lines generalizing scope offset with
  | nil => exact ⟨fun _ _ _ h => (nomatch h), fun _ => trivial⟩
  | cons first lines ih =>
    rw [Agrees, ih]
    constructor
    · rintro ⟨hfirst, hrest⟩ place line hplace
      cases place with
      | zero =>
        obtain rfl := Option.some.inj hplace
        exact hfirst
      | succ place => exact hrest place line hplace
    · intro h
      exact ⟨h 0 first rfl, fun place line hplace => h (place + 1) line hplace⟩

/-- The scope behind some lines is the one before them, unless there is a block line in them. -/
theorem scopeAfter_cases (scope : Option ℕ) (offset : ℕ) (lines : List JsString) :
    lines.any isBlockLine = false ∧ scopeAfter scope offset lines = scope ∨
      lines.any isBlockLine = true ∧
        ∃ place, offset ≤ place ∧ scopeAfter scope offset lines = some place := by
  induction lines generalizing scope offset with
  | nil => exact .inl ⟨rfl, rfl⟩
  | cons line lines ih =>
    rw [List.any_cons, scopeAfter]
    by_cases hline : isBlockLine line = true
    · rw [if_pos hline, hline, Bool.true_or]
      rcases ih (some offset) (offset + 1) with ⟨-, h⟩ | ⟨-, place, hle, h⟩
      · exact .inr ⟨rfl, offset, Nat.le_refl _, h⟩
      · exact .inr ⟨rfl, place, Nat.le_of_succ_le hle, h⟩
    · rw [if_neg hline, Bool.eq_false_of_not_eq_true hline, Bool.false_or]
      rcases ih scope (offset + 1) with h | ⟨hany, place, hle, h⟩
      · exact .inl h
      · exact .inr ⟨hany, place, Nat.le_of_succ_le hle, h⟩

end Scopes

section Contained
variable {covered : Bool} {scope entered : Option ℕ} {offset : ℕ} {standing : Standing}

/-- Whose block is open, as the places of the last block lines tell: `entered` is the last one of
the text, `scope` the last one of the file itself. -/
structure Stands (standing : Standing) (entered scope : Option ℕ) (offset : ℕ) : Prop where
  global_iff : standing = .global ↔ entered = none
  foreign_iff : standing = .foreign ↔ entered ≠ scope
  before : ∀ place, scope = some place → place < offset

theorem Stands.line (h : Stands standing entered scope offset) (text : JsString) :
    Stands (standing.after text)
      (if isBlockLine (stripCarriageReturn text) then some offset else entered)
      (if isBlockLine text then some offset else scope) (offset + 1) := by
  unfold Standing.after
  by_cases hblock : isBlockLine text = true
  · rw [stripCarriageReturn_of_block hblock, if_pos hblock, if_pos hblock, if_pos hblock]
    refine ⟨by simp, by simp, fun place hplace => ?_⟩
    obtain rfl := Option.some.inj hplace
    exact Nat.lt_succ_self offset
  have hbefore (place : ℕ) (hplace : scope = some place) : place < offset + 1 :=
    Nat.lt_succ_of_lt (h.before place hplace)
  rw [if_neg hblock, if_neg hblock]
  by_cases hstripped : isBlockLine (stripCarriageReturn text) = true
  · rw [if_pos hstripped, if_pos hstripped]
    refine ⟨by simp, ?_, hbefore⟩
    simp only [true_iff]
    exact fun hsame => Nat.lt_irrefl offset (h.before offset hsame.symm)
  · rw [if_neg hstripped, if_neg hstripped]
    exact ⟨h.global_iff, h.foreign_iff, hbefore⟩

theorem Stands.file (h : Stands standing entered scope offset) :
    Stands (if standing = .global then .global else .foreign) entered none offset := by
  by_cases hglobal : standing = .global
  · have hnone := h.global_iff.mp hglobal
    rw [if_pos hglobal, hnone]
    exact ⟨by simp, by simp, nofun⟩
  · have hsome := mt h.global_iff.mpr hglobal
    rw [if_neg hglobal]
    exact ⟨by simp [hsome], by simp [hsome], nofun⟩

theorem map_pushed {α β : Type} (f : α → β) (blank : α) (lines : List α) :
    (pushed blank lines).map f = pushed (f blank) (lines.map f) := by
  cases lines <;> rfl

theorem texts_scopedLines (e : Expansion) :
    (e.scopedLines covered offset scope).map (·.text) = e.outLines := by
  induction e generalizing covered offset scope with
  | nil => rfl
  | line text rest ih => rw [Expansion.scopedLines, List.map_cons, ih, Expansion.outLines]
  | dropped text rest ih => exact ih
  | including text rest ih => exact ih
  | file expanded rest ihExpanded ihRest =>
    rw [Expansion.scopedLines, List.map_append, map_pushed, ihExpanded, ihRest, Expansion.outLines]

/-- The lines of an included file, as they are pushed. -/
theorem opensBlock_pushed (covered : Bool) (offset : ℕ) (scope : Option ℕ) (e : Expansion) :
    (brokenLines (pushed ⟨[], none, true⟩ (e.scopedLines covered offset scope))).any isBlockLine =
      e.opensBlock := by
  have hblank : isBlockLine (stripCarriageReturn []) = false := by decide
  have hlines (lines : List ScopedLine) :
      brokenLines lines = (lines.map (·.text)).map stripCarriageReturn := by
    rw [List.map_map]
    rfl
  rw [hlines, map_pushed, texts_scopedLines, Expansion.opensBlock, List.any_map]
  cases e.outLines with
  | cons line lines => rfl
  | nil => exact (Bool.or_false _).trans hblank

theorem agrees_pushed (lines : List ScopedLine) :
    Agrees entered offset (pushed ⟨[], none, true⟩ lines) ↔ Agrees entered offset lines := by
  cases lines with
  | cons line lines => exact Iff.rfl
  | nil =>
    have hblank : isOptionLine [] = false := by decide
    refine ⟨fun _ => trivial, fun _ => ⟨fun _ hoption => ?_, trivial⟩⟩
    rw [hblank] at hoption
    cases hoption

theorem contained_iff {e : Expansion} (hplain : e.IncludesPlain)
    (h : Stands standing entered scope offset) :
    Agrees entered offset (e.scopedLines covered offset scope) ↔ e.Contained covered standing := by
  induction e generalizing covered scope entered offset standing with
  | nil => exact Iff.rfl
  | line text rest ih =>
    rw [Expansion.scopedLines, Agrees, Expansion.Contained]
    refine and_congr ?_ (ih hplain (h.line text))
    refine imp_congr_right fun _ => imp_congr_right fun _ => ?_
    rw [Ne, h.foreign_iff, not_not]
  | dropped text rest ih =>
    rw [Expansion.scopedLines, hplain.1]
    exact ih hplain.2 h
  | including text rest ih =>
    rw [Expansion.scopedLines, hplain.1]
    exact ih hplain.2 h
  | file expanded rest ihExpanded ihRest =>
    rw [Expansion.scopedLines, Expansion.Contained, agrees_append, agrees_pushed]
    refine and_congr (ihExpanded hplain.1 h.file) (ihRest hplain.2 ?_)
    have hopens := opensBlock_pushed true offset none expanded
    rcases scopeAfter_cases entered offset (brokenLines (pushed ⟨[], none, true⟩
      (expanded.scopedLines true offset none))) with ⟨hany, hscope⟩ | ⟨hany, place, hle, hscope⟩
    · rw [← hopens, hany, hscope, if_neg Bool.false_ne_true]
      exact ⟨h.global_iff, h.foreign_iff, fun before hbefore =>
        Nat.lt_add_right _ (h.before before hbefore)⟩
    · rw [← hopens, hany, hscope, if_pos rfl]
      refine ⟨by simp, ?_, fun before hbefore => Nat.lt_add_right _ (h.before before hbefore)⟩
      simp only [true_iff]
      exact fun hsame => Nat.not_le_of_lt (h.before place hsame.symm) hle

end Contained

section Joined

/-- Lines, each behind a break. -/
def behindBreaks (lines : List JsString) : JsString := lines.flatMap (newline :: ·)

theorem joinLines_eq (lines : List JsString) : joinLines lines = (behindBreaks lines).tail := by
  cases lines with
  | nil => rfl
  | cons line lines => exact PrefixFree.intercalate_cons newline line lines

theorem behindBreaks_pushed (lines : List JsString) :
    behindBreaks (pushed [] lines) = newline :: joinLines lines := by
  cases lines with
  | nil => rfl
  | cons line lines =>
    rw [joinLines_eq]
    rfl

theorem behindBreaks_outLines (e : Expansion) : behindBreaks e.out = behindBreaks e.outLines := by
  induction e with
  | nil => rfl
  | line text rest ih =>
    rw [Expansion.out, Expansion.outLines, behindBreaks, List.flatMap_cons, behindBreaks,
      List.flatMap_cons]
    exact congrArg _ ih
  | dropped text rest ih => exact ih
  | including text rest ih => exact ih
  | file expanded rest ihExpanded ihRest =>
    have hfile : joinLines expanded.out = joinLines expanded.outLines := by
      rw [joinLines_eq, joinLines_eq, ihExpanded]
    rw [Expansion.out, Expansion.outLines, behindBreaks, List.flatMap_cons, behindBreaks,
      List.flatMap_append]
    refine congrArg₂ _ ?_ ihRest
    rw [hfile]
    exact (behindBreaks_pushed _).symm

/-- The text of an expansion is that of its lines. -/
theorem text_eq (e : Expansion) : e.text = joinLines (pushed [] e.outLines) := by
  rw [Expansion.text, joinLines_eq, behindBreaks_outLines, ← joinLines_eq]
  cases e.outLines <;> rfl

/-- No line of the expansion has a break in it. -/
def Expansion.Unbroken (e : Expansion) : Prop := ∀ line ∈ e.outLines, newline ∉ line

theorem mem_pushed {α : Type} {blank line : α} {lines : List α} (h : line ∈ pushed blank lines) :
    line = blank ∨ line ∈ lines := by
  cases lines with
  | nil => exact .inl (List.mem_singleton.mp h)
  | cons first lines => exact .inr h

theorem splitOn_text {e : Expansion} (h : e.Unbroken) :
    e.text.splitOn newline = pushed [] e.outLines := by
  have hpushed : ∀ line ∈ pushed [] e.outLines, newline ∉ line := by
    intro line hline
    rcases mem_pushed hline with rfl | hmem
    · exact List.not_mem_nil
    · exact h line hmem
  have hne : pushed [] e.outLines ≠ [] := by
    cases e.outLines <;> exact List.cons_ne_nil _ _
  rw [text_eq, joinLines, join, List.splitOn_intercalate newline hpushed hne]

theorem splitLines_text {e : Expansion} (h : e.Unbroken) :
    splitLines e.text = stripBreaks (pushed [] e.outLines) := by
  rw [splitLines, splitOn_text h]

/-- All lines before the last lose a carriage return of their own. -/
theorem take_stripBreaks {lines : List JsString} {place : ℕ} (h : place < lines.length) :
    (stripBreaks lines).take place = (lines.map stripCarriageReturn).take place := by
  induction lines generalizing place with
  | nil => cases h
  | cons line lines ih =>
    cases place with
    | zero => rfl
    | succ place =>
      cases lines with
      | nil => exact absurd h (by simp)
      | cons next rest =>
        rw [stripBreaks, List.take_succ_cons, ih (Nat.lt_of_succ_lt_succ h)]
        rfl

theorem scopesKept_iff {e : Expansion} (h : e.Unbroken) (hplain : e.IncludesPlain) :
    e.ScopesKept e.text ↔ e.Contained false .global := by
  have hstands : Stands .global none none 0 := ⟨by simp, by simp, nofun⟩
  rw [← contained_iff hplain hstands, agrees_iff]
  refine forall₂_congr fun place line => imp_congr_right fun hplace => ?_
  have hlines : brokenLines (e.scopedLines false 0 none) =
      e.outLines.map stripCarriageReturn := by
    rw [← texts_scopedLines e, List.map_map]
    rfl
  have hlt : place < e.outLines.length := by
    rw [← texts_scopedLines e, List.length_map]
    exact (List.getElem?_eq_some_iff.mp hplace).1
  have hpushed : pushed [] e.outLines = e.outLines := by
    cases houtLines : e.outLines with
    | nil => exact absurd (houtLines ▸ hlt) (Nat.not_lt_zero _)
    | cons first rest => rfl
  have htake : (splitLines e.text).take place =
      (brokenLines (e.scopedLines false 0 none)).take place := by
    rw [splitLines_text h, hlines, hpushed]
    exact take_stripBreaks hlt
  rw [htake]

end Joined

section Built
variable {σ : Type} {p : Platform} {options : ResolveSshIncludesOptions σ}

/-- Whatever the files are, the result has a property. -/
def Yields {α : Type} (m : ExpandM σ α) (P : α → Prop) : Prop := ∀ s, P (m s).1

theorem Yields.bind {α β : Type} {m : ExpandM σ α} {next : α → ExpandM σ β} {P : α → Prop}
    {Q : β → Prop} (h : Yields m P) (hnext : ∀ a, P a → Yields (next a) Q) :
    Yields (m >>= next) Q := fun s => hnext _ (h s) _

theorem Yields.pure {α : Type} {P : α → Prop} {a : α} (h : P a) :
    Yields (pure a : ExpandM σ α) P := fun _ => h

theorem yields_true {α : Type} (m : ExpandM σ α) : Yields m fun _ => True := fun _ => trivial

theorem newline_not_mem_stripBreaks {lines : List JsString} (h : ∀ line ∈ lines, newline ∉ line) :
    ∀ line ∈ stripBreaks lines, newline ∉ line := by
  have hstrip (line : JsString) (hline : newline ∉ line) : newline ∉ stripCarriageReturn line := by
    unfold stripCarriageReturn
    split_ifs
    · exact fun hmem => hline (List.dropLast_subset line hmem)
    · exact hline
  induction lines with
  | nil => exact nofun
  | cons first lines ih =>
    rw [List.forall_mem_cons] at h
    cases lines with
    | nil => exact List.forall_mem_cons.mpr ⟨h.1, nofun⟩
    | cons next rest => exact List.forall_mem_cons.mpr ⟨hstrip first h.1, ih h.2⟩

theorem newline_not_mem_splitLines (text : JsString) : ∀ line ∈ splitLines text, newline ∉ line :=
  newline_not_mem_stripBreaks fun _ hline hmem => by
    have hother := (RecordFile.mem_splitOnP _ hline).2 newline hmem
    exact absurd hother (by decide)

/-- What holds of an expansion however it is put together. A line that may open a block is never
taken for an Include. -/
structure Built (P : Expansion → Prop) : Prop where
  nil : P .nil
  line : ∀ text rest, newline ∉ text → P rest → P (.line text rest)
  dropped : ∀ text rest, blockDirectiveTest text = false → P rest → P (.dropped text rest)
  including : ∀ text rest, blockDirectiveTest text = false → P rest → P (.including text rest)
  file : ∀ expanded rest, P expanded → P rest → P (.file expanded rest)

variable {P : Expansion → Prop} {recurse : FileVisit → ExpandM σ Expansion}

/-- The files that an entry brings in. -/
def YieldsFiles (P : Expansion → Prop) (m : ExpandM σ (List Expansion)) : Prop :=
  Yields m fun files => ∀ e ∈ files, P e

theorem yieldsFiles_skipEntry (entry reason : JsString) :
    YieldsFiles P (skipEntry entry reason : ExpandM σ (List Expansion)) := fun _ => nofun

theorem yieldsFiles_forEach {α : Type} {body : α → ExpandM σ (List Expansion)}
    (h : ∀ item, YieldsFiles P (body item)) (items : List α) :
    YieldsFiles P (forEach body items) := by
  induction items with
  | nil => exact fun _ => nofun
  | cons item items ih =>
    refine Yields.bind (h item) fun first hfirst => Yields.bind ih fun rest hrest => ?_
    exact Yields.pure fun e he => (List.mem_append.mp he).elim (hfirst e) (hrest e)

theorem yieldsFiles_expandFile (hrecurse : ∀ visit, Yields (recurse visit) P)
    {visit : FileVisit} {cycleKey content path : JsString} {onCycle : ExpandM σ (List Expansion)}
    (honCycle : YieldsFiles P onCycle) :
    YieldsFiles P (expandFile recurse visit cycleKey content path onCycle) := by
  unfold expandFile
  split_ifs
  · exact honCycle
  · refine Yields.bind (hrecurse _) fun expanded hexpanded => Yields.pure fun e he => ?_
    obtain rfl := List.mem_singleton.mp he
    exact hexpanded

theorem yieldsFiles_expandEntry (hrecurse : ∀ visit, Yields (recurse visit) P)
    (visit : FileVisit) (entry : JsString) :
    YieldsFiles P (expandEntry p options recurse visit entry) := by
  unfold expandEntry expandGlob
  split_ifs
  · split
    · exact yieldsFiles_skipEntry entry _
    · refine Yields.bind (yields_true _) fun answer _ => ?_
      cases answer with
      | rejected message => exact yieldsFiles_skipEntry entry _
      | resolved found =>
        cases found with
        | nil => exact yieldsFiles_skipEntry entry _
        | cons first rest =>
          refine yieldsFiles_forEach (fun matchEntry => ?_) _
          exact yieldsFiles_expandFile hrecurse fun _ => nofun
  · refine Yields.bind (yields_true _) fun answer _ => ?_
    rcases answer with (_ | included) | message
    · exact yieldsFiles_skipEntry entry _
    · exact yieldsFiles_expandFile hrecurse (yieldsFiles_skipEntry entry _)
    · exact yieldsFiles_skipEntry entry _

theorem Built.files (h : Built P) {files : List Expansion} {rest : Expansion}
    (hfiles : ∀ e ∈ files, P e) (hrest : P rest) : P (files.foldr .file rest) := by
  induction files with
  | nil => exact hrest
  | cons e files ih =>
    rw [List.forall_mem_cons] at hfiles
    exact h.file e _ hfiles.1 (ih hfiles.2)

theorem Built.expandLines (h : Built P) (hrecurse : ∀ visit, Yields (recurse visit) P)
    (visit : FileVisit) (insideConditionalBlock : Bool) {lines : List JsString}
    (hlines : ∀ line ∈ lines, newline ∉ line) :
    Yields (expandLines p options recurse visit insideConditionalBlock lines) P := by
  induction lines generalizing insideConditionalBlock with
  | nil => exact Yields.pure h.nil
  | cons line lines ih =>
    rw [List.forall_mem_cons] at hlines
    have hkept (inside : Bool) : Yields (do
        let rest ← SshConfig.expandLines p options recurse visit inside lines
        pure (Expansion.line line rest)) P :=
      Yields.bind (ih inside hlines.2) fun rest hrest => Yields.pure (h.line _ _ hlines.1 hrest)
    rw [SshConfig.expandLines]
    by_cases hblock : blockDirectiveTest line = true
    · rw [if_pos hblock]
      exact hkept true
    rw [if_neg hblock]
    have hother := Bool.eq_false_of_not_eq_true hblock
    split
    · exact hkept insideConditionalBlock
    · exact hkept insideConditionalBlock
    · split_ifs
      · refine Yields.bind (yields_true _) fun _ _ => ?_
        exact Yields.bind (ih _ hlines.2) fun rest hrest =>
          Yields.pure (h.dropped _ _ hother hrest)
      · refine Yields.bind (yieldsFiles_forEach
          (yieldsFiles_expandEntry hrecurse visit) _) fun files hfiles => ?_
        exact Yields.bind (ih _ hlines.2) fun rest hrest =>
          Yields.pure (h.including _ _ hother (h.files hfiles hrest))

theorem Built.expandText (h : Built P) (remaining : ℕ) (visit : FileVisit) :
    Yields (expandText p options remaining visit) P := by
  induction remaining generalizing visit with
  | zero => exact fun _ => h.nil
  | succ remaining ih =>
    exact h.expandLines ih visit false (newline_not_mem_splitLines visit.text)

theorem built_unbroken : Built Expansion.Unbroken where
  nil := nofun
  line _ _ htext hrest := List.forall_mem_cons.mpr ⟨htext, hrest⟩
  dropped _ _ _ hrest := hrest
  including _ _ _ hrest := hrest
  file expanded rest hexpanded hrest line hline := by
    rcases List.mem_append.mp hline with hmem | hmem
    · rcases mem_pushed hmem with rfl | hmem
      · exact List.not_mem_nil
      · exact hexpanded line hmem
    · exact hrest line hmem

theorem built_includesPlain : Built Expansion.IncludesPlain where
  nil := trivial
  line _ _ _ hrest := hrest
  dropped _ _ htest hrest := ⟨not_block_of_test htest, hrest⟩
  including _ _ htest hrest := ⟨not_block_of_test htest, hrest⟩
  file _ _ hexpanded hrest := ⟨hexpanded, hrest⟩

end Built

/-- Where the parser puts the directives of a text whose scopes are kept: each where the block line
says that it stands in by its own file, and those that stand in none are global. -/
theorem registers_of_scopesKept {e : Expansion} {text : JsString} (h : e.ScopesKept text)
    (toLowerCase : JsString → JsString) {place : ℕ} {line : ScopedLine}
    (hline : (e.scopedLines false 0 none)[place]? = some line) (hcovered : line.covered = true)
    (hoption : isOptionLine line.text = true) :
    (readLines toLowerCase ((splitLines text).take place)).registers =
      (line.scope.bind fun block => ((splitLines text).take place)[block]?.bind
        blockDirective).elim globalRegisters (blockRegisters toLowerCase) := by
  rw [registers_readLines, h place line hline hcovered hoption]

/-- The expansion of a text keeps the scopes of its files if and only if no directive of an included
file, and none behind an Include, stands in a block of another file. -/
theorem includeScopes_iff {σ : Type} (p : Platform) (options : ResolveSshIncludesOptions σ)
    (initialText : JsString) (files : σ) :
    (expandInitial p options initialText ⟨files, []⟩).1.ScopesKept
        (resolveSshIncludes p options initialText files).text ↔
      (expandInitial p options initialText ⟨files, []⟩).1.Contained false .global :=
  scopesKept_iff (built_unbroken.expandText _ _ _) (built_includesPlain.expandText _ _ _)

section Captured

/-- A reader that finds a file with one host, whatever the path. -/
def oneHostOptions : ResolveSshIncludesOptions Unit where
  readFile _ _ := pure (.resolved (some ⟨js "work", js "Host work\n  HostName work.example"⟩))
  globFiles := none
  baseDir := none
  maxDepth := none

/-- The user of a config that is meant for all of its hosts. -/
def capturedText : JsString := js "Include work\nUser root\nHost home"

/-- The user goes to the host of the included file. -/
theorem not_every_scope_kept :
    ¬ ∀ (p : Platform) (options : ResolveSshIncludesOptions Unit) (initialText : JsString)
      (files : Unit), (expandInitial p options initialText ⟨files, []⟩).1.ScopesKept
        (resolveSshIncludes p options initialText files).text := by
  intro h
  have hkept := h ⟨fun _ _ => .eq, fun _ => none⟩ oneHostOptions capturedText () 2
    ⟨js "User root", none, true⟩ rfl rfl (by decide +kernel)
  revert hkept
  decide +kernel

end Captured
end SshConfig
