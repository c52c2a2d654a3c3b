import TerminalWorkspace.SshConfig.IncludeReport

/-! What an expansion of Includes accounts for: its chains of files end, and each line and each path
entry of an expanded file is pushed, expanded or skipped with a record. -/
namespace SshConfig
open JsText Inventory
open RecordFile (trim words)

/-- What the loop makes of a line. -/
inductive LineKind where
  | other
  | conditional (rawValue : JsString)
  | included (rawValue : JsString)

def lineKind (insideConditionalBlock : Bool) (line : JsString) : LineKind :=
  if blockDirectiveTest line then .other
  else
    match matchInclude line with
    | none | some [] => .other
    | some rawValue => if insideConditionalBlock then .conditional rawValue else .included rawValue

/-- The lines of a file. Those behind a Host or Match line are inside a block. -/
def lineKinds (insideConditionalBlock : Bool) : List JsString → List (JsString × LineKind)
  | [] => []
  | line :: lines =>
    (line, lineKind insideConditionalBlock line) ::
      lineKinds (insideConditionalBlock || blockDirectiveTest line) lines

def otherLine : JsString × LineKind → Option JsString
  | (line, .other) => some line
  | _ => none

def pathEntries : JsString × LineKind → List JsString
  | (_, .included rawValue) => words isSpace rawValue
  | _ => []

def conditionalSkip : JsString × LineKind → Option SshConfigImportSkip
  | (_, .conditional rawValue) =>
    some (includeSkip (js "Include " ++ rawValue ++ js " (conditional block unsupported)"))
  | _ => none

namespace Report

/-- The files that are expanded, each in front of those it is nested in. -/
def chains (above : List FileVisit) : Report → List (List FileVisit)
  | .nil => []
  | .line _ rest | .skip _ rest | .dropped _ rest | .including _ rest | .tooDeep _ _ rest =>
    rest.chains above
  | .entry _ outcome rest => outcome.chains above ++ rest.chains above
  | .file visit expanded rest =>
    (visit :: above) :: (expanded.chains (visit :: above) ++ rest.chains above)

/-- All files that are expanded, with their reports. -/
def files : Report → List (FileVisit × Report)
  | .nil => []
  | .line _ rest | .skip _ rest | .dropped _ rest | .including _ rest | .tooDeep _ _ rest =>
    rest.files
  | .entry _ outcome rest => outcome.files ++ rest.files
  | .file visit expanded rest => (visit, expanded) :: (expanded.files ++ rest.files)

/-- The lines of the file itself that are pushed. -/
def ownLines : Report → List JsString
  | .nil => []
  | .line text rest => text :: rest.ownLines
  | .skip _ rest | .dropped _ rest | .including _ rest | .tooDeep _ _ rest | .entry _ _ rest
  | .file _ _ rest => rest.ownLines

/-- The path entries of the file itself. -/
def ownEntries : Report → List (JsString × Report)
  | .nil => []
  | .entry path outcome rest => (path, outcome) :: rest.ownEntries
  | .line _ rest | .skip _ rest | .dropped _ rest | .including _ rest | .tooDeep _ _ rest
  | .file _ _ rest => rest.ownEntries

/-- The records of the file or path entry itself. -/
def ownRecords : Report → List SshConfigImportSkip
  | .nil => []
  | .skip record rest | .tooDeep _ record rest => record :: rest.ownRecords
  | .line _ rest | .dropped _ rest | .including _ rest | .entry _ _ rest | .file _ _ rest =>
    rest.ownRecords

/-- The files of the path entry itself that are expanded. -/
def ownFiles : Report → List FileVisit
  | .nil => []
  | .file visit _ rest => visit :: rest.ownFiles
  | .line _ rest | .skip _ rest | .dropped _ rest | .including _ rest | .tooDeep _ _ rest
  | .entry _ _ rest => rest.ownFiles

end Report

/-- A path entry brings in a file or adds a record. -/
def Contributes (outcome : Report) : Prop := outcome.ownFiles ≠ [] ∨ outcome.ownRecords ≠ []

/-- Every line and every path entry of some lines is accounted for. -/
structure Accounted (lines : List (JsString × LineKind)) (r : Report) : Prop where
  otherLines : r.ownLines = lines.filterMap otherLine
  pathEntries : r.ownEntries.map Prod.fst = lines.flatMap pathEntries
  conditional : r.ownRecords = lines.filterMap conditionalSkip
  outcomes : ∀ entry ∈ r.ownEntries, Contributes entry.2

section Composed
variable {σ : Type} (p : Platform) (options : ResolveSshIncludesOptions σ)
  {report : FileVisit → StateM σ Report} {P : Report → Prop}

/-- What holds of a report however its parts are put together. -/
structure Composed (P : Report → Prop) : Prop where
  nil : P .nil
  line : ∀ text rest, P rest → P (.line text rest)
  skip : ∀ record rest, P rest → P (.skip record rest)
  dropped : ∀ text rest, P rest → P (.dropped text rest)
  including : ∀ text rest, P rest → P (.including text rest)
  entry : ∀ path outcome rest, P outcome → P rest → P (.entry path outcome rest)
  append : ∀ r r', P r → P r' → P (r.append r')

/-- A visit of a file that is not being expanded yet. -/
def NestedIn (visit nested : FileVisit) : Prop :=
  ∃ cycleKey ∉ visit.visited, nested.currentFile = some cycleKey ∧
    nested.visited = cycleKey :: visit.visited

/-- Whatever the reader answers, the report has a property. -/
def Reports (n : StateM σ Report) (P : Report → Prop) : Prop := ∀ files, P (n files).1

theorem append_nil (r : Report) : r.append .nil = r := by
  induction r with
  | nil => rfl
  | line text rest ih => exact congrArg (Report.line text) ih
  | skip record rest ih => exact congrArg (Report.skip record) ih
  | dropped text rest ih => exact congrArg (Report.dropped text) ih
  | including text rest ih => exact congrArg (Report.including text) ih
  | entry path outcome rest _ ih => exact congrArg (Report.entry path outcome) ih
  | file visit expanded rest _ ih => exact congrArg (Report.file visit expanded) ih
  | tooDeep visit record rest ih => exact congrArg (Report.tooDeep visit record) ih

theorem reports_each {α : Type} (happend : ∀ r r', P r → P r' → P (r.append r'))
    {body : α → StateM σ Report} (hbody : ∀ item, Reports (body item) P) {items : List α}
    (hne : items ≠ []) : Reports (reportEach body items) P := by
  induction items with
  | nil => exact absurd rfl hne
  | cons item items ih =>
    intro files
    cases items with
    | nil =>
      have hone : (reportEach body [item] files).1 = (body item files).1 := append_nil _
      exact hone ▸ hbody item files
    | cons next items => exact happend _ _ (hbody item files) (ih (List.cons_ne_nil _ _) _)

theorem reports_file {visit : FileVisit} (hrecurse : ∀ nested, NestedIn visit nested →
    Reports (report nested) P) {cycleKey content path : JsString} {onCycle : Report}
    (honCycle : P onCycle) :
    Reports (reportFile report visit cycleKey content path onCycle) P := by
  rw [reportFile]
  split_ifs with hvisited
  · exact fun _ => honCycle
  · exact hrecurse _ ⟨cycleKey, hvisited, rfl, rfl⟩

theorem sortBy_ne_nil {α : Type} (compare : α → α → Ordering) {l : List α} (h : l ≠ []) :
    sortBy compare l ≠ [] := by
  intro hnil
  have hperm := sortBy_perm compare l
  rw [hnil] at hperm
  exact h hperm.nil_eq.symm

/-- An outcome is a skip, a file, or one or more of these. -/
theorem reports_outcome (hskip : ∀ record, P (.skip record .nil))
    (happend : ∀ r r', P r → P r' → P (r.append r')) {visit : FileVisit}
    (hrecurse : ∀ nested, NestedIn visit nested → Reports (report nested) P) (entry : JsString) :
    Reports (reportOutcome p options report visit entry) P := by
  intro files
  rw [reportOutcome, reportGlob]
  split_ifs
  · cases options.globFiles with
    | none => exact hskip _
    | some globFiles =>
      simp only [bind, StateT.bind]
      rcases globFiles _ _ files with ⟨⟨_ | ⟨first, rest⟩⟩ | message, files⟩
      · exact hskip _
      · exact reports_each happend (fun matchEntry => reports_file hrecurse (hskip _))
          (sortBy_ne_nil _ (List.cons_ne_nil _ _)) files
      · exact hskip _
  · simp only [bind, StateT.bind]
    rcases options.readFile _ _ files with ⟨⟨_ | included⟩ | message, files⟩
    · exact hskip _
    · exact reports_file hrecurse (hskip _) files
    · exact hskip _

theorem reports_entries (h : Composed P) {visit : FileVisit}
    (hrecurse : ∀ nested, NestedIn visit nested → Reports (report nested) P)
    (entries : List JsString) :
    Reports (reportEach (reportEntry p options report visit) entries) P := by
  cases entries with
  | nil => exact fun _ => h.nil
  | cons first rest =>
    refine reports_each h.append (fun entry files => ?_) (List.cons_ne_nil _ _)
    exact h.entry _ _ _ (reports_outcome p options (fun record => h.skip record .nil h.nil) h.append hrecurse
      entry files) h.nil

theorem reports_lines (h : Composed P) {visit : FileVisit}
    (hrecurse : ∀ nested, NestedIn visit nested → Reports (report nested) P)
    (insideConditionalBlock : Bool) (lines : List JsString) :
    Reports (reportLines p options report visit insideConditionalBlock lines) P := by
  induction lines generalizing insideConditionalBlock with
  | nil => exact fun _ => h.nil
  | cons line lines ih =>
    intro files
    rw [reportLines]
    by_cases hblock : blockDirectiveTest line = true
    · rw [if_pos hblock]
      exact h.line _ _ (ih true files)
    rw [if_neg hblock]
    rcases matchInclude line with - | (- | ⟨c, rest⟩)
    · exact h.line _ _ (ih insideConditionalBlock files)
    · exact h.line _ _ (ih insideConditionalBlock files)
    · simp only
      split_ifs
      · exact h.dropped _ _ (h.skip _ _ (ih insideConditionalBlock files))
      · exact h.including _ _ (h.append _ _ (reports_entries p options h hrecurse _ files)
          (ih insideConditionalBlock _))

end Composed
section Accounts
variable {σ : Type} (p : Platform) (options : ResolveSshIncludesOptions σ)
  {report : FileVisit → StateM σ Report}

theorem ownLines_append (r r' : Report) : (r.append r').ownLines = r.ownLines ++ r'.ownLines := by
  induction r with
  | nil => rfl
  | line text rest ih => exact congrArg (text :: ·) ih
  | skip record rest ih => exact ih
  | dropped text rest ih => exact ih
  | including text rest ih => exact ih
  | entry path outcome rest _ ih => exact ih
  | file visit expanded rest _ ih => exact ih
  | tooDeep visit record rest ih => exact ih

theorem ownEntries_append (r r' : Report) :
    (r.append r').ownEntries = r.ownEntries ++ r'.ownEntries := by
  induction r with
  | nil => rfl
  | line text rest ih => exact ih
  | skip record rest ih => exact ih
  | dropped text rest ih => exact ih
  | including text rest ih => exact ih
  | entry path outcome rest _ ih => exact congrArg ((path, outcome) :: ·) ih
  | file visit expanded rest _ ih => exact ih
  | tooDeep visit record rest ih => exact ih

theorem ownRecords_append (r r' : Report) :
    (r.append r').ownRecords = r.ownRecords ++ r'.ownRecords := by
  induction r with
  | nil => rfl
  | line text rest ih => exact ih
  | skip record rest ih => exact congrArg (record :: ·) ih
  | dropped text rest ih => exact ih
  | including text rest ih => exact ih
  | entry path outcome rest _ ih => exact ih
  | file visit expanded rest _ ih => exact ih
  | tooDeep visit record rest ih => exact congrArg (record :: ·) ih

theorem ownFiles_append (r r' : Report) : (r.append r').ownFiles = r.ownFiles ++ r'.ownFiles := by
  induction r with
  | nil => rfl
  | line text rest ih => exact ih
  | skip record rest ih => exact ih
  | dropped text rest ih => exact ih
  | including text rest ih => exact ih
  | entry path outcome rest _ ih => exact ih
  | file visit expanded rest _ ih => exact congrArg (visit :: ·) ih
  | tooDeep visit record rest ih => exact ih

theorem Contributes.append {r : Report} (h : Contributes r) (r' : Report) :
    Contributes (r.append r') := by
  rw [Contributes, ownFiles_append, ownRecords_append]
  exact h.imp (List.append_ne_nil_of_left_ne_nil · _) (List.append_ne_nil_of_left_ne_nil · _)

theorem reports_contributes {visit : FileVisit}
    (hrecurse : ∀ nested, NestedIn visit nested → Reports (report nested) Contributes)
    (entry : JsString) : Reports (reportOutcome p options report visit entry) Contributes :=
  reports_outcome p options (fun _ => .inr (List.cons_ne_nil _ _)) (fun _ r' h _ => h.append r') hrecurse entry

/-- The path entries of a line, one after the other. -/
theorem reports_ownEntries {visit : FileVisit}
    (hrecurse : ∀ nested, NestedIn visit nested → Reports (report nested) Contributes)
    (entries : List JsString) :
    Reports (reportEach (reportEntry p options report visit) entries) fun r =>
      r.ownLines = [] ∧ r.ownEntries.map Prod.fst = entries ∧ r.ownRecords = [] ∧
        ∀ entry ∈ r.ownEntries, Contributes entry.2 := by
  induction entries with
  | nil => exact fun _ => ⟨rfl, rfl, rfl, nofun⟩
  | cons entry entries ih =>
    intro files
    obtain ⟨hlines, hentries, hrecords, hall⟩ :=
      ih (reportEntry p options report visit entry files).2
    have hfirst := reports_contributes p options hrecurse entry files
    exact ⟨hlines, congrArg (entry :: ·) hentries, hrecords,
      List.forall_mem_cons.mpr ⟨hfirst, hall⟩⟩

theorem Accounted.line {lines : List (JsString × LineKind)} {r : Report} (h : Accounted lines r)
    (text : JsString) : Accounted ((text, .other) :: lines) (.line text r) :=
  ⟨congrArg (text :: ·) h.otherLines, h.pathEntries, h.conditional, h.outcomes⟩

theorem reports_accounted {visit : FileVisit}
    (hrecurse : ∀ nested, NestedIn visit nested → Reports (report nested) Contributes)
    (insideConditionalBlock : Bool) (lines : List JsString) :
    Reports (reportLines p options report visit insideConditionalBlock lines)
      (Accounted (lineKinds insideConditionalBlock lines)) := by
  induction lines generalizing insideConditionalBlock with
  | nil => exact fun _ => ⟨rfl, rfl, rfl, nofun⟩
  | cons line lines ih =>
    intro files
    rw [reportLines, lineKinds, lineKind]
    by_cases hblock : blockDirectiveTest line = true
    · rw [if_pos hblock, if_pos hblock, hblock, Bool.or_true]
      exact (ih true files).line line
    rw [if_neg hblock, if_neg hblock, Bool.eq_false_of_not_eq_true hblock, Bool.or_false]
    have hrest := ih insideConditionalBlock
    rcases matchInclude line with - | (- | ⟨c, rest⟩)
    · exact (hrest files).line line
    · exact (hrest files).line line
    · simp only
      split_ifs with hinside
      · obtain ⟨hother, hpaths, hconditional, houtcomes⟩ := hrest files
        exact ⟨hother, hpaths, congrArg (includeSkip _ :: ·) hconditional, houtcomes⟩
      · obtain ⟨hlines, hentries, hrecords, hall⟩ :=
          reports_ownEntries p options hrecurse (words isSpace (c :: rest)) files
        obtain ⟨hother, hpaths, hconditional, houtcomes⟩ := hrest
          (reportEach (reportEntry p options report visit) (words isSpace (c :: rest)) files).2
        refine ⟨?_, ?_, ?_, ?_⟩
        · exact (ownLines_append _ _).trans (by rw [hlines]; exact hother)
        · refine (congrArg (List.map Prod.fst) (ownEntries_append _ _)).trans ?_
          rw [List.map_append, hentries, List.flatMap_cons]
          exact congrArg _ hpaths
        · exact (ownRecords_append _ _).trans (by rw [hrecords]; exact hconditional)
        · intro entry hentry
          rcases List.mem_append.mp (ownEntries_append _ _ ▸ hentry) with hmem | hmem
          · exact hall entry hmem
          · exact houtcomes entry hmem

def AllAccounted (r : Report) : Prop :=
  ∀ file ∈ r.files, Accounted (lineKinds false (splitLines file.1.text)) file.2

theorem files_append (r r' : Report) : (r.append r').files = r.files ++ r'.files := by
  induction r with
  | nil => rfl
  | line text rest ih => exact ih
  | skip record rest ih => exact ih
  | dropped text rest ih => exact ih
  | including text rest ih => exact ih
  | entry path outcome rest _ ih =>
    exact (congrArg (outcome.files ++ ·) ih).trans (List.append_assoc _ _ _).symm
  | file visit expanded rest _ ih =>
    refine congrArg ((visit, expanded) :: ·) ?_
    exact (congrArg (expanded.files ++ ·) ih).trans (List.append_assoc _ _ _).symm
  | tooDeep visit record rest ih => exact ih

theorem composed_allAccounted : Composed AllAccounted where
  nil := nofun
  line _ _ h := h
  skip _ _ h := h
  dropped _ _ h := h
  including _ _ h := h
  entry _ _ _ h h' := List.forall_mem_append.mpr ⟨h, h'⟩
  append r r' h h' file hfile := by
    rcases List.mem_append.mp (files_append r r' ▸ hfile) with hmem | hmem
    · exact h file hmem
    · exact h' file hmem

theorem reportText_contributes (remaining : ℕ) (visit : FileVisit) :
    Reports (reportText p options remaining visit) Contributes := by
  intro files
  cases remaining with
  | zero => exact .inr (List.cons_ne_nil _ _)
  | succ remaining => exact .inl (List.cons_ne_nil _ _)

theorem reportText_accounted (remaining : ℕ) (visit : FileVisit) :
    Reports (reportText p options remaining visit) AllAccounted := by
  induction remaining generalizing visit with
  | zero => exact fun _ => nofun
  | succ remaining ih =>
    intro files
    have hlines := reports_lines p options composed_allAccounted
      (fun nested (_ : NestedIn visit nested) => ih nested) false (splitLines visit.text) files
    have hown := reports_accounted p options
      (fun nested (_ : NestedIn visit nested) => reportText_contributes p options remaining nested) false
      (splitLines visit.text) files
    exact List.forall_mem_cons.mpr ⟨hown, (List.append_nil _).symm ▸ hlines⟩

end Accounts

section Chains
variable {σ : Type} (p : Platform) (options : ResolveSshIncludesOptions σ)

def ChainsWithin (above : List FileVisit) (limit : ℕ) (r : Report) : Prop :=
  ∀ chain ∈ r.chains above,
    (chain.filterMap (·.currentFile)).Nodup ∧ chain ≠ [] ∧ chain.length ≤ limit

theorem chains_append (above : List FileVisit) (r r' : Report) :
    (r.append r').chains above = r.chains above ++ r'.chains above := by
  induction r with
  | nil => rfl
  | line text rest ih => exact ih
  | skip record rest ih => exact ih
  | dropped text rest ih => exact ih
  | including text rest ih => exact ih
  | entry path outcome rest _ ih =>
    exact (congrArg (outcome.chains above ++ ·) ih).trans (List.append_assoc _ _ _).symm
  | file visit expanded rest _ ih =>
    refine congrArg ((visit :: above) :: ·) ?_
    exact (congrArg (expanded.chains (visit :: above) ++ ·) ih).trans (List.append_assoc _ _ _).symm
  | tooDeep visit record rest ih => exact ih

theorem composed_chainsWithin (above : List FileVisit) (limit : ℕ) :
    Composed (ChainsWithin above limit) where
  nil := nofun
  line _ _ h := h
  skip _ _ h := h
  dropped _ _ h := h
  including _ _ h := h
  entry _ _ _ h h' := List.forall_mem_append.mpr ⟨h, h'⟩
  append r r' h h' chain hchain := by
    rcases List.mem_append.mp (chains_append above r r' ▸ hchain) with hmem | hmem
    · exact h chain hmem
    · exact h' chain hmem

/-- The cycle keys of a chain are those visited, and each file uses up one of the depths that are
left. -/
theorem reportText_chains (remaining : ℕ) {visit : FileVisit} {above : List FileVisit}
    (hkeys : (visit :: above).filterMap (·.currentFile) = visit.visited)
    (hnodup : visit.visited.Nodup) :
    Reports (reportText p options remaining visit)
      (ChainsWithin above (above.length + remaining)) := by
  induction remaining generalizing visit above with
  | zero => exact fun _ => nofun
  | succ remaining ih =>
    intro files
    have hnested : ∀ nested, NestedIn visit nested → Reports (reportText p options remaining nested)
        (ChainsWithin (visit :: above) ((visit :: above).length + remaining)) := by
      rintro nested ⟨cycleKey, hnew, hfile, hvisited⟩
      refine ih ?_ (hvisited ▸ List.nodup_cons.mpr ⟨hnew, hnodup⟩)
      rw [List.filterMap_cons_some hfile, hkeys, hvisited]
    have hlines := reports_lines p options (composed_chainsWithin _ _) hnested false
      (splitLines visit.text) files
    refine List.forall_mem_cons.mpr ⟨⟨hkeys ▸ hnodup, List.cons_ne_nil _ _, ?_⟩, ?_⟩
    · rw [List.length_cons]
      omega
    · intro chain hchain
      have hmem := (List.mem_append.mp hchain).resolve_right List.not_mem_nil
      obtain ⟨hchainNodup, hne, hlength⟩ := hlines chain hmem
      refine ⟨hchainNodup, hne, ?_⟩
      rw [List.length_cons] at hlength
      omega

end Chains

section Output

theorem outLines_suffix (r : Report) (last : Expansion) :
    last.outLines <:+ (r.onto last).outLines := by
  induction r generalizing last with
  | nil => exact List.suffix_refl _
  | line text rest ih => exact (ih last).trans (List.suffix_cons _ _)
  | skip record rest ih => exact ih last
  | dropped text rest ih => exact ih last
  | including text rest ih => exact ih last
  | entry path outcome rest ihOutcome ih => exact (ih last).trans (ihOutcome (rest.onto last))
  | file visit expanded rest _ ih => exact (ih last).trans (List.suffix_append _ _)
  | tooDeep visit record rest ih => exact (ih last).trans (List.suffix_append _ _)

theorem ownLines_sublist (r : Report) (last : Expansion) :
    r.ownLines.Sublist (r.onto last).outLines := by
  induction r generalizing last with
  | nil => exact List.nil_sublist _
  | line text rest ih => exact (ih last).cons_cons text
  | skip record rest ih => exact ih last
  | dropped text rest ih => exact ih last
  | including text rest ih => exact ih last
  | entry path outcome rest ihOutcome ih =>
    exact (ih last).trans (outLines_suffix outcome (rest.onto last)).sublist
  | file visit expanded rest _ ih => exact (ih last).trans (List.sublist_append_right _ _)
  | tooDeep visit record rest ih => exact (ih last).trans (List.sublist_append_right _ _)

theorem sublist_pushed {α : Type} (blank : α) (lines : List α) :
    lines.Sublist (pushed blank lines) := by
  cases lines with
  | nil => exact List.nil_sublist _
  | cons line lines => exact List.Sublist.refl _

theorem files_sublist {r : Report} {file : FileVisit × Report} (h : file ∈ r.files)
    (last : Expansion) : file.2.ownLines.Sublist (r.onto last).outLines := by
  induction r generalizing last with
  | nil => cases h
  | line text rest ih => exact (ih h last).trans (List.sublist_cons_self _ _)
  | skip record rest ih => exact ih h last
  | dropped text rest ih => exact ih h last
  | including text rest ih => exact ih h last
  | entry path outcome rest ihOutcome ih =>
    rcases List.mem_append.mp h with hmem | hmem
    · exact ihOutcome hmem (rest.onto last)
    · exact (ih hmem last).trans (outLines_suffix outcome (rest.onto last)).sublist
  | file visit expanded rest ihExpanded ih =>
    have hexpanded : (expanded.onto .nil).outLines.Sublist
        ((Report.file visit expanded rest).onto last).outLines :=
      (sublist_pushed [] _).trans (List.sublist_append_left _ _)
    rcases List.mem_cons.mp h with rfl | hmem
    · exact (ownLines_sublist expanded .nil).trans hexpanded
    · rcases List.mem_append.mp hmem with hmem | hmem
      · exact (ihExpanded hmem .nil).trans hexpanded
      · exact (ih hmem last).trans (List.sublist_append_right _ _)
  | tooDeep visit record rest ih => exact (ih h last).trans (List.sublist_append_right _ _)

theorem ownRecords_subset (r : Report) : r.ownRecords ⊆ r.records := by
  induction r with
  | nil => exact List.Subset.refl _
  | line text rest ih => exact ih
  | dropped text rest ih => exact ih
  | including text rest ih => exact ih
  | skip record rest ih => exact List.cons_subset_cons record ih
  | tooDeep visit record rest ih => exact List.cons_subset_cons record ih
  | entry path outcome rest _ ih => exact List.subset_append_of_subset_right _ ih
  | file visit expanded rest _ ih => exact List.subset_append_of_subset_right _ ih

/-- The parts of a report are part of what it tells. -/
structure PartOf (part r : Report) : Prop where
  records : part.records ⊆ r.records
  files : part.files ⊆ r.files

theorem partOf_ownEntries {r : Report} {entry : JsString × Report} (h : entry ∈ r.ownEntries) :
    PartOf entry.2 r := by
  induction r with
  | nil => cases h
  | line text rest ih => exact ⟨(ih h).records, (ih h).files⟩
  | skip record rest ih => exact ⟨List.subset_cons_of_subset _ (ih h).records, (ih h).files⟩
  | dropped text rest ih => exact ⟨(ih h).records, (ih h).files⟩
  | including text rest ih => exact ⟨(ih h).records, (ih h).files⟩
  | entry path outcome rest _ ih =>
    rcases List.mem_cons.mp h with rfl | hmem
    · exact ⟨List.subset_append_left _ _, List.subset_append_left _ _⟩
    · exact ⟨List.subset_append_of_subset_right _ (ih hmem).records,
        List.subset_append_of_subset_right _ (ih hmem).files⟩
  | file visit expanded rest _ ih =>
    exact ⟨List.subset_append_of_subset_right _ (ih h).records,
      List.subset_cons_of_subset _ (List.subset_append_of_subset_right _ (ih h).files)⟩
  | tooDeep visit record rest ih =>
    exact ⟨List.subset_cons_of_subset _ (ih h).records, (ih h).files⟩

theorem partOf_files {r : Report} {file : FileVisit × Report} (h : file ∈ r.files) :
    PartOf file.2 r := by
  induction r with
  | nil => cases h
  | line text rest ih => exact ⟨(ih h).records, (ih h).files⟩
  | skip record rest ih => exact ⟨List.subset_cons_of_subset _ (ih h).records, (ih h).files⟩
  | dropped text rest ih => exact ⟨(ih h).records, (ih h).files⟩
  | including text rest ih => exact ⟨(ih h).records, (ih h).files⟩
  | entry path outcome rest ihOutcome ih =>
    rcases List.mem_append.mp h with hmem | hmem
    · exact ⟨List.subset_append_of_subset_left _ (ihOutcome hmem).records,
        List.subset_append_of_subset_left _ (ihOutcome hmem).files⟩
    · exact ⟨List.subset_append_of_subset_right _ (ih hmem).records,
        List.subset_append_of_subset_right _ (ih hmem).files⟩
  | file visit expanded rest ihExpanded ih =>
    rcases List.mem_cons.mp h with rfl | hmem
    · exact ⟨List.subset_append_left _ _,
        List.subset_cons_of_subset _ (List.subset_append_left _ _)⟩
    rcases List.mem_append.mp hmem with hmem | hmem
    · exact ⟨List.subset_append_of_subset_left _ (ihExpanded hmem).records,
        List.subset_cons_of_subset _ (List.subset_append_of_subset_left _ (ihExpanded hmem).files)⟩
    · exact ⟨List.subset_append_of_subset_right _ (ih hmem).records,
        List.subset_cons_of_subset _ (List.subset_append_of_subset_right _ (ih hmem).files)⟩
  | tooDeep visit record rest ih =>
    exact ⟨List.subset_cons_of_subset _ (ih h).records, (ih h).files⟩

theorem ownFiles_files {r : Report} {visit : FileVisit} (h : visit ∈ r.ownFiles) :
    ∃ expanded, (visit, expanded) ∈ r.files := by
  induction r with
  | nil => cases h
  | line text rest ih => exact ih h
  | skip record rest ih => exact ih h
  | dropped text rest ih => exact ih h
  | including text rest ih => exact ih h
  | entry path outcome rest _ ih =>
    obtain ⟨expanded, hmem⟩ := ih h
    exact ⟨expanded, List.mem_append_right _ hmem⟩
  | file other expanded rest _ ih =>
    rcases List.mem_cons.mp h with rfl | hmem
    · exact ⟨expanded, List.mem_cons_self⟩
    · obtain ⟨expanded', hmem⟩ := ih hmem
      exact ⟨expanded', List.mem_cons_of_mem _ (List.mem_append_right _ hmem)⟩
  | tooDeep visit record rest ih => exact ih h

end Output

/-- The account of a whole expansion. -/
structure ExpansionAccounted (maxDepth : ℤ) (result : ResolveSshIncludesResult)
    (r : Report) : Prop where
  told : result = ⟨(r.onto .nil).text, r.records⟩
  chains : ∀ chain ∈ r.chains [],
    (chain.filterMap (·.currentFile)).Nodup ∧ (chain.length : ℤ) ≤ maxDepth + 1
  lines : ∀ file ∈ r.files, Accounted (lineKinds false (splitLines file.1.text)) file.2
  pushed : ∀ file ∈ r.files, file.2.ownLines.Sublist (result.text.splitOn newline)
  conditional : ∀ file ∈ r.files, file.2.ownRecords ⊆ result.skipped
  outcomes : ∀ file ∈ r.files, ∀ entry ∈ file.2.ownEntries,
    (∃ visit ∈ entry.2.ownFiles, ∃ expanded, (visit, expanded) ∈ r.files) ∨
      ∃ record ∈ entry.2.ownRecords, record ∈ result.skipped

theorem resolveSshIncludes_accounted {σ : Type} (p : Platform)
    (options : ResolveSshIncludesOptions σ) (initialText : JsString) (files : σ) :
    ExpansionAccounted (options.maxDepth.getD defaultMaxDepth)
      (resolveSshIncludes p options initialText files)
      (reportInitial p options initialText files).1 := by
  have hreport := resolveSshIncludes_report p options initialText files
  have haccounted : AllAccounted (reportInitial p options initialText files).1 :=
    reportText_accounted p options _ _ files
  refine ⟨hreport, ?_, haccounted, fun file hfile => ?_, fun file hfile => ?_,
    fun file hfile entry hentry => ?_⟩
  · intro chain hchain
    obtain ⟨hnodup, hne, hlength⟩ :=
      reportText_chains p options _ rfl List.nodup_nil files chain hchain
    have hpos := List.length_pos_of_ne_nil hne
    rw [List.length_nil, Nat.zero_add] at hlength
    exact ⟨hnodup, by omega⟩
  · rw [hreport, splitOn_text (unbroken_reportInitial p options initialText files)]
    exact (files_sublist hfile .nil).trans (sublist_pushed [] _)
  · rw [hreport]
    exact List.Subset.trans (ownRecords_subset file.2) (partOf_files hfile).records
  · rcases (haccounted file hfile).outcomes entry hentry with hfiles | hrecords
    · obtain ⟨visit, hvisit⟩ := List.exists_mem_of_ne_nil _ hfiles
      obtain ⟨expanded, hexpanded⟩ := ownFiles_files hvisit
      exact .inl ⟨visit, hvisit, expanded,
        (partOf_files hfile).files ((partOf_ownEntries hentry).files hexpanded)⟩
    · obtain ⟨record, hrecord⟩ := List.exists_mem_of_ne_nil _ hrecords
      rw [hreport]
      exact .inr ⟨record, hrecord, (partOf_files hfile).records
        ((partOf_ownEntries hentry).records (ownRecords_subset entry.2 hrecord))⟩

end SshConfig
