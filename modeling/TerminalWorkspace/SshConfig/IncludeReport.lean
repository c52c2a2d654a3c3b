import TerminalWorkspace.SshConfig.Scopes

/-! The expansion of Include directives with its report: which line, path entry and file led to
what, in the order in which it happened. Without the report it is the expansion itself. -/
namespace SshConfig
open JsText Inventory
open RecordFile (trim words)

inductive Report where
  | nil
  /-- A line that is pushed. -/
  | line (text : JsString) (rest : Report)
  | skip (record : SshConfigImportSkip) (rest : Report)
  /-- An Include inside a Host or Match block; its skip is behind it. -/
  | dropped (text : JsString) (rest : Report)
  /-- An Include outside of them; its path entries are behind it. -/
  | including (text : JsString) (rest : Report)
  | entry (path : JsString) (outcome rest : Report)
  /-- A file whose expansion is pushed. -/
  | file (visit : FileVisit) (expanded rest : Report)
  /-- A file beyond the depth limit, for which an empty line is pushed. -/
  | tooDeep (visit : FileVisit) (record : SshConfigImportSkip) (rest : Report)

namespace Report

def append : Report → Report → Report
  | .nil, last => last
  | .line text rest, last => .line text (rest.append last)
  | .skip record rest, last => .skip record (rest.append last)
  | .dropped text rest, last => .dropped text (rest.append last)
  | .including text rest, last => .including text (rest.append last)
  | .entry path outcome rest, last => .entry path outcome (rest.append last)
  | .file visit expanded rest, last => .file visit expanded (rest.append last)
  | .tooDeep visit record rest, last => .tooDeep visit record (rest.append last)

/-- What is pushed, in front of what comes behind it. -/
def onto : Report → Expansion → Expansion
  | .nil, last => last
  | .line text rest, last => .line text (rest.onto last)
  | .skip _ rest, last => rest.onto last
  | .dropped text rest, last => .dropped text (rest.onto last)
  | .including text rest, last => .including text (rest.onto last)
  | .entry _ outcome rest, last => outcome.onto (rest.onto last)
  | .file _ expanded rest, last => .file (expanded.onto .nil) (rest.onto last)
  | .tooDeep _ _ rest, last => .file .nil (rest.onto last)

def records : Report → List SshConfigImportSkip
  | .nil => []
  | .line _ rest | .dropped _ rest | .including _ rest => rest.records
  | .skip record rest | .tooDeep _ record rest => record :: rest.records
  | .entry _ outcome rest => outcome.records ++ rest.records
  | .file _ expanded rest => expanded.records ++ rest.records

theorem onto_append (r last : Report) (e : Expansion) :
    (r.append last).onto e = r.onto (last.onto e) := by
  induction r generalizing e with
  | nil => rfl
  | line text rest ih => exact congrArg (Expansion.line text) (ih e)
  | skip record rest ih => exact ih e
  | dropped text rest ih => exact congrArg (Expansion.dropped text) (ih e)
  | including text rest ih => exact congrArg (Expansion.including text) (ih e)
  | entry path outcome rest _ ih => exact congrArg outcome.onto (ih e)
  | file visit expanded rest _ ih => exact congrArg (Expansion.file (expanded.onto .nil)) (ih e)
  | tooDeep visit record rest ih => exact congrArg (Expansion.file .nil) (ih e)

theorem records_append (r last : Report) : (r.append last).records = r.records ++ last.records := by
  induction r with
  | nil => rfl
  | line text rest ih => exact ih
  | dropped text rest ih => exact ih
  | including text rest ih => exact ih
  | skip record rest ih => exact congrArg (record :: ·) ih
  | tooDeep visit record rest ih => exact congrArg (record :: ·) ih
  | entry path outcome rest _ ih =>
    exact (congrArg (outcome.records ++ ·) ih).trans (List.append_assoc _ _ _).symm
  | file visit expanded rest _ ih =>
    exact (congrArg (expanded.records ++ ·) ih).trans (List.append_assoc _ _ _).symm

end Report

section Reported
variable {σ : Type}

def includeSkip (detail : JsString) : SshConfigImportSkip := ⟨.includeDirective, detail⟩

def reportSkip (entry reason : JsString) : Report :=
  .skip (includeSkip (js "Include " ++ entry ++ js " (" ++ reason ++ js ")")) .nil

def reportEach {α : Type} (body : α → StateM σ Report) : List α → StateM σ Report
  | [] => pure .nil
  | item :: items => do
    let first ← body item
    let rest ← reportEach body items
    pure (first.append rest)

variable (p : Platform) (options : ResolveSshIncludesOptions σ)
  (recurse : FileVisit → StateM σ Report) (visit : FileVisit)

def reportFile (cycleKey content path : JsString) (onCycle : Report) : StateM σ Report :=
  if cycleKey ∈ visit.visited then pure onCycle
  else recurse
    { text := content
      currentBaseDir := dirnamePath path
      currentFile := some cycleKey
      visited := cycleKey :: visit.visited }

def reportMatch (entry pattern : JsString) (matchEntry : SshConfigGlobMatch) : StateM σ Report :=
  reportFile recurse visit matchEntry.cycleKey matchEntry.content
    (normalizePath matchEntry.name (dirnamePath pattern))
    (.skip (includeSkip (js "Include " ++ entry ++ js " matched file " ++ quote matchEntry.name ++
      js " (cycle)")) .nil)

def reportGlob (entry : JsString) : StateM σ Report :=
  match options.globFiles with
  | none => pure (reportSkip entry (js "glob unsupported"))
  | some globFiles => do
    let pattern := normalizePath entry visit.currentBaseDir
    match ← globFiles pattern (resolutionContext entry visit.currentFile) with
    | .rejected message => pure (reportSkip entry (js "glob error: " ++ message))
    | .resolved [] => pure (reportSkip entry (js "no matching files"))
    | .resolved found =>
      let ordered := sortBy (fun left right => p.localeCompare left.name right.name) found
      reportEach (reportMatch recurse visit entry pattern) ordered

def reportOutcome (entry : JsString) : StateM σ Report :=
  if hasGlobChar entry then reportGlob p options recurse visit entry
  else do
    let normalized := normalizePath entry visit.currentBaseDir
    match ← options.readFile normalized (resolutionContext entry visit.currentFile) with
    | .rejected message => pure (reportSkip entry (js "read error: " ++ message))
    | .resolved none => pure (reportSkip entry (js "not found or rejected"))
    | .resolved (some included) =>
      reportFile recurse visit included.cycleKey included.content normalized
        (reportSkip entry (js "cycle"))

def reportEntry (entry : JsString) : StateM σ Report := do
  let outcome ← reportOutcome p options recurse visit entry
  pure (.entry entry outcome .nil)

def reportLines : (insideConditionalBlock : Bool) → List JsString → StateM σ Report
  | _, [] => pure .nil
  | insideConditionalBlock, line :: lines =>
    if blockDirectiveTest line then do
      let rest ← reportLines true lines
      pure (.line line rest)
    else
      match matchInclude line with
      | none | some [] => do
        let rest ← reportLines insideConditionalBlock lines
        pure (.line line rest)
      | some rawValue =>
        if insideConditionalBlock then do
          let rest ← reportLines insideConditionalBlock lines
          pure (.dropped line (.skip (includeSkip (js "Include " ++ rawValue ++
            js " (conditional block unsupported)")) rest))
        else do
          let entries ← reportEach (reportEntry p options recurse visit) (words isSpace rawValue)
          let rest ← reportLines insideConditionalBlock lines
          pure (.including line (entries.append rest))

def reportText : (remaining : ℕ) → FileVisit → StateM σ Report
  | 0, visit => pure (.tooDeep visit (includeSkip (js "Include depth limit (" ++
      js (toString (options.maxDepth.getD defaultMaxDepth)) ++ js ") exceeded")) .nil)
  | remaining + 1, visit => do
    let expanded ← reportLines p options (reportText remaining) visit false (splitLines visit.text)
    pure (.file visit expanded .nil)

def reportInitial (initialText : JsString) : StateM σ Report :=
  reportText p options ((options.maxDepth.getD defaultMaxDepth) + 1).toNat
    { text := initialText
      currentBaseDir := options.baseDir.getD defaultBaseDir
      currentFile := none
      visited := [] }

end Reported

/-! ## The report is of the expansion -/

section Tells
variable {σ : Type} {α : Type}

/-- The expansion goes as its report says. -/
def Tells (Pushes : α → Report → Prop) (m : ExpandM σ α) (n : StateM σ Report) : Prop :=
  ∀ files skipped, Pushes (m ⟨files, skipped⟩).1 (n files).1 ∧
    (m ⟨files, skipped⟩).2 = ⟨(n files).2, skipped ++ (n files).1.records⟩

def PushesFiles (files : List Expansion) (r : Report) : Prop :=
  ∀ last, files.foldr .file last = r.onto last

def PushesLines (e : Expansion) (r : Report) : Prop := e = r.onto .nil

def PushesFile (e : Expansion) (r : Report) : Prop := ∀ last, .file e last = r.onto last

theorem tells_pure {Pushes : α → Report → Prop} {a : α} {r : Report} (h : Pushes a r)
    (hrecords : r.records = []) : Tells Pushes (pure a : ExpandM σ α) (pure r) := by
  intro files skipped
  refine ⟨h, ?_⟩
  rw [show ((pure r : StateM σ Report) files).1 = r from rfl, hrecords, List.append_nil]
  rfl

theorem tells_skipEntry (entry reason : JsString) :
    Tells PushesFiles (skipEntry entry reason : ExpandM σ (List Expansion))
      (pure (reportSkip entry reason)) := fun _ _ => ⟨fun _ => rfl, rfl⟩

/-- One step behind another: the reports are put together. -/
theorem Tells.bind {β γ : Type} {First : α → Report → Prop} {Next : β → Report → Prop}
    {Both : γ → Report → Prop} {m : ExpandM σ α} {n : StateM σ Report} {m' : ExpandM σ β}
    {n' : StateM σ Report} {f : α → β → γ} {g : Report → Report → Report}
    (h : Tells First m n) (h' : Tells Next m' n')
    (hboth : ∀ a r b r', First a r → Next b r' →
      Both (f a b) (g r r') ∧ (g r r').records = r.records ++ r'.records) :
    Tells Both (do let a ← m; let b ← m'; pure (f a b))
      (do let r ← n; let r' ← n'; pure (g r r')) := by
  intro files skipped
  obtain ⟨hfirst, hstate⟩ := h files skipped
  obtain ⟨hnext, hstate'⟩ := h' (n files).2 (skipped ++ (n files).1.records)
  have hm : (do let a ← m; let b ← m'; pure (f a b) : ExpandM σ γ) ⟨files, skipped⟩ =
      (f (m ⟨files, skipped⟩).1 (m' (m ⟨files, skipped⟩).2).1, (m' (m ⟨files, skipped⟩).2).2) := rfl
  have hn : (do let r ← n; let r' ← n'; pure (g r r') : StateM σ Report) files =
      (g (n files).1 (n' (n files).2).1, (n' (n files).2).2) := rfl
  obtain ⟨hpushes, hrecords⟩ := hboth _ _ _ _ hfirst hnext
  rw [hm, hn, hstate, hstate', hrecords, List.append_assoc]
  exact ⟨hpushes, rfl⟩

theorem Tells.map {β : Type} {First : α → Report → Prop} {Next : β → Report → Prop}
    {m : ExpandM σ α} {n : StateM σ Report} {f : α → β} {g : Report → Report}
    (h : Tells First m n)
    (hmap : ∀ a r, First a r → Next (f a) (g r) ∧ (g r).records = r.records) :
    Tells Next (do let a ← m; pure (f a)) (do let r ← n; pure (g r)) := by
  intro files skipped
  obtain ⟨hfirst, hstate⟩ := h files skipped
  obtain ⟨hpushes, hrecords⟩ := hmap _ _ hfirst
  refine ⟨hpushes, hstate.trans ?_⟩
  exact congrArg (fun records => Expanding.mk (n files).2 (skipped ++ records)) hrecords.symm

theorem tells_ask {γ : Type} {Pushes : α → Report → Prop} {call : StateM σ γ}
    {next : γ → ExpandM σ α} {next' : γ → StateM σ Report}
    (h : ∀ answer, Tells Pushes (next answer) (next' answer)) :
    Tells Pushes (do let answer ← ask call; next answer) (do let answer ← call; next' answer) :=
  fun files skipped => h (call files).1 (call files).2 skipped

end Tells
section Expansions
variable {σ : Type} {p : Platform} {options : ResolveSshIncludesOptions σ}
  {recurse : FileVisit → ExpandM σ Expansion} {report : FileVisit → StateM σ Report}

theorem PushesFiles.append {files files' : List Expansion} {r r' : Report}
    (h : PushesFiles files r) (h' : PushesFiles files' r') :
    PushesFiles (files ++ files') (r.append r') := by
  intro last
  rw [List.foldr_append, Report.onto_append, h' last, h]

theorem tells_forEach {α : Type} {body : α → ExpandM σ (List Expansion)}
    {body' : α → StateM σ Report} (h : ∀ item, Tells PushesFiles (body item) (body' item))
    (items : List α) : Tells PushesFiles (forEach body items) (reportEach body' items) := by
  induction items with
  | nil => exact tells_pure (fun _ => rfl) rfl
  | cons item items ih =>
    exact (h item).bind ih fun _ r _ r' hfirst hrest =>
      ⟨hfirst.append hrest, Report.records_append r r'⟩

theorem tells_expandFile (hrecurse : ∀ visit, Tells PushesFile (recurse visit) (report visit))
    (visit : FileVisit) (cycleKey content path : JsString)
    {onCycle : ExpandM σ (List Expansion)} {skipped : Report}
    (honCycle : Tells PushesFiles onCycle (pure skipped)) :
    Tells PushesFiles (expandFile recurse visit cycleKey content path onCycle)
      (reportFile report visit cycleKey content path skipped) := by
  rw [expandFile, reportFile]
  split_ifs
  · exact honCycle
  · intro files records
    obtain ⟨hpushes, hstate⟩ := hrecurse
      { text := content
        currentBaseDir := dirnamePath path
        currentFile := some cycleKey
        visited := cycleKey :: visit.visited } files records
    exact ⟨hpushes, hstate⟩

theorem tells_expandEntry (hrecurse : ∀ visit, Tells PushesFile (recurse visit) (report visit))
    (visit : FileVisit) (entry : JsString) :
    Tells PushesFiles (expandEntry p options recurse visit entry)
      (reportOutcome p options report visit entry) := by
  rw [expandEntry, reportOutcome, expandGlob, reportGlob]
  split_ifs
  · cases options.globFiles with
    | none => exact tells_skipEntry entry _
    | some globFiles =>
      refine tells_ask fun answer => ?_
      cases answer with
      | rejected message => exact tells_skipEntry entry _
      | resolved found =>
        cases found with
        | nil => exact tells_skipEntry entry _
        | cons first rest =>
          refine tells_forEach (fun matchEntry => ?_) _
          exact tells_expandFile hrecurse visit _ _ _ fun _ _ => ⟨fun _ => rfl, rfl⟩
  · refine tells_ask fun answer => ?_
    rcases answer with (_ | included) | message
    · exact tells_skipEntry entry _
    · exact tells_expandFile hrecurse visit _ _ _ (tells_skipEntry entry _)
    · exact tells_skipEntry entry _

theorem tells_reportEntry (hrecurse : ∀ visit, Tells PushesFile (recurse visit) (report visit))
    (visit : FileVisit) (entry : JsString) :
    Tells PushesFiles (expandEntry p options recurse visit entry)
      (reportEntry p options report visit entry) :=
  (tells_expandEntry hrecurse visit entry).map (f := id) fun _ r h =>
    ⟨h, List.append_nil r.records⟩

theorem tells_expandLines (hrecurse : ∀ visit, Tells PushesFile (recurse visit) (report visit))
    (visit : FileVisit) (insideConditionalBlock : Bool) (lines : List JsString) :
    Tells PushesLines (expandLines p options recurse visit insideConditionalBlock lines)
      (reportLines p options report visit insideConditionalBlock lines) := by
  induction lines generalizing insideConditionalBlock with
  | nil => exact tells_pure rfl rfl
  | cons line lines ih =>
    have hkept (inside : Bool) : Tells PushesLines (do
        let rest ← expandLines p options recurse visit inside lines
        pure (Expansion.line line rest)) (do
        let rest ← reportLines p options report visit inside lines
        pure (Report.line line rest)) :=
      (ih inside).map fun _ _ h => ⟨congrArg (Expansion.line line) h, rfl⟩
    rw [expandLines, reportLines]
    by_cases hblock : blockDirectiveTest line = true
    · rw [if_pos hblock, if_pos hblock]
      exact hkept true
    rw [if_neg hblock, if_neg hblock]
    rcases matchInclude line with - | (- | ⟨c, rest⟩)
    · exact hkept insideConditionalBlock
    · exact hkept insideConditionalBlock
    · simp only
      split_ifs
      · intro files skipped
        obtain ⟨hpushes, hstate⟩ := ih insideConditionalBlock files (skipped ++
          [includeSkip (js "Include " ++ (c :: rest) ++ js " (conditional block unsupported)")])
        refine ⟨congrArg (Expansion.dropped line) hpushes, hstate.trans ?_⟩
        rw [List.append_assoc]
        rfl
      · refine (tells_forEach (tells_reportEntry hrecurse visit) _).bind
          (ih insideConditionalBlock) ?_
        intro expansions r e r' hfiles hrest
        refine ⟨congrArg (Expansion.including line) ?_, Report.records_append r r'⟩
        rw [Report.onto_append, ← hrest, hfiles]

theorem tells_expandText (remaining : ℕ) (visit : FileVisit) :
    Tells PushesFile (expandText p options remaining visit)
      (reportText p options remaining visit) := by
  induction remaining generalizing visit with
  | zero => exact fun _ _ => ⟨fun _ => rfl, rfl⟩
  | succ remaining ih =>
    refine (tells_expandLines ih visit false (splitLines visit.text)).map (f := id) ?_
    exact fun _ r h => ⟨fun _ => congrArg (Expansion.file · _) h, List.append_nil r.records⟩

theorem tells_expandInitial (p : Platform) (options : ResolveSshIncludesOptions σ)
    (initialText : JsString) : Tells PushesFile (expandInitial p options initialText)
      (reportInitial p options initialText) := tells_expandText _ _

/-- The result is what the report says was pushed and skipped. -/
theorem resolveSshIncludes_report (p : Platform) (options : ResolveSshIncludesOptions σ)
    (initialText : JsString) (files : σ) :
    resolveSshIncludes p options initialText files =
      ⟨((reportInitial p options initialText files).1.onto .nil).text,
        (reportInitial p options initialText files).1.records⟩ := by
  obtain ⟨hpushes, hstate⟩ := tells_expandInitial p options initialText files []
  have hresult : resolveSshIncludes p options initialText files =
      ⟨(expandInitial p options initialText ⟨files, []⟩).1.text,
        (expandInitial p options initialText ⟨files, []⟩).2.skipped⟩ := rfl
  have hfile (e : Expansion) : (Expansion.file e .nil).text = e.text :=
    (List.intercalate_singleton : List.intercalate [newline] [e.text] = e.text)
  rw [hresult, hstate, ← hpushes .nil, hfile, List.nil_append]

theorem unbroken_reportInitial (p : Platform) (options : ResolveSshIncludesOptions σ)
    (initialText : JsString) (files : σ) :
    ((reportInitial p options initialText files).1.onto .nil).Unbroken := by
  have hpushes := (tells_expandInitial p options initialText files []).1
  rw [← hpushes .nil]
  exact built_unbroken.file _ _ (built_unbroken.expandText _ _ _) built_unbroken.nil

end Expansions

end SshConfig
