import TerminalWorkspace.Runbooks.Store

/-! The step to run next, while the steps are run and put in another order. -/
namespace Runbooks
open JsText Inventory RecordFile MovedItems Runs
open Sessions (SessionWorkspaceState)
open VaultStores (editWhere)

section Edits
variable {p : Platform} {runbooks : List RunbookRecord} {runbookId : JsString}
  {edit : RunbookRecord → RunbookRecord}

/-- The step to run next is a step or the end. -/
structure InBounds (runbook : RunbookRecord) : Prop where
  start : 0 ≤ runbook.nextStepIndex
  finish : runbook.nextStepIndex ≤ runbook.steps.length

theorem mem_sortRunbooks {runbook : RunbookRecord} :
    runbook ∈ sortRunbooks p runbooks ↔ runbook ∈ runbooks := mem_sortBy

theorem sortRunbooks_ids :
    ((sortRunbooks p runbooks).map (·.id)).Perm (runbooks.map (·.id)) :=
  (sortBy_perm _ runbooks).map _

theorem mem_editRunbook {runbook : RunbookRecord} :
    runbook ∈ editRunbook p runbooks runbookId edit ↔
      ∃ old ∈ runbooks, (if old.id = runbookId then edit old else old) = runbook := by
  simp only [editRunbook, mem_sortRunbooks, editWhere, List.mem_map, decide_eq_true_eq]

theorem editRunbook_ids (hedit : ∀ runbook, (edit runbook).id = runbook.id) :
    ((editRunbook p runbooks runbookId edit).map (·.id)).Perm (runbooks.map (·.id)) := by
  have hmap : (editWhere (fun runbook => runbook.id = runbookId) edit runbooks).map (·.id) =
      runbooks.map (·.id) := by
    rw [editWhere, List.map_map]
    refine List.map_congr_left fun runbook _ => ?_
    rw [Function.comp_apply]
    split_ifs
    · exact hedit runbook
    · rfl
  exact hmap ▸ sortRunbooks_ids

theorem editRunbook_nodup (h : (runbooks.map (·.id)).Nodup)
    (hedit : ∀ runbook, (edit runbook).id = runbook.id) :
    ((editRunbook p runbooks runbookId edit).map (·.id)).Nodup :=
  (editRunbook_ids hedit).nodup_iff.mpr h

theorem forall_editRunbook {P : RunbookRecord → Prop} (hall : ∀ runbook ∈ runbooks, P runbook)
    (hedit : ∀ runbook, P runbook → P (edit runbook)) :
    ∀ runbook ∈ editRunbook p runbooks runbookId edit, P runbook := by
  intro runbook hmem
  obtain ⟨old, hold, rfl⟩ := mem_editRunbook.mp hmem
  split_ifs
  · exact hedit old (hall old hold)
  · exact hall old hold

end Edits

section Moves
variable {length : ℕ} {fromIndex toIndex : StepIndex} {source target : ℕ}

theorem StepIndex.place_lt {index : StepIndex} {bound : ℕ} (hbelow : index.below 0 = false)
    (hat : index.atLeast length = false) (hbound : 0 < length) :
    index.place bound < length := by
  cases index with
  | nan => exact hbound
  | infinite negative =>
    simp only [below, atLeast, Bool.not_eq_false'] at hbelow hat
    exact absurd hat (by rw [hbelow]; exact Bool.false_ne_true)
  | finite q =>
    simp only [below, atLeast, decide_eq_false_iff_not, not_lt, not_le, Int.cast_zero] at hbelow hat
    have hfloor : q.floor < (length : ℤ) := Rat.floor_lt_iff.mpr hat
    rw [place, if_neg (not_lt.mpr hbelow)]
    omega

theorem movePlaces_lt (h : movePlaces length fromIndex toIndex = some (source, target))
    (hlength : 0 < length) : source < length ∧ target < length := by
  unfold movePlaces at h
  split_ifs at h with hout
  simp only [Bool.or_eq_true, not_or, Bool.not_eq_true] at hout
  obtain ⟨⟨⟨⟨-, hfrom⟩, hto⟩, hfromEnd⟩, htoEnd⟩ := hout
  obtain ⟨rfl, rfl⟩ := Prod.mk.inj (Option.some.inj h)
  exact ⟨StepIndex.place_lt hfrom hfromEnd hlength, StepIndex.place_lt hto htoEnd hlength⟩

/-- A runbook is as it was, or one of its steps is at another place. -/
theorem moveStep_cases (fromIndex toIndex : StepIndex) (now : JsString) (runbook : RunbookRecord) :
    (moveStep fromIndex toIndex now runbook = runbook ∧
      (movePlaces runbook.steps.length fromIndex toIndex = none ∨ runbook.steps = [])) ∨
    ∃ source target, movePlaces runbook.steps.length fromIndex toIndex = some (source, target) ∧
      source < runbook.steps.length ∧ target < runbook.steps.length ∧
      moveStep fromIndex toIndex now runbook =
        { runbook with steps := moveItem runbook.steps source target, updatedAt := now } := by
  unfold moveStep
  split
  · next hnone => exact .inl ⟨rfl, .inl hnone⟩
  · next source target hplaces =>
    split
    · next hnone =>
      have hempty : runbook.steps = [] := by
        by_contra hne
        have hlt := (movePlaces_lt hplaces (List.length_pos_iff.mpr hne)).1
        rw [List.getElem?_eq_getElem hlt] at hnone
        exact Option.some_ne_none _ hnone
      exact .inl ⟨rfl, .inr hempty⟩
    · next step hstep =>
      have hlt := (List.getElem?_eq_some_iff.mp hstep).1
      have hplace := movePlaces_lt hplaces (by omega)
      exact .inr ⟨source, target, hplaces, hplace.1, hplace.2, rfl⟩

theorem moveStep_id (fromIndex toIndex : StepIndex) (now : JsString) (runbook : RunbookRecord) :
    (moveStep fromIndex toIndex now runbook).id = runbook.id := by
  obtain ⟨h, -⟩ | ⟨source, target, -, -, -, h⟩ := moveStep_cases fromIndex toIndex now runbook <;>
    rw [h]

theorem moveStep_inBounds {fromIndex toIndex : StepIndex} {now : JsString}
    {runbook : RunbookRecord} (h : InBounds runbook) :
    InBounds (moveStep fromIndex toIndex now runbook) := by
  obtain ⟨heq, -⟩ | ⟨source, target, -, -, htarget, heq⟩ :=
    moveStep_cases fromIndex toIndex now runbook <;> rw [heq]
  · exact h
  · refine ⟨h.start, ?_⟩
    rw [(moveItem_perm htarget).length_eq]
    exact h.finish

end Moves

section Dispatch
variable {p : Platform} {runbooks : List RunbookRecord} {runbookId : JsString}

theorem dueStep_some {runbook : RunbookRecord} {step : JsString}
    (h : dueStep runbooks runbookId = some (runbook, step)) :
    runbook ∈ runbooks ∧ runbook.id = runbookId ∧ 0 ≤ runbook.nextStepIndex ∧
      runbook.steps[runbook.nextStepIndex.toNat]? = some step := by
  unfold dueStep at h
  split at h
  · exact absurd h (Option.some_ne_none _).symm
  · next found hfound =>
    split_ifs at h
    obtain ⟨read, hread, heq⟩ := Option.map_eq_some_iff.mp h
    obtain ⟨rfl, rfl⟩ := Prod.mk.inj heq
    unfold stepAt at hread
    split_ifs at hread with hneg
    exact ⟨List.mem_of_find?_eq_some hfound, by simpa using List.find?_some hfound,
      not_lt.mp hneg, hread⟩

/-- Nothing is run, or the step that is due goes to a pane. -/
theorem runNextStep_cases (s : RunbooksState) (runbookId : JsString)
    (sessions : SessionWorkspaceState) (fresh now : JsString) :
    perform p s now (.runNextStep runbookId sessions fresh) = s ∨
    ∃ runbook step, dueStep s.runbooks runbookId = some (runbook, step) ∧
      perform p s now (.runNextStep runbookId sessions fresh) =
        { runbooks := editRunbook p s.runbooks runbookId (advance now)
          dispatched := s.dispatched ++ [⟨runbookId, step⟩] } := by
  simp only [perform, runNextStep]
  cases hdue : dueStep s.runbooks runbookId with
  | none => exact .inl rfl
  | some due =>
    obtain ⟨runbook, step⟩ := due
    dsimp only
    cases dispatchCommandToActivePane sessions step (some runbook.name) fresh now with
    | none => exact .inl rfl
    | some queued => exact .inr ⟨runbook, step, rfl, rfl⟩

end Dispatch

section Bounds
variable (p : Platform)

theorem createRunbookRecord_inBounds (values : RunbookFormValues)
    (currentRunbook : Option RunbookRecord) (fresh now : JsString) :
    InBounds (createRunbookRecord values currentRunbook fresh now) :=
  ⟨le_max_left _ _, max_le (Int.natCast_nonneg _) (min_le_right _ _)⟩

theorem advance_inBounds {now : JsString} {runbook : RunbookRecord} (h : InBounds runbook) :
    InBounds (advance now runbook) := by
  refine ⟨?_, min_le_right _ _⟩
  have hstart := h.start
  have hfinish := h.finish
  simp only [advance]
  omega

/-- What the store keeps of every runbook. -/
theorem perform_inBounds {s : RunbooksState} (h : ∀ runbook ∈ s.runbooks, InBounds runbook)
    (now : JsString) (a : RunbookAction) :
    ∀ runbook ∈ (perform p s now a).runbooks, InBounds runbook := by
  cases a with
  | createRunbook values fresh =>
    intro runbook hmem
    rcases List.mem_append.mp (mem_sortRunbooks.mp hmem) with hold | hnew
    · exact h runbook hold
    · rw [List.mem_singleton.mp hnew]
      exact createRunbookRecord_inBounds values none fresh now
  | updateRunbook runbookId values =>
    exact forall_editRunbook h fun runbook _ => createRunbookRecord_inBounds _ _ _ _
  | reorderRunbookSteps runbookId fromIndex toIndex =>
    exact forall_editRunbook h fun runbook => moveStep_inBounds
  | deleteRunbook runbookId =>
    intro runbook hmem
    exact h runbook (List.mem_of_mem_filter (mem_sortRunbooks.mp hmem))
  | runNextStep runbookId sessions fresh =>
    obtain heq | ⟨runbook, step, -, heq⟩ :=
      runNextStep_cases (p := p) s runbookId sessions fresh now <;> rw [heq]
    · exact h
    · exact forall_editRunbook h fun runbook => advance_inBounds
  | resetRunbook runbookId =>
    exact forall_editRunbook h fun runbook _ => ⟨le_rfl, Int.natCast_nonneg _⟩
  | createRunbookFromCommand snippets snippetId fresh =>
    intro runbook hmem
    simp only [perform, createRunbookFromCommand] at hmem
    split at hmem
    · exact h runbook hmem
    · rcases List.mem_append.mp (mem_sortRunbooks.mp hmem) with hold | hnew
      · exact h runbook hold
      · rw [List.mem_singleton.mp hnew]
        exact ⟨le_max_left _ _, max_le (by simp) ((min_le_left _ _).trans (by simp))⟩

/-- The ids that are drawn are new ones. -/
def FreshIds (s : RunbooksState) (entry : JsString × RunbookAction) : Prop :=
  match entry.2 with
  | .createRunbook _ fresh => fresh ∉ s.runbooks.map (·.id)
  | .createRunbookFromCommand _ _ fresh => fresh ∉ s.runbooks.map (·.id)
  | _ => True

theorem nodup_add {runbooks : List RunbookRecord} {runbook : RunbookRecord}
    (h : (runbooks.map (·.id)).Nodup) (hfresh : runbook.id ∉ runbooks.map (·.id)) :
    ((sortRunbooks p (runbooks ++ [runbook])).map (·.id)).Nodup := by
  rw [sortRunbooks_ids.nodup_iff, List.map_append, List.map_singleton]
  exact List.nodup_append.mpr ⟨h, List.nodup_singleton _, fun id hid other hother =>
    fun heq => hfresh (List.mem_singleton.mp hother ▸ heq ▸ hid)⟩

theorem runbookStep_ids {s : RunbooksState} {entry : JsString × RunbookAction}
    (h : (s.runbooks.map (·.id)).Nodup) (hfresh : FreshIds s entry) :
    ((runbookStep p s entry).runbooks.map (·.id)).Nodup := by
  obtain ⟨now, a⟩ := entry
  cases a with
  | createRunbook values fresh => exact nodup_add p h hfresh
  | updateRunbook runbookId values => exact editRunbook_nodup h fun _ => rfl
  | reorderRunbookSteps runbookId fromIndex toIndex =>
    exact editRunbook_nodup h (moveStep_id fromIndex toIndex now)
  | deleteRunbook runbookId =>
    exact sortRunbooks_ids.nodup_iff.mpr (h.sublist (List.filter_sublist.map _))
  | runNextStep runbookId sessions fresh =>
    obtain heq | ⟨runbook, step, -, heq⟩ :=
      runNextStep_cases (p := p) s runbookId sessions fresh now <;> rw [runbookStep, heq]
    · exact h
    · exact editRunbook_nodup h fun _ => rfl
  | resetRunbook runbookId => exact editRunbook_nodup h fun _ => rfl
  | createRunbookFromCommand snippets snippetId fresh =>
    simp only [runbookStep, perform, createRunbookFromCommand]
    split
    · exact h
    · exact nodup_add p h hfresh

/-- The steps of a runbook with an id that went to a pane, in order. -/
def stepsOf (runbookId : JsString) (dispatched : List Dispatched) : List JsString :=
  (dispatched.filter fun entry => entry.runbookId = runbookId).map (·.step)

/-- The steps of a runbook that went to a pane since a state. -/
def ranSince (start s : RunbooksState) (runbookId : JsString) : List JsString :=
  stepsOf runbookId (s.dispatched.drop start.dispatched.length)

/-- The steps that ran and the steps that are left are the steps of the runbook. -/
structure EachStepOnce (start s : RunbooksState) (runbook : RunbookRecord) : Prop where
  counted : (ranSince start s runbook.id ++
    runbook.steps.drop runbook.nextStepIndex.toNat).Perm runbook.steps
  finished : runbook.nextStepIndex = runbook.steps.length →
    (ranSince start s runbook.id).Perm runbook.steps

theorem eachStepOnce_iff {start s : RunbooksState} {runbook : RunbookRecord} :
    EachStepOnce start s runbook ↔
      (ranSince start s runbook.id).Perm (runbook.steps.take runbook.nextStepIndex.toNat) := by
  have htake : (ranSince start s runbook.id ++
        runbook.steps.drop runbook.nextStepIndex.toNat).Perm
      (runbook.steps.take runbook.nextStepIndex.toNat ++
        runbook.steps.drop runbook.nextStepIndex.toNat) ↔
      (ranSince start s runbook.id).Perm (runbook.steps.take runbook.nextStepIndex.toNat) :=
    List.perm_append_right_iff _
  rw [List.take_append_drop] at htake
  refine ⟨fun h => htake.mp h.counted, fun h => ⟨htake.mpr h, fun hend => ?_⟩⟩
  rwa [hend, Int.toNat_natCast, List.take_length] at h

end Bounds

section Underway
variable {p : Platform} {start s : RunbooksState} {runbookId : JsString}

/-- What holds between a reset of a runbook and the next, as long as its steps run once. -/
structure Underway (start : RunbooksState) (runbookId : JsString) (s : RunbooksState) : Prop where
  bounds : ∀ runbook ∈ s.runbooks, InBounds runbook
  ids : (s.runbooks.map (·.id)).Nodup
  log : start.dispatched <+: s.dispatched
  once : ∀ runbook ∈ s.runbooks, runbook.id = runbookId → EachStepOnce start s runbook

def IsMove : RunbookAction → Prop
  | .runNextStep .. => True
  | .reorderRunbookSteps .. => True
  | _ => False

/-- A step that is moved over the step to run next changes places with one of its text. -/
def KeepsFront (runbookId : JsString) (s : RunbooksState) (entry : JsString × RunbookAction) :
    Prop :=
  match entry.2 with
  | .reorderRunbookSteps moved fromIndex toIndex =>
    moved = runbookId → ∀ runbook ∈ s.runbooks, runbook.id = runbookId → ∀ places,
      movePlaces runbook.steps.length fromIndex toIndex = some places →
        CrossesAlike runbook.steps places.1 places.2 runbook.nextStepIndex.toNat
  | _ => True

theorem eq_of_id {runbooks : List RunbookRecord} (h : (runbooks.map (·.id)).Nodup)
    {runbook other : RunbookRecord} (hmem : runbook ∈ runbooks) (hother : other ∈ runbooks)
    (hid : runbook.id = other.id) : runbook = other :=
  List.inj_on_of_nodup_map h hmem hother hid

theorem ranSince_concat (hlog : start.dispatched <+: s.dispatched) (runbooks : List RunbookRecord)
    (moved step id : JsString) :
    ranSince start { runbooks := runbooks, dispatched := s.dispatched ++ [⟨moved, step⟩] } id =
      ranSince start s id ++ if moved = id then [step] else [] := by
  rw [ranSince, List.drop_append_of_le_length hlog.length_le, stepsOf, List.filter_append,
    List.map_append, List.filter_singleton]
  split_ifs with heq <;> simp_all [ranSince, stepsOf]

/-- A step that runs is the one the runbook was to run next. -/
theorem Underway.runNext (h : Underway start runbookId s) {moved now : JsString}
    {runbook : RunbookRecord} {step : JsString}
    (hdue : dueStep s.runbooks moved = some (runbook, step)) :
    Underway start runbookId
      { runbooks := editRunbook p s.runbooks moved (advance now)
        dispatched := s.dispatched ++ [⟨moved, step⟩] } where
  bounds := forall_editRunbook h.bounds fun _ => advance_inBounds
  ids := editRunbook_nodup h.ids fun _ => rfl
  log := h.log.trans (List.prefix_append _ _)
  once := by
    intro next hnext hid
    obtain ⟨hmem, hmoved, hnonneg, hstep⟩ := dueStep_some hdue
    obtain ⟨old, hold, rfl⟩ := mem_editRunbook.mp hnext
    rw [eachStepOnce_iff, ranSince_concat h.log]
    split_ifs at hid ⊢ with hedit hsame hsame
    · -- The runbook that ran: its step joins the ones in front.
      obtain rfl := eq_of_id h.ids hold hmem (hedit.trans hmoved.symm)
      have hlt := (List.getElem?_eq_some_iff.mp hstep).1
      have hnext : (advance now old).nextStepIndex.toNat = old.nextStepIndex.toNat + 1 := by
        simp only [advance]
        omega
      have hbefore := eachStepOnce_iff.mp (h.once old hold hid)
      rw [hnext, List.take_add_one, show (advance now old).steps = old.steps from rfl, hstep]
      exact hbefore.append_right _
    · exact absurd hedit.symm hsame
    · exact absurd hsame.symm hedit
    · rw [List.append_nil]
      exact eachStepOnce_iff.mp (h.once old hold hid)

/-- A step that is moved leaves the account as it is just when what it changes places with over
the step to run next is of its text. -/
theorem eachStepOnce_moveStep_iff (h : Underway start runbookId s) {runbook : RunbookRecord}
    (hmem : runbook ∈ s.runbooks) (hid : runbook.id = runbookId) (fromIndex toIndex : StepIndex)
    (now : JsString) (runbooks : List RunbookRecord) :
    EachStepOnce start { s with runbooks := runbooks } (moveStep fromIndex toIndex now runbook) ↔
      ∀ places, movePlaces runbook.steps.length fromIndex toIndex = some places →
        CrossesAlike runbook.steps places.1 places.2 runbook.nextStepIndex.toNat := by
  have hbounds := h.bounds runbook hmem
  have hcount : runbook.nextStepIndex.toNat ≤ runbook.steps.length := by
    have hfinish := hbounds.finish
    omega
  have hbefore := h.once runbook hmem hid
  obtain ⟨heq, hout⟩ | ⟨source, target, hplaces, hsource, htarget, heq⟩ :=
    moveStep_cases fromIndex toIndex now runbook
  · rw [heq]
    refine iff_of_true ⟨hbefore.counted, hbefore.finished⟩ fun places hplaces => ?_
    rcases hout with hnone | hempty
    · exact absurd (hnone.symm.trans hplaces) (Option.some_ne_none _).symm
    · rw [hempty]
      exact ⟨fun _ _ => rfl, fun _ _ => rfl⟩
  · have hran := eachStepOnce_iff.mp hbefore
    rw [eachStepOnce_iff, moveStep_id, heq, hplaces]
    have hperm : (ranSince start { s with runbooks := runbooks } runbook.id).Perm
        ((moveItem runbook.steps source target).take runbook.nextStepIndex.toNat) ↔
        ((moveItem runbook.steps source target).take runbook.nextStepIndex.toNat).Perm
          (runbook.steps.take runbook.nextStepIndex.toNat) :=
      ⟨fun hnext => hnext.symm.trans hran, fun hnext => hran.trans hnext.symm⟩
    rw [hperm, take_moveItem_perm_iff hsource htarget hcount]
    exact ⟨fun hcross places hsome => Option.some.inj hsome ▸ hcross, fun hcross => hcross _ rfl⟩

/-- One run or one reorder. -/
theorem Underway.step_iff (h : Underway start runbookId s) {entry : JsString × RunbookAction}
    (hmove : IsMove entry.2) :
    (∀ runbook ∈ (runbookStep p s entry).runbooks, runbook.id = runbookId →
        EachStepOnce start (runbookStep p s entry) runbook) ↔ KeepsFront runbookId s entry := by
  obtain ⟨now, a⟩ := entry
  cases a with
  | runNextStep moved sessions fresh =>
    refine iff_of_true ?_ trivial
    obtain heq | ⟨runbook, step, hdue, heq⟩ :=
      runNextStep_cases (p := p) s moved sessions fresh now <;> rw [runbookStep, heq]
    · exact h.once
    · exact (h.runNext hdue).once
  | reorderRunbookSteps moved fromIndex toIndex =>
    constructor
    · rintro hall rfl runbook hmem hid
      refine (eachStepOnce_moveStep_iff h hmem hid fromIndex toIndex now _).mp (hall _ ?_ ?_)
      · exact mem_editRunbook.mpr ⟨runbook, hmem, if_pos hid⟩
      · exact (moveStep_id ..).trans hid
    · intro hkeeps runbook hmem hid
      obtain ⟨old, hold, rfl⟩ := mem_editRunbook.mp hmem
      split_ifs at hid ⊢ with hedit
      · have hold' := (moveStep_id ..).symm.trans hid
        exact (eachStepOnce_moveStep_iff h hold hold' fromIndex toIndex now _).mpr
          (hkeeps (hedit.symm.trans hold') old hold hold')
      · have hbefore := h.once old hold hid
        exact ⟨hbefore.counted, hbefore.finished⟩
  | _ => exact hmove.elim

theorem Underway.step (h : Underway start runbookId s) {entry : JsString × RunbookAction}
    (hmove : IsMove entry.2) (hkeeps : KeepsFront runbookId s entry) :
    Underway start runbookId (runbookStep p s entry) where
  bounds := perform_inBounds p h.bounds entry.1 entry.2
  ids := by
    refine runbookStep_ids p h.ids ?_
    obtain ⟨now, a⟩ := entry
    cases a with
    | runNextStep => trivial
    | reorderRunbookSteps => trivial
    | _ => exact hmove.elim
  log := by
    obtain ⟨now, a⟩ := entry
    cases a with
    | runNextStep moved sessions fresh =>
      obtain heq | ⟨runbook, step, -, heq⟩ :=
        runNextStep_cases (p := p) s moved sessions fresh now <;> rw [runbookStep, heq]
      · exact h.log
      · exact h.log.trans (List.prefix_append _ _)
    | reorderRunbookSteps => exact h.log
    | _ => exact hmove.elim
  once := (h.step_iff hmove).mpr hkeeps

/-- A reset is where the account starts. -/
theorem underway_reset (hbounds : ∀ runbook ∈ s.runbooks, InBounds runbook)
    (hids : (s.runbooks.map (·.id)).Nodup) (runbookId now : JsString) :
    Underway (runbookStep p s (now, .resetRunbook runbookId)) runbookId
      (runbookStep p s (now, .resetRunbook runbookId)) where
  bounds := perform_inBounds p hbounds now (.resetRunbook runbookId)
  ids := runbookStep_ids p hids trivial
  log := List.prefix_refl _
  once := by
    intro runbook hmem hid
    obtain ⟨old, hold, rfl⟩ := mem_editRunbook.mp hmem
    rw [eachStepOnce_iff, ranSince, List.drop_length]
    split_ifs at hid ⊢ with hreset
    · exact .nil
    · exact absurd hid hreset

end Underway

section Runs
variable {p : Platform}

theorem run_inBounds (p : Platform) (actions : List (JsString × RunbookAction)) :
    ∀ runbook ∈ (run (runbookStep p) emptyRunbooks actions).runbooks, InBounds runbook := by
  have hstep : ∀ (s : RunbooksState) (entry : JsString × RunbookAction),
      (∀ runbook ∈ s.runbooks, InBounds runbook) →
        ∀ runbook ∈ (runbookStep p s entry).runbooks, InBounds runbook :=
    fun s entry hs => perform_inBounds p hs entry.1 entry.2
  exact run_invariant_of_step hstep (List.forall_mem_nil _) actions

theorem run_ids {actions : List (JsString × RunbookAction)}
    (hfresh : Allowed (runbookStep p) FreshIds emptyRunbooks actions) :
    ((run (runbookStep p) emptyRunbooks actions).runbooks.map (·.id)).Nodup := by
  have hstep : ∀ (s : RunbooksState) (entry : JsString × RunbookAction),
      (s.runbooks.map (·.id)).Nodup → FreshIds s entry →
        ((runbookStep p s entry).runbooks.map (·.id)).Nodup :=
    fun s entry hs hentry => runbookStep_ids p hs hentry
  have hinit : (emptyRunbooks.runbooks.map (·.id)).Nodup := List.nodup_nil
  exact run_invariant hstep hinit hfresh

/-- The step to run next is in its bounds in every state; and from a reset on, as steps are run
and moved, each step runs once in every state just when no move takes a step over the step to
run next for one of another text. -/
theorem cursor_each_once_iff (p : Platform) {before moves : List (JsString × RunbookAction)}
    (hfresh : Allowed (runbookStep p) FreshIds emptyRunbooks before)
    (hmoves : ∀ entry ∈ moves, IsMove entry.2) (runbookId now : JsString) :
    (∀ actions, ∀ runbook ∈ (run (runbookStep p) emptyRunbooks actions).runbooks,
        InBounds runbook) ∧
      let start := runbookStep p (run (runbookStep p) emptyRunbooks before)
        (now, .resetRunbook runbookId)
      ((∀ first, first <+: moves → ∀ runbook ∈ (run (runbookStep p) start first).runbooks,
          runbook.id = runbookId → EachStepOnce start (run (runbookStep p) start first) runbook) ↔
        Allowed (runbookStep p) (KeepsFront runbookId) start moves) := by
  refine ⟨run_inBounds p, ?_⟩
  have hstart := underway_reset (p := p) (run_inBounds p before) (run_ids hfresh) runbookId now
  generalize runbookStep p (run (runbookStep p) emptyRunbooks before)
    (now, .resetRunbook runbookId) = start at hstart
  exact forall_run_iff_allowed (I := Underway start runbookId)
    (P := fun s => ∀ runbook ∈ s.runbooks, runbook.id = runbookId → EachStepOnce start s runbook)
    (fun _ hs => hs.once) (fun _ _ hs hmove => hs.step_iff hmove)
    (fun _ _ hs hmove hkeeps => hs.step hmove hkeeps) hstart (allowed_of_forall hmoves start)

/-- The texts stay in the order they have. -/
def keepsOrder : Platform := ⟨fun _ _ => .eq, fun _ => none⟩

/-- A workspace with one pane, and that in front. -/
def openPane : SessionWorkspaceState :=
  Sessions.appendTab ⟨[], .empty, none, none⟩
    ⟨js "pane", js "prod", js "prod", .connected, none, .ssh, none, [], false, none, [], []⟩
    ⟨js "tab", js "prod", js "prod", [js "pane"], js "pane", .vertical, none, [], []⟩ []

def deployRunbook (steps : String) : List (JsString × RunbookAction) :=
  [([], .createRunbook ⟨js "Deploy", none, js steps⟩ (js "deploy"))]

def runDeploy : JsString × RunbookAction := ([], .runNextStep (js "deploy") openPane (js "queued"))

/-- The first step, once it ran, is put behind the others. -/
def deployMoves : List (JsString × RunbookAction) :=
  [runDeploy, ([], .reorderRunbookSteps (js "deploy") (.finite 0) (.finite 2)), runDeploy, runDeploy]

/-- A new runbook of these steps, reset. -/
def deployReset (steps : String) : RunbooksState :=
  runbookStep keepsOrder (run (runbookStep keepsOrder) emptyRunbooks (deployRunbook steps))
    ([], .resetRunbook (js "deploy"))

theorem deployMoves_moves : ∀ entry ∈ deployMoves, IsMove entry.2 := by
  simp [deployMoves, runDeploy, IsMove]

theorem cursor_each_once_iff_same_text :
    ∃ runbook ∈ (run (runbookStep keepsOrder) (deployReset "one\none\nthree") deployMoves).runbooks,
      runbook.id = js "deploy" ∧ EachStepOnce (deployReset "one\none\nthree")
        (run (runbookStep keepsOrder) (deployReset "one\none\nthree") deployMoves) runbook := by
  have hfresh : Allowed (runbookStep keepsOrder) FreshIds emptyRunbooks
      (deployRunbook "one\none\nthree") := ⟨List.not_mem_nil, trivial⟩
  have honce := cursor_each_once_iff keepsOrder hfresh deployMoves_moves (js "deploy") []
  have hkeeps : Allowed (runbookStep keepsOrder) (KeepsFront (js "deploy"))
      (deployReset "one\none\nthree") deployMoves := by
    refine ⟨trivial, ?_, trivial, trivial, trivial⟩
    rintro - runbook hmem - places hplaces
    have hrunbooks : (run (runbookStep keepsOrder) (deployReset "one\none\nthree")
        [runDeploy]).runbooks = [⟨js "deploy", js "Deploy", none,
          [js "one", js "one", js "three"], 1, [], [], some []⟩] := by decide +kernel
    obtain rfl := List.mem_singleton.mp (hrunbooks ▸ hmem : runbook ∈ [_])
    have hmove : movePlaces 3 (.finite 0) (.finite 2) = some (0, 2) := by decide +kernel
    obtain rfl := Option.some.inj (hmove.symm.trans hplaces)
    exact ⟨fun _ _ => rfl, fun _ h => absurd h (by decide)⟩
  have hlast : ∃ runbook ∈ (run (runbookStep keepsOrder) (deployReset "one\none\nthree")
      deployMoves).runbooks, runbook.id = js "deploy" := by decide +kernel
  obtain ⟨runbook, hmem, hid⟩ := hlast
  exact ⟨runbook, hmem, hid, honce.2.mpr hkeeps deployMoves (List.prefix_refl _) runbook hmem hid⟩

/-- The first step runs a second time, and the second one does not run. -/
theorem moved_step_runs_twice :
    ¬ (∀ (p : Platform) (before moves : List (JsString × RunbookAction)) (runbookId now : JsString),
      Allowed (runbookStep p) FreshIds emptyRunbooks before → (∀ entry ∈ moves, IsMove entry.2) →
      let start := runbookStep p (run (runbookStep p) emptyRunbooks before)
        (now, .resetRunbook runbookId)
      ∀ runbook ∈ (run (runbookStep p) start moves).runbooks,
        runbook.id = runbookId → EachStepOnce start (run (runbookStep p) start moves) runbook) ∧
    ranSince (deployReset "one\ntwo\nthree") (run (runbookStep keepsOrder)
      (deployReset "one\ntwo\nthree") deployMoves) (js "deploy") =
        [js "one", js "three", js "one"] := by
  have hran : ranSince (deployReset "one\ntwo\nthree") (run (runbookStep keepsOrder)
      (deployReset "one\ntwo\nthree") deployMoves) (js "deploy") =
        [js "one", js "three", js "one"] := by decide +kernel
  have hrunbooks : (run (runbookStep keepsOrder) (deployReset "one\ntwo\nthree")
      deployMoves).runbooks = [⟨js "deploy", js "Deploy", none,
        [js "two", js "three", js "one"], 3, [], [], some []⟩] := by decide +kernel
  refine ⟨fun h => ?_, hran⟩
  have honce := (h keepsOrder (deployRunbook "one\ntwo\nthree") deployMoves (js "deploy") []
    ⟨List.not_mem_nil, trivial⟩ deployMoves_moves _ (hrunbooks ▸ List.mem_singleton_self _)
    rfl).finished rfl
  have htwo : js "two" ∈ [js "one", js "three", js "one"] := by
    rw [← hran]
    exact honce.mem_iff.mpr List.mem_cons_self
  exact absurd htwo (by decide +kernel)

end Runs
end Runbooks
