import TerminalWorkspace.Sessions.WellFormed

/-! Whose history the output of a pane is appended to. A pane keeps the id that recording a command
answered with, while other panes record and the history is cut and cleared. -/
namespace Sessions
open JsText Inventory RecordFile Runs

/-- A call on the store: an action, or a pane's output appended through an id that it was given. -/
inductive PaneCall where
  | act (action : SessionsAction)
  | appendOutput (paneId entryId output : JsString)

/-- The store, and the ids that panes were given. -/
structure Attributed where
  store : SessionsStore
  obtained : List (JsString × JsString)

section Calls
variable (ids : UuidSource)

def recordPaneCommand (s : SessionsStore) (paneId command now : JsString) :
    Option JsString × SessionsStore :=
  let nextState := storeStep ids s (now, .recordPaneCommand paneId command)
  (nextState.commandHistory.head?.map (·.id), nextState)

def attributedStep (s : Attributed) (entry : JsString × PaneCall) : Attributed :=
  match entry.2 with
  | .act (.recordPaneCommand paneId command) =>
    let result := recordPaneCommand ids s.store paneId command entry.1
    { store := result.2
      obtained := s.obtained ++ (result.1.map fun id => (paneId, id)).toList }
  | .act action => { s with store := storeStep ids s.store (entry.1, action) }
  | .appendOutput paneId entryId output =>
    if (paneId, entryId) ∈ s.obtained then
      { s with store := storeStep ids s.store (entry.1, .appendCommandOutput entryId output) }
    else s

/-- A call that records answers with an id only for an entry that it added. -/
def AnswersOwnEntry (s : SessionsStore) (paneId command now : JsString) : Prop :=
  ∀ id ∈ (recordPaneCommand ids s paneId command now).1, ∃ entry, entry ∉ s.commandHistory ∧
    (recordPaneCommand ids s paneId command now).2.commandHistory =
      limitCommandHistory (entry :: s.commandHistory) ∧
    entry.id = id ∧ entry.paneId = paneId ∧ entry.command = trim isSpace command

/-- Output that is appended through an id of a pane changes entries of that pane alone. -/
def ChangesOwnEntries (s : Attributed) : Prop :=
  ∀ paneId entryId, (paneId, entryId) ∈ s.obtained → ∀ output now,
    List.Forall₂ (fun entry entry' => entry' = entry ∨ entry.paneId = paneId)
      s.store.commandHistory
      (storeStep ids s.store (now, .appendCommandOutput entryId output)).commandHistory

/-- A command is recorded for a pane that is there and is not blank, or nothing is recorded yet. -/
def RecordsOrEmpty (s : Attributed) : PaneCall → Prop
  | .act (.recordPaneCommand paneId command) =>
    (s.store.panes.get? paneId).isSome ∧ trim isSpace command ≠ [] ∨ s.store.commandHistory = []
  | _ => True

end Calls

section Recording
variable {ids : UuidSource} {s : SessionsStore} {paneId command now : JsString}

theorem recordPaneCommand_none (h : s.panes.get? paneId = none ∨ trim isSpace command = []) :
    (recordPaneCommand ids s paneId command now).2.commandHistory = s.commandHistory := by
  change (recordPaneCommandHistory s.toSessionsState _ _ _ _).commandHistory = _
  simp only [recordPaneCommandHistory]
  rcases h with h | h
  · rw [h]
  · split
    · rfl
    · rw [if_pos h]

theorem recordPaneCommand_some (hpane : (s.panes.get? paneId).isSome)
    (hcommand : trim isSpace command ≠ []) :
    ∃ entry, (recordPaneCommand ids s paneId command now).2.commandHistory =
        limitCommandHistory (entry :: s.commandHistory) ∧
      entry.id = ids.uuid s.issued ∧ entry.paneId = paneId ∧
        entry.command = trim isSpace command := by
  obtain ⟨pane, hpane⟩ := Option.isSome_iff_exists.mp hpane
  refine ⟨⟨ids.uuid s.issued, paneId, pane.hostId, pane.transport, trim isSpace command,
    (normalizePersistedPane pane).persistOutputPreview, none, none, now⟩, ?_, rfl, rfl, rfl⟩
  change (recordPaneCommandHistory s.toSessionsState _ _ _ _).commandHistory = _
  simp only [recordPaneCommandHistory]
  rw [hpane]
  dsimp only
  rw [if_neg hcommand]

theorem head?_limitCommandHistory (entry : SessionCommandHistoryEntry)
    (commandHistory : List SessionCommandHistoryEntry) :
    (limitCommandHistory (entry :: commandHistory)).head? = some entry := rfl

/-- A call that records nothing answers with the head of the history all the same. -/
theorem answersOwnEntry_iff (hids : ∀ entry ∈ s.commandHistory, Drawn ids s.issued entry.id) :
    AnswersOwnEntry ids s paneId command now ↔
      (s.panes.get? paneId).isSome ∧ trim isSpace command ≠ [] ∨ s.commandHistory = [] := by
  have hanswer : (recordPaneCommand ids s paneId command now).1 =
      (recordPaneCommand ids s paneId command now).2.commandHistory.head?.map (·.id) := rfl
  unfold AnswersOwnEntry
  rw [hanswer]
  by_cases hrecords : (s.panes.get? paneId).isSome ∧ trim isSpace command ≠ []
  · refine iff_of_true (fun id hid => ?_) (.inl hrecords)
    obtain ⟨entry, hhistory, hfresh, hpane, hcommand⟩ :=
      @recordPaneCommand_some ids s paneId command now hrecords.1 hrecords.2
    rw [hhistory, head?_limitCommandHistory] at hid
    refine ⟨entry, fun hold => ?_, hhistory, Option.some.inj hid, hpane, hcommand⟩
    obtain ⟨k, hk, hdrawn⟩ := hids entry hold
    exact absurd (ids.injective (hdrawn.symm.trans hfresh)) (Nat.ne_of_lt hk)
  · have hnone : s.panes.get? paneId = none ∨ trim isSpace command = [] := by
      by_contra hboth
      obtain ⟨hpane, hcommand⟩ := not_or.mp hboth
      exact hrecords ⟨Option.isSome_iff_ne_none.mpr hpane, hcommand⟩
    rw [or_iff_right hrecords, recordPaneCommand_none hnone]
    constructor
    · intro h
      by_contra hne
      obtain ⟨head, rest, hhistory⟩ := List.exists_cons_of_ne_nil hne
      obtain ⟨entry, hnew, hsame, -⟩ := h head.id (by rw [hhistory]; rfl)
      refine hnew ?_
      rw [hsame, hhistory]
      exact List.mem_cons_self
    · intro hempty
      rw [hempty]
      exact nofun

end Recording

section History
variable {ids : UuidSource} {n m : ℕ} {state : SessionsState}

/-- Every entry of the second history is an entry of the first, up to what is kept of its output. -/
def ComesFrom (before after : List SessionCommandHistoryEntry) : Prop :=
  ∀ entry' ∈ after, ∃ entry ∈ before, entry'.id = entry.id ∧ entry'.paneId = entry.paneId

theorem comesFrom_map {commandHistory : List SessionCommandHistoryEntry}
    {f : SessionCommandHistoryEntry → SessionCommandHistoryEntry}
    (h : ∀ entry, (f entry).id = entry.id ∧ (f entry).paneId = entry.paneId) :
    ComesFrom commandHistory (commandHistory.map f) := by
  intro entry' hentry'
  obtain ⟨entry, hentry, rfl⟩ := List.mem_map.mp hentry'
  exact ⟨entry, hentry, h entry⟩

theorem comesFrom_refl (commandHistory : List SessionCommandHistoryEntry) :
    ComesFrom commandHistory commandHistory := fun entry hentry => ⟨entry, hentry, rfl, rfl⟩

theorem comesFrom_sanitize (commandHistory : List SessionCommandHistoryEntry)
    (panes : OrderedMap JsString SessionPane) :
    ComesFrom commandHistory (sanitizePersistedCommandHistory commandHistory panes) := by
  intro entry' hentry'
  obtain ⟨entry, hentry, rfl⟩ := List.mem_map.mp hentry'
  refine ⟨entry, List.mem_of_mem_take hentry, ?_⟩
  unfold sanitizePersistedEntry
  split_ifs
  · exact ⟨rfl, rfl⟩
  · exact ⟨rfl, rfl⟩

theorem ComesFrom.trans {before between after : List SessionCommandHistoryEntry}
    (h : ComesFrom before between) (h' : ComesFrom between after) : ComesFrom before after := by
  intro entry'' hentry''
  obtain ⟨entry', hentry', hid', hpane'⟩ := h' entry'' hentry''
  obtain ⟨entry, hentry, hid, hpane⟩ := h entry' hentry'
  exact ⟨entry, hentry, hid'.trans hid, hpane'.trans hpane⟩

theorem comesFrom_append (entryId output now : JsString) :
    ComesFrom state.commandHistory
      (appendPaneCommandHistoryOutput state entryId output now).commandHistory := by
  simp only [appendPaneCommandHistoryOutput]
  split_ifs
  · exact comesFrom_refl _
  · refine comesFrom_map fun entry => ?_
    split_ifs
    · exact ⟨rfl, rfl⟩
    · exact ⟨rfl, rfl⟩

/-- Only recording makes an entry. -/
theorem comesFrom_perform (now : JsString) {action : SessionsAction}
    (hother : ∀ paneId command, action ≠ .recordPaneCommand paneId command) :
    ComesFrom state.commandHistory (perform ids state n now action).commandHistory := by
  cases action with
  | setPanePersistOutputPreview paneId persistOutputPreview =>
    change ComesFrom _ (updatePanePreviewPersistence state _ _ _).commandHistory
    unfold updatePanePreviewPersistence
    split
    · exact comesFrom_refl _
    · refine comesFrom_map fun entry => ?_
      split_ifs
      · exact ⟨rfl, rfl⟩
      · exact ⟨rfl, rfl⟩
  | recordPaneCommand paneId command => exact absurd rfl (hother paneId command)
  | appendCommandOutput entryId output => exact comesFrom_append entryId output now
  | clearCommandHistory => exact fun _ hentry => nomatch hentry
  | restart => exact (comesFrom_sanitize _ _).trans (comesFrom_sanitize _ _)
  | _ => exact comesFrom_refl _

end History

section Runs
variable {ids : UuidSource} {s : Attributed}

/-- The ids in use were drawn, and those that a pane was given are ids of its own entries. -/
structure Owned (ids : UuidSource) (s : Attributed) : Prop where
  entries : ∀ entry ∈ s.store.commandHistory, Drawn ids s.store.issued entry.id
  obtained : ∀ paneId id, (paneId, id) ∈ s.obtained → Drawn ids s.store.issued id
  own : ∀ paneId id, (paneId, id) ∈ s.obtained → ∀ entry ∈ s.store.commandHistory,
    entry.id = id → entry.paneId = paneId

/-- A step that makes no entry and gives out no id. -/
theorem Owned.comesFrom (h : Owned ids s) {store : SessionsStore}
    (hissued : s.store.issued ≤ store.issued)
    (hfrom : ComesFrom s.store.commandHistory store.commandHistory) :
    Owned ids { s with store := store } where
  entries entry' hentry' := by
    obtain ⟨entry, hentry, hid, -⟩ := hfrom entry' hentry'
    rw [hid]
    exact (h.entries entry hentry).mono hissued
  obtained paneId id hpair := (h.obtained paneId id hpair).mono hissued
  own paneId id hpair entry' hentry' hid' := by
    obtain ⟨entry, hentry, hid, hpane⟩ := hfrom entry' hentry'
    rw [hpane]
    exact h.own paneId id hpair entry hentry (hid.symm.trans hid')

theorem Owned.record (h : Owned ids s) {paneId command : JsString} (now : JsString)
    (hrecords : (s.store.panes.get? paneId).isSome ∧ trim isSpace command ≠ [] ∨
      s.store.commandHistory = []) :
    Owned ids (attributedStep ids s (now, .act (.recordPaneCommand paneId command))) := by
  have hstep : attributedStep ids s (now, .act (.recordPaneCommand paneId command)) =
      ⟨(recordPaneCommand ids s.store paneId command now).2, s.obtained ++
        (((recordPaneCommand ids s.store paneId command now).2.commandHistory.head?.map
          (·.id)).map fun id => (paneId, id)).toList⟩ := rfl
  have hissued : s.store.issued ≤ (recordPaneCommand ids s.store paneId command now).2.issued :=
    Nat.le_add_right _ _
  rw [hstep]
  by_cases hpane : (s.store.panes.get? paneId).isSome ∧ trim isSpace command ≠ []
  · obtain ⟨entry, hhistory, hid, hentry, -⟩ :=
      @recordPaneCommand_some ids s.store paneId command now hpane.1 hpane.2
    have hfresh : Drawn ids (recordPaneCommand ids s.store paneId command now).2.issued
        (ids.uuid s.store.issued) := ⟨s.store.issued, Nat.lt_succ_self _, rfl⟩
    have hnew : ∀ id, Drawn ids s.store.issued id → id ≠ ids.uuid s.store.issued := by
      rintro id ⟨k, hk, rfl⟩ heq
      exact absurd (ids.injective heq) (Nat.ne_of_lt hk)
    have hmem : ∀ other ∈ limitCommandHistory (entry :: s.store.commandHistory),
        other = entry ∨ other ∈ s.store.commandHistory := fun other hother =>
      List.mem_cons.mp (List.mem_of_mem_take hother)
    have hobtained : ∀ pair, pair ∈ s.obtained ++ (((limitCommandHistory
        (entry :: s.store.commandHistory)).head?.map (·.id)).map fun id => (paneId, id)).toList →
        pair ∈ s.obtained ∨ pair = (paneId, ids.uuid s.store.issued) := by
      intro pair hpair
      rw [head?_limitCommandHistory, Option.map_some, Option.map_some, hid] at hpair
      exact (List.mem_append.mp hpair).imp_right List.mem_singleton.mp
    refine ⟨fun other hother => ?_, fun pane id hpair => ?_, fun pane id hpair other hother heq => ?_⟩
    · rw [hhistory] at hother
      rcases hmem other hother with rfl | hold
      · rw [hid]
        exact hfresh
      · exact (h.entries other hold).mono hissued
    · rw [hhistory] at hpair
      rcases hobtained _ hpair with hold | hnewest
      · exact (h.obtained pane id hold).mono hissued
      · obtain ⟨rfl, rfl⟩ := Prod.mk.inj hnewest
        exact hfresh
    · rw [hhistory] at hother hpair
      rcases hmem other hother with rfl | hold <;> rcases hobtained _ hpair with hpair | hnewest
      · exact absurd (heq.symm.trans hid) (hnew id (h.obtained pane id hpair))
      · obtain ⟨rfl, rfl⟩ := Prod.mk.inj hnewest
        exact hentry
      · exact h.own pane id hpair other hold heq
      · obtain ⟨rfl, rfl⟩ := Prod.mk.inj hnewest
        exact absurd heq (hnew other.id (h.entries other hold))
  · have hempty : s.store.commandHistory = [] := hrecords.resolve_left hpane
    have hnone : s.store.panes.get? paneId = none ∨ trim isSpace command = [] := by
      by_contra hboth
      obtain ⟨hthere, hcommand⟩ := not_or.mp hboth
      exact hpane ⟨Option.isSome_iff_ne_none.mpr hthere, hcommand⟩
    have hhistory := (@recordPaneCommand_none ids s.store paneId command now hnone).trans hempty
    rw [hhistory]
    refine ⟨fun other hother => ?_, fun pane id hpair => ?_, fun pane id hpair other hother => ?_⟩
    · rw [hhistory] at hother
      cases hother
    · exact (h.obtained pane id (by simpa using hpair)).mono hissued
    · rw [hhistory] at hother
      cases hother

theorem Owned.step (h : Owned ids s) (entry : JsString × PaneCall)
    (hcall : RecordsOrEmpty s entry.2) : Owned ids (attributedStep ids s entry) := by
  obtain ⟨now, call⟩ := entry
  cases call with
  | appendOutput paneId entryId output =>
    unfold attributedStep
    dsimp only
    split_ifs
    · exact h.comesFrom (Nat.le_add_right _ _) (comesFrom_append _ _ _)
    · exact h
  | act action =>
    cases action with
    | recordPaneCommand paneId command => exact h.record now hcall
    | _ => exact h.comesFrom (Nat.le_add_right _ _) (comesFrom_perform now nofun)

theorem Owned.answers_iff (h : Owned ids s) (entry : JsString × PaneCall) :
    (∀ paneId command, entry.2 = .act (.recordPaneCommand paneId command) →
      AnswersOwnEntry ids s.store paneId command entry.1) ↔ RecordsOrEmpty s entry.2 := by
  obtain ⟨now, call⟩ := entry
  rcases call with (action | ⟨paneId, entryId, output⟩)
  · cases action with
    | recordPaneCommand paneId command =>
      refine Iff.trans ?_ (@answersOwnEntry_iff ids s.store paneId command now h.entries)
      refine ⟨fun hanswers => hanswers paneId command rfl, fun hanswers _ _ heq => ?_⟩
      obtain ⟨rfl, rfl⟩ := SessionsAction.recordPaneCommand.inj (PaneCall.act.inj heq)
      exact hanswers
    | _ => exact iff_of_true (fun _ _ heq => nomatch heq) trivial
  · exact iff_of_true (fun _ _ heq => nomatch heq) trivial

theorem Owned.changesOwnEntries (h : Owned ids s) : ChangesOwnEntries ids s := by
  intro paneId entryId hpair output now
  change List.Forall₂ _ _ (appendPaneCommandHistoryOutput s.store.toSessionsState _ _ _).commandHistory
  simp only [appendPaneCommandHistoryOutput]
  split_ifs
  · exact List.forall₂_same.mpr fun entry _ => .inl rfl
  · rw [List.forall₂_map_right_iff, List.forall₂_same]
    intro entry hentry
    split_ifs with hid
    · exact .inr (h.own paneId entryId hpair entry hentry hid)
    · exact .inl rfl

/-- Before anything is recorded. -/
def unattributed : Attributed := ⟨initialStore, []⟩

theorem attribution_iff (ids : UuidSource) (calls : List (JsString × PaneCall)) :
    (∀ first now call, first ++ [(now, call)] <+: calls →
        ∀ paneId command, call = .act (.recordPaneCommand paneId command) →
          AnswersOwnEntry ids (run (attributedStep ids) unattributed first).store paneId command
            now) ∧
      (∀ first, first <+: calls →
        ChangesOwnEntries ids (run (attributedStep ids) unattributed first)) ↔
      Allowed (attributedStep ids) (fun s entry => RecordsOrEmpty s entry.2) unattributed calls := by
  have hstart : Owned ids unattributed :=
    ⟨fun _ hentry => (nomatch hentry), fun _ _ hpair => (nomatch hpair),
      fun _ _ hpair => (nomatch hpair)⟩
  have hanswers : Allowed (attributedStep ids) (fun s entry => ∀ paneId command,
      entry.2 = .act (.recordPaneCommand paneId command) →
        AnswersOwnEntry ids s.store paneId command entry.1) unattributed calls ↔
      Allowed (attributedStep ids) (fun s entry => RecordsOrEmpty s entry.2) unattributed calls :=
    allowed_congr (fun s entry h => h.answers_iff entry) (fun s entry h hcall => h.step entry hcall)
      hstart
  constructor
  · rintro ⟨hown, -⟩
    refine hanswers.mp (allowed_iff.mpr fun first entry hfirst paneId command hcall => ?_)
    exact hown first entry.1 entry.2 hfirst paneId command hcall
  · intro hallowed
    refine ⟨fun first now call hfirst => ?_, fun first hfirst => ?_⟩
    · exact allowed_iff.mp (hanswers.mpr hallowed) first (now, call) hfirst
    · have howned : Owned ids (run (attributedStep ids) unattributed first) :=
        run_invariant (fun s entry h hcall => h.step entry hcall) hstart
          (hallowed.of_prefix hfirst)
      exact howned.changesOwnEntries

/-- One pane has recorded a command. Another one is closed, records a command all the same and is
given the id of the first. -/
def closedPaneCalls : List (JsString × PaneCall) :=
  [([], .act (.openSession (Connections.plainHost "a"))),
    ([], .act (.openSession (Connections.plainHost "b"))),
    ([], .act (.recordPaneCommand (sampleIds.uuid 0) (js "ls"))),
    ([], .act (.closeTab (sampleIds.uuid 3))),
    ([], .act (.recordPaneCommand (sampleIds.uuid 2) (js "pwd")))]

theorem closed_pane_is_given_another_entry :
    (run (attributedStep sampleIds) unattributed closedPaneCalls).obtained =
        [(sampleIds.uuid 0, sampleIds.uuid 4), (sampleIds.uuid 2, sampleIds.uuid 4)] ∧
      ¬ ChangesOwnEntries sampleIds
        (run (attributedStep sampleIds) unattributed closedPaneCalls) := by
  have hobtained : (run (attributedStep sampleIds) unattributed closedPaneCalls).obtained =
      [(sampleIds.uuid 0, sampleIds.uuid 4), (sampleIds.uuid 2, sampleIds.uuid 4)] := by
    decide +kernel
  refine ⟨hobtained, fun h => ?_⟩
  have hchanged := h (sampleIds.uuid 2) (sampleIds.uuid 4) (by rw [hobtained]; decide +kernel)
    (js "out") []
  revert hchanged
  decide +kernel

end Runs

end Sessions
