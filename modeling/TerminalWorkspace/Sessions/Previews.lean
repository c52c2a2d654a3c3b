import TerminalWorkspace.Sessions.WellFormed

/-! Output previews in the history: none is persisted for a pane whose latest preference is
against it, also once the pane is closed. -/
namespace Sessions
open JsText Inventory RecordFile Runs

section Keeping
variable (ids : UuidSource)

/-- A pane that is there after an action was there before, with the same host and the same
preference, unless its id is drawn by the action. -/
def KeepsPanes (n : ℕ) (state state' : SessionWorkspaceState) : Prop :=
  ∀ paneId, Drawn ids n paneId → ∀ pane', state'.panes.get? paneId = some pane' →
    ∃ pane, state.panes.get? paneId = some pane ∧ pane'.hostId = pane.hostId ∧
      pane'.persistOutputPreview = pane.persistOutputPreview

variable {ids} {n m : ℕ} {state state' state'' : SessionWorkspaceState}

theorem KeepsPanes.of_panes (h : state'.panes = state.panes) : KeepsPanes ids n state state' := by
  intro paneId _ pane' hget
  exact ⟨pane', h ▸ hget, rfl, rfl⟩

theorem KeepsPanes.trans (h : KeepsPanes ids n state state')
    (h' : KeepsPanes ids m state' state'') (hle : n ≤ m) : KeepsPanes ids n state state'' := by
  intro paneId hdrawn pane'' hget
  obtain ⟨pane', hget', hhost', hpreview'⟩ := h' paneId (hdrawn.mono hle) pane'' hget
  obtain ⟨pane, hpane, hhost, hpreview⟩ := h paneId hdrawn pane' hget'
  exact ⟨pane, hpane, hhost'.trans hhost, hpreview'.trans hpreview⟩

/-- Panes are removed, and the others are left as they are. -/
theorem KeepsPanes.of_removed
    (h : ∀ paneId pane', state'.panes.get? paneId = some pane' →
      state.panes.get? paneId = some pane') : KeepsPanes ids n state state' :=
  fun paneId _ pane' hget => ⟨pane', h paneId pane' hget, rfl, rfl⟩

theorem KeepsPanes.set_fresh {paneId : JsString} (h : ¬ Drawn ids n paneId) {pane : SessionPane}
    (hpanes : state'.panes = state.panes.set paneId pane) : KeepsPanes ids n state state' := by
  intro id hdrawn pane' hget
  have hne : id ≠ paneId := by
    rintro rfl
    exact h hdrawn
  rw [hpanes, OrderedMap.get?_set, if_neg hne] at hget
  exact ⟨pane', hget, rfl, rfl⟩

theorem KeepsPanes.updatePane (paneId now : JsString) {update : SessionPane → SessionPane}
    (h : ∀ pane, (update pane).hostId = pane.hostId ∧
      (update pane).persistOutputPreview = pane.persistOutputPreview) :
    KeepsPanes ids n state (updatePane state paneId now update) := by
  intro id _ pane' hget
  rw [get?_updatePane] at hget
  obtain ⟨pane, hpane, rfl⟩ := Option.map_eq_some_iff.mp hget
  refine ⟨pane, hpane, ?_⟩
  split_ifs
  · exact h pane
  · exact ⟨rfl, rfl⟩

theorem fresh_not_drawn (ids : UuidSource) {n k : ℕ} (h : n ≤ k) : ¬ Drawn ids n (ids.uuid k) :=
  Fresh.not_drawn (m := k + 1) ⟨k, h, by omega, rfl⟩

theorem KeepsPanes.openSession (host : HostRecord) {k : ℕ} (hk : n ≤ k) (freshTab now : JsString) :
    KeepsPanes ids n state (openSessionWorkspace state host (ids.uuid k) freshTab now) := by
  unfold openSessionWorkspace
  split
  · exact .of_panes rfl
  · exact .set_fresh (fresh_not_drawn ids hk) rfl

theorem KeepsPanes.closeTab (tabId : JsString) :
    KeepsPanes ids n state (closeSessionTab state tabId) := by
  unfold closeSessionTab
  split
  · exact .of_panes rfl
  · refine .of_removed fun paneId pane' hget => ?_
    rw [OrderedMap.get?_eraseAll] at hget
    split_ifs at hget
    exact hget

theorem KeepsPanes.closePane (tabId paneId now : JsString) :
    KeepsPanes ids n state (removeSessionPane state tabId paneId now) := by
  unfold removeSessionPane
  split
  · exact .of_panes rfl
  · rename_i tab _
    by_cases hlength : tab.paneIds.length ≤ 1
    · rw [if_pos hlength]
      exact .closeTab tabId
    · rw [if_neg hlength]
      refine .of_removed fun id pane' hget => ?_
      rw [OrderedMap.get?_erase] at hget
      split_ifs at hget
      exact hget

theorem KeepsPanes.closeHost (h : Arranged ids n state) (hostId : JsString) :
    KeepsPanes ids n state (closePanesForHost state hostId) := by
  refine .of_removed fun paneId pane' hsome => ?_
  rw [(closePanesForHost_spec h.tabIds h.activeTab hostId).2.1] at hsome
  split_ifs at hsome
  exact hsome

theorem KeepsPanes.toggle (paneId now : JsString) :
    KeepsPanes ids n state (togglePaneConnection state paneId now) := by
  unfold togglePaneConnection
  split
  · exact .of_panes rfl
  · exact .updatePane _ _ fun _ => ⟨rfl, rfl⟩

theorem KeepsPanes.queueForHost (command : JsString) (label : Option JsString) (now : JsString)
    (q : Queueing) (host : HostRecord) :
    KeepsPanes ids q.issued q.state (Sessions.queueForHost ids command label now q host).state := by
  have hopened : KeepsPanes ids q.issued q.state (openSessionWorkspace q.state host
      (ids.uuid q.issued) (ids.uuid (q.issued + 1)) now) := .openSession host le_rfl _ now
  simp only [Sessions.queueForHost]
  split
  · exact hopened
  · exact hopened.trans (.updatePane _ _ fun _ => ⟨rfl, rfl⟩) le_rfl

theorem KeepsPanes.queueForHosts (command : JsString) (label : Option JsString) (now : JsString)
    (hosts : List HostRecord) (q : Queueing) :
    KeepsPanes ids q.issued q.state
      (hosts.foldl (Sessions.queueForHost ids command label now) q).state := by
  induction hosts generalizing q with
  | nil => exact .of_panes rfl
  | cons host hosts ih =>
    refine (KeepsPanes.queueForHost command label now q host).trans (ih _) ?_
    rw [queueForHost_issued]
    omega

theorem Arranged.keepsPanes (h : Arranged ids n state) (now : JsString) (action : SessionsAction) :
    KeepsPanes ids n state (Sessions.performWorkspace ids state n now action) := by
  cases action with
  | openSession host => exact .openSession host le_rfl _ now
  | duplicateSession host baseTitle => exact .set_fresh (fresh_not_drawn ids le_rfl) rfl
  | selectTab tabId =>
    refine .of_panes ?_
    show (setActiveSessionTab state tabId).panes = state.panes
    unfold setActiveSessionTab
    split_ifs <;> rfl
  | cycleTab direction =>
    refine .of_panes ?_
    show (cycleSessionTab state direction).panes = state.panes
    rcases cycleSessionTab_activeTabId state direction with hsame | ⟨tab, -, hset⟩
    · rw [hsame]
    · rw [hset]
  | closeTab tabId => exact .closeTab tabId
  | splitTab tabId host =>
    show KeepsPanes ids n state (splitSessionPane state tabId host (ids.uuid n) now)
    unfold splitSessionPane
    split
    · exact .of_panes rfl
    · exact .set_fresh (fresh_not_drawn ids le_rfl) rfl
  | closePane tabId paneId => exact .closePane tabId paneId now
  | closePanesForHost hostId => exact .closeHost h hostId
  | setPaneState => exact .updatePane _ _ fun _ => ⟨rfl, rfl⟩
  | setPaneReconnectOnRestore => exact .updatePane _ _ fun _ => ⟨rfl, rfl⟩
  | setPaneTransport => exact .updatePane _ _ fun _ => ⟨rfl, rfl⟩
  | setPaneBackendSession => exact .updatePane _ _ fun _ => ⟨rfl, rfl⟩
  | queuePaneCommand =>
    apply KeepsPanes.updatePane
    exact fun _ => ⟨rfl, rfl⟩
  | consumePaneCommand =>
    apply KeepsPanes.updatePane
    exact fun _ => ⟨rfl, rfl⟩
  | queueCommandForHosts hosts command label =>
    exact .queueForHosts command label now hosts ⟨state, [], n⟩
  | togglePaneConnection paneId => exact .toggle paneId now
  | setSplitRatio tabId ratio =>
    refine .of_panes ?_
    cases ratio <;> rfl
  | reorderTab fromIndex toIndex =>
    exact .of_panes (reorderSessionTabs_spec state fromIndex toIndex).2.1
  | importReset => exact fun _ _ _ hget => nomatch hget
  | selectPane | setSplitDirection | setPanePersistOutputPreview | appendCommandOutput |
    clearCommandHistory | restart | recordPaneCommand => exact .of_panes rfl

end Keeping

section Preferences
variable (ids : UuidSource)

/-- The preferences after an action: one counts if the pane that it is set on is there. -/
def notePreference (s : SessionsStore) (preferences : JsString → Option Bool) :
    SessionsAction → JsString → Option Bool
  | .setPanePersistOutputPreview paneId persistOutputPreview => fun id =>
    if id = paneId ∧ (s.panes.get? paneId).isSome then some persistOutputPreview
    else preferences id
  | _ => preferences

/-- The store with the preference last set on each pane. -/
def preferenceStep (s : SessionsStore × (JsString → Option Bool))
    (entry : JsString × SessionsAction) : SessionsStore × (JsString → Option Bool) :=
  (storeStep ids s.1 entry, notePreference s.1 s.2 entry.2)

/-- The preference last set on each pane before it was closed. -/
def latestPreference (actions : List (JsString × SessionsAction)) : JsString → Option Bool :=
  (run (preferenceStep ids) (initialStore, fun _ => none) actions).2

variable {ids}

theorem run_preferenceStep_fst (s : SessionsStore) (preferences : JsString → Option Bool)
    (actions : List (JsString × SessionsAction)) :
    (run (preferenceStep ids) (s, preferences) actions).1 = run (storeStep ids) s actions := by
  induction actions generalizing s preferences with
  | nil => rfl
  | cons entry actions ih => exact ih _ _

/-- The pane and all entries of its history are against previews. -/
structure OptedOut (ids : UuidSource) (n : ℕ) (state : SessionsState) (paneId : JsString) :
    Prop where
  drawn : Drawn ids n paneId
  pane : ∀ pane, state.panes.get? paneId = some pane → pane.persistOutputPreview = some false
  entries : ∀ entry ∈ state.commandHistory, entry.paneId = paneId →
    entry.persistOutputPreview = some false

variable {n : ℕ} {state : SessionsState} {paneId : JsString}

theorem resolvePersistOutputPreview_off {panes : OrderedMap JsString SessionPane}
    {entry : SessionCommandHistoryEntry}
    (hpane : ∀ pane, panes.get? entry.paneId = some pane → pane.persistOutputPreview = some false)
    (hentry : entry.persistOutputPreview = some false) :
    resolvePersistOutputPreview entry panes = false := by
  unfold resolvePersistOutputPreview
  split
  · rename_i pane hget
    rw [hpane pane hget]
    rfl
  · rw [hentry]
    rfl

theorem sanitizePersistedEntry_off {panes : OrderedMap JsString SessionPane}
    {entry : SessionCommandHistoryEntry}
    (h : resolvePersistOutputPreview entry panes = false) :
    sanitizePersistedEntry panes entry =
      { entry with
        persistOutputPreview := some false
        outputPreview := none
        outputUpdatedAt := none } := by
  rw [sanitizePersistedEntry, h]
  exact if_neg Bool.false_ne_true

theorem sanitizePersistedEntry_paneId (panes : OrderedMap JsString SessionPane)
    (entry : SessionCommandHistoryEntry) :
    (sanitizePersistedEntry panes entry).paneId = entry.paneId := by
  unfold sanitizePersistedEntry
  split_ifs <;> rfl

/-- Sanitized twice, a pane has the preference that it had, or the default. -/
theorem sanitizePersistedPane_preview (pane : SessionPane) :
    (sanitizePersistedPane pane).persistOutputPreview =
      some (pane.persistOutputPreview.getD true) :=
  rfl

/-- What is persisted of a workspace and a history that are against the previews of a pane. -/
theorem OptedOut.sanitize {panes : OrderedMap JsString SessionPane}
    {commandHistory : List SessionCommandHistoryEntry}
    (hpane : ∀ pane, panes.get? paneId = some pane → pane.persistOutputPreview = some false)
    (hentries : ∀ entry ∈ commandHistory, entry.paneId = paneId →
      entry.persistOutputPreview = some false) :
    (∀ pane, (panes.mapValues sanitizePersistedPane).get? paneId = some pane →
        pane.persistOutputPreview = some false) ∧
      ∀ entry ∈ sanitizePersistedCommandHistory commandHistory
        (panes.mapValues sanitizePersistedPane), entry.paneId = paneId →
          entry.persistOutputPreview = some false ∧ entry.outputPreview = none ∧
            entry.outputUpdatedAt = none := by
  have hsanitized : ∀ pane, (panes.mapValues sanitizePersistedPane).get? paneId = some pane →
      pane.persistOutputPreview = some false := by
    intro pane hget
    rw [OrderedMap.get?_mapValues] at hget
    obtain ⟨old, hold, rfl⟩ := Option.map_eq_some_iff.mp hget
    rw [sanitizePersistedPane_preview, hpane old hold]
    rfl
  refine ⟨hsanitized, fun entry hentry hid => ?_⟩
  obtain ⟨old, hold, rfl⟩ := List.mem_map.mp hentry
  rw [sanitizePersistedEntry_paneId] at hid
  subst hid
  rw [sanitizePersistedEntry_off
    (resolvePersistOutputPreview_off hsanitized (hentries old (List.mem_of_mem_take hold) rfl))]
  exact ⟨rfl, rfl, rfl⟩

theorem OptedOut.workspace (h : OptedOut ids n state paneId)
    {workspace : SessionWorkspaceState} {m : ℕ} (hle : n ≤ m)
    (hkeeps : KeepsPanes ids n state.toSessionWorkspaceState workspace)
    {commandHistory : List SessionCommandHistoryEntry}
    (hentries : ∀ entry ∈ commandHistory, entry.paneId = paneId →
      entry.persistOutputPreview = some false) :
    OptedOut ids m { workspace with commandHistory := commandHistory } paneId where
  drawn := h.drawn.mono hle
  pane := by
    intro pane' hget
    obtain ⟨pane, hpane, -, hpreview⟩ := hkeeps paneId h.drawn pane' hget
    exact hpreview.trans (h.pane pane hpane)
  entries := hentries

theorem OptedOut.record (h : OptedOut ids n state paneId) (id command fresh now : JsString) {m : ℕ}
    (hle : n ≤ m) :
    OptedOut ids m (recordPaneCommandHistory state id command fresh now) paneId := by
  simp only [recordPaneCommandHistory]
  split
  · exact ⟨h.drawn.mono hle, h.pane, h.entries⟩
  · rename_i pane hget
    split_ifs
    · exact ⟨h.drawn.mono hle, h.pane, h.entries⟩
    · refine ⟨h.drawn.mono hle, h.pane, fun entry hentry hid => ?_⟩
      rcases List.mem_cons.mp (List.mem_of_mem_take hentry) with rfl | hentry
      · dsimp only at hid
        subst hid
        show some (pane.persistOutputPreview.getD true) = some false
        rw [h.pane pane hget]
        rfl
      · exact h.entries entry hentry hid

theorem OptedOut.append (h : OptedOut ids n state paneId) (entryId output now : JsString) :
    OptedOut ids n (appendPaneCommandHistoryOutput state entryId output now) paneId := by
  simp only [appendPaneCommandHistoryOutput]
  split_ifs
  · exact h
  · refine ⟨h.drawn, h.pane, fun entry hentry hid => ?_⟩
    obtain ⟨old, hold, rfl⟩ := List.mem_map.mp hentry
    split_ifs at hid ⊢
    · exact h.entries old hold hid
    · exact h.entries old hold hid

theorem OptedOut.restart (h : OptedOut ids n state paneId) (now : JsString) :
    OptedOut ids n (merge (partialize state now) initialSessions) paneId := by
  obtain ⟨hpane, hentries⟩ := OptedOut.sanitize h.pane h.entries
  obtain ⟨hpane', hentries'⟩ := OptedOut.sanitize hpane fun entry hentry hid =>
    (hentries entry hentry hid).1
  exact ⟨h.drawn, hpane', fun entry hentry hid => (hentries' entry hentry hid).1⟩

/-- A preference against previews, set on a pane that is there. -/
theorem OptedOut.set (h : Arranged ids n state.toSessionWorkspaceState)
    (hthere : (state.panes.get? paneId).isSome) (now : JsString) :
    OptedOut ids n (updatePanePreviewPersistence state paneId false now) paneId := by
  obtain ⟨pane, hget⟩ := Option.isSome_iff_exists.mp hthere
  have hpanes := congrArg SessionWorkspaceState.panes
    (updatePanePreviewPersistence_workspace state paneId false now)
  refine ⟨(h.panes paneId pane hget).2, fun pane' hget' => ?_, fun entry hentry hid => ?_⟩
  · rw [hpanes, get?_updatePane_self, hget] at hget'
    obtain rfl := Option.some.inj hget'
    rfl
  · rw [updatePanePreviewPersistence, hget] at hentry
    obtain ⟨old, hold, rfl⟩ := List.mem_map.mp hentry
    split_ifs at hid ⊢ with hold'
    · rfl
    · exact absurd hid hold'

/-- A preference that is set on another pane, or on one that is not there. -/
theorem OptedOut.set_other (h : OptedOut ids n state paneId) {id : JsString}
    (hother : paneId = id → state.panes.get? id = none) (persistOutputPreview : Bool)
    (now : JsString) :
    OptedOut ids n (updatePanePreviewPersistence state id persistOutputPreview now) paneId := by
  cases hget : state.panes.get? id with
  | none =>
    have hsame : updatePanePreviewPersistence state id persistOutputPreview now = state := by
      rw [updatePanePreviewPersistence, hget]
    rwa [hsame]
  | some pane =>
    have hne : paneId ≠ id := by
      intro heq
      rw [hother heq] at hget
      cases hget
    have hpanes := congrArg SessionWorkspaceState.panes
      (updatePanePreviewPersistence_workspace state id persistOutputPreview now)
    refine ⟨h.drawn, fun pane' hget' => ?_, fun entry hentry hid => ?_⟩
    · rw [hpanes, get?_updatePane_other _ _ _ _ hne] at hget'
      exact h.pane pane' hget'
    · rw [updatePanePreviewPersistence, hget] at hentry
      obtain ⟨old, hold, rfl⟩ := List.mem_map.mp hentry
      have hkept : old.paneId ≠ id := by
        intro heq
        rw [if_pos heq] at hid
        exact hne (hid.symm.trans heq)
      rw [if_neg hkept] at hid ⊢
      exact h.entries old hold hid

/-- A pane whose latest preference is against previews has opted out. -/
def Respected (ids : UuidSource) (s : SessionsStore × (JsString → Option Bool)) : Prop :=
  StoreArranged ids s.1 ∧
    ∀ paneId, s.2 paneId = some false → OptedOut ids s.1.issued s.1.toSessionsState paneId

theorem OptedOut.perform (h : OptedOut ids n state paneId)
    (harranged : Arranged ids n state.toSessionWorkspaceState) (now : JsString)
    {action : SessionsAction}
    (hother : ∀ id persistOutputPreview,
      action = .setPanePersistOutputPreview id persistOutputPreview →
      paneId = id → state.panes.get? id = none) :
    OptedOut ids (n + action.draws) (perform ids state n now action) paneId := by
  cases action with
  | setPanePersistOutputPreview id persistOutputPreview =>
    exact h.set_other (hother id persistOutputPreview rfl) persistOutputPreview now
  | recordPaneCommand id command => exact h.record id command (ids.uuid n) now (Nat.le_succ n)
  | appendCommandOutput entryId output => exact h.append entryId output now
  | clearCommandHistory => exact ⟨h.drawn, h.pane, fun _ hentry => nomatch hentry⟩
  | restart => exact h.restart now
  | _ => exact h.workspace (Nat.le_add_right _ _) (harranged.keepsPanes now _) h.entries

theorem Respected.step {s : SessionsStore × (JsString → Option Bool)} (h : Respected ids s)
    (entry : JsString × SessionsAction) : Respected ids (preferenceStep ids s entry) := by
  obtain ⟨now, action⟩ := entry
  refine ⟨h.1.step (now, action), fun paneId hoff => ?_⟩
  have hkept (hother : ∀ id persistOutputPreview,
      action = .setPanePersistOutputPreview id persistOutputPreview →
      paneId = id → s.1.panes.get? id = none) (hbefore : s.2 paneId = some false) :
      OptedOut ids (s.1.issued + action.draws)
        (Sessions.perform ids s.1.toSessionsState s.1.issued now action) paneId :=
    (h.2 paneId hbefore).perform h.1 now hother
  cases action with
  | setPanePersistOutputPreview id persistOutputPreview =>
    change (if paneId = id ∧ (s.1.panes.get? id).isSome then some persistOutputPreview
      else s.2 paneId) = some false at hoff
    split_ifs at hoff with hset
    · obtain ⟨rfl, hthere⟩ := hset
      obtain rfl := Option.some.inj hoff
      exact OptedOut.set h.1 hthere now
    · refine hkept (fun id' _ heq hid => ?_) hoff
      obtain ⟨rfl, -⟩ := SessionsAction.setPanePersistOutputPreview.inj heq
      exact Option.not_isSome_iff_eq_none.mp fun hsome => hset ⟨hid, hsome⟩
  | _ => exact hkept (fun _ _ heq => by cases heq) hoff

theorem respected_run (ids : UuidSource) (actions : List (JsString × SessionsAction)) :
    Respected ids (run (preferenceStep ids) (initialStore, fun _ => none) actions) :=
  run_invariant_of_step (fun _ entry h => h.step entry)
    ⟨storeArranged_initial ids, fun _ hoff => nomatch hoff⟩ actions

/-- What is persisted has its preferences resolved, and resolving them again changes nothing. -/
theorem sanitize_sanitize (commandHistory : List SessionCommandHistoryEntry)
    (panes : OrderedMap JsString SessionPane) :
    sanitizePersistedCommandHistory
        (sanitizePersistedCommandHistory commandHistory (panes.mapValues sanitizePersistedPane))
        ((panes.mapValues sanitizePersistedPane).mapValues sanitizePersistedPane) =
      sanitizePersistedCommandHistory commandHistory (panes.mapValues sanitizePersistedPane) := by
  have hentry (entry : SessionCommandHistoryEntry) :
      sanitizePersistedEntry ((panes.mapValues sanitizePersistedPane).mapValues
          sanitizePersistedPane)
        (sanitizePersistedEntry (panes.mapValues sanitizePersistedPane) entry) =
          sanitizePersistedEntry (panes.mapValues sanitizePersistedPane) entry := by
    have hresolve : resolvePersistOutputPreview
        (sanitizePersistedEntry (panes.mapValues sanitizePersistedPane) entry)
        ((panes.mapValues sanitizePersistedPane).mapValues sanitizePersistedPane) =
          resolvePersistOutputPreview entry (panes.mapValues sanitizePersistedPane) := by
      rw [resolvePersistOutputPreview, sanitizePersistedEntry_paneId,
        OrderedMap.get?_mapValues sanitizePersistedPane (panes.mapValues sanitizePersistedPane)]
      cases hget : (panes.mapValues sanitizePersistedPane).get? entry.paneId with
      | some pane => simp only [Option.map_some, resolvePersistOutputPreview, hget]; rfl
      | none =>
        rw [Option.map_none]
        cases hpreview : resolvePersistOutputPreview entry (panes.mapValues sanitizePersistedPane)
        · rw [sanitizePersistedEntry_off hpreview]
          rfl
        · rw [sanitizePersistedEntry, hpreview]
          rfl
    cases hpreview : resolvePersistOutputPreview entry (panes.mapValues sanitizePersistedPane)
    · rw [hpreview] at hresolve
      rw [sanitizePersistedEntry_off hresolve, sanitizePersistedEntry_off hpreview]
    · rw [hpreview] at hresolve
      rw [sanitizePersistedEntry, hresolve, sanitizePersistedEntry, hpreview]
      rfl
  simp only [sanitizePersistedCommandHistory, limitCommandHistory, List.map_take, List.take_take,
    Nat.min_self, List.map_map]
  exact congrArg (List.take _) (List.map_congr_left fun entry _ => hentry entry)

/-- Neither what is persisted nor what is restored from it has output of a pane whose latest
preference is against it, and to restore and to persist again leaves the history as it is. -/
theorem optedOut_run (ids : UuidSource) (actions : List (JsString × SessionsAction))
    (now : JsString) :
    let snapshot := partialize (run (storeStep ids) initialStore actions).toSessionsState now
    let restored := merge snapshot initialSessions
    (∀ entry, entry ∈ snapshot.commandHistory ∨ entry ∈ restored.commandHistory →
        latestPreference ids actions entry.paneId = some false →
        entry.outputPreview = none ∧ entry.outputUpdatedAt = none) ∧
      ∀ later, (partialize restored later).commandHistory = snapshot.commandHistory := by
  have hrespected := (respected_run ids actions).2
  rw [run_preferenceStep_fst] at hrespected
  refine ⟨fun entry hentry hoff => ?_, fun later => ?_⟩
  · have hout := hrespected entry.paneId hoff
    obtain ⟨hpane, hentries⟩ := OptedOut.sanitize hout.pane hout.entries
    rcases hentry with hentry | hentry
    · exact (hentries entry hentry rfl).2
    · obtain ⟨-, hentries'⟩ := OptedOut.sanitize hpane fun entry hentry hid =>
        (hentries entry hentry hid).1
      exact (hentries' entry hentry rfl).2
  · exact (sanitize_sanitize _ _).trans (sanitize_sanitize _ _)

end Preferences
end Sessions
