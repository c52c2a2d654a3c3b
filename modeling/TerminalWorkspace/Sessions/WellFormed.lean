import TerminalWorkspace.Connections.ConnectPaths
import TerminalWorkspace.Sessions.Layout

/-! The runs of the sessions store: the tabs and panes stay arranged, and well formed as long as a
pane is closed through the tab that lists it. -/
namespace Sessions
open JsText Inventory RecordFile Runs

/-- The panes there are, and no others, are listed by the tabs. -/
def KeysListed (state : SessionWorkspaceState) : Prop :=
  ∀ paneId, paneId ∈ state.panes.keys ↔ Listed state paneId

/-- A pane is closed through the tab that lists it. -/
def ClosesOwnPane (state : SessionWorkspaceState) : SessionsAction → Prop
  | .closePane tabId paneId => ∀ tab ∈ state.tabs, tab.id = tabId → paneId ∈ tab.paneIds
  | _ => True

instance (state : SessionWorkspaceState) : DecidablePred (ClosesOwnPane state)
  | .closePane tabId paneId =>
    inferInstanceAs (Decidable (∀ tab ∈ state.tabs, tab.id = tabId → paneId ∈ tab.paneIds))
  | .openSession _ | .duplicateSession _ _ | .selectTab _ | .cycleTab _ | .closeTab _
  | .splitTab _ _ | .closePanesForHost _ | .selectPane _ _ | .setPaneState _ _ _
  | .setPaneReconnectOnRestore _ _ | .setPanePersistOutputPreview _ _ | .setPaneTransport _ _
  | .setPaneBackendSession _ _ | .queuePaneCommand _ _ _ | .consumePaneCommand _ _
  | .recordPaneCommand _ _ | .appendCommandOutput _ _ | .clearCommandHistory
  | .queueCommandForHosts _ _ _ | .togglePaneConnection _ | .setSplitDirection _ _
  | .setSplitRatio _ _ | .reorderTab _ _ | .importReset | .restart => .isTrue trivial

section Step
variable {ids : UuidSource} {n : ℕ} {state : SessionWorkspaceState}

theorem Tracks.keysListed {state' : SessionWorkspaceState} (h : Tracks state state')
    (hkeys : KeysListed state) : KeysListed state' :=
  h.keys_iff hkeys

theorem Arranged.wellFormed (h : Arranged ids n state) (hkeys : KeysListed state) :
    WellFormed state where
  nonempty := h.nonempty
  activePane := h.activePane
  paneIdsOnce := h.once
  paneIdsApart := h.apart.imp And.right
  keys := hkeys
  tabIds := h.tabIds
  activeTab := fun tabId hid => List.mem_map.mp (h.activeTab.1 tabId hid)
  someActiveTab := h.activeTab.2

theorem Arranged.empty (ids : UuidSource) (n : ℕ) (lastRestoredAt : Option JsString) :
    Arranged ids n ⟨[], OrderedMap.empty, none, lastRestoredAt⟩ where
  nonempty := fun _ htab => nomatch htab
  activePane := fun _ htab => nomatch htab
  once := fun _ htab => nomatch htab
  apart := .nil
  drawn := fun _ htab => nomatch htab
  panes := fun _ _ hget => nomatch hget
  activeTab := ⟨fun _ hid => (nomatch hid), fun _ => rfl⟩

theorem keysListed_empty (lastRestoredAt : Option JsString) :
    KeysListed ⟨[], OrderedMap.empty, none, lastRestoredAt⟩ := by
  intro paneId
  simp [Listed, OrderedMap.keys, OrderedMap.empty]

theorem queueForHost_issued (ids : UuidSource) (command : JsString) (label : Option JsString) (now : JsString)
    (q : Queueing) (host : HostRecord) :
    (queueForHost ids command label now q host).issued = q.issued + 3 := by
  simp only [queueForHost]
  split <;> rfl

theorem Arranged.queueForHost {q : Queueing} (h : Arranged ids q.issued q.state)
    (command : JsString) (label : Option JsString) (now : JsString) (host : HostRecord) :
    Arranged ids (q.issued + 3) (queueForHost ids command label now q host).state := by
  have hopened := (h.openSession host now).mono (show q.issued + 2 ≤ q.issued + 3 by omega)
  simp only [Sessions.queueForHost]
  split
  · exact hopened
  · exact hopened.updatePane _ _ fun _ => rfl

theorem queueForHost_keysListed {q : Queueing} (h : KeysListed q.state) (command : JsString)
    (label : Option JsString) (now : JsString) (host : HostRecord) :
    KeysListed (queueForHost ids command label now q host).state := by
  have hopened := (Tracks.openSession q.state host (ids.uuid q.issued) (ids.uuid (q.issued + 1))
    now).keysListed h
  simp only [queueForHost]
  split
  · exact hopened
  · exact (Tracks.updatePane _ _ _ _).keysListed hopened

theorem Arranged.queueForHosts {q : Queueing} (h : Arranged ids q.issued q.state)
    (hosts : List HostRecord) (command : JsString) (label : Option JsString) (now : JsString) :
    Arranged ids (q.issued + 3 * hosts.length)
      (hosts.foldl (Sessions.queueForHost ids command label now) q).state := by
  induction hosts generalizing q with
  | nil => exact h
  | cons host hosts ih =>
    have hnext := h.queueForHost command label now host
    rw [← queueForHost_issued ids command label now q host] at hnext
    have hrest := ih hnext
    rw [queueForHost_issued] at hrest
    have hcount : q.issued + 3 * (host :: hosts).length = q.issued + 3 + 3 * hosts.length := by
      rw [List.length_cons]
      omega
    rw [hcount]
    exact hrest

theorem queueForHosts_keysListed {q : Queueing} (h : KeysListed q.state) (hosts : List HostRecord)
    (command : JsString) (label : Option JsString) (now : JsString) :
    KeysListed (hosts.foldl (queueForHost ids command label now) q).state := by
  induction hosts generalizing q with
  | nil => exact h
  | cons host hosts ih => exact ih (queueForHost_keysListed h command label now host)

theorem Arranged.performWorkspace (h : Arranged ids n state) (now : JsString)
    (action : SessionsAction) :
    Arranged ids (n + action.draws) (performWorkspace ids state n now action) := by
  cases action with
  | openSession host => exact h.openSession host now
  | duplicateSession host baseTitle =>
    have hpane : Fresh ids n (n + 2) (ids.uuid n) := ⟨n, by omega, by omega, rfl⟩
    have htab : Fresh ids n (n + 2) (ids.uuid (n + 1)) := ⟨n + 1, by omega, by omega, rfl⟩
    exact h.append (by omega) hpane htab rfl rfl now
  | selectTab tabId => exact h.selectTab tabId
  | cycleTab direction => exact h.cycleTab direction
  | closeTab tabId => exact h.closeTab tabId
  | splitTab tabId host => exact h.splitTab tabId host now
  | closePane tabId paneId => exact h.closePane tabId paneId now
  | closePanesForHost hostId => exact h.closeHost hostId
  | selectPane tabId paneId => exact h.selectPane tabId paneId now
  | setPaneState => exact h.updatePane _ _ fun _ => rfl
  | setPaneReconnectOnRestore => exact h.updatePane _ _ fun _ => rfl
  | setPaneTransport => exact h.updatePane _ _ fun _ => rfl
  | setPaneBackendSession => exact h.updatePane _ _ fun _ => rfl
  | queuePaneCommand =>
    apply (h.mono n.le_succ).updatePane
    exact fun _ => rfl
  | consumePaneCommand => exact h.updatePane _ _ fun _ => rfl
  | queueCommandForHosts hosts command label =>
    exact Arranged.queueForHosts (q := ⟨state, [], n⟩) h hosts command label now
  | togglePaneConnection paneId => exact h.toggle paneId now
  | setSplitDirection => exact h.mapTab fun tab htab => ⟨rfl, rfl, h.activePane tab htab⟩
  | setSplitRatio tabId ratio => exact h.splitRatio tabId ratio now
  | reorderTab fromIndex toIndex => exact h.reorder fromIndex toIndex
  | importReset => exact .empty ids n _
  | setPanePersistOutputPreview | appendCommandOutput | clearCommandHistory | restart => exact h
  | recordPaneCommand => exact h.mono n.le_succ

theorem performWorkspace_keysListed (h : Arranged ids n state) (hkeys : KeysListed state)
    (now : JsString) {action : SessionsAction} (hown : ClosesOwnPane state action) :
    KeysListed (performWorkspace ids state n now action) := by
  cases action with
  | openSession host => exact (Tracks.openSession state host _ _ now).keysListed hkeys
  | duplicateSession host baseTitle => exact (Tracks.append state rfl now).keysListed hkeys
  | selectTab tabId => exact (Tracks.selectTab state tabId).keysListed hkeys
  | cycleTab direction => exact (Tracks.cycleTab state direction).keysListed hkeys
  | closeTab tabId => exact (Tracks.closeTab h tabId).keysListed hkeys
  | splitTab tabId host => exact (Tracks.splitTab h tabId host _ now).keysListed hkeys
  | closePane tabId paneId => exact (Tracks.closePane h now hown).keysListed hkeys
  | closePanesForHost hostId => exact (Tracks.closeHost h hostId).keysListed hkeys
  | selectPane tabId paneId => exact (Tracks.selectPane state tabId paneId now).keysListed hkeys
  | setPaneState => exact (Tracks.updatePane _ _ _ _).keysListed hkeys
  | setPaneReconnectOnRestore => exact (Tracks.updatePane _ _ _ _).keysListed hkeys
  | setPaneTransport => exact (Tracks.updatePane _ _ _ _).keysListed hkeys
  | setPaneBackendSession => exact (Tracks.updatePane _ _ _ _).keysListed hkeys
  | queuePaneCommand => exact (Tracks.updatePane _ _ _ _).keysListed hkeys
  | consumePaneCommand => exact (Tracks.updatePane _ _ _ _).keysListed hkeys
  | queueCommandForHosts hosts command label =>
    exact queueForHosts_keysListed (q := ⟨state, [], n⟩) hkeys hosts command label now
  | togglePaneConnection paneId => exact (Tracks.toggle _ _ _).keysListed hkeys
  | setSplitDirection =>
    refine Tracks.keysListed (Tracks.mapTab ?_) hkeys
    exact fun _ => rfl
  | setSplitRatio tabId ratio => exact (Tracks.splitRatio state tabId ratio now).keysListed hkeys
  | reorderTab fromIndex toIndex =>
    exact (Tracks.reorder state fromIndex toIndex).keysListed hkeys
  | importReset => exact keysListed_empty _
  | setPanePersistOutputPreview | appendCommandOutput | clearCommandHistory | restart |
    recordPaneCommand => exact hkeys

end Step

section Runs
variable {ids : UuidSource} {n : ℕ} {state : SessionsState}

/-- What a preference for the previews leaves of the workspace. -/
theorem updatePanePreviewPersistence_workspace (state : SessionsState) (paneId : JsString)
    (persistOutputPreview : Bool) (now : JsString) :
    (updatePanePreviewPersistence state paneId persistOutputPreview now).toSessionWorkspaceState =
      updatePane state.toSessionWorkspaceState paneId now fun pane =>
        { pane with persistOutputPreview := some persistOutputPreview } := by
  unfold updatePanePreviewPersistence
  split
  · rename_i hnone
    rw [updatePane, hnone]
  · rfl

theorem recordPaneCommandHistory_workspace (paneId command fresh now : JsString) :
    (recordPaneCommandHistory state paneId command fresh now).toSessionWorkspaceState =
      state.toSessionWorkspaceState := by
  simp only [recordPaneCommandHistory]
  split
  · rfl
  · split_ifs <;> rfl

theorem appendPaneCommandHistoryOutput_workspace (entryId output now : JsString) :
    (appendPaneCommandHistoryOutput state entryId output now).toSessionWorkspaceState =
      state.toSessionWorkspaceState := by
  simp only [appendPaneCommandHistoryOutput]
  split_ifs <;> rfl

/-- A restart keeps the tabs and, under the same ids, the panes. -/
theorem restart_spec (state : SessionsState) (now : JsString) :
    (merge (partialize state now) initialSessions).tabs = state.tabs ∧
      (merge (partialize state now) initialSessions).activeTabId = state.activeTabId ∧
      ∀ paneId, (merge (partialize state now) initialSessions).panes.get? paneId =
        (state.panes.get? paneId).map (sanitizePersistedPane ∘ sanitizePersistedPane) := by
  refine ⟨rfl, Option.or_none, fun paneId => ?_⟩
  show ((state.panes.mapValues sanitizePersistedPane).mapValues sanitizePersistedPane).get?
    paneId = _
  rw [OrderedMap.get?_mapValues, OrderedMap.get?_mapValues, Option.map_map]

theorem Arranged.perform (h : Arranged ids n state.toSessionWorkspaceState) (now : JsString)
    (action : SessionsAction) :
    Arranged ids (n + action.draws) (perform ids state n now action).toSessionWorkspaceState := by
  cases action with
  | setPanePersistOutputPreview paneId persistOutputPreview =>
    show Arranged ids n (updatePanePreviewPersistence state _ _ now).toSessionWorkspaceState
    rw [updatePanePreviewPersistence_workspace]
    exact h.updatePane _ _ fun _ => rfl
  | recordPaneCommand paneId command =>
    show Arranged ids (n + 1) (recordPaneCommandHistory state _ _ _ now).toSessionWorkspaceState
    rw [recordPaneCommandHistory_workspace]
    exact h.mono (by omega)
  | appendCommandOutput entryId output =>
    show Arranged ids n (appendPaneCommandHistoryOutput state _ _ now).toSessionWorkspaceState
    rw [appendPaneCommandHistoryOutput_workspace]
    exact h
  | clearCommandHistory => exact h
  | restart =>
    obtain ⟨htabs, hactive, hget⟩ := restart_spec state now
    refine h.of_panes le_rfl htabs hactive fun paneId pane hsome => ?_
    have hmapped := (hget paneId).symm.trans hsome
    obtain ⟨old, hold, rfl⟩ := Option.map_eq_some_iff.mp hmapped
    exact h.panes paneId old hold
  | _ => exact h.performWorkspace now _

theorem perform_keysListed (h : Arranged ids n state.toSessionWorkspaceState)
    (hkeys : KeysListed state.toSessionWorkspaceState) (now : JsString) {action : SessionsAction}
    (hown : ClosesOwnPane state.toSessionWorkspaceState action) :
    KeysListed (perform ids state n now action).toSessionWorkspaceState := by
  cases action with
  | setPanePersistOutputPreview paneId persistOutputPreview =>
    show KeysListed (updatePanePreviewPersistence state _ _ now).toSessionWorkspaceState
    rw [updatePanePreviewPersistence_workspace]
    exact (Tracks.updatePane _ _ _ _).keysListed hkeys
  | recordPaneCommand paneId command =>
    show KeysListed (recordPaneCommandHistory state _ _ _ now).toSessionWorkspaceState
    rwa [recordPaneCommandHistory_workspace]
  | appendCommandOutput entryId output =>
    show KeysListed (appendPaneCommandHistoryOutput state _ _ now).toSessionWorkspaceState
    rwa [appendPaneCommandHistoryOutput_workspace]
  | clearCommandHistory => exact hkeys
  | restart =>
    obtain ⟨htabs, -, hget⟩ := restart_spec state now
    refine (Tracks.of_same (fun paneId => ?_) fun paneId => ?_).keysListed hkeys
    · rw [OrderedMap.mem_keys_iff, OrderedMap.mem_keys_iff]
      exact (congrArg Option.isSome (hget paneId)).trans Option.isSome_map ▸ Iff.rfl
    · exact listed_of_paneIds (congrArg (List.map (·.paneIds)) htabs) paneId
  | _ => exact performWorkspace_keysListed h hkeys now hown

def StoreArranged (ids : UuidSource) (s : SessionsStore) : Prop :=
  Arranged ids s.issued s.toSessionWorkspaceState

theorem StoreArranged.step {s : SessionsStore} (h : StoreArranged ids s)
    (entry : JsString × SessionsAction) : StoreArranged ids (storeStep ids s entry) :=
  h.perform entry.1 entry.2

theorem storeArranged_initial (ids : UuidSource) : StoreArranged ids initialStore :=
  .empty ids 0 none

/-- Whatever is done, the tabs and panes stay arranged. -/
theorem arranged_run (ids : UuidSource) (actions : List (JsString × SessionsAction)) :
    StoreArranged ids (run (storeStep ids) initialStore actions) :=
  run_invariant_of_step (fun _ entry h => h.step entry) (storeArranged_initial ids) actions

theorem wellFormed_run {actions : List (JsString × SessionsAction)}
    (h : Allowed (storeStep ids) (fun s entry => ClosesOwnPane s.toSessionWorkspaceState entry.2)
      initialStore actions) :
    WellFormed (run (storeStep ids) initialStore actions).toSessionWorkspaceState := by
  have hstep (s : SessionsStore) (entry : JsString × SessionsAction)
      (hs : StoreArranged ids s ∧ KeysListed s.toSessionWorkspaceState)
      (hown : ClosesOwnPane s.toSessionWorkspaceState entry.2) :
      StoreArranged ids (storeStep ids s entry) ∧
        KeysListed (storeStep ids s entry).toSessionWorkspaceState :=
    ⟨hs.1.step entry, perform_keysListed hs.1 hs.2 entry.1 hown⟩
  have hinit : StoreArranged ids initialStore ∧ KeysListed initialStore.toSessionWorkspaceState :=
    ⟨storeArranged_initial ids, keysListed_empty none⟩
  obtain ⟨harranged, hkeys⟩ := run_invariant hstep hinit h
  exact harranged.wellFormed hkeys

/-- Ids of growing length. -/
def sampleIds : UuidSource where
  uuid n := List.replicate n (.scalar 'x')
  injective := List.replicate_left_injective _

theorem wellFormed_splitAndClose :
    WellFormed (run (storeStep sampleIds) initialStore
      [([], .openSession (Connections.plainHost "a")),
        ([], .splitTab (sampleIds.uuid 1) (Connections.plainHost "b")),
        ([], .closePane (sampleIds.uuid 1) (sampleIds.uuid 0))]).toSessionWorkspaceState :=
  wellFormed_run (by decide +kernel)

end Runs
end Sessions
