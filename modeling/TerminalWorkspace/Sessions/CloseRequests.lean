import TerminalWorkspace.Sessions.WellFormed

/-! The backend sessions that an action asks to close, and those whose panes it removes. -/
namespace Sessions
open JsText Inventory RecordFile Runs
open PaneSession (SessionId)

/-- The backend session of a pane that an action removes. -/
def RemovedSession (state state' : SessionWorkspaceState) (sessionId : SessionId) : Prop :=
  ∃ paneId pane, state.panes.get? paneId = some pane ∧ pane.backendSessionId = some sessionId ∧
    state'.panes.get? paneId = none

/-- The actions that close tabs and panes. -/
def SessionsAction.closes : SessionsAction → Bool
  | .closeTab _ | .closePane _ _ | .closePanesForHost _ | .importReset => true
  | _ => false

def paneSession (state : SessionWorkspaceState) (paneId : JsString) : Option SessionId :=
  (state.panes.get? paneId).bind (·.backendSessionId)

/-- What an action asks to close are the sessions of the panes it removes: a pane is closed
through a tab with several panes, or the tab goes and its only pane has the same session, or
there is no tab and no session; an import finds no session. -/
def RequestsMatch (state : SessionWorkspaceState) : SessionsAction → Prop
  | .closePane tabId paneId =>
    match findTab state tabId with
    | none => paneSession state paneId = none
    | some tab =>
      1 < tab.paneIds.length ∨
        paneSession state (tab.paneIds.headD []) = paneSession state paneId
  | .importReset => ∀ paneId, paneSession state paneId = none
  | _ => True

section Requests
variable {ids : UuidSource} {state state' : SessionWorkspaceState}

theorem mem_closeRequests {paneIds : List JsString} {sessionId : SessionId} :
    sessionId ∈ closeBackendSessionsForPanes state.panes paneIds ↔
      ∃ paneId ∈ paneIds, paneSession state paneId = some sessionId :=
  List.mem_filterMap

theorem paneSession_eq_some {paneId : JsString} {sessionId : SessionId} :
    paneSession state paneId = some sessionId ↔
      ∃ pane, state.panes.get? paneId = some pane ∧ pane.backendSessionId = some sessionId :=
  Option.bind_eq_some_iff

/-- The sessions of the panes that are gone. -/
theorem removedSession_iff {gone : List JsString}
    (hget : ∀ paneId, state'.panes.get? paneId =
      if paneId ∈ gone then none else state.panes.get? paneId) {sessionId : SessionId} :
    RemovedSession state state' sessionId ↔
      ∃ paneId ∈ gone, paneSession state paneId = some sessionId := by
  constructor
  · rintro ⟨paneId, pane, hpane, hsession, hnone⟩
    rw [hget] at hnone
    split_ifs at hnone with hgone
    · exact ⟨paneId, hgone, paneSession_eq_some.mpr ⟨pane, hpane, hsession⟩⟩
    · rw [hpane] at hnone
      cases hnone
  · rintro ⟨paneId, hgone, hsession⟩
    obtain ⟨pane, hpane, hsession⟩ := paneSession_eq_some.mp hsession
    exact ⟨paneId, pane, hpane, hsession, (hget paneId).trans (if_pos hgone)⟩

theorem closeTab_get? {tabId : JsString} {tab : SessionTab} (h : findTab state tabId = some tab)
    (paneId : JsString) :
    (closeSessionTab state tabId).panes.get? paneId =
      if paneId ∈ tab.paneIds then none else state.panes.get? paneId := by
  rw [closeSessionTab_panes h, OrderedMap.get?_eraseAll]

/-- Two sessions, each perhaps missing, are the same if they are closed by the same requests. -/
theorem option_eq_iff_mem {first second : Option SessionId} :
    (∀ sessionId, first = some sessionId ↔ second = some sessionId) ↔ second = first := by
  constructor
  · intro h
    exact Option.ext fun sessionId => (h sessionId).symm
  · rintro rfl sessionId
    exact Iff.rfl

/-- The requests of a `closePane`, compared with what the reducer removes. -/
theorem closePane_requests_iff {n : ℕ} (h : Arranged ids n state) (tabId paneId now : JsString) :
    (∀ sessionId, paneSession state paneId = some sessionId ↔
      RemovedSession state (removeSessionPane state tabId paneId now) sessionId) ↔
      RequestsMatch state (.closePane tabId paneId) := by
  cases hfind : findTab state tabId with
  | none =>
    have hsame : removeSessionPane state tabId paneId now = state := by
      rw [removeSessionPane, hfind]
    have hnone {sessionId : SessionId} : ¬ RemovedSession state state sessionId := by
      rintro ⟨id, pane, hpane, -, hgone⟩
      rw [hpane] at hgone
      cases hgone
    simp only [hsame, hnone, iff_false, RequestsMatch, hfind]
    exact Option.eq_none_iff_forall_ne_some.symm
  | some tab =>
    obtain ⟨htab, -⟩ := findTab_eq_some hfind
    have hmatch : RequestsMatch state (.closePane tabId paneId) ↔
        1 < tab.paneIds.length ∨
          paneSession state (tab.paneIds.headD []) = paneSession state paneId := by
      simp only [RequestsMatch, hfind]
    rw [hmatch]
    by_cases hlength : tab.paneIds.length ≤ 1
    · have hclosed : removeSessionPane state tabId paneId now = closeSessionTab state tabId := by
        rw [removeSessionPane, hfind]
        exact if_pos hlength
      obtain ⟨only, honly⟩ : ∃ only, tab.paneIds = [only] := by
        have hpos := List.length_pos_of_ne_nil (h.nonempty tab htab)
        exact List.length_eq_one_iff.mp (by omega)
      have hremoved {sessionId : SessionId} :
          RemovedSession state (closeSessionTab state tabId) sessionId ↔
            paneSession state only = some sessionId := by
        rw [removedSession_iff (closeTab_get? hfind), honly]
        simp
      rw [hclosed, honly]
      simp only [hremoved, option_eq_iff_mem, List.length_singleton, lt_irrefl, false_or,
        List.headD_cons]
    · have hget (id : JsString) : (removeSessionPane state tabId paneId now).panes.get? id =
          if id ∈ [paneId] then none else state.panes.get? id := by
        rw [removeSessionPane, hfind]
        dsimp only
        rw [if_neg hlength, OrderedMap.get?_erase]
        simp
      simp only [removedSession_iff hget, List.mem_singleton, exists_eq_left, implies_true, true_iff]
      exact .inl (by omega)

/-- A closing action asks for the sessions of the panes that it removes exactly where its requests
match. -/
theorem Arranged.requests_iff {n : ℕ} (h : Arranged ids n state) (now : JsString)
    {action : SessionsAction} (hcloses : action.closes = true) :
    (∀ sessionId, sessionId ∈ closeRequests state action ↔
      RemovedSession state (Sessions.performWorkspace ids state n now action) sessionId) ↔
      RequestsMatch state action := by
  cases action with
  | closeTab tabId =>
    refine iff_of_true (fun sessionId => ?_) trivial
    show sessionId ∈ closeRequests state (.closeTab tabId) ↔
      RemovedSession state (closeSessionTab state tabId) sessionId
    cases hfind : findTab state tabId with
    | none =>
      have hsame : ∀ paneId, (closeSessionTab state tabId).panes.get? paneId =
          if paneId ∈ ([] : List JsString) then none else state.panes.get? paneId := by
        rw [closeSessionTab_of_none hfind]
        exact fun _ => rfl
      rw [removedSession_iff hsame, closeRequests, hfind]
      simp
    | some tab =>
      rw [removedSession_iff (closeTab_get? hfind), closeRequests, hfind]
      exact mem_closeRequests
  | closePane tabId paneId =>
    rw [← closePane_requests_iff h tabId paneId now]
    refine forall_congr' fun sessionId => ?_
    rw [closeRequests, mem_closeRequests]
    simp only [List.mem_singleton, exists_eq_left]
    exact Iff.rfl
  | closePanesForHost hostId =>
    refine iff_of_true (fun sessionId => ?_) trivial
    have hget := (closePanesForHost_spec h.tabIds h.activeTab hostId).2.1
    exact mem_closeRequests.trans (removedSession_iff hget).symm
  | importReset =>
    have hget (paneId : JsString) :
        (Sessions.performWorkspace ids state n now .importReset).panes.get? paneId =
          if paneId ∈ state.panes.keys then none else state.panes.get? paneId := by
      split_ifs with hkey
      · rfl
      · rw [OrderedMap.mem_keys_iff, Option.not_isSome_iff_eq_none] at hkey
        exact hkey.symm
    constructor
    · intro hall paneId
      refine Option.eq_none_iff_forall_ne_some.mpr fun sessionId hsession => ?_
      obtain ⟨pane, hpane, hbackend⟩ := paneSession_eq_some.mp hsession
      exact List.not_mem_nil ((hall sessionId).mpr ⟨paneId, pane, hpane, hbackend, rfl⟩)
    · intro hnone sessionId
      refine iff_of_false List.not_mem_nil fun hremoved => ?_
      obtain ⟨paneId, -, hsession⟩ := (removedSession_iff hget).mp hremoved
      rw [hnone] at hsession
      cases hsession
  | _ => cases hcloses

/-- An action asks to close exactly the sessions of the panes that it removes. -/
def RequestsRemoved (ids : UuidSource) (s : SessionsStore) (entry : JsString × SessionsAction) :
    Prop :=
  ∀ sessionId, sessionId ∈ closeRequests s.toSessionWorkspaceState entry.2 ↔
    RemovedSession s.toSessionWorkspaceState (storeStep ids s entry).toSessionWorkspaceState sessionId

theorem StoreArranged.requests_iff {s : SessionsStore} (h : StoreArranged ids s)
    (entry : JsString × SessionsAction) :
    (entry.2.closes = true → RequestsRemoved ids s entry) ↔
      RequestsMatch s.toSessionWorkspaceState entry.2 := by
  obtain ⟨now, action⟩ := entry
  cases action with
  | closeTab | closePane | closePanesForHost | importReset =>
    exact (imp_iff_right rfl).trans (Arranged.requests_iff h now rfl)
  | _ => exact iff_of_true (fun hcloses => nomatch hcloses) trivial

/-- Along any run the closing actions ask for the sessions of the panes they remove exactly where
their requests match. -/
theorem closeRequests_run (ids : UuidSource) (actions : List (JsString × SessionsAction)) :
    Allowed (storeStep ids) (fun s entry => entry.2.closes = true → RequestsRemoved ids s entry)
        initialStore actions ↔
      Allowed (storeStep ids) (fun s entry => RequestsMatch s.toSessionWorkspaceState entry.2)
        initialStore actions := by
  have hiff (s : SessionsStore) (entry : JsString × SessionsAction) (h : StoreArranged ids s) :
      (entry.2.closes = true → RequestsRemoved ids s entry) ↔
        RequestsMatch s.toSessionWorkspaceState entry.2 :=
    h.requests_iff entry
  exact allowed_congr hiff (fun s entry h _ => h.step entry) (storeArranged_initial ids)

/-- A pane with a backend session is in the store when a config is imported. -/
def leakingActions : List (JsString × SessionsAction) :=
  [([], .openSession (Connections.plainHost "a")),
    ([], .setPaneBackendSession (sampleIds.uuid 0) (some 7))]

/-- The import drops the pane and asks for nothing. -/
theorem not_every_session_closed :
    ¬ ∀ (ids : UuidSource) (actions : List (JsString × SessionsAction))
      (entry : JsString × SessionsAction), entry.2.closes = true →
      RequestsRemoved ids (run (storeStep ids) initialStore actions) entry := by
  intro h
  have hpane : paneSession (run (storeStep sampleIds) initialStore
      leakingActions).toSessionWorkspaceState (sampleIds.uuid 0) = some 7 := by
    decide +kernel
  obtain ⟨pane, hget, hsession⟩ := paneSession_eq_some.mp hpane
  have hrequest := (h sampleIds leakingActions ([], .importReset) rfl 7).mpr
    ⟨_, pane, hget, hsession, rfl⟩
  exact List.not_mem_nil hrequest

end Requests
end Sessions
