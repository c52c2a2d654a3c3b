import TerminalWorkspace.Sessions.Arranged

/-! What closing a tab, a pane and the panes of a host leaves of the workspace. -/
namespace Sessions
open JsText Inventory

section Tab
variable {state : SessionWorkspaceState} {tabId : JsString} {tab : SessionTab}

theorem findTab_eq_some (h : findTab state tabId = some tab) : tab ∈ state.tabs ∧ tab.id = tabId :=
  ⟨List.mem_of_find?_eq_some h, of_decide_eq_true (List.find?_some h :)⟩

theorem findTab_eq_none : findTab state tabId = none ↔ tabId ∉ state.tabs.map (·.id) := by
  simp [findTab]

theorem closeSessionTab_tabs :
    (closeSessionTab state tabId).tabs = state.tabs.filter fun entry => entry.id ≠ tabId := by
  unfold closeSessionTab
  split
  · rename_i hnone
    symm
    rw [List.filter_eq_self]
    intro entry hentry
    rw [findTab_eq_none] at hnone
    exact decide_eq_true fun heq => hnone (heq ▸ List.mem_map_of_mem hentry)
  · rfl

theorem closeSessionTab_panes (h : findTab state tabId = some tab) :
    (closeSessionTab state tabId).panes = state.panes.eraseAll tab.paneIds := by
  rw [closeSessionTab, h]

theorem closeSessionTab_of_none (h : findTab state tabId = none) :
    closeSessionTab state tabId = state := by
  rw [closeSessionTab, h]

/-- Where the active tab is closed, the last of the others becomes active. -/
theorem ActiveTab.closeSessionTab (h : ActiveTab state) :
    ActiveTab (closeSessionTab state tabId) := by
  cases hfind : findTab state tabId with
  | none => rwa [closeSessionTab_of_none hfind]
  | some tab =>
    have hid : (Sessions.closeSessionTab state tabId).activeTabId =
        if state.activeTabId = some tabId then
          (state.tabs.filter fun entry => entry.id ≠ tabId).getLast?.map (·.id)
        else state.activeTabId := by
      rw [Sessions.closeSessionTab, hfind]
    rw [ActiveTab, closeSessionTab_tabs, hid]
    split_ifs with hactive
    · refine ⟨fun id hsome => ?_, fun hnone => ?_⟩
      · obtain ⟨last, hlast, rfl⟩ := Option.map_eq_some_iff.mp hsome
        exact List.mem_map_of_mem (List.mem_of_getLast? hlast)
      · rwa [Option.map_eq_none_iff, List.getLast?_eq_none_iff] at hnone
    · refine ⟨fun id hsome => ?_, fun hnone => ?_⟩
      · obtain ⟨entry, hentry, rfl⟩ := List.mem_map.mp (h.1 id hsome)
        refine List.mem_map_of_mem (List.mem_filter.mpr ⟨hentry, decide_eq_true fun heq => ?_⟩)
        exact hactive (hsome.trans (congrArg some heq))
      · rw [h.2 hnone, List.filter_nil]

theorem ActiveTab.of_ids {state' : SessionWorkspaceState} (h : ActiveTab state)
    (hids : state'.tabs.map (·.id) = state.tabs.map (·.id))
    (hactive : state'.activeTabId = state.activeTabId) : ActiveTab state' := by
  refine ⟨fun id hid => ?_, fun hnone => ?_⟩
  · rw [hids]
    exact h.1 id (hactive ▸ hid)
  · have hempty := h.2 (hactive ▸ hnone)
    rw [hempty, List.map_nil, List.map_eq_nil_iff] at hids
    exact hids

end Tab

section Host
variable {state : SessionWorkspaceState} {paneIds : List JsString} {tab : SessionTab}

/-- What a tab becomes when some panes are closed: it goes with the last of its panes. -/
def trimTab (paneIds : List JsString) (tab : SessionTab) : Option SessionTab :=
  let newPaneIds := tab.paneIds.filter (· ∉ paneIds)
  if newPaneIds = tab.paneIds then some tab
  else if newPaneIds = [] then none
  else
    some { tab with
      paneIds := newPaneIds
      activePaneId :=
        if tab.activePaneId ∈ newPaneIds then tab.activePaneId else newPaneIds.headD [] }

theorem trimTab_eq_self (h : tab.paneIds.filter (· ∉ paneIds) = tab.paneIds) :
    trimTab paneIds tab = some tab :=
  if_pos h

theorem trimTab_eq_none (h : trimTab paneIds tab = none) : ∀ id ∈ tab.paneIds, id ∈ paneIds := by
  simp only [trimTab] at h
  split_ifs at h with hall hnone
  intro id hid
  have := List.filter_eq_nil_iff.mp hnone id hid
  simpa using this

theorem trimTab_eq_some {tab' : SessionTab} (h : trimTab paneIds tab = some tab') :
    tab'.id = tab.id ∧ tab'.hostId = tab.hostId ∧
      tab'.paneIds = tab.paneIds.filter (· ∉ paneIds) := by
  simp only [trimTab] at h
  split_ifs at h with hall hnone hactive
  · obtain rfl := Option.some.inj h
    exact ⟨rfl, rfl, hall.symm⟩
  · obtain rfl := Option.some.inj h
    exact ⟨rfl, rfl, rfl⟩
  · obtain rfl := Option.some.inj h
    exact ⟨rfl, rfl, rfl⟩

theorem trimTab_active {tab' : SessionTab} (h : trimTab paneIds tab = some tab')
    (hne : tab.paneIds ≠ []) (hactive : tab.activePaneId ∈ tab.paneIds) :
    tab'.paneIds ≠ [] ∧ tab'.activePaneId ∈ tab'.paneIds := by
  simp only [trimTab] at h
  split_ifs at h with hall hnone hkept
  · obtain rfl := Option.some.inj h
    exact ⟨hne, hactive⟩
  · obtain rfl := Option.some.inj h
    exact ⟨hnone, hkept⟩
  · obtain rfl := Option.some.inj h
    refine ⟨hnone, ?_⟩
    obtain ⟨id, rest, hcons⟩ := List.exists_cons_of_ne_nil hnone
    rw [hcons]
    exact List.mem_cons_self

theorem filter_not_mem_eq_self {xs ys : List JsString} :
    ys.filter (· ∉ xs) = ys ↔ (ys.filter (· ∈ xs)).length = 0 := by
  rw [List.filter_eq_self, List.length_eq_zero_iff, List.filter_eq_nil_iff]
  simp

theorem filter_not_mem_eq_nil {xs ys : List JsString} :
    ys.filter (· ∉ xs) = [] ↔ (ys.filter (· ∈ xs)).length = ys.length := by
  rw [List.filter_eq_nil_iff, List.length_filter_eq_length_iff]
  simp

/-- A tab rewritten where it stands, the ids of the tabs being distinct. -/
theorem map_at {before after : List SessionTab} (update : SessionTab → SessionTab)
    (h : ((before ++ tab :: after).map (·.id)).Nodup) :
    ((before ++ tab :: after).map fun t => if t.id = tab.id then update t else t) =
      before ++ update tab :: after := by
  rw [List.map_append, List.map_cons, List.nodup_append, List.nodup_cons] at h
  obtain ⟨-, ⟨hafter, -⟩, hbefore⟩ := h
  have hother {ts : List SessionTab} (hne : ∀ t ∈ ts, t.id ≠ tab.id) :
      (ts.map fun t => if t.id = tab.id then update t else t) = ts :=
    (List.map_congr_left fun t ht => if_neg (hne t ht)).trans (List.map_id' ts)
  rw [List.map_append, List.map_cons, if_pos rfl,
    hother fun t ht => hbefore _ (List.mem_map_of_mem ht) _ List.mem_cons_self,
    hother fun t ht heq => hafter (heq ▸ List.mem_map_of_mem ht)]

theorem filter_at {before after : List SessionTab}
    (h : ((before ++ tab :: after).map (·.id)).Nodup) :
    ((before ++ tab :: after).filter fun t => t.id ≠ tab.id) = before ++ after := by
  rw [List.map_append, List.map_cons, List.nodup_append, List.nodup_cons] at h
  obtain ⟨-, ⟨hafter, -⟩, hbefore⟩ := h
  have hother {ts : List SessionTab} (hne : ∀ t ∈ ts, t.id ≠ tab.id) :
      (ts.filter fun t => t.id ≠ tab.id) = ts :=
    List.filter_eq_self.mpr fun t ht => decide_eq_true (hne t ht)
  rw [List.filter_append, List.filter_cons_of_neg (by simp),
    hother fun t ht => hbefore _ (List.mem_map_of_mem ht) _ List.mem_cons_self,
    hother fun t ht heq => hafter (heq ▸ List.mem_map_of_mem ht)]

/-- One round of the loop trims its tab where it stands and touches no other pane. -/
theorem closePanesInTab_at (paneIds : List JsString) {before after : List SessionTab}
    (htabs : state.tabs = before ++ tab :: after)
    (hids : (state.tabs.map (·.id)).Nodup) (hactive : ActiveTab state) :
    (closePanesInTab state paneIds tab).tabs = before ++ (trimTab paneIds tab).toList ++ after ∧
      (∀ id ∉ paneIds, (closePanesInTab state paneIds tab).panes.get? id = state.panes.get? id) ∧
      ActiveTab (closePanesInTab state paneIds tab) := by
  rw [htabs] at hids
  by_cases hnone : (tab.paneIds.filter (· ∈ paneIds)).length = 0
  · have hsame : closePanesInTab state paneIds tab = state := if_pos hnone
    rw [hsame, trimTab_eq_self (filter_not_mem_eq_self.mpr hnone), htabs]
    exact ⟨by simp, fun _ _ => rfl, hactive⟩
  · have hnot : tab.paneIds.filter (· ∉ paneIds) ≠ tab.paneIds :=
      fun heq => hnone (filter_not_mem_eq_self.mp heq)
    by_cases hall : (tab.paneIds.filter (· ∈ paneIds)).length = tab.paneIds.length
    · have hclosed : closePanesInTab state paneIds tab = closeSessionTab state tab.id :=
        (if_neg hnone).trans (if_pos hall)
      have hempty := filter_not_mem_eq_nil.mpr hall
      have hfind : findTab state tab.id = some tab := by
        rw [findTab, List.find?_eq_some_iff_append]
        refine ⟨decide_eq_true rfl, before, after, htabs, fun t ht => ?_⟩
        rw [List.map_append, List.map_cons, List.nodup_append] at hids
        have hne : t.id ≠ tab.id := hids.2.2 _ (List.mem_map_of_mem ht) _ List.mem_cons_self
        simpa using hne
      have htrim : trimTab paneIds tab = none := (if_neg hnot).trans (if_pos hempty)
      rw [hclosed, htrim, closeSessionTab_tabs, closeSessionTab_panes hfind, htabs, filter_at hids]
      refine ⟨by simp, fun id hid => ?_, hactive.closeSessionTab⟩
      rw [OrderedMap.get?_eraseAll, if_neg fun hmem => hid (trimTab_eq_none htrim id hmem)]
    · have hmapped : closePanesInTab state paneIds tab = _ := (if_neg hnone).trans (if_neg hall)
      have hne : tab.paneIds.filter (· ∉ paneIds) ≠ [] :=
        fun heq => hall (filter_not_mem_eq_nil.mp heq)
      have htrim : trimTab paneIds tab = some _ := (if_neg hnot).trans (if_neg hne)
      rw [hmapped, htrim]
      refine ⟨?_, fun _ _ => rfl, hactive.of_ids ?_ rfl⟩
      · rw [mapTab, htabs, map_at _ hids]
        simp
      · rw [mapTab, List.map_map]
        refine List.map_congr_left fun t _ => ?_
        rw [Function.comp_apply]
        split_ifs <;> rfl

/-- The loop over the tabs that are left, those before them being trimmed already. -/
theorem foldl_closePanesInTab (paneIds : List JsString) {before after : List SessionTab}
    (htabs : state.tabs = before ++ after) (hids : (state.tabs.map (·.id)).Nodup) (hactive : ActiveTab state) :
    let closed := after.foldl (fun nextState tab => closePanesInTab nextState paneIds tab) state
    closed.tabs = before ++ after.filterMap (trimTab paneIds) ∧
      (∀ id ∉ paneIds, closed.panes.get? id = state.panes.get? id) ∧ ActiveTab closed := by
  induction after generalizing state before with
  | nil => exact ⟨htabs, fun _ _ => rfl, hactive⟩
  | cons tab after ih =>
    obtain ⟨htabs', hget, hactive'⟩ := closePanesInTab_at paneIds htabs hids hactive
    have hids' : ((closePanesInTab state paneIds tab).tabs.map (·.id)).Nodup := by
      rw [htabs']
      rw [htabs] at hids
      refine hids.sublist ?_
      cases htrim : trimTab paneIds tab with
      | none => simp
      | some tab' => simp [(trimTab_eq_some htrim).1]
    obtain ⟨hclosed, hrest, hend⟩ := ih htabs' hids' hactive'
    refine ⟨?_, fun id hid => (hrest id hid).trans (hget id hid), hend⟩
    rw [List.foldl_cons, hclosed, List.filterMap_cons]
    cases trimTab paneIds tab <;> simp

theorem mem_panesOfHost (hown : ∀ paneId pane, state.panes.get? paneId = some pane → pane.id = paneId)
    {hostId paneId : JsString} :
    paneId ∈ panesOfHost state hostId ↔
      ∃ pane, state.panes.get? paneId = some pane ∧ pane.hostId = hostId := by
  rw [panesOfHost, List.mem_map]
  constructor
  · rintro ⟨pane, hpane, rfl⟩
    obtain ⟨hvalue, hhost⟩ := List.mem_filter.mp hpane
    obtain ⟨id, hget⟩ := OrderedMap.mem_values_iff.mp hvalue
    obtain rfl := hown id pane hget
    exact ⟨pane, hget, of_decide_eq_true hhost⟩
  · rintro ⟨pane, hget, hhost⟩
    exact ⟨pane, List.mem_filter.mpr ⟨OrderedMap.mem_values_iff.mpr ⟨_, hget⟩,
      decide_eq_true hhost⟩, hown paneId pane hget⟩

/-- Closing the panes of a host trims every tab and removes these panes. -/
theorem closePanesForHost_spec (hids : (state.tabs.map (·.id)).Nodup) (hactive : ActiveTab state)
    (hostId : JsString) :
    (closePanesForHost state hostId).tabs =
        state.tabs.filterMap (trimTab (panesOfHost state hostId)) ∧
      (∀ id, (closePanesForHost state hostId).panes.get? id =
        if id ∈ panesOfHost state hostId then none else state.panes.get? id) ∧
      ActiveTab (closePanesForHost state hostId) := by
  by_cases hempty : panesOfHost state hostId = []
  · have hsame : closePanesForHost state hostId = state := if_pos hempty
    have htrim : trimTab [] = some := by
      funext tab
      exact trimTab_eq_self (List.filter_eq_self.mpr fun id _ => by simp)
    rw [hsame, hempty, htrim, List.filterMap_some]
    exact ⟨rfl, fun id => by simp, hactive⟩
  · obtain ⟨htabs, hget, hend⟩ := foldl_closePanesInTab (panesOfHost state hostId)
      (List.nil_append _).symm hids hactive
    have hclosed : closePanesForHost state hostId = _ := if_neg hempty
    rw [hclosed]
    refine ⟨htabs, fun id => ?_, hend⟩
    rw [OrderedMap.get?_eraseAll]
    split_ifs with hid
    · rfl
    · exact hget id hid

end Host
end Sessions
