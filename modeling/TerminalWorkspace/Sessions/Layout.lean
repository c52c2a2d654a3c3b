import Mathlib.Data.List.Perm.Basic
import Mathlib.Data.List.Perm.Subperm
import TerminalWorkspace.Sessions.Closing

/-! Every action of the sessions store keeps the arrangement of tabs and panes. -/
namespace Sessions
open JsText Inventory RecordFile Runs

/-- The panes that are there and the panes that are listed change alike. -/
def Tracks (state state' : SessionWorkspaceState) : Prop :=
  ∃ gone added : JsString → Prop, ∀ paneId,
    (paneId ∈ state'.panes.keys ↔ paneId ∈ state.panes.keys ∧ ¬ gone paneId ∨ added paneId) ∧
      (Listed state' paneId ↔ Listed state paneId ∧ ¬ gone paneId ∨ added paneId)

section Tracking
variable {state state' : SessionWorkspaceState}

theorem Tracks.of_same (hkeys : ∀ paneId, paneId ∈ state'.panes.keys ↔ paneId ∈ state.panes.keys)
    (hlisted : ∀ paneId, Listed state' paneId ↔ Listed state paneId) : Tracks state state' :=
  ⟨fun _ => False, fun _ => False, fun paneId => by simp [hkeys, hlisted]⟩

theorem Tracks.refl (state : SessionWorkspaceState) : Tracks state state :=
  .of_same (fun _ => Iff.rfl) fun _ => Iff.rfl

theorem Tracks.keys_iff (h : Tracks state state')
    (hkeys : ∀ paneId, paneId ∈ state.panes.keys ↔ Listed state paneId) (paneId : JsString) :
    paneId ∈ state'.panes.keys ↔ Listed state' paneId := by
  obtain ⟨gone, added, hall⟩ := h
  rw [(hall paneId).1, (hall paneId).2, hkeys]

theorem listed_of_paneIds (h : state'.tabs.map (·.paneIds) = state.tabs.map (·.paneIds))
    (paneId : JsString) : Listed state' paneId ↔ Listed state paneId := by
  have hmem (s : SessionWorkspaceState) :
      Listed s paneId ↔ ∃ paneIds ∈ s.tabs.map (·.paneIds), paneId ∈ paneIds := by
    simp [Listed]
  rw [hmem, hmem, h]

theorem mapTab_paneIds {tabId : JsString} {update : SessionTab → SessionTab}
    (h : ∀ tab, (update tab).paneIds = tab.paneIds) :
    (mapTab state tabId update).tabs.map (·.paneIds) = state.tabs.map (·.paneIds) := by
  rw [mapTab, List.map_map]
  refine List.map_congr_left fun tab _ => ?_
  rw [Function.comp_apply]
  split_ifs
  · exact h tab
  · rfl

theorem mem_mapTab {tabId : JsString} {update : SessionTab → SessionTab} {tab' : SessionTab} :
    tab' ∈ (mapTab state tabId update).tabs ↔
      ∃ tab ∈ state.tabs, (if tab.id = tabId then update tab else tab) = tab' :=
  List.mem_map

theorem Tracks.mapTab {tabId : JsString} {update : SessionTab → SessionTab}
    (h : ∀ tab, (update tab).paneIds = tab.paneIds) : Tracks state (mapTab state tabId update) :=
  .of_same (fun _ => Iff.rfl) (listed_of_paneIds (mapTab_paneIds h))

theorem Tracks.append (state : SessionWorkspaceState) {pane : SessionPane} {tab : SessionTab}
    (h : tab.paneIds = [pane.id]) (now : JsString) :
    Tracks state (appendTab state pane tab now) := by
  refine ⟨fun _ => False, fun paneId => paneId = pane.id, fun paneId => ⟨?_, ?_⟩⟩
  · rw [appendTab, OrderedMap.mem_keys_set]
    tauto
  · simp only [Listed, appendTab, List.mem_append, List.mem_singleton, or_and_right, exists_or,
      exists_eq_left, h, not_false_eq_true, and_true]

end Tracking

section Panes
variable (state : SessionWorkspaceState) (paneId now : JsString)
  (update : SessionPane → SessionPane)

theorem updatePane_tabs : (updatePane state paneId now update).tabs = state.tabs := by
  unfold updatePane
  split <;> rfl

theorem updatePane_activeTabId :
    (updatePane state paneId now update).activeTabId = state.activeTabId := by
  unfold updatePane
  split <;> rfl

/-- Only the pane with the id is written. -/
theorem get?_updatePane (q : JsString) :
    (updatePane state paneId now update).panes.get? q =
      (state.panes.get? q).map fun pane =>
        if q = paneId then { update pane with updatedAt := now } else pane := by
  unfold updatePane
  split
  · rename_i hnone
    by_cases hq : q = paneId
    · rw [hq, hnone]
      rfl
    · simp [hq]
  · rename_i pane hsome
    rw [OrderedMap.get?_set]
    by_cases hq : q = paneId
    · rw [if_pos hq, hq, hsome]
      simp
    · simp [hq]

theorem get?_updatePane_self :
    (updatePane state paneId now update).panes.get? paneId =
      (state.panes.get? paneId).map fun pane => { update pane with updatedAt := now } := by
  rw [get?_updatePane]
  simp only [if_pos]

theorem get?_updatePane_other {q : JsString} (h : q ≠ paneId) :
    (updatePane state paneId now update).panes.get? q = state.panes.get? q := by
  rw [get?_updatePane]
  simp only [if_neg h, Option.map_id']

theorem Tracks.updatePane : Tracks state (updatePane state paneId now update) := by
  refine .of_same (fun q => ?_) fun q => ?_
  · rw [OrderedMap.mem_keys_iff, get?_updatePane, Option.isSome_map, OrderedMap.mem_keys_iff]
  · rw [Listed, updatePane_tabs, Listed]

theorem Tracks.toggle : Tracks state (togglePaneConnection state paneId now) := by
  unfold togglePaneConnection
  split
  · exact .refl _
  · exact .updatePane _ _ _ _

end Panes

section Steps
variable {ids : UuidSource} {n : ℕ} {state : SessionWorkspaceState}

theorem Arranged.updatePane (h : Arranged ids n state) (paneId now : JsString)
    {update : SessionPane → SessionPane} (hid : ∀ pane, (update pane).id = pane.id) :
    Arranged ids n (updatePane state paneId now update) := by
  refine h.of_panes le_rfl (updatePane_tabs ..) (updatePane_activeTabId ..) fun q pane hget => ?_
  rw [get?_updatePane] at hget
  obtain ⟨old, hold, rfl⟩ := Option.map_eq_some_iff.mp hget
  refine ⟨?_, (h.panes q old hold).2⟩
  split_ifs
  · exact (hid old).trans (h.panes q old hold).1
  · exact (h.panes q old hold).1

theorem Arranged.toggle (h : Arranged ids n state) (paneId now : JsString) :
    Arranged ids n (togglePaneConnection state paneId now) := by
  unfold togglePaneConnection
  split
  · exact h
  · exact h.updatePane _ _ fun _ => rfl

theorem Arranged.refits (h : Arranged ids n state) {tab tab' : SessionTab} (htab : tab ∈ state.tabs)
    (m : ℕ) (tabId : JsString) (hid : tab'.id = tab.id) (hpaneIds : tab'.paneIds = tab.paneIds)
    (hactive : tab'.activePaneId ∈ tab.paneIds) : Refits ids n m tabId tab tab' where
  id := hid
  nonempty := hpaneIds ▸ h.nonempty tab htab
  activePane := hpaneIds ▸ hactive
  once := hpaneIds ▸ h.once tab htab
  paneIds := fun _ hmem => .inl (hpaneIds ▸ hmem)

theorem Arranged.openSession (h : Arranged ids n state) (host : HostRecord) (now : JsString) :
    Arranged ids (n + 2)
      (openSessionWorkspace state host (ids.uuid n) (ids.uuid (n + 1)) now) := by
  unfold openSessionWorkspace
  split
  · rename_i existingTab hfind
    have htab := List.mem_of_find?_eq_some hfind
    refine h.of_mapTab (by omega) existingTab.id rfl (fun tab ht _ => ?_)
      (h.mono (by omega)).panes (.inr ⟨rfl, List.mem_map_of_mem htab⟩)
    exact h.refits ht _ _ rfl rfl (h.activePane tab ht)
  · exact h.append (by omega) ⟨n, by omega, by omega, rfl⟩ ⟨n + 1, by omega, by omega, rfl⟩ rfl rfl
      now

theorem Tracks.openSession (state : SessionWorkspaceState) (host : HostRecord)
    (freshPane freshTab now : JsString) :
    Tracks state (openSessionWorkspace state host freshPane freshTab now) := by
  unfold openSessionWorkspace
  split
  · exact .of_same (fun _ => Iff.rfl) (listed_of_paneIds (mapTab_paneIds fun _ => rfl))
  · exact .append state rfl now

theorem Arranged.closeTab (h : Arranged ids n state) (tabId : JsString) :
    Arranged ids n (closeSessionTab state tabId) := by
  refine h.of_filterMap (f := Option.guard fun entry => entry.id ≠ tabId) le_rfl [] ?_
    (fun tab htab tab' hsome => ?_) (fun paneId pane hget => ?_) h.activeTab.closeSessionTab
  · rw [closeSessionTab_tabs, List.filterMap_eq_filter]
  · obtain ⟨rfl, -⟩ := Option.guard_eq_some_iff.mp hsome
    exact h.refits htab _ _ rfl rfl (h.activePane tab htab)
  · cases hfind : findTab state tabId with
    | none =>
      rw [closeSessionTab_of_none hfind] at hget
      exact h.panes paneId pane hget
    | some tab =>
      rw [closeSessionTab_panes hfind, OrderedMap.get?_eraseAll] at hget
      split_ifs at hget
      exact h.panes paneId pane hget

theorem Tracks.closeTab (h : Arranged ids n state) (tabId : JsString) :
    Tracks state (closeSessionTab state tabId) := by
  cases hfind : findTab state tabId with
  | none =>
    rw [closeSessionTab_of_none hfind]
    exact .refl _
  | some tab =>
    obtain ⟨htab, rfl⟩ := findTab_eq_some hfind
    refine ⟨fun paneId => paneId ∈ tab.paneIds, fun _ => False, fun paneId => ⟨?_, ?_⟩⟩
    · rw [closeSessionTab_panes hfind, OrderedMap.mem_keys_iff, OrderedMap.get?_eraseAll,
        OrderedMap.mem_keys_iff]
      by_cases hmem : paneId ∈ tab.paneIds <;> simp [hmem]
    · rw [or_false, Listed, closeSessionTab_tabs]
      constructor
      · rintro ⟨entry, hentry, hmem⟩
        obtain ⟨hentry, hne⟩ := List.mem_filter.mp hentry
        refine ⟨⟨entry, hentry, hmem⟩, fun hgone => of_decide_eq_true hne ?_⟩
        rw [h.tab_unique hentry htab hmem hgone]
      · rintro ⟨⟨entry, hentry, hmem⟩, hkept⟩
        refine ⟨entry, List.mem_filter.mpr ⟨hentry, decide_eq_true fun hid => hkept ?_⟩, hmem⟩
        rwa [h.id_unique hentry htab hid] at hmem

theorem Arranged.splitTab (h : Arranged ids n state) (tabId : JsString) (host : HostRecord)
    (now : JsString) :
    Arranged ids (n + 1) (splitSessionPane state tabId host (ids.uuid n) now) := by
  unfold splitSessionPane
  split
  · exact h.mono (by omega)
  · rename_i tab hfind
    obtain ⟨htab, rfl⟩ := findTab_eq_some hfind
    have hfresh : Fresh ids n (n + 1) (ids.uuid n) := ⟨n, by omega, by omega, rfl⟩
    refine h.of_mapTab (by omega) tab.id rfl (fun entry hentry hid => ?_)
      (fun paneId pane hget => ?_) (.inr ⟨rfl, List.mem_map_of_mem htab⟩)
    · obtain rfl := h.id_unique hentry htab hid
      constructor
      case id => rfl
      case nonempty => exact List.append_ne_nil_of_right_ne_nil _ (List.cons_ne_nil _ _)
      case activePane => exact List.mem_append_right _ (List.mem_singleton_self _)
      case once =>
        refine (h.once entry htab).append (List.nodup_singleton _) fun paneId hmem hnew => ?_
        rw [List.mem_singleton.mp hnew] at hmem
        exact hfresh.not_drawn ((h.drawn entry htab).2 _ hmem)
      case paneIds =>
        intro paneId hmem
        rcases List.mem_append.mp hmem with hmem | hnew
        · exact .inl hmem
        · exact .inr ⟨rfl, List.mem_singleton.mp hnew ▸ hfresh⟩
    · rw [OrderedMap.get?_set] at hget
      split_ifs at hget with hid
      · obtain rfl := Option.some.inj hget
        exact ⟨hid.symm, hid ▸ hfresh.drawn⟩
      · exact ⟨(h.panes paneId pane hget).1, (h.panes paneId pane hget).2.mono (by omega)⟩

theorem Tracks.splitTab (h : Arranged ids n state) (tabId : JsString) (host : HostRecord)
    (fresh now : JsString) : Tracks state (splitSessionPane state tabId host fresh now) := by
  unfold splitSessionPane
  split
  · exact .refl _
  · rename_i tab hfind
    obtain ⟨htab, rfl⟩ := findTab_eq_some hfind
    refine ⟨fun _ => False, fun paneId => paneId = fresh, fun paneId => ⟨?_, ?_⟩⟩
    · rw [OrderedMap.mem_keys_set]
      simp only [not_false_eq_true, and_true]
      exact or_comm
    · rw [not_false_eq_true, and_true]
      constructor
      · rintro ⟨tab', htab', hmem⟩
        obtain ⟨entry, hentry, rfl⟩ := mem_mapTab.mp htab'
        split_ifs at hmem with hid
        · rcases List.mem_append.mp hmem with hmem | hnew
          · exact .inl ⟨tab, htab, hmem⟩
          · exact .inr (List.mem_singleton.mp hnew)
        · exact .inl ⟨entry, hentry, hmem⟩
      · rintro (⟨entry, hentry, hmem⟩ | rfl)
        · refine ⟨_, mem_mapTab.mpr ⟨entry, hentry, rfl⟩, ?_⟩
          split_ifs with hid
          · rw [← h.id_unique hentry htab hid]
            exact List.mem_append_left _ hmem
          · exact hmem
        · refine ⟨_, mem_mapTab.mpr ⟨tab, htab, rfl⟩, ?_⟩
          rw [if_pos rfl]
          exact List.mem_append_right _ (List.mem_singleton_self _)

theorem Arranged.closePane (h : Arranged ids n state) (tabId paneId now : JsString) :
    Arranged ids n (removeSessionPane state tabId paneId now) := by
  unfold removeSessionPane
  split
  · exact h
  · rename_i tab hfind
    obtain ⟨htab, rfl⟩ := findTab_eq_some hfind
    by_cases hlength : tab.paneIds.length ≤ 1
    · rw [if_pos hlength]
      exact h.closeTab _
    · rw [if_neg hlength]
      have honce := h.once tab htab
      have hnonempty : tab.paneIds.filter (fun entry => entry ≠ paneId) ≠ [] := by
        intro hnil
        have hall : ∀ id ∈ tab.paneIds, id = paneId := by
          simpa using List.filter_eq_nil_iff.mp hnil
        have hsub : tab.paneIds ⊆ [paneId] := fun id hid => List.mem_singleton.mpr (hall id hid)
        exact hlength (List.subperm_of_subset honce hsub).length_le
      refine h.of_mapTab le_rfl tab.id rfl (fun entry hentry hid => ?_)
        (fun id pane hget => ?_) (.inl rfl)
      · obtain rfl := h.id_unique hentry htab hid
        constructor
        case id => rfl
        case nonempty => exact hnonempty
        case activePane =>
          dsimp only
          split_ifs with hactive
          · obtain ⟨id, rest, hcons⟩ := List.exists_cons_of_ne_nil hnonempty
            rw [hcons]
            exact List.mem_cons_self
          · exact List.mem_filter.mpr ⟨h.activePane entry htab, decide_eq_true hactive⟩
        case once => exact honce.filter _
        case paneIds => exact fun id hmem => .inl (List.mem_of_mem_filter hmem)
      · rw [OrderedMap.get?_erase] at hget
        split_ifs at hget
        exact h.panes id pane hget

/-- Closing a pane through the tab that lists it. -/
theorem Tracks.closePane (h : Arranged ids n state) {tabId paneId : JsString} (now : JsString)
    (hown : ∀ tab ∈ state.tabs, tab.id = tabId → paneId ∈ tab.paneIds) :
    Tracks state (removeSessionPane state tabId paneId now) := by
  unfold removeSessionPane
  split
  · exact .refl _
  · rename_i tab hfind
    obtain ⟨htab, rfl⟩ := findTab_eq_some hfind
    have hlists := hown tab htab rfl
    by_cases hlength : tab.paneIds.length ≤ 1
    · rw [if_pos hlength]
      exact .closeTab h _
    · rw [if_neg hlength]
      refine ⟨fun id => id = paneId, fun _ => False, fun id => ⟨?_, ?_⟩⟩
      · rw [OrderedMap.mem_keys_iff, OrderedMap.get?_erase, OrderedMap.mem_keys_iff]
        by_cases hid : id = paneId <;> simp [hid]
      · rw [or_false]
        constructor
        · rintro ⟨tab', htab', hmem⟩
          obtain ⟨entry, hentry, rfl⟩ := mem_mapTab.mp htab'
          by_cases hid : entry.id = tab.id
          · rw [if_pos hid] at hmem
            obtain ⟨hmem, hne⟩ := List.mem_filter.mp hmem
            exact ⟨⟨tab, htab, hmem⟩, of_decide_eq_true hne⟩
          · rw [if_neg hid] at hmem
            refine ⟨⟨entry, hentry, hmem⟩, ?_⟩
            rintro rfl
            exact hid (congrArg SessionTab.id (h.tab_unique hentry htab hmem hlists))
        · rintro ⟨⟨entry, hentry, hmem⟩, hne⟩
          refine ⟨_, mem_mapTab.mpr ⟨entry, hentry, rfl⟩, ?_⟩
          by_cases hid : entry.id = tab.id
          · rw [if_pos hid]
            rw [h.id_unique hentry htab hid] at hmem
            exact List.mem_filter.mpr ⟨hmem, decide_eq_true hne⟩
          · rw [if_neg hid]
            exact hmem

theorem Arranged.closeHost (h : Arranged ids n state) (hostId : JsString) :
    Arranged ids n (closePanesForHost state hostId) := by
  obtain ⟨htabs, hget, hactive⟩ := closePanesForHost_spec h.tabIds h.activeTab hostId
  refine h.of_filterMap le_rfl [] (.of_eq htabs) (fun tab htab tab' htrim => ?_)
    (fun paneId pane hsome => ?_) hactive
  · obtain ⟨hid, -, hpaneIds⟩ := trimTab_eq_some htrim
    obtain ⟨hne, hmem⟩ := trimTab_active htrim (h.nonempty tab htab) (h.activePane tab htab)
    refine ⟨hid, hne, hmem, ?_, fun id hid => .inl ?_⟩
    · rw [hpaneIds]
      exact (h.once tab htab).filter _
    · rw [hpaneIds] at hid
      exact List.mem_of_mem_filter hid
  · rw [hget] at hsome
    split_ifs at hsome
    exact h.panes paneId pane hsome

theorem Tracks.closeHost (h : Arranged ids n state) (hostId : JsString) :
    Tracks state (closePanesForHost state hostId) := by
  obtain ⟨htabs, hget, -⟩ := closePanesForHost_spec h.tabIds h.activeTab hostId
  refine ⟨fun id => id ∈ panesOfHost state hostId, fun _ => False, fun id => ⟨?_, ?_⟩⟩
  · rw [OrderedMap.mem_keys_iff, hget, OrderedMap.mem_keys_iff]
    by_cases hid : id ∈ panesOfHost state hostId <;> simp [hid]
  · rw [or_false, Listed, htabs]
    constructor
    · rintro ⟨tab', htab', hmem⟩
      obtain ⟨tab, htab, htrim⟩ := List.mem_filterMap.mp htab'
      rw [(trimTab_eq_some htrim).2.2] at hmem
      obtain ⟨hmem, hkept⟩ := List.mem_filter.mp hmem
      exact ⟨⟨tab, htab, hmem⟩, of_decide_eq_true hkept⟩
    · rintro ⟨⟨tab, htab, hmem⟩, hkept⟩
      cases htrim : trimTab (panesOfHost state hostId) tab with
      | none => exact absurd (trimTab_eq_none htrim id hmem) hkept
      | some tab' =>
        refine ⟨tab', List.mem_filterMap.mpr ⟨tab, htab, htrim⟩, ?_⟩
        rw [(trimTab_eq_some htrim).2.2]
        exact List.mem_filter.mpr ⟨hmem, decide_eq_true hkept⟩

theorem Arranged.selectTab (h : Arranged ids n state) (tabId : JsString) :
    Arranged ids n (setActiveSessionTab state tabId) := by
  unfold setActiveSessionTab
  split_ifs with hany
  · obtain ⟨tab, htab, hid⟩ := List.any_eq_true.mp hany
    exact h.select (of_decide_eq_true hid ▸ List.mem_map_of_mem htab)
  · exact h

theorem Tracks.selectTab (state : SessionWorkspaceState) (tabId : JsString) :
    Tracks state (setActiveSessionTab state tabId) := by
  unfold setActiveSessionTab
  split_ifs
  · exact .of_same (fun _ => Iff.rfl) fun _ => Iff.rfl
  · exact .refl _

/-- Of several tabs the one at the next index is there. -/
theorem cycleSessionTab_activeTabId (state : SessionWorkspaceState)
    (direction : CycleDirection) :
    cycleSessionTab state direction = state ∨
      ∃ tab ∈ state.tabs, cycleSessionTab state direction =
        { state with activeTabId := some tab.id } := by
  unfold cycleSessionTab
  split_ifs with hlength
  · exact .inl rfl
  · right
    dsimp only
    generalize ((state.tabs.findIdx? fun tab => some tab.id = state.activeTabId).getD 0) = start
    have hpos : (0 : ℤ) < state.tabs.length := by omega
    have hlt := Int.emod_lt_of_pos (start + direction.offset + state.tabs.length) hpos
    have hnonneg := Int.emod_nonneg (start + direction.offset + state.tabs.length) hpos.ne'
    have hindex : ((start + direction.offset + state.tabs.length) % state.tabs.length).toNat <
        state.tabs.length := by omega
    rw [List.getElem?_eq_getElem hindex]
    exact ⟨_, List.getElem_mem hindex, rfl⟩

theorem Arranged.cycleTab (h : Arranged ids n state) (direction : CycleDirection) :
    Arranged ids n (cycleSessionTab state direction) := by
  rcases cycleSessionTab_activeTabId state direction with hsame | ⟨tab, htab, hset⟩
  · rwa [hsame]
  · rw [hset]
    exact h.select (List.mem_map_of_mem htab)

theorem Tracks.cycleTab (state : SessionWorkspaceState) (direction : CycleDirection) :
    Tracks state (cycleSessionTab state direction) := by
  rcases cycleSessionTab_activeTabId state direction with hsame | ⟨tab, -, hset⟩
  · rw [hsame]
    exact .refl _
  · rw [hset]
    exact .of_same (fun _ => Iff.rfl) fun _ => Iff.rfl

theorem Arranged.mapTab (h : Arranged ids n state) {tabId : JsString}
    {update : SessionTab → SessionTab}
    (hupdate : ∀ tab ∈ state.tabs, (update tab).id = tab.id ∧
      (update tab).paneIds = tab.paneIds ∧ (update tab).activePaneId ∈ tab.paneIds) :
    Arranged ids n (mapTab state tabId update) :=
  h.of_mapTab le_rfl tabId rfl
    (fun tab htab _ => h.refits htab _ _ (hupdate tab htab).1 (hupdate tab htab).2.1
      (hupdate tab htab).2.2) h.panes (.inl rfl)

theorem Arranged.selectPane (h : Arranged ids n state) (tabId paneId now : JsString) :
    Arranged ids n (setActiveSessionPane state tabId paneId now) := by
  refine h.mapTab fun tab htab => ?_
  split_ifs with hmem
  · exact ⟨rfl, rfl, hmem⟩
  · exact ⟨rfl, rfl, h.activePane tab htab⟩

theorem Tracks.selectPane (state : SessionWorkspaceState) (tabId paneId now : JsString) :
    Tracks state (setActiveSessionPane state tabId paneId now) :=
  Tracks.mapTab fun tab => by split_ifs <;> rfl

theorem Arranged.splitRatio (h : Arranged ids n state) (tabId : JsString) (ratio : Option ℚ)
    (now : JsString) : Arranged ids n (setTabSplitRatio state tabId ratio now) := by
  cases ratio with
  | none => exact h
  | some ratio => exact h.mapTab fun tab htab => ⟨rfl, rfl, h.activePane tab htab⟩

theorem Tracks.splitRatio (state : SessionWorkspaceState) (tabId : JsString) (ratio : Option ℚ)
    (now : JsString) : Tracks state (setTabSplitRatio state tabId ratio now) := by
  cases ratio with
  | none => exact .refl _
  | some ratio => exact Tracks.mapTab fun _ => rfl

/-- A tab that is dragged stays one of the tabs. -/
theorem reorderSessionTabs_spec (state : SessionWorkspaceState) (fromIndex toIndex : ℤ) :
    (reorderSessionTabs state fromIndex toIndex).tabs.Perm state.tabs ∧
      (reorderSessionTabs state fromIndex toIndex).panes = state.panes ∧
      (reorderSessionTabs state fromIndex toIndex).activeTabId = state.activeTabId := by
  unfold reorderSessionTabs
  split_ifs with hout
  · exact ⟨.refl _, rfl, rfl⟩
  · split
    · exact ⟨.refl _, rfl, rfl⟩
    · rename_i moved hmoved
      obtain ⟨hlt, rfl⟩ := List.getElem?_eq_some_iff.mp hmoved
      refine ⟨?_, rfl, rfl⟩
      have hto : toIndex.toNat ≤ (state.tabs.eraseIdx fromIndex.toNat).length := by
        rw [List.length_eraseIdx_of_lt hlt]
        omega
      exact (List.perm_insertIdx _ _ hto).trans (List.getElem_cons_eraseIdx_perm hlt)

theorem Arranged.reorder (h : Arranged ids n state) (fromIndex toIndex : ℤ) :
    Arranged ids n (reorderSessionTabs state fromIndex toIndex) := by
  obtain ⟨hperm, hpanes, hactive⟩ := reorderSessionTabs_spec state fromIndex toIndex
  refine h.of_filterMap (f := some) le_rfl [] ?_ (fun tab htab tab' hsome => ?_) ?_ ?_
  · rwa [List.filterMap_some]
  · obtain rfl := Option.some.inj hsome
    exact h.refits htab _ _ rfl rfl (h.activePane tab htab)
  · rw [hpanes]
    exact h.panes
  · refine ⟨fun tabId hid => ?_, fun hnone => ?_⟩
    · rw [hactive] at hid
      exact (hperm.map _).mem_iff.mpr (h.activeTab.1 tabId hid)
    · rw [hactive] at hnone
      rw [h.activeTab.2 hnone] at hperm
      exact hperm.eq_nil

theorem Tracks.reorder (state : SessionWorkspaceState) (fromIndex toIndex : ℤ) :
    Tracks state (reorderSessionTabs state fromIndex toIndex) := by
  obtain ⟨hperm, hpanes, -⟩ := reorderSessionTabs_spec state fromIndex toIndex
  refine .of_same (fun id => by rw [hpanes]) fun id => ?_
  simp only [Listed, hperm.mem_iff]

end Steps
end Sessions
