import Mathlib.Data.List.Pairwise
import TerminalWorkspace.Sessions.Store

/-! How the tabs and the panes of the sessions store fit together. A part of it holds after any
action with any arguments, the rest as long as a pane is closed through the tab that lists it. -/
namespace Sessions
open JsText Inventory RecordFile Runs

/-- Tabs list panes once and the panes there are, and one of the tabs is active. -/
structure WellFormed (state : SessionWorkspaceState) : Prop where
  nonempty : ∀ tab ∈ state.tabs, tab.paneIds ≠ []
  activePane : ∀ tab ∈ state.tabs, tab.activePaneId ∈ tab.paneIds
  paneIdsOnce : ∀ tab ∈ state.tabs, tab.paneIds.Nodup
  paneIdsApart : state.tabs.Pairwise fun first second => first.paneIds.Disjoint second.paneIds
  keys : ∀ paneId, paneId ∈ state.panes.keys ↔ ∃ tab ∈ state.tabs, paneId ∈ tab.paneIds
  tabIds : (state.tabs.map (·.id)).Nodup
  activeTab : ∀ tabId, state.activeTabId = some tabId → ∃ tab ∈ state.tabs, tab.id = tabId
  someActiveTab : state.activeTabId = none → state.tabs = []

/-- An active tab is one of the tabs, and there is one unless there is no tab. -/
def ActiveTab (state : SessionWorkspaceState) : Prop :=
  (∀ tabId, state.activeTabId = some tabId → tabId ∈ state.tabs.map (·.id)) ∧
    (state.activeTabId = none → state.tabs = [])

def Listed (state : SessionWorkspaceState) (paneId : JsString) : Prop :=
  ∃ tab ∈ state.tabs, paneId ∈ tab.paneIds

section Rules
variable (ids : UuidSource)

/-- One of the ids drawn up to some call. -/
def Drawn (n : ℕ) (id : JsString) : Prop := ∃ k < n, id = ids.uuid k

/-- One of the ids drawn from one call up to another. -/
def Fresh (n m : ℕ) (id : JsString) : Prop := ∃ k, n ≤ k ∧ k < m ∧ id = ids.uuid k

/-- The two tabs have nothing in common. -/
def Apart (first second : SessionTab) : Prop :=
  first.id ≠ second.id ∧ first.paneIds.Disjoint second.paneIds

/-- What holds of the tabs and panes whatever is done. -/
structure Arranged (n : ℕ) (state : SessionWorkspaceState) : Prop where
  nonempty : ∀ tab ∈ state.tabs, tab.paneIds ≠ []
  activePane : ∀ tab ∈ state.tabs, tab.activePaneId ∈ tab.paneIds
  once : ∀ tab ∈ state.tabs, tab.paneIds.Nodup
  apart : state.tabs.Pairwise Apart
  drawn : ∀ tab ∈ state.tabs, Drawn ids n tab.id ∧ ∀ paneId ∈ tab.paneIds, Drawn ids n paneId
  panes : ∀ paneId pane, state.panes.get? paneId = some pane →
    pane.id = paneId ∧ Drawn ids n paneId
  activeTab : ActiveTab state

/-- A tab that is kept, perhaps with other panes: only one tab may get panes it did not have. -/
structure Refits (n m : ℕ) (tabId : JsString) (tab tab' : SessionTab) : Prop where
  id : tab'.id = tab.id
  nonempty : tab'.paneIds ≠ []
  activePane : tab'.activePaneId ∈ tab'.paneIds
  once : tab'.paneIds.Nodup
  paneIds : ∀ paneId ∈ tab'.paneIds, paneId ∈ tab.paneIds ∨ tab.id = tabId ∧ Fresh ids n m paneId

variable {ids} {n m : ℕ} {state state' : SessionWorkspaceState}

theorem Drawn.mono {id : JsString} (h : Drawn ids n id) (hle : n ≤ m) : Drawn ids m id := by
  obtain ⟨k, hk, rfl⟩ := h
  exact ⟨k, by omega, rfl⟩

theorem Fresh.drawn {id : JsString} (h : Fresh ids n m id) : Drawn ids m id := by
  obtain ⟨k, -, hk, rfl⟩ := h
  exact ⟨k, hk, rfl⟩

theorem Fresh.not_drawn {id : JsString} (h : Fresh ids n m id) : ¬ Drawn ids n id := by
  rintro ⟨j, hj, heq⟩
  obtain ⟨k, hk, -, rfl⟩ := h
  have := ids.injective heq
  omega

instance : Std.Symm Apart := ⟨fun _ _ h => ⟨h.1.symm, fun _ hf hs => h.2 hs hf⟩⟩

theorem Arranged.tabIds (h : Arranged ids n state) : (state.tabs.map (·.id)).Nodup :=
  List.pairwise_map.mpr (h.apart.imp And.left)

/-- A pane is listed by one tab only. -/
theorem Arranged.tab_unique (h : Arranged ids n state) {first second : SessionTab}
    (hfirst : first ∈ state.tabs) (hsecond : second ∈ state.tabs) {paneId : JsString}
    (hf : paneId ∈ first.paneIds) (hs : paneId ∈ second.paneIds) : first = second := by
  by_contra hne
  exact (h.apart.forall hfirst hsecond hne).2 hf hs

theorem Arranged.id_unique (h : Arranged ids n state) {first second : SessionTab}
    (hfirst : first ∈ state.tabs) (hsecond : second ∈ state.tabs) (hid : first.id = second.id) :
    first = second :=
  List.inj_on_of_nodup_map h.tabIds hfirst hsecond hid

theorem Refits.apart {tabId : JsString} {first first' second second' : SessionTab}
    (hfirst : Refits ids n m tabId first first') (hsecond : Refits ids n m tabId second second')
    (h : Apart first second) (hdrawn : ∀ paneId ∈ first.paneIds, Drawn ids n paneId)
    (hdrawn' : ∀ paneId ∈ second.paneIds, Drawn ids n paneId) : Apart first' second' := by
  refine ⟨?_, fun paneId hf hs => ?_⟩
  · rw [hfirst.id, hsecond.id]
    exact h.1
  · rcases hfirst.paneIds paneId hf with hf | ⟨hid, hfresh⟩
    · rcases hsecond.paneIds paneId hs with hs | ⟨-, hfresh⟩
      · exact h.2 hf hs
      · exact hfresh.not_drawn (hdrawn paneId hf)
    · rcases hsecond.paneIds paneId hs with hs | ⟨hid', -⟩
      · exact hfresh.not_drawn (hdrawn' paneId hs)
      · exact h.1 (hid.trans hid'.symm)

/-- The rule for an action that drops, rewrites or moves tabs. -/
theorem Arranged.of_filterMap (h : Arranged ids n state) (hle : n ≤ m)
    {f : SessionTab → Option SessionTab} (tabId : JsString)
    (htabs : state'.tabs.Perm (state.tabs.filterMap f))
    (hf : ∀ tab ∈ state.tabs, ∀ tab', f tab = some tab' → Refits ids n m tabId tab tab')
    (hpanes : ∀ paneId pane, state'.panes.get? paneId = some pane →
      pane.id = paneId ∧ Drawn ids m paneId)
    (hactive : ActiveTab state') : Arranged ids m state' := by
  have hrefits {tab' : SessionTab} (htab' : tab' ∈ state'.tabs) :
      ∃ tab ∈ state.tabs, Refits ids n m tabId tab tab' := by
    obtain ⟨tab, htab, hsome⟩ := List.mem_filterMap.mp (htabs.mem_iff.mp htab')
    exact ⟨tab, htab, hf tab htab tab' hsome⟩
  constructor
  case nonempty => exact fun tab' htab' => (hrefits htab').elim fun _ hr => hr.2.nonempty
  case activePane => exact fun tab' htab' => (hrefits htab').elim fun _ hr => hr.2.activePane
  case once => exact fun tab' htab' => (hrefits htab').elim fun _ hr => hr.2.once
  case apart =>
    rw [htabs.pairwise_iff fun h => Std.Symm.symm _ _ h, List.pairwise_filterMap]
    refine List.Pairwise.imp_of_mem (fun {a b} ha hb hapart => ?_) h.apart
    intro first' hfirst second' hsecond
    exact (hf a ha first' hfirst).apart (hf b hb second' hsecond) hapart (h.drawn a ha).2
      (h.drawn b hb).2
  case drawn =>
    intro tab' htab'
    obtain ⟨tab, htab, hr⟩ := hrefits htab'
    obtain ⟨hid, hpaneIds⟩ := h.drawn tab htab
    refine ⟨hr.id ▸ hid.mono hle, fun paneId hmem => ?_⟩
    rcases hr.paneIds paneId hmem with hmem | ⟨-, hfresh⟩
    · exact (hpaneIds paneId hmem).mono hle
    · exact hfresh.drawn
  case panes => exact hpanes
  case activeTab => exact hactive

/-- The rule for an action that adds a tab with a pane of its own. -/
theorem Arranged.append (h : Arranged ids n state) (hle : n ≤ m) {pane : SessionPane}
    {tab : SessionTab} (hpane : Fresh ids n m pane.id) (htab : Fresh ids n m tab.id)
    (hpaneIds : tab.paneIds = [pane.id]) (hactive : tab.activePaneId = pane.id) (now : JsString) :
    Arranged ids m (appendTab state pane tab now) := by
  constructor
  case nonempty =>
    intro t ht
    rcases List.mem_append.mp ht with ht | ht
    · exact h.nonempty t ht
    · rw [List.mem_singleton.mp ht, hpaneIds]
      exact List.cons_ne_nil _ _
  case activePane =>
    intro t ht
    rcases List.mem_append.mp ht with ht | ht
    · exact h.activePane t ht
    · rw [List.mem_singleton.mp ht, hpaneIds, hactive]
      exact List.mem_singleton_self _
  case once =>
    intro t ht
    rcases List.mem_append.mp ht with ht | ht
    · exact h.once t ht
    · rw [List.mem_singleton.mp ht, hpaneIds]
      exact List.nodup_singleton _
  case apart =>
    refine List.pairwise_append.mpr ⟨h.apart, List.pairwise_singleton _ _, fun t ht u hu => ?_⟩
    rw [List.mem_singleton.mp hu]
    obtain ⟨hid, hdrawn⟩ := h.drawn t ht
    refine ⟨fun heq => htab.not_drawn (heq ▸ hid), fun paneId hmem hmem' => ?_⟩
    rw [hpaneIds, List.mem_singleton] at hmem'
    exact hpane.not_drawn (hmem' ▸ hdrawn paneId hmem)
  case drawn =>
    intro t ht
    rcases List.mem_append.mp ht with ht | ht
    · exact ⟨(h.drawn t ht).1.mono hle, fun p hp => ((h.drawn t ht).2 p hp).mono hle⟩
    · rw [List.mem_singleton.mp ht, hpaneIds]
      refine ⟨htab.drawn, fun p hp => ?_⟩
      rw [List.mem_singleton.mp hp]
      exact hpane.drawn
  case panes =>
    intro paneId stored hget
    rw [appendTab, OrderedMap.get?_set] at hget
    split_ifs at hget with hid
    · obtain rfl := Option.some.inj hget
      exact ⟨hid.symm, hid ▸ hpane.drawn⟩
    · exact ⟨(h.panes paneId stored hget).1, (h.panes paneId stored hget).2.mono hle⟩
  case activeTab =>
    refine ⟨fun tabId hid => ?_, fun hnone => by cases hnone⟩
    obtain rfl := Option.some.inj hid
    exact List.mem_map_of_mem (List.mem_append_right _ (List.mem_singleton_self _))

/-- Other panes under the same ids. -/
theorem Arranged.of_panes (h : Arranged ids n state) (hle : n ≤ m)
    (htabs : state'.tabs = state.tabs) (hid : state'.activeTabId = state.activeTabId)
    (hpanes : ∀ paneId pane, state'.panes.get? paneId = some pane →
      pane.id = paneId ∧ Drawn ids m paneId) : Arranged ids m state' := by
  refine h.of_filterMap (f := some) hle [] ?_ (fun tab htab tab' hsome => ?_) hpanes ?_
  · rw [htabs, List.filterMap_some]
  · obtain rfl := Option.some.inj hsome
    exact ⟨rfl, h.nonempty tab htab, h.activePane tab htab, h.once tab htab, fun _ => .inl⟩
  · rw [ActiveTab, htabs, hid]
    exact h.activeTab

theorem Arranged.mono (h : Arranged ids n state) (hle : n ≤ m) : Arranged ids m state :=
  h.of_panes hle rfl rfl fun paneId pane hget =>
    ⟨(h.panes paneId pane hget).1, (h.panes paneId pane hget).2.mono hle⟩

/-- The rule for an action that rewrites the tabs with one id. -/
theorem Arranged.of_mapTab (h : Arranged ids n state) (hle : n ≤ m) (tabId : JsString)
    {update : SessionTab → SessionTab} (htabs : state'.tabs = (mapTab state tabId update).tabs)
    (hupdate : ∀ tab ∈ state.tabs, tab.id = tabId → Refits ids n m tabId tab (update tab))
    (hpanes : ∀ paneId pane, state'.panes.get? paneId = some pane →
      pane.id = paneId ∧ Drawn ids m paneId)
    (hactive : state'.activeTabId = state.activeTabId ∨
      state'.activeTabId = some tabId ∧ tabId ∈ state.tabs.map (·.id)) :
    Arranged ids m state' := by
  have hkeeps : ∀ tab ∈ state.tabs,
      Refits ids n m tabId tab (if tab.id = tabId then update tab else tab) := by
    intro tab htab
    split_ifs with hid
    · exact hupdate tab htab hid
    · exact ⟨rfl, h.nonempty tab htab, h.activePane tab htab, h.once tab htab, fun _ => .inl⟩
  have hids : state'.tabs.map (·.id) = state.tabs.map (·.id) := by
    rw [htabs, mapTab, List.map_map]
    exact List.map_congr_left fun tab htab => (hkeeps tab htab).id
  refine h.of_filterMap (f := fun tab => some (if tab.id = tabId then update tab else tab)) hle
    tabId ?_ (fun tab htab tab' hsome => ?_) hpanes ?_
  · rw [htabs, mapTab, List.filterMap_eq_map']
  · obtain rfl := Option.some.inj hsome
    exact hkeeps tab htab
  · rcases hactive with hsame | ⟨hset, hmem⟩
    · refine ⟨fun id hid => ?_, fun hnone => ?_⟩
      · rw [hids]
        exact h.activeTab.1 id (hsame ▸ hid)
      · have hempty := h.activeTab.2 (hsame ▸ hnone)
        rw [hempty, List.map_nil, List.map_eq_nil_iff] at hids
        exact hids
    · refine ⟨fun id hid => ?_, fun hnone => ?_⟩
      · rw [hids, ← Option.some.inj (hset.symm.trans hid)]
        exact hmem
      · rw [hset] at hnone
        cases hnone

theorem Arranged.select (h : Arranged ids n state) {tabId : JsString}
    (hmem : tabId ∈ state.tabs.map (·.id)) :
    Arranged ids n { state with activeTabId := some tabId } :=
  { h with
    activeTab := by
      refine ⟨fun id hid => ?_, fun hnone => nomatch hnone⟩
      rwa [← Option.some.inj hid] }

end Rules
end Sessions
