import Mathlib.Data.List.Forall2
import TerminalWorkspace.Sessions.WellFormed

/-! Where the commands of `queueCommandForHosts` go. -/
namespace Sessions
open JsText Inventory RecordFile Runs

/-- The pane that a command for a host is queued on, if the host has a tab. -/
def targetPane (state : SessionWorkspaceState) (host : HostRecord) : Option JsString :=
  (state.tabs.find? fun tab => tab.hostId = host.id).map (·.activePaneId)

/-- A pane that is there and belongs to a host. -/
def OnHost (state : SessionWorkspaceState) (host : HostRecord) (paneId : JsString) : Prop :=
  ∃ pane, state.panes.get? paneId = some pane ∧ pane.hostId = host.id

def queueOf (state : SessionWorkspaceState) (paneId : JsString) : List QueuedPaneCommand :=
  (state.panes.get? paneId).elim [] (·.queuedCommands)

/-- One command for each of the hosts, in their order, each on a pane of its host, and nothing on
any other pane. -/
structure Delivered (state : SessionWorkspaceState) (hosts : List HostRecord) (command : JsString)
    (label : Option JsString) (q : Queueing) : Prop where
  targets : List.Forall₂ (OnHost q.state) hosts q.paneIds
  panes : ∀ paneId, (state.panes.get? paneId).isSome → (q.state.panes.get? paneId).isSome
  queues : ∀ paneId, (q.state.panes.get? paneId).isSome → ∃ queued : List QueuedPaneCommand,
    queueOf q.state paneId = queueOf state paneId ++ queued ∧
      queued.length = q.paneIds.count paneId ∧ ∀ c ∈ queued, c.command = command ∧ c.label = label

/-- Where a host has a tab, the active pane of its first tab belongs to the host. -/
def TabOnHost (state : SessionWorkspaceState) (host : HostRecord) : Prop :=
  ∀ paneId, targetPane state host = some paneId → OnHost state host paneId

section Targets
variable {ids : UuidSource} {n : ℕ} {state : SessionWorkspaceState}

theorem targetPane_congr {first second : HostRecord} (h : first.id = second.id) :
    targetPane state first = targetPane state second := by
  rw [targetPane, targetPane, h]

theorem OnHost.congr {first second : HostRecord} (h : first.id = second.id) {paneId : JsString}
    (hon : OnHost state first paneId) : OnHost state second paneId := by
  obtain ⟨pane, hget, hhost⟩ := hon
  exact ⟨pane, hget, hhost.trans h⟩

theorem Arranged.target_drawn (h : Arranged ids n state) {host : HostRecord} {paneId : JsString}
    (htarget : targetPane state host = some paneId) : Drawn ids n paneId := by
  obtain ⟨tab, hfind, rfl⟩ := Option.map_eq_some_iff.mp htarget
  have htab := List.mem_of_find?_eq_some hfind
  exact (h.drawn tab htab).2 _ (h.activePane tab htab)

theorem Arranged.get?_fresh (h : Arranged ids n state) {paneId : JsString}
    (hfresh : ¬ Drawn ids n paneId) : state.panes.get? paneId = none := by
  rw [Option.eq_none_iff_forall_ne_some]
  exact fun pane hget => hfresh (h.panes paneId pane hget).2

/-- Only the time of the tab that is opened again changes. -/
theorem targetPane_touch {tabId now : JsString} {activeTabId : Option JsString}
    (host : HostRecord) :
    targetPane { mapTab state tabId fun tab => { tab with updatedAt := now } with
      activeTabId := activeTabId } host = targetPane state host := by
  have hsame : ∀ tab : SessionTab,
      (if tab.id = tabId then { tab with updatedAt := now } else tab).hostId = tab.hostId ∧
        (if tab.id = tabId then { tab with updatedAt := now } else tab).activePaneId =
          tab.activePaneId := by
    intro tab
    split_ifs <;> exact ⟨rfl, rfl⟩
  simp only [targetPane, mapTab, List.find?_map, Option.map_map, Function.comp_def, hsame]

theorem targetPane_append {pane : SessionPane} {tab : SessionTab} {now : JsString}
    (host : HostRecord) :
    targetPane (appendTab state pane tab now) host =
      (targetPane state host).or (if tab.hostId = host.id then some tab.activePaneId else none) := by
  simp only [targetPane, appendTab, List.find?_append, List.find?_cons, List.find?_nil]
  by_cases hid : tab.hostId = host.id
  · cases state.tabs.find? fun tab => tab.hostId = host.id <;> simp [hid]
  · cases state.tabs.find? fun tab => tab.hostId = host.id <;> simp [hid]

/-- Opening a host either finds its tab, and leaves all panes as they are, or adds a tab with one
pane of the host. -/
theorem openSession_cases (state : SessionWorkspaceState) (host : HostRecord)
    (freshPane freshTab now : JsString) :
    ((targetPane state host).isSome ∧
      (openSessionWorkspace state host freshPane freshTab now).panes = state.panes ∧
      ∀ other, targetPane (openSessionWorkspace state host freshPane freshTab now) other =
        targetPane state other) ∨
    (targetPane state host = none ∧
      (openSessionWorkspace state host freshPane freshTab now).panes =
        state.panes.set freshPane (createSessionPane host none freshPane now) ∧
      ∀ other, targetPane (openSessionWorkspace state host freshPane freshTab now) other =
        (targetPane state other).or (if host.id = other.id then some freshPane else none)) := by
  unfold openSessionWorkspace
  split
  · rename_i existingTab hfind
    refine .inl ⟨?_, rfl, targetPane_touch⟩
    rw [targetPane, hfind]
    rfl
  · rename_i hnone
    refine .inr ⟨?_, rfl, targetPane_append⟩
    rw [targetPane, hnone]
    rfl

theorem targetPane_updatePane (paneId now : JsString) (update : SessionPane → SessionPane)
    (host : HostRecord) :
    targetPane (updatePane state paneId now update) host = targetPane state host := by
  rw [targetPane, updatePane_tabs, targetPane]

section Queued
variable (state : SessionWorkspaceState) (paneId command : JsString) (label : Option JsString)
  (fresh now : JsString)

theorem get?_queuePaneCommand_other {id : JsString} (h : id ≠ paneId) :
    (queuePaneCommand state paneId command label fresh now).panes.get? id =
      state.panes.get? id :=
  get?_updatePane_other _ _ _ _ h

theorem get?_queuePaneCommand_self :
    (queuePaneCommand state paneId command label fresh now).panes.get? paneId =
      (state.panes.get? paneId).map fun pane =>
        { pane with
          queuedCommands := pane.queuedCommands ++ [⟨fresh, command, label, now⟩]
          updatedAt := now } :=
  get?_updatePane_self ..

theorem targetPane_queuePaneCommand (host : HostRecord) :
    targetPane (queuePaneCommand state paneId command label fresh now) host =
      targetPane state host :=
  targetPane_updatePane ..

end Queued

end Targets

section Rounds
variable {ids : UuidSource} {command : JsString} {label : Option JsString} {now : JsString}

/-- What one round of the loop does: one command is queued on the target of the host, unless that
pane is gone. -/
structure QueuedFor (ids : UuidSource) (q q' : Queueing) (host : HostRecord) (command : JsString)
    (label : Option JsString) (paneId : JsString) : Prop where
  issued : q'.issued = q.issued + 3
  paneIds : q'.paneIds = q.paneIds ++ [paneId]
  target : targetPane q'.state host = some paneId
  kept : ∀ other id, targetPane q.state other = some id → targetPane q'.state other = some id
  others : ∀ other, other.id ≠ host.id → targetPane q'.state other = targetPane q.state other
  opened : targetPane q.state host = none →
    OnHost q'.state host paneId ∧ ¬ Drawn ids q.issued paneId
  panes : ∀ id, id ≠ paneId → q'.state.panes.get? id = q.state.panes.get? id
  gone : targetPane q.state host = some paneId → q.state.panes.get? paneId = none →
    q'.state.panes.get? paneId = none
  there : ∀ pane, q.state.panes.get? paneId = some pane →
    ∃ pane', q'.state.panes.get? paneId = some pane' ∧ pane'.hostId = pane.hostId
  queue : ∀ pane', q'.state.panes.get? paneId = some pane' →
    ∃ c : QueuedPaneCommand, pane'.queuedCommands = queueOf q.state paneId ++ [c] ∧
      c.command = command ∧ c.label = label

theorem queueForHost_eq {q : Queueing} {host : HostRecord} {paneId : JsString}
    (h : targetPane (openSessionWorkspace q.state host (ids.uuid q.issued)
      (ids.uuid (q.issued + 1)) now) host = some paneId) :
    queueForHost ids command label now q host =
      { state := queuePaneCommand (openSessionWorkspace q.state host (ids.uuid q.issued)
          (ids.uuid (q.issued + 1)) now) paneId command label (ids.uuid (q.issued + 2)) now
        paneIds := q.paneIds ++ [paneId]
        issued := q.issued + 3 } := by
  obtain ⟨tab, hfind, rfl⟩ := Option.map_eq_some_iff.mp h
  simp only [queueForHost, hfind]

theorem Arranged.queuedFor {q : Queueing} (h : Arranged ids q.issued q.state)
    (command : JsString) (label : Option JsString) (now : JsString) (host : HostRecord) :
    ∃ paneId, Drawn ids (q.issued + 3) paneId ∧
      QueuedFor ids q (Sessions.queueForHost ids command label now q host) host command label
        paneId := by
  rcases openSession_cases q.state host (ids.uuid q.issued) (ids.uuid (q.issued + 1)) now with
    ⟨hsome, hpanes, htargets⟩ | ⟨hnone, hpanes, htargets⟩
  · obtain ⟨paneId, htarget⟩ := Option.isSome_iff_exists.mp hsome
    refine ⟨paneId, (h.target_drawn htarget).mono (by omega), ?_⟩
    rw [queueForHost_eq ((htargets host).trans htarget)]
    constructor <;> dsimp only
    case target => rw [targetPane_queuePaneCommand, htargets, htarget]
    case kept =>
      intro other id hid
      rw [targetPane_queuePaneCommand, htargets, hid]
    case others =>
      intro other _
      rw [targetPane_queuePaneCommand, htargets]
    case opened =>
      intro hnone
      rw [htarget] at hnone
      cases hnone
    case panes =>
      intro id hid
      rw [get?_queuePaneCommand_other _ _ _ _ _ _ hid, hpanes]
    case gone =>
      intro _ hnone
      rw [get?_queuePaneCommand_self, hpanes, hnone, Option.map_none]
    case there =>
      intro pane hpane
      rw [get?_queuePaneCommand_self, hpanes, hpane]
      exact ⟨_, rfl, rfl⟩
    case queue =>
      intro pane' hpane'
      rw [get?_queuePaneCommand_self, hpanes] at hpane'
      obtain ⟨pane, hpane, rfl⟩ := Option.map_eq_some_iff.mp hpane'
      rw [queueOf, hpane]
      exact ⟨_, rfl, rfl, rfl⟩
  · have htarget : targetPane (openSessionWorkspace q.state host (ids.uuid q.issued)
        (ids.uuid (q.issued + 1)) now) host = some (ids.uuid q.issued) := by
      rw [htargets, hnone, if_pos rfl, Option.none_or]
    have hfresh : Fresh ids q.issued (q.issued + 1) (ids.uuid q.issued) :=
      ⟨q.issued, le_rfl, by omega, rfl⟩
    have hmissing := h.get?_fresh hfresh.not_drawn
    refine ⟨ids.uuid q.issued, ⟨q.issued, by omega, rfl⟩, ?_⟩
    rw [queueForHost_eq htarget]
    constructor <;> dsimp only
    case target => rw [targetPane_queuePaneCommand, htarget]
    case kept =>
      intro other id hid
      rw [targetPane_queuePaneCommand, htargets, hid, Option.some_or]
    case others =>
      intro other hother
      rw [targetPane_queuePaneCommand, htargets, if_neg hother.symm, Option.or_none]
    case opened =>
      intro _
      rw [OnHost, get?_queuePaneCommand_self, hpanes, OrderedMap.get?_set_self]
      exact ⟨⟨_, rfl, rfl⟩, hfresh.not_drawn⟩
    case panes =>
      intro id hid
      rw [get?_queuePaneCommand_other _ _ _ _ _ _ hid, hpanes, OrderedMap.get?_set, if_neg hid]
    case gone =>
      intro hsome
      rw [hnone] at hsome
      cases hsome
    case there =>
      intro pane hpane
      rw [hmissing] at hpane
      cases hpane
    case queue =>
      intro pane' hpane'
      rw [get?_queuePaneCommand_self, hpanes, OrderedMap.get?_set_self] at hpane'
      obtain rfl := Option.some.inj hpane'
      rw [queueOf, hmissing]
      exact ⟨_, rfl, rfl, rfl⟩

/-- What a number of rounds keeps. -/
structure Extends (ids : UuidSource) (q r : Queueing) : Prop where
  issued : q.issued ≤ r.issued
  kept : ∀ host id, targetPane q.state host = some id → targetPane r.state host = some id
  gone : ∀ id, Drawn ids q.issued id → q.state.panes.get? id = none → r.state.panes.get? id = none
  there : ∀ id pane, q.state.panes.get? id = some pane →
    ∃ pane', r.state.panes.get? id = some pane' ∧ pane'.hostId = pane.hostId
  tabOnHost : ∀ host, TabOnHost q.state host → TabOnHost r.state host

theorem Extends.refl (ids : UuidSource) (q : Queueing) : Extends ids q q where
  issued := le_rfl
  kept := fun _ _ => id
  gone := fun _ _ => id
  there := fun _ pane hpane => ⟨pane, hpane, rfl⟩
  tabOnHost := fun _ => id

theorem Extends.trans {q r s : Queueing} (h : Extends ids q r) (h' : Extends ids r s) :
    Extends ids q s where
  issued := h.issued.trans h'.issued
  kept := fun host id hid => h'.kept host id (h.kept host id hid)
  gone := fun id hid hnone => h'.gone id (hid.mono h.issued) (h.gone id hid hnone)
  there := by
    intro id pane hpane
    obtain ⟨pane', hpane', hhost⟩ := h.there id pane hpane
    obtain ⟨pane'', hpane'', hhost'⟩ := h'.there id pane' hpane'
    exact ⟨pane'', hpane'', hhost'.trans hhost⟩
  tabOnHost := fun host hon => h'.tabOnHost host (h.tabOnHost host hon)

theorem QueuedFor.there_all {q q' : Queueing} {host : HostRecord} {paneId : JsString}
    (h : QueuedFor ids q q' host command label paneId) (id : JsString) (pane : SessionPane)
    (hpane : q.state.panes.get? id = some pane) :
    ∃ pane', q'.state.panes.get? id = some pane' ∧ pane'.hostId = pane.hostId := by
  by_cases hid : id = paneId
  · subst hid
    exact h.there pane hpane
  · exact ⟨pane, (h.panes id hid).trans hpane, rfl⟩

theorem QueuedFor.extends {q q' : Queueing} {host : HostRecord} {paneId : JsString}
    (h : QueuedFor ids q q' host command label paneId) : Extends ids q q' where
  issued := by
    have := h.issued
    omega
  kept := h.kept
  gone := by
    intro id hdrawn hnone
    by_cases hid : id = paneId
    · subst hid
      cases htarget : targetPane q.state host with
      | none => exact absurd hdrawn (h.opened htarget).2
      | some target =>
        have hsame := Option.some.inj ((h.kept host target htarget).symm.trans h.target)
        exact h.gone (hsame ▸ htarget) hnone
    · exact (h.panes id hid).trans hnone
  there := h.there_all
  tabOnHost := by
    intro other hon id hid
    by_cases hother : other.id = host.id
    · rw [targetPane_congr hother, h.target] at hid
      obtain rfl := Option.some.inj hid
      cases htarget : targetPane q.state host with
      | none => exact (h.opened htarget).1.congr hother.symm
      | some target =>
        have hsame := Option.some.inj ((h.kept host target htarget).symm.trans h.target)
        obtain ⟨pane, hpane, hhost⟩ := hon target ((targetPane_congr hother).trans htarget)
        obtain ⟨pane', hpane', hhost'⟩ := h.there_all target pane hpane
        exact ⟨pane', hsame ▸ hpane', hhost'.trans hhost⟩
    · rw [h.others other hother] at hid
      obtain ⟨pane, hpane, hhost⟩ := hon id hid
      obtain ⟨pane', hpane', hhost'⟩ := h.there_all id pane hpane
      exact ⟨pane', hpane', hhost'.trans hhost⟩

/-- Commands that were added to the queue of a pane. -/
def Queued (command : JsString) (label : Option JsString) (q r : Queueing) (paneIds : List JsString)
    (paneId : JsString) : Prop :=
  ∃ queued : List QueuedPaneCommand, queueOf r.state paneId = queueOf q.state paneId ++ queued ∧
    queued.length = paneIds.count paneId ∧ ∀ c ∈ queued, c.command = command ∧ c.label = label

/-- One round adds one command to the queue of its pane, if that pane is there. -/
theorem QueuedFor.queued {q q' : Queueing} {host : HostRecord} {paneId : JsString}
    (h : QueuedFor ids q q' host command label paneId) {id : JsString}
    (hthere : (q'.state.panes.get? id).isSome) : Queued command label q q' [paneId] id := by
  by_cases hid : id = paneId
  · subst hid
    obtain ⟨pane', hpane'⟩ := Option.isSome_iff_exists.mp hthere
    obtain ⟨c, hqueue, hcommand⟩ := h.queue pane' hpane'
    refine ⟨[c], ?_, by simp, fun d hd => List.mem_singleton.mp hd ▸ hcommand⟩
    rw [queueOf, hpane']
    exact hqueue
  · refine ⟨[], ?_, ?_, fun _ hd => nomatch hd⟩
    · rw [queueOf, h.panes id hid, ← queueOf, List.append_nil]
    · rw [List.count_singleton, if_neg]
      · rfl
      · simpa using Ne.symm hid

/-- A pane that is not there after a round has no queue before or after it. -/
theorem QueuedFor.queued_of_none {q q' : Queueing} {host : HostRecord} {paneId : JsString}
    (h : QueuedFor ids q q' host command label paneId) {id : JsString} (hne : id ≠ paneId)
    (hnone : q'.state.panes.get? id = none) : Queued command label q q' [paneId] id := by
  refine ⟨[], ?_, ?_, fun _ hd => nomatch hd⟩
  · rw [queueOf, queueOf, hnone, ← h.panes id hne, hnone]
    rfl
  · rw [List.count_singleton, if_neg]
    · rfl
    · simpa using hne.symm

theorem Queued.trans {q r s : Queueing} {first second : List JsString} {id : JsString}
    (h : Queued command label q r first id) (h' : Queued command label r s second id) :
    Queued command label q s (first ++ second) id := by
  obtain ⟨queued, hqueue, hlength, hall⟩ := h
  obtain ⟨queued', hqueue', hlength', hall'⟩ := h'
  refine ⟨queued ++ queued', ?_, ?_, fun c hc => ?_⟩
  · rw [hqueue', hqueue, List.append_assoc]
  · rw [List.length_append, hlength, hlength', List.count_append]
  · exact (List.mem_append.mp hc).elim (hall c) (hall' c)

/-- What the loop does, by induction on the hosts that are left. -/
theorem Arranged.queuedForHosts {q : Queueing} (h : Arranged ids q.issued q.state)
    (command : JsString) (label : Option JsString) (now : JsString) (hosts : List HostRecord) :
    ∃ paneIds, (hosts.foldl (Sessions.queueForHost ids command label now) q).paneIds =
        q.paneIds ++ paneIds ∧
      List.Forall₂ (fun host paneId => targetPane
        (hosts.foldl (Sessions.queueForHost ids command label now) q).state host = some paneId)
        hosts paneIds ∧
      Extends ids q (hosts.foldl (Sessions.queueForHost ids command label now) q) ∧
      ∀ id, ((hosts.foldl (Sessions.queueForHost ids command label now) q).state.panes.get?
        id).isSome →
        Queued command label q (hosts.foldl (Sessions.queueForHost ids command label now) q)
          paneIds id := by
  induction hosts generalizing q with
  | nil =>
    refine ⟨[], (List.append_nil _).symm, .nil, .refl ids q, fun id _ => ⟨[], ?_, rfl, ?_⟩⟩
    · exact (List.append_nil _).symm
    · exact fun _ hd => nomatch hd
  | cons host hosts ih =>
    obtain ⟨paneId, hdrawn, hround⟩ := h.queuedFor command label now host
    have hnext := h.queueForHost command label now host
    rw [← queueForHost_issued ids command label now q host] at hnext hdrawn
    obtain ⟨paneIds, hpaneIds, htargets, hextends, hqueued⟩ := ih hnext
    refine ⟨paneId :: paneIds, ?_, ?_, hround.extends.trans hextends, fun id hthere => ?_⟩
    · rw [List.foldl_cons, hpaneIds, hround.paneIds, List.append_assoc, List.singleton_append]
    · exact .cons (hextends.kept host paneId hround.target) htargets
    · have hround' (hfirst : Queued command label q _ [paneId] id) := hfirst.trans (hqueued id hthere)
      apply hround'
      cases hget : (Sessions.queueForHost ids command label now q host).state.panes.get? id with
      | some pane => exact hround.queued (Option.isSome_iff_exists.mpr ⟨pane, hget⟩)
      | none =>
        refine hround.queued_of_none ?_ hget
        rintro rfl
        have hnone := hextends.gone id hdrawn hget
        rw [List.foldl_cons, hnone] at hthere
        cases hthere

end Rounds

section Delivery
variable {α β : Type*} {R S : α → β → Prop} {xs : List α} {ys : List β}

theorem forall₂_exists (h : List.Forall₂ R xs ys) (h' : List.Forall₂ S xs ys) {x : α}
    (hx : x ∈ xs) : ∃ y, R x y ∧ S x y := by
  induction h with
  | nil => cases hx
  | @cons a b xs ys hr _ ih =>
    obtain ⟨hs, hrest⟩ := List.forall₂_cons.mp h'
    rcases List.mem_cons.mp hx with rfl | hx
    · exact ⟨b, hr, hs⟩
    · exact ih hrest hx

theorem forall₂_imp_of_mem (h : List.Forall₂ R xs ys) (himp : ∀ x ∈ xs, ∀ y, R x y → S x y) :
    List.Forall₂ S xs ys := by
  induction h with
  | nil => exact .nil
  | @cons a b xs ys hr _ ih =>
    exact .cons (himp a List.mem_cons_self b hr)
      (ih fun x hx => himp x (List.mem_cons_of_mem _ hx))

/-- In every state that a run leads to, the commands are delivered exactly where each of the hosts
that has a tab is the host of the active pane of its first tab. -/
theorem delivered_iff (ids : UuidSource) (actions : List (JsString × SessionsAction))
    (hosts : List HostRecord) (command : JsString) (label : Option JsString) (now : JsString) :
    Delivered (run (storeStep ids) initialStore actions).toSessionWorkspaceState hosts command label
        (queueCommandForHosts ids
          (run (storeStep ids) initialStore actions).toSessionWorkspaceState
          (run (storeStep ids) initialStore actions).issued hosts command label now) ↔
      ∀ host ∈ hosts,
        TabOnHost (run (storeStep ids) initialStore actions).toSessionWorkspaceState host := by
  have harranged := arranged_run ids actions
  generalize run (storeStep ids) initialStore actions = s at harranged
  let q : Queueing := ⟨s.toSessionWorkspaceState, [], s.issued⟩
  have hq : Arranged ids q.issued q.state := harranged
  obtain ⟨paneIds, hpaneIds, htargets, hextends, hqueued⟩ :=
    hq.queuedForHosts command label now hosts
  have hresult : (queueCommandForHosts ids s.toSessionWorkspaceState s.issued hosts command label
      now).paneIds = paneIds := hpaneIds
  constructor
  · intro hdelivered host hhost id hid
    obtain ⟨paneId, htarget, hon⟩ := forall₂_exists htargets (hresult ▸ hdelivered.targets) hhost
    obtain rfl := Option.some.inj (htarget.symm.trans (hextends.kept host id hid))
    obtain ⟨pane', hpane', hhost'⟩ := hon
    cases hget : s.panes.get? paneId with
    | none =>
      have hnone := hextends.gone paneId (hq.target_drawn hid) hget
      rw [queueCommandForHosts, hnone] at hpane'
      cases hpane'
    | some pane =>
      obtain ⟨pane'', hpane'', hsame⟩ := hextends.there paneId pane hget
      obtain rfl := Option.some.inj (hpane''.symm.trans hpane')
      exact ⟨pane, hget, hsame.symm.trans hhost'⟩
  · intro hall
    constructor
    case targets =>
      rw [hresult]
      exact forall₂_imp_of_mem htargets fun host hhost paneId htarget =>
        hextends.tabOnHost host (hall host hhost) paneId htarget
    case panes =>
      intro paneId hthere
      obtain ⟨pane, hpane⟩ := Option.isSome_iff_exists.mp hthere
      obtain ⟨pane', hpane', -⟩ := hextends.there paneId pane hpane
      exact Option.isSome_iff_exists.mpr ⟨pane', hpane'⟩
    case queues =>
      intro paneId hthere
      rw [hresult]
      exact hqueued paneId hthere

/-- A tab of one host whose active pane is a split for another host. -/
def splitActions : List (JsString × SessionsAction) :=
  [([], .openSession (Connections.plainHost "a")),
    ([], .splitTab (sampleIds.uuid 1) (Connections.plainHost "b"))]

/-- A command for the first host is queued on the pane of the second. -/
theorem not_every_command_delivered :
    ¬ ∀ (ids : UuidSource) (actions : List (JsString × SessionsAction)) (hosts : List HostRecord)
      (command : JsString) (label : Option JsString) (now : JsString),
      Delivered (run (storeStep ids) initialStore actions).toSessionWorkspaceState hosts command
        label (queueCommandForHosts ids
          (run (storeStep ids) initialStore actions).toSessionWorkspaceState
          (run (storeStep ids) initialStore actions).issued hosts command label now) := by
  intro h
  have htargets := (h sampleIds splitActions [Connections.plainHost "a"] (js "reboot") none
    []).targets
  generalize hq : queueCommandForHosts sampleIds (run (storeStep sampleIds) initialStore
    splitActions).toSessionWorkspaceState (run (storeStep sampleIds) initialStore
    splitActions).issued [Connections.plainHost "a"] (js "reboot") none [] = q at htargets
  have hhosts : (q.paneIds.map fun paneId => (q.state.panes.get? paneId).map (·.hostId)) =
      [some (js "b")] := by
    rw [← hq]
    decide +kernel
  obtain ⟨paneId, hpaneId⟩ : ∃ paneId, q.paneIds = [paneId] := by
    rw [← List.length_eq_one_iff, ← List.length_map, hhosts]
    rfl
  rw [hpaneId] at hhosts htargets
  obtain ⟨⟨pane, hget, hhost⟩, -⟩ := List.forall₂_cons.mp htargets
  rw [List.map_singleton, hget] at hhosts
  have hb : pane.hostId = js "b" := Option.some.inj (List.singleton_inj.mp hhosts)
  have hne : js "b" ≠ (Connections.plainHost "a").id := by decide
  exact hne (hb.symm.trans hhost)

end Delivery
end Sessions
