import TerminalWorkspace.LocalConfig.Resurrection
import TerminalWorkspace.Sessions.WellFormed
import TerminalWorkspace.VaultStores.InOrder

/-! The deletion of a host with everything that refers to it, over all the local stores: what is
left of the references to the host, and what becomes of the records without one. -/
namespace Sessions
open JsText Inventory LocalConfig VaultStores Runs

/-- The local stores. The active host of the transfers is among the stores of the vault. -/
structure LocalStores where
  vault : VaultStores.Stores
  sessions : SessionsStore
  remotePathByHost : OrderedMap JsString JsString

inductive LocalAction where
  | act (reading : Reading) (a : StoreAction)
  | importBundle (input : ImportInput) (options : ApplyOptions) (inspectedAt : ℤ)
      (clock : ClockReadings) (now : JsString)
  | sessions (now : JsString) (action : SessionsAction)
  | setActiveHost (hostId : Option JsString)
  | rememberRemotePath (hostId path : JsString)

section Steps
variable (ids : UuidSource) (p : Platform)

def LocalStores.deleteHostAndCascade (s : LocalStores) (hostId : JsString) (reading : Reading) :
    LocalStores :=
  { s with
    vault := s.vault.deleteHostAndCascade p hostId reading
    sessions := storeStep ids s.sessions (reading.now, .closePanesForHost hostId) }

/-- An import that succeeds closes all tabs and forgets the remote paths. -/
def LocalStores.importBundle (s : LocalStores) (input : ImportInput) (options : ApplyOptions)
    (inspectedAt : ℤ) (clock : ClockReadings) (now : JsString) : LocalStores :=
  match applyImportedLocalConfigBundle p s.vault.toLocalState input options inspectedAt clock with
  | .error _ => s
  | .ok after =>
    { vault := { after with migrationCompleted := s.vault.migrationCompleted }
      sessions := storeStep ids s.sessions (now, .importReset)
      remotePathByHost := OrderedMap.empty }

def localStep (s : LocalStores) : LocalAction → LocalStores
  | .act reading (.deleteHostAndCascade hostId) => s.deleteHostAndCascade ids p hostId reading
  | .act reading a => { s with vault := s.vault.perform p reading a }
  | .importBundle input options inspectedAt clock now =>
    s.importBundle ids p input options inspectedAt clock now
  | .sessions now action => { s with sessions := storeStep ids s.sessions (now, action) }
  | .setActiveHost hostId => { s with vault := { s.vault with activeHostId := hostId } }
  | .rememberRemotePath hostId path =>
    { s with remotePathByHost := s.remotePathByHost.set hostId path }

def initialLocal (vaultId deviceId : JsString) : LocalStores where
  vault := sampleStores p vaultId deviceId
  sessions := initialStore
  remotePathByHost := OrderedMap.empty

end Steps

section References

/-- Every pane that the tab lists is there and belongs to the host. -/
def OwnsPanes (state : SessionWorkspaceState) (hostId : JsString) (tab : SessionTab) : Prop :=
  ∀ paneId ∈ tab.paneIds, ∃ pane, state.panes.get? paneId = some pane ∧ pane.hostId = hostId

/-- Nothing refers to the host. -/
structure NoReference (s : LocalStores) (hostId : JsString) : Prop where
  keys : ∀ key ∈ s.vault.collections.keys, hostId ∉ key.assignedHostIds
  snippets : ∀ snippet ∈ s.vault.collections.snippets, hostId ∉ snippet.targetHostIds
  panes : ∀ paneId pane, s.sessions.panes.get? paneId = some pane → pane.hostId ≠ hostId
  tabs : ∀ tab ∈ s.sessions.tabs, tab.hostId ≠ hostId
  jumpHosts : ∀ host ∈ s.vault.collections.hosts, host.id ≠ hostId →
    host.jumpHostId.get? ≠ some hostId
  remotePath : s.remotePathByHost.get? hostId = none
  activeHost : s.vault.activeHostId ≠ some hostId

/-- What did not refer to the host is as it was. -/
structure Untouched (s s' : LocalStores) (hostId : JsString) : Prop where
  hosts : ∀ host : HostRecord, host.id ≠ hostId → host.jumpHostId.get? ≠ some hostId →
    (host ∈ s'.vault.collections.hosts ↔ host ∈ s.vault.collections.hosts)
  keys : ∀ key ∈ s.vault.collections.keys, hostId ∉ key.assignedHostIds →
    key ∈ s'.vault.collections.keys
  snippets : ∀ snippet ∈ s.vault.collections.snippets, hostId ∉ snippet.targetHostIds →
    snippet ∈ s'.vault.collections.snippets
  knownHosts : s'.vault.collections.knownHosts = s.vault.collections.knownHosts
  identities : s'.vault.collections.identities = s.vault.collections.identities
  panes : ∀ paneId pane, s.sessions.panes.get? paneId = some pane → pane.hostId ≠ hostId →
    s'.sessions.panes.get? paneId = some pane
  tabs : ∀ tab ∈ s.sessions.tabs, tab.hostId ≠ hostId →
    (∀ paneId ∈ tab.paneIds, ∀ pane, s.sessions.panes.get? paneId = some pane →
      pane.hostId ≠ hostId) → tab ∈ s'.sessions.tabs
  remotePaths : ∀ id, id ≠ hostId → s'.remotePathByHost.get? id = s.remotePathByHost.get? id
  activeHost : s.vault.activeHostId ≠ some hostId → s'.vault.activeHostId = s.vault.activeHostId

/-- The references that a deletion leaves behind are not there: no other host connects through
the host, no remote path is remembered for it, and its tabs have no pane of another host. -/
structure OnlyCleared (s : LocalStores) (hostId : JsString) : Prop where
  jumpHosts : ∀ host ∈ s.vault.collections.hosts, host.id ≠ hostId →
    host.jumpHostId.get? ≠ some hostId
  remotePath : s.remotePathByHost.get? hostId = none
  tabs : ∀ tab ∈ s.sessions.tabs, tab.hostId = hostId →
    OwnsPanes s.sessions.toSessionWorkspaceState hostId tab

end References

section Deletion
variable {ids : UuidSource} {p : Platform} {s : LocalStores} {hostId : JsString}
  {reading : Reading}

theorem activeHostId_cascade (s : VaultStores.Stores) :
    (s.deleteHostAndCascade p hostId reading).activeHostId =
      if s.activeHostId = some hostId then none else s.activeHostId := by
  have hforget (s' : VaultStores.Stores) : (s'.forgetActiveHost hostId).activeHostId =
      if s'.activeHostId = some hostId then none else s'.activeHostId := by
    unfold Stores.forgetActiveHost
    split_ifs <;> rfl
  exact hforget _

theorem mem_deleteHost {hosts : List HostRecord} (h : Normal hosts) {host : HostRecord} :
    host ∈ deleteHostFromCollection p hosts hostId ↔ host ∈ hosts ∧ host.id ≠ hostId := by
  rw [deleteHostFromCollection, sortHostCollection, mem_sortBy, List.mem_map]
  constructor
  · rintro ⟨old, hold, rfl⟩
    obtain ⟨hmem, hid⟩ := List.mem_filter.mp hold
    rw [h old hmem]
    exact ⟨hmem, of_decide_eq_true hid⟩
  · rintro ⟨hmem, hid⟩
    exact ⟨host, List.mem_filter.mpr ⟨hmem, decide_eq_true hid⟩, h host hmem⟩

theorem mem_unassign {keys : List KeyRecord} {key : KeyRecord} :
    key ∈ unassignHostFromAll p keys hostId ↔ ∃ old ∈ keys,
      { old with assignedHostIds := old.assignedHostIds.filter (· ≠ hostId) } = key := by
  rw [unassignHostFromAll, sortKeys, mem_sortBy, List.mem_map]

theorem mem_untarget {snippets : List SnippetRecord} {snippet : SnippetRecord} :
    snippet ∈ removeHostFromAllTargets p snippets hostId ↔ ∃ old ∈ snippets,
      { old with targetHostIds := old.targetHostIds.filter (· ≠ hostId) } = snippet := by
  rw [removeHostFromAllTargets, sortSnippets, mem_sortBy, List.mem_map]

theorem filter_ne_self {xs : List JsString} (h : hostId ∉ xs) : xs.filter (· ≠ hostId) = xs :=
  List.filter_eq_self.mpr fun _ hx => decide_eq_true fun heq => h (heq ▸ hx)

/-- A tab goes when all its panes do. -/
theorem trimTab_of_all {paneIds : List JsString} {tab : SessionTab} (hne : tab.paneIds ≠ [])
    (h : ∀ id ∈ tab.paneIds, id ∈ paneIds) : trimTab paneIds tab = none := by
  have hempty : tab.paneIds.filter (· ∉ paneIds) = [] :=
    List.filter_eq_nil_iff.mpr fun id hid => by simpa using h id hid
  have hnot : tab.paneIds.filter (· ∉ paneIds) ≠ tab.paneIds := fun heq => hne (heq ▸ hempty)
  exact (if_neg hnot).trans (if_pos hempty)

theorem mem_closedTabs {n : ℕ} {state : SessionWorkspaceState} (h : Arranged ids n state)
    {tab : SessionTab} : tab ∈ (closePanesForHost state hostId).tabs ↔
      ∃ old ∈ state.tabs, trimTab (panesOfHost state hostId) old = some tab := by
  obtain ⟨htabs, -, -⟩ := closePanesForHost_spec h.tabIds h.activeTab hostId
  rw [htabs, List.mem_filterMap]

/-- No tab of the host is left when these had no other panes. -/
theorem closedTabs_iff {n : ℕ} {state : SessionWorkspaceState} (h : Arranged ids n state) :
    (∀ tab ∈ (closePanesForHost state hostId).tabs, tab.hostId ≠ hostId) ↔
      ∀ tab ∈ state.tabs, tab.hostId = hostId → OwnsPanes state hostId tab := by
  have hown : ∀ paneId pane, state.panes.get? paneId = some pane → pane.id = paneId :=
    fun paneId pane hget => (h.panes paneId pane hget).1
  constructor
  · intro hclosed tab htab hhost paneId hpaneId
    apply (mem_panesOfHost hown).mp
    cases htrim : trimTab (panesOfHost state hostId) tab with
    | none => exact trimTab_eq_none htrim paneId hpaneId
    | some tab' =>
      have hkept := hclosed tab' ((mem_closedTabs h).mpr ⟨tab, htab, htrim⟩)
      exact absurd ((trimTab_eq_some htrim).2.1.trans hhost) hkept
  · intro howns tab' htab' hhost
    obtain ⟨tab, htab, htrim⟩ := (mem_closedTabs h).mp htab'
    have hsame : tab.hostId = hostId := (trimTab_eq_some htrim).2.1.symm.trans hhost
    have hall := trimTab_of_all (h.nonempty tab htab) fun paneId hpaneId =>
      (mem_panesOfHost hown).mpr (howns tab htab hsame paneId hpaneId)
    rw [hall] at htrim
    cases htrim

/-- A tab that lists no pane of the host stays as it is. -/
theorem closedTabs_untouched {n : ℕ} {state : SessionWorkspaceState} (h : Arranged ids n state)
    {tab : SessionTab} (htab : tab ∈ state.tabs)
    (hother : ∀ paneId ∈ tab.paneIds, ∀ pane, state.panes.get? paneId = some pane →
      pane.hostId ≠ hostId) : tab ∈ (closePanesForHost state hostId).tabs := by
  have hown : ∀ paneId pane, state.panes.get? paneId = some pane → pane.id = paneId :=
    fun paneId pane hget => (h.panes paneId pane hget).1
  refine (mem_closedTabs h).mpr ⟨tab, htab, trimTab_eq_self ?_⟩
  apply List.filter_eq_self.mpr
  intro paneId hpaneId
  apply decide_eq_true
  intro hmem
  obtain ⟨pane, hget, hhost⟩ := (mem_panesOfHost hown).mp hmem
  exact hother paneId hpaneId pane hget hhost

theorem get?_closedPanes {n : ℕ} {state : SessionWorkspaceState} (h : Arranged ids n state)
    {paneId : JsString} {pane : SessionPane} :
    (closePanesForHost state hostId).panes.get? paneId = some pane ↔
      state.panes.get? paneId = some pane ∧ pane.hostId ≠ hostId := by
  have hown : ∀ paneId pane, state.panes.get? paneId = some pane → pane.id = paneId :=
    fun paneId pane hget => (h.panes paneId pane hget).1
  obtain ⟨-, hget, -⟩ := closePanesForHost_spec h.tabIds h.activeTab hostId
  rw [hget paneId]
  split_ifs with hmem
  · obtain ⟨closed, hclosed, hhost⟩ := (mem_panesOfHost hown).mp hmem
    refine iff_of_false (by simp) ?_
    rintro ⟨hsome, hne⟩
    obtain rfl := Option.some.inj (hclosed.symm.trans hsome)
    exact absurd hhost hne
  · refine ⟨fun hsome => ⟨hsome, fun hhost => ?_⟩, And.left⟩
    exact hmem ((mem_panesOfHost hown).mpr ⟨pane, hsome, hhost⟩)

/-- The deletion touches nothing but what refers to the host. -/
theorem untouched_cascade (hhosts : Normal s.vault.collections.hosts)
    (hsessions : StoreArranged ids s.sessions) :
    Untouched s (s.deleteHostAndCascade ids p hostId reading) hostId := by
  have hcollections := collections_cascade p s.vault hostId reading
  constructor
  case hosts =>
    intro host hid _
    show host ∈ (s.vault.deleteHostAndCascade p hostId reading).collections.hosts ↔ _
    rw [hcollections]
    exact (mem_deleteHost hhosts).trans (and_iff_left hid)
  case keys =>
    intro key hkey hnot
    show key ∈ (s.vault.deleteHostAndCascade p hostId reading).collections.keys
    rw [hcollections]
    refine mem_unassign.mpr ⟨key, hkey, ?_⟩
    rw [filter_ne_self hnot]
  case snippets =>
    intro snippet hsnippet hnot
    show snippet ∈ (s.vault.deleteHostAndCascade p hostId reading).collections.snippets
    rw [hcollections]
    refine mem_untarget.mpr ⟨snippet, hsnippet, ?_⟩
    rw [filter_ne_self hnot]
  case knownHosts =>
    show (s.vault.deleteHostAndCascade p hostId reading).collections.knownHosts = _
    rw [hcollections]
  case identities =>
    show (s.vault.deleteHostAndCascade p hostId reading).collections.identities = _
    rw [hcollections]
  case panes =>
    intro paneId pane hget hhost
    exact (get?_closedPanes hsessions).mpr ⟨hget, hhost⟩
  case tabs =>
    intro tab htab _ hother
    exact closedTabs_untouched hsessions htab hother
  case remotePaths => exact fun _ _ => rfl
  case activeHost =>
    intro hne
    exact (activeHostId_cascade s.vault).trans (if_neg hne)

/-- The references that the deletion leaves are those of the other hosts, of the remote paths, and
of the tabs with a pane of another host. -/
theorem noReference_cascade (hhosts : Normal s.vault.collections.hosts)
    (hsessions : StoreArranged ids s.sessions) :
    NoReference (s.deleteHostAndCascade ids p hostId reading) hostId ↔ OnlyCleared s hostId := by
  have hcollections := collections_cascade p s.vault hostId reading
  have hmem (host : HostRecord) :
      host ∈ (s.vault.deleteHostAndCascade p hostId reading).collections.hosts ↔
        host ∈ s.vault.collections.hosts ∧ host.id ≠ hostId := by
    rw [hcollections]
    exact mem_deleteHost hhosts
  constructor
  · intro h
    refine ⟨fun host hhost hid => ?_, h.remotePath, (closedTabs_iff hsessions).mp h.tabs⟩
    exact h.jumpHosts host ((hmem host).mpr ⟨hhost, hid⟩) hid
  · intro h
    constructor
    case keys =>
      show ∀ key ∈ (s.vault.deleteHostAndCascade p hostId reading).collections.keys, _
      rw [hcollections]
      intro key hkey
      obtain ⟨old, -, rfl⟩ := mem_unassign.mp hkey
      simp
    case snippets =>
      show ∀ snippet ∈ (s.vault.deleteHostAndCascade p hostId reading).collections.snippets, _
      rw [hcollections]
      intro snippet hsnippet
      obtain ⟨old, -, rfl⟩ := mem_untarget.mp hsnippet
      simp
    case panes => exact fun paneId pane hget => ((get?_closedPanes hsessions).mp hget).2
    case tabs => exact (closedTabs_iff hsessions).mpr h.tabs
    case jumpHosts => exact fun host hhost hid => h.jumpHosts host ((hmem host).mp hhost).1 hid
    case remotePath => exact h.remotePath
    case activeHost =>
      intro hactive
      have hnow := (activeHostId_cascade s.vault).symm.trans hactive
      split_ifs at hnow with hwas
      exact hwas hnow

end Deletion

section Runs
variable {ids : UuidSource} {p : Platform} {s : LocalStores}

/-- What holds of the local stores in every run. -/
structure LocalArranged (ids : UuidSource) (s : LocalStores) : Prop where
  hosts : Normal s.vault.collections.hosts
  sessions : StoreArranged ids s.sessions

theorem LocalArranged.cascade (h : LocalArranged ids s) (hostId : JsString) (reading : Reading) :
    LocalArranged ids (s.deleteHostAndCascade ids p hostId reading) :=
  ⟨normal_perform h.hosts reading (.deleteHostAndCascade hostId), h.sessions.step _⟩

theorem LocalArranged.importBundle (h : LocalArranged ids s) (input : ImportInput)
    (options : ApplyOptions) (inspectedAt : ℤ) (clock : ClockReadings) (now : JsString) :
    LocalArranged ids (s.importBundle ids p input options inspectedAt clock now) := by
  have hvault := normal_vaultStep (p := p) h.hosts (.importBundle input options inspectedAt clock)
  simp only [vaultStep] at hvault
  unfold LocalStores.importBundle
  split
  · exact h
  · rename_i after happly
    rw [happly] at hvault
    exact ⟨hvault, h.sessions.step _⟩

theorem LocalArranged.step (h : LocalArranged ids s) (a : LocalAction) :
    LocalArranged ids (localStep ids p s a) := by
  cases a with
  | act reading a =>
    cases a with
    | deleteHostAndCascade hostId => exact h.cascade hostId reading
    | _ => exact ⟨normal_perform h.hosts reading _, h.sessions⟩
  | importBundle input options inspectedAt clock now =>
    exact h.importBundle input options inspectedAt clock now
  | sessions now action => exact ⟨h.hosts, h.sessions.step _⟩
  | setActiveHost hostId => exact ⟨h.hosts, h.sessions⟩
  | rememberRemotePath hostId path => exact ⟨h.hosts, h.sessions⟩

theorem localArranged_initial (ids : UuidSource) (p : Platform) (vaultId deviceId : JsString) :
    LocalArranged ids (initialLocal p vaultId deviceId) :=
  ⟨normal_sortHostCollection _, storeArranged_initial ids⟩

/-- In every state that can be reached, the deletion leaves no reference to the host exactly when
there were no others than it clears, and leaves the other records alone. -/
theorem cascade_run (ids : UuidSource) (p : Platform) (vaultId deviceId : JsString)
    (actions : List LocalAction) (hostId : JsString) (reading : Reading) :
    let s := run (localStep ids p) (initialLocal p vaultId deviceId) actions
    let s' := s.deleteHostAndCascade ids p hostId reading
    NoReference s' hostId ∧ Untouched s s' hostId ↔ OnlyCleared s hostId := by
  intro s s'
  have h : LocalArranged ids s :=
    run_invariant_of_step (fun _ a h => h.step a) (localArranged_initial ids p vaultId deviceId)
      actions
  exact (and_iff_left (untouched_cascade h.hosts h.sessions)).trans
    (noReference_cascade h.hosts h.sessions)

/-- A host whose files were looked at is deleted, and its remote path stays. -/
theorem not_every_reference_cleared :
    ¬ ∀ (ids : UuidSource) (p : Platform) (vaultId deviceId : JsString)
      (actions : List LocalAction) (hostId : JsString) (reading : Reading),
      let s := run (localStep ids p) (initialLocal p vaultId deviceId) actions
      let s' := s.deleteHostAndCascade ids p hostId reading
      NoReference s' hostId ∧ Untouched s s' hostId := by
  intro h
  have hgone := (h sampleIds plainPlatform [] []
    [.rememberRemotePath (js "billing-api") (js "/srv")] (js "billing-api")
    ⟨js "2026-05-01T00:00:00.000Z", 1777593600000⟩).1.remotePath
  have hstays : (OrderedMap.empty.set (js "billing-api") (js "/srv")).get?
      (js "billing-api") = some (js "/srv") := OrderedMap.get?_set_self _ _ _
  exact absurd (hstays.symm.trans hgone) nofun

end Runs
end Sessions
