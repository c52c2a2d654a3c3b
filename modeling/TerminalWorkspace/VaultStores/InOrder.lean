import TerminalWorkspace.Foundation.Runs
import TerminalWorkspace.LocalConfig.FinalForm
import TerminalWorkspace.Inventory.Compaction
import TerminalWorkspace.VaultStores.Effects

/-! The order that the stores keep: every collection but the identities is sorted as an import
sorts it, and the tombstones are compacted. -/
namespace VaultStores
open JsText Inventory LocalConfig

section Order
variable {p : Platform}

/-- A list of tombstones as compaction leaves it. -/
structure Compacted (p : Platform) (entries : List VaultDeletionEntry) : Prop where
  distinct : (entries.map (·.id)).Nodup
  sorted : entries.Pairwise (sortedBefore p)
  bounded : entries.length ≤ tombstoneMaxEntriesPerKind

structure InOrder (p : Platform) (state : LocalState) : Prop where
  hosts : sortHostCollection p state.collections.hosts = state.collections.hosts
  keys : sortKeys p state.collections.keys = state.collections.keys
  snippets : sortSnippets p state.collections.snippets = state.collections.snippets
  knownHosts : sortKnownHosts p state.collections.knownHosts = state.collections.knownHosts
  deletions : ∀ kind, Compacted p (state.deletions.of kind)

theorem sortHosts_idem (hp : p.Collates) (hosts : List HostRecord) :
    sortHostCollection p (sortHostCollection p hosts) = sortHostCollection p hosts :=
  @sort_idem _ _ p (hostForm hp) hosts

theorem sortByUpdate_idem (hp : p.Collates) {α : Type} (updatedAt : α → JsString) (l : List α) :
    sortBy (fun left right => p.localeCompare (updatedAt right) (updatedAt left))
        (sortBy (fun left right => p.localeCompare (updatedAt right) (updatedAt left)) l) =
      sortBy (fun left right => p.localeCompare (updatedAt right) (updatedAt left)) l :=
  sortBy_idem (total_localeCompare hp updatedAt) l

theorem compacted_compact (hp : p.Collates) (entries : List VaultDeletionEntry) (now : ℤ) :
    Compacted p (compactDeletionEntries p entries now) where
  distinct := compactDeletionEntries_ids_nodup entries now
  sorted := (sortDeletionEntries_pairwise hp _).sublist (List.take_sublist _ _)
  bounded := List.length_take_le _ _

theorem Compacted.remove (hp : p.Collates) {entries : List VaultDeletionEntry}
    (h : Compacted p entries) (id : JsString) : Compacted p (removeDeletionEntry p entries id) where
  distinct := sort_ids_nodup (h.distinct.sublist (List.filter_sublist.map _))
  sorted := sortDeletionEntries_pairwise hp _
  bounded := by
    have hlength : (removeDeletionEntry p entries id).length =
        (entries.filter fun entry => entry.id ≠ id).length := (sortBy_perm _ _).length_eq
    rw [hlength]
    exact (List.length_filter_le _ _).trans h.bounded

end Order

section Writers
variable {p : Platform} {s : Stores} (h : InOrder p s.toLocalState)
include h

theorem InOrder.setHosts {hosts : List HostRecord} (hhosts : sortHostCollection p hosts = hosts) :
    InOrder p (s.setHosts hosts).toLocalState :=
  ⟨hhosts, h.keys, h.snippets, h.knownHosts, h.deletions⟩

theorem InOrder.setKeys {keys : List KeyRecord} (hkeys : sortKeys p keys = keys) :
    InOrder p (s.setKeys keys).toLocalState :=
  ⟨h.hosts, hkeys, h.snippets, h.knownHosts, h.deletions⟩

theorem InOrder.setSnippets {snippets : List SnippetRecord}
    (hsnippets : sortSnippets p snippets = snippets) :
    InOrder p (s.setSnippets snippets).toLocalState :=
  ⟨h.hosts, h.keys, hsnippets, h.knownHosts, h.deletions⟩

theorem InOrder.setKnownHosts {knownHosts : List KnownHostRecord}
    (hknownHosts : sortKnownHosts p knownHosts = knownHosts) :
    InOrder p (s.setKnownHosts knownHosts).toLocalState :=
  ⟨h.hosts, h.keys, h.snippets, hknownHosts, h.deletions⟩

theorem InOrder.setIdentities (identities : List IdentityRecord) :
    InOrder p (s.setIdentities identities).toLocalState :=
  ⟨h.hosts, h.keys, h.snippets, h.knownHosts, h.deletions⟩

theorem InOrder.forgetActiveHost (hostId : JsString) :
    InOrder p (s.forgetActiveHost hostId).toLocalState := by
  unfold Stores.forgetActiveHost
  split_ifs
  · exact ⟨h.hosts, h.keys, h.snippets, h.knownHosts, h.deletions⟩
  · exact h

variable (hp : p.Collates)
include hp

theorem InOrder.markDeleted (kind : VaultSyncEntityKind) (id : JsString) (reading : Reading) :
    InOrder p (s.markDeleted p kind id reading).toLocalState := by
  refine ⟨h.hosts, h.keys, h.snippets, h.knownHosts, fun other => ?_⟩
  rw [Stores.markDeleted, of_put]
  split_ifs
  · exact compacted_compact hp _ _
  · exact h.deletions other

theorem InOrder.clearDeleted (kind : VaultSyncEntityKind) (id : JsString) :
    InOrder p (s.clearDeleted p kind id).toLocalState := by
  refine ⟨h.hosts, h.keys, h.snippets, h.knownHosts, fun other => ?_⟩
  rw [Stores.clearDeleted, of_put]
  split_ifs
  · exact (h.deletions kind).remove hp id
  · exact h.deletions other

theorem InOrder.clearAll (hosts : List HostRecord) :
    InOrder p (hosts.foldl (fun s host => s.clearDeleted p .hosts host.id) s).toLocalState := by
  induction hosts generalizing s with
  | nil => exact h
  | cons host hosts ih => exact ih (h.clearDeleted hp .hosts host.id)

theorem InOrder.sortHosts (hosts : List HostRecord) :
    InOrder p (s.setHosts (sortHostCollection p hosts)).toLocalState :=
  h.setHosts (sortHosts_idem hp hosts)

theorem InOrder.sortKeys (keys : List KeyRecord) :
    InOrder p (s.setKeys (LocalConfig.sortKeys p keys)).toLocalState :=
  h.setKeys (sortByUpdate_idem hp KeyRecord.updatedAt keys)

theorem InOrder.sortSnippets (snippets : List SnippetRecord) :
    InOrder p (s.setSnippets (LocalConfig.sortSnippets p snippets)).toLocalState :=
  h.setSnippets (sortByUpdate_idem hp SnippetRecord.updatedAt snippets)

theorem InOrder.sortKnownHosts (knownHosts : List KnownHostRecord) :
    InOrder p (s.setKnownHosts (LocalConfig.sortKnownHosts p knownHosts)).toLocalState :=
  h.setKnownHosts (sortByUpdate_idem hp KnownHostRecord.updatedAt knownHosts)

end Writers

section Links
variable {p : Platform}

/-- Linking hosts to identities moves none of them. -/
theorem sortHosts_linked {hosts : List HostRecord} (link : HostRecord → Optional JsString)
    (h : sortHostCollection p hosts = hosts) :
    sortHostCollection p (hosts.map fun host => { host with identityId := link host }) =
      hosts.map fun host => { host with identityId := link host } := by
  have hnormal : ∀ host ∈ hosts, normalizeHostRecord host = host := by
    intro host hhost
    rw [← h] at hhost
    obtain ⟨host', -, rfl⟩ := List.mem_map.mp (mem_sortBy.mp hhost)
    exact normalizeHostRecord_idem host'
  have hlinked : (hosts.map fun host => { host with identityId := link host }).map
      normalizeHostRecord = hosts.map fun host => { host with identityId := link host } := by
    rw [List.map_map]
    refine List.map_congr_left fun host hhost => ?_
    exact congrArg (fun r : HostRecord => { r with identityId := link host }) (hnormal host hhost)
  rw [sortHostCollection, map_eq_self hnormal] at h
  have hsorted := List.map_insertionSort (fun a b => compareHosts p a b ≠ .gt)
    (fun a b => compareHosts p a b ≠ .gt)
    (fun host : HostRecord => { host with identityId := link host }) hosts
    fun _ _ _ _ => Iff.rfl
  rw [sortHostCollection, hlinked, sortBy, ← hsorted]
  exact congrArg _ h

theorem applyIdentityAssignments_eq (hosts : List HostRecord)
    (assignmentsByHostId : OrderedMap JsString JsString) :
    applyIdentityAssignments hosts assignmentsByHostId =
      hosts.map fun host =>
        { host with
          identityId :=
            match (assignmentsByHostId.get? host.id).bind truthy with
            | none => host.identityId
            | some nextIdentityId =>
              if host.identityId.get? = some nextIdentityId then host.identityId
              else .value nextIdentityId } := by
  refine List.map_congr_left fun host _ => ?_
  cases (assignmentsByHostId.get? host.id).bind truthy with
  | none => rfl
  | some nextIdentityId =>
    dsimp only
    split_ifs <;> rfl

end Links

section Steps
variable {p : Platform} {s : Stores} (hp : p.Collates) (h : InOrder p s.toLocalState)
include hp h

theorem InOrder.deleteHost (hostId : JsString) (reading : Reading) :
    InOrder p (s.deleteHost p hostId reading).toLocalState :=
  InOrder.markDeleted (h.sortHosts hp _) hp _ _ _

theorem InOrder.moveGroup (fromGroup toGroup now : JsString) :
    InOrder p (s.setHosts (moveGroup p s.collections.hosts fromGroup toGroup now)).toLocalState :=
  h.sortHosts hp _

theorem InOrder.upsertKey (label : JsString) (metadata : KeyMetadata) (source : KeySource)
    (hasPassphrase : Bool) (fresh now : JsString) :
    InOrder p (s.upsertKey p label metadata source hasPassphrase fresh now).toLocalState := by
  have hkeys : InOrder p (s.setKeys (VaultStores.upsertKey p s.collections.keys label metadata
      source hasPassphrase fresh now)).toLocalState := by
    unfold VaultStores.upsertKey
    split <;> exact h.sortKeys hp _
  unfold Stores.upsertKey
  dsimp only
  split
  · exact hkeys
  · exact InOrder.clearDeleted hkeys hp _ _

omit hp in
theorem InOrder.ensureMigrated (generateId : ℕ → JsString) (now : JsString) :
    InOrder p (s.ensureMigrated p generateId now).toLocalState := by
  unfold Stores.ensureMigrated
  split_ifs
  · exact h
  · refine ⟨?_, h.keys, h.snippets, h.knownHosts, h.deletions⟩
    dsimp only [Stores.setHosts, Stores.setIdentities]
    rw [applyIdentityAssignments_eq]
    exact sortHosts_linked _ h.hosts

/-- Every action keeps the order. -/
theorem InOrder.perform (reading : Reading) (a : StoreAction) :
    InOrder p (s.perform p reading a).toLocalState := by
  cases a with
  | createHost values fresh => exact InOrder.clearDeleted (h.sortHosts hp _) hp _ _
  | updateHost hostId values fresh =>
    refine InOrder.clearDeleted (h.setHosts ?_) hp _ _
    unfold upsertHostCollection
    split_ifs <;> exact sortHosts_idem hp _
  | deleteHost hostId => exact h.deleteHost hp hostId reading
  | toggleFavorite hostId => exact h.sortHosts hp _
  | markConnected hostId => exact h.sortHosts hp _
  | setSnippetCounts counts => exact h.sortHosts hp _
  | assignKey hostId key => exact h.sortHosts hp _
  | clearKeyByPath privateKeyPath => exact h.sortHosts hp _
  | renameGroup oldName newName =>
    simp only [Stores.perform, renameGroup]
    split_ifs
    · exact h
    · exact h.moveGroup hp _ _ _
  | removeGroup groupName =>
    simp only [Stores.perform, removeGroup]
    split_ifs
    · exact h
    · exact h.moveGroup hp _ _ _
  | ensureLocalShellHost =>
    simp only [Stores.perform, Stores.ensureLocalShellHost]
    split_ifs
    · exact h
    · exact InOrder.clearDeleted (h.sortHosts hp _) hp _ _
  | loadSampleData => exact InOrder.clearAll (h.sortHosts hp _) hp _
  | importKey label metadata hasPassphrase fresh => exact h.upsertKey hp _ _ _ _ _ _
  | addGeneratedKey label metadata hasPassphrase fresh => exact h.upsertKey hp _ _ _ _ _ _
  | deleteKey keyId =>
    simp only [Stores.perform, Stores.deleteKey]
    split_ifs
    · exact InOrder.markDeleted (h.sortKeys hp _) hp _ _ _
    · exact h.sortKeys hp _
  | unassignHostFromAll hostId => exact h.sortKeys hp _
  | assignHost keyId hostId => exact h.sortKeys hp _
  | createSnippet values fresh => exact InOrder.clearDeleted (h.sortSnippets hp _) hp _ _
  | updateSnippet snippetId values => exact InOrder.clearDeleted (h.sortSnippets hp _) hp _ _
  | deleteSnippet snippetId => exact InOrder.markDeleted (h.sortSnippets hp _) hp _ _ _
  | duplicateSnippet snippetId fresh =>
    simp only [Stores.perform, Stores.duplicateSnippet]
    split
    · exact h
    · exact InOrder.clearDeleted (h.sortSnippets hp _) hp _ _
  | removeHostFromAllTargets hostId => exact h.sortSnippets hp _
  | markSnippetRun snippetId => exact h.sortSnippets hp _
  | trustKnownHost entry => exact InOrder.clearDeleted (h.sortKnownHosts hp _) hp _ _
  | removeKnownHost knownHostId => exact InOrder.markDeleted (h.sortKnownHosts hp _) hp _ _ _
  | upsertIdentity input => exact InOrder.clearDeleted (h.setIdentities _) hp _ _
  | setLabel identityId label => exact h.setIdentities _
  | setComment identityId comment => exact h.setIdentities _
  | removeIdentity identityId =>
    simp only [Stores.perform, Stores.removeIdentity]
    split_ifs
    · exact InOrder.markDeleted (h.setIdentities _) hp _ _ _
    · exact h
  | ensureMigrated generateId => exact h.ensureMigrated _ _
  | deleteHostAndCascade hostId =>
    have hdeleted : InOrder p (s.deleteHost p hostId reading).toLocalState :=
      h.deleteHost hp hostId reading
    exact InOrder.forgetActiveHost
      (InOrder.sortSnippets (hdeleted.sortKeys hp _) hp _) hostId

end Steps

section Imports
variable {p : Platform} {state after : LocalState} {options : ApplyOptions} {clock : ClockReadings}
  (hp : p.Collates)
include hp

/-- Every import that succeeds establishes the order. -/
theorem inOrder_applied {input : ImportInput} {inspectedAt : ℤ}
    (h : applyImportedLocalConfigBundle p state input options inspectedAt clock = .ok after) :
    InOrder p after := by
  obtain ⟨imported, -, himported⟩ := applyImported_eq_ok h
  obtain ⟨hcollections, hdeletions⟩ := applyPreparedImport_eq_ok himported
  have hcompacted (kind : VaultSyncEntityKind) : Compacted p (after.deletions.of kind) := by
    rw [hdeletions, compactDeletionMap_of]
    exact compacted_compact hp _ _
  obtain ⟨collections, deletions, _⟩ := after
  obtain ⟨mode, resolution⟩ := options
  cases mode with
  | replace =>
    obtain rfl : collections = _ := hcollections
    exact ⟨sortHosts_idem hp _, sortByUpdate_idem hp KeyRecord.updatedAt _,
      sortByUpdate_idem hp SnippetRecord.updatedAt _,
      sortByUpdate_idem hp KnownHostRecord.updatedAt _, hcompacted⟩
  | merge =>
    obtain rfl : collections = _ := hcollections
    exact ⟨sortHosts_idem hp _, sortByUpdate_idem hp KeyRecord.updatedAt _,
      sortByUpdate_idem hp SnippetRecord.updatedAt _,
      sortByUpdate_idem hp KnownHostRecord.updatedAt _, hcompacted⟩

end Imports

/-- A step of the vault: an action of a store, or an import. -/
inductive VaultStep where
  | act (reading : Reading) (a : StoreAction)
  | importBundle (input : ImportInput) (options : ApplyOptions) (inspectedAt : ℤ)
      (clock : ClockReadings)

/-- An import that fails leaves the stores as they were. -/
def vaultStep (p : Platform) (s : Stores) : VaultStep → Stores
  | .act reading a => s.perform p reading a
  | .importBundle input options inspectedAt clock =>
    match applyImportedLocalConfigBundle p s.toLocalState input options inspectedAt clock with
    | .error _ => s
    | .ok after => { after with migrationCompleted := s.migrationCompleted }

theorem inOrder_run {p : Platform} (hp : p.Collates) {start : Stores}
    (hstart : InOrder p start.toLocalState) (steps : List VaultStep) :
    InOrder p (Runs.run (vaultStep p) start steps).toLocalState := by
  induction steps generalizing start with
  | nil => exact hstart
  | cons st steps ih =>
    refine ih ?_
    cases st with
    | act reading a => exact hstart.perform hp reading a
    | importBundle input options inspectedAt clock =>
      simp only [vaultStep]
      cases happly : applyImportedLocalConfigBundle p start.toLocalState input options inspectedAt
        clock with
      | error _ => exact hstart
      | ok after => exact inOrder_applied hp happly

section NormalForm
variable {p : Platform} {s : Stores}

theorem normal_linked {hosts : List HostRecord} (h : Normal hosts)
    (link : HostRecord → Optional JsString) :
    Normal (hosts.map fun host => { host with identityId := link host }) := by
  intro host hhost
  obtain ⟨old, hold, rfl⟩ := List.mem_map.mp hhost
  exact congrArg (fun r : HostRecord => { r with identityId := link old }) (h old hold)

/-- The hosts of an action that sets them come sorted, and with that in normal form. -/
theorem normal_perform (h : Normal s.collections.hosts) (reading : Reading) (a : StoreAction) :
    Normal (s.perform p reading a).collections.hosts := by
  cases a with
  | updateHost hostId values fresh =>
    show Normal (upsertHostCollection p s.collections.hosts values hostId fresh reading.now)
    unfold upsertHostCollection
    split_ifs <;> exact normal_sortHostCollection _
  | renameGroup oldName newName =>
    simp only [Stores.perform, renameGroup]
    split_ifs
    · exact h
    · exact normal_sortHostCollection _
  | removeGroup groupName =>
    simp only [Stores.perform, removeGroup]
    split_ifs
    · exact h
    · exact normal_sortHostCollection _
  | ensureLocalShellHost =>
    simp only [Stores.perform, Stores.ensureLocalShellHost]
    split_ifs
    · exact h
    · exact normal_sortHostCollection _
  | loadSampleData =>
    simp only [Stores.perform, Stores.loadSampleData, collections_clearAll]
    exact normal_sortHostCollection _
  | importKey | addGeneratedKey =>
    simp only [Stores.perform, Stores.upsertKey]
    split <;> exact h
  | deleteKey keyId =>
    simp only [Stores.perform, Stores.deleteKey]
    split_ifs <;> exact h
  | duplicateSnippet snippetId fresh =>
    simp only [Stores.perform, Stores.duplicateSnippet]
    split <;> exact h
  | removeIdentity identityId =>
    simp only [Stores.perform, Stores.removeIdentity]
    split_ifs <;> exact h
  | ensureMigrated generateId =>
    show Normal (s.ensureMigrated p generateId reading.now).collections.hosts
    unfold Stores.ensureMigrated
    split_ifs
    · exact h
    · dsimp only [Stores.setHosts, Stores.setIdentities]
      rw [applyIdentityAssignments_eq]
      exact normal_linked h _
  | deleteHostAndCascade hostId =>
    show Normal (s.deleteHostAndCascade p hostId reading).collections.hosts
    rw [collections_cascade]
    exact normal_sortHostCollection _
  | createHost | deleteHost | toggleFavorite | markConnected | setSnippetCounts | assignKey |
    clearKeyByPath => exact normal_sortHostCollection _
  | unassignHostFromAll | assignHost | createSnippet | updateSnippet | deleteSnippet |
    removeHostFromAllTargets | markSnippetRun | trustKnownHost | removeKnownHost | upsertIdentity |
    setLabel | setComment => exact h

theorem normal_applied {state after : LocalState} {input : ImportInput} {options : ApplyOptions}
    {inspectedAt : ℤ} {clock : ClockReadings}
    (h : applyImportedLocalConfigBundle p state input options inspectedAt clock = .ok after) :
    Normal after.collections.hosts := by
  obtain ⟨imported, -, himported⟩ := applyImported_eq_ok h
  rw [(applyPreparedImport_eq_ok himported).1]
  cases options.mode <;> exact normal_sortHostCollection _

theorem normal_vaultStep (h : Normal s.collections.hosts) (st : VaultStep) :
    Normal (vaultStep p s st).collections.hosts := by
  cases st with
  | act reading a => exact normal_perform h reading a
  | importBundle input options inspectedAt clock =>
    simp only [vaultStep]
    cases happly : applyImportedLocalConfigBundle p s.toLocalState input options inspectedAt
      clock with
    | error _ => exact h
    | ok after => exact normal_applied happly

end NormalForm

end VaultStores
