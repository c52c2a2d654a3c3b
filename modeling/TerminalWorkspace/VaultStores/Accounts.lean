import TerminalWorkspace.Foundation.Ledgers
import TerminalWorkspace.VaultStores.References

/-! What each action does to the ids that are live and to the tombstones: the account that the
stores keep of what was there. -/
namespace VaultStores
open JsText Inventory LocalConfig

def tombstoneIds (deletions : VaultDeletionMap) (kind : VaultSyncEntityKind) : List JsString :=
  (deletions.of kind).map (·.id)

/-- The hosts that `loadSampleData` loads. -/
def sampleHostIds : List JsString := sampleHosts.map (·.id)

/-- What an action does to the ids and to the tombstones. -/
inductive Change where
  | keep
  | write (kind : VaultSyncEntityKind) (gained : Option JsString) (cleared : JsString)
  | remove (kind : VaultSyncEntityKind) (id : JsString)
  | adopt (generateId : ℕ → JsString)
  | reseed

section Changes
variable (p : Platform) (reading : Reading) (s s' : Stores)

/-- No other kind of record changes. -/
def OnlyIds (kind : VaultSyncEntityKind) (ids : List JsString) : Prop :=
  ∀ k, s'.collections.ids k = if k = kind then ids else s.collections.ids k

def Changes : Change → Prop
  | .keep => (∀ k id, id ∈ s'.collections.ids k ↔ id ∈ s.collections.ids k) ∧
      s'.deletions = s.deletions
  | .write kind gained cleared =>
    (∀ k id, id ∈ s'.collections.ids k ↔
      id ∈ s.collections.ids k ∨ k = kind ∧ gained = some id) ∧
      s'.deletions = (s.clearDeleted p kind cleared).deletions
  | .remove kind gone =>
    (∀ k id, id ∈ s'.collections.ids k ↔ id ∈ s.collections.ids k ∧ ¬ (k = kind ∧ id = gone)) ∧
      s'.deletions = (s.markDeleted p kind gone reading).deletions
  | .adopt generateId =>
    (∀ k id, id ∈ s.collections.ids k → id ∈ s'.collections.ids k) ∧
      (∀ k id, id ∈ s'.collections.ids k →
        id ∈ s.collections.ids k ∨ k = .identities ∧ ∃ n, id = generateId n) ∧
      s'.deletions = s.deletions
  | .reseed =>
    (∀ k id, id ∈ s'.collections.ids k ↔
      if k = .hosts then id ∈ sampleHostIds else id ∈ s.collections.ids k) ∧
      ∀ k e, e ∈ s'.deletions.of k ↔
        e ∈ s.deletions.of k ∧ ¬ (k = .hosts ∧ e.id ∈ sampleHostIds)

/-- What an action deletes, if its record is there. -/
def marked : StoreAction → Option (VaultSyncEntityKind × JsString)
  | .deleteHost hostId | .deleteHostAndCascade hostId => some (.hosts, hostId)
  | .deleteKey keyId => some (.keys, keyId)
  | .deleteSnippet snippetId => some (.snippets, snippetId)
  | .removeKnownHost knownHostId => some (.knownHosts, knownHostId)
  | .removeIdentity identityId => some (.identities, identityId)
  | _ => none

/-- The changes that leave the account in order: a new id has no tombstone but the one that is
cleared, and no tombstone is cleared of a record that is not there. -/
def Balanced (a : StoreAction) : Change → Prop
  | .keep => True
  | .remove kind gone => marked a = some (kind, gone)
  | .write kind gained cleared =>
    (∀ id, gained = some id → id ≠ [] ∧ (id = cleared ∨ id ∉ tombstoneIds s.deletions kind)) ∧
      (cleared ∈ tombstoneIds s.deletions kind →
        cleared ∈ s.collections.ids kind ∨ gained = some cleared)
  | .adopt generateId =>
    ∀ n, generateId n ≠ [] ∧ generateId n ∉ tombstoneIds s.deletions .identities
  | .reseed => ∀ id ∈ s.collections.ids .hosts, id ∈ sampleHostIds

variable {p reading s s'}

theorem ids_hosts (c : Collections) : c.ids .hosts = c.hosts.map (·.id) := by
  simp [Collections.ids, Collections.stamps, Function.comp_def]

theorem ids_keys (c : Collections) : c.ids .keys = c.keys.map (·.id) := by
  simp [Collections.ids, Collections.stamps, Function.comp_def]

theorem ids_snippets (c : Collections) : c.ids .snippets = c.snippets.map (·.id) := by
  simp [Collections.ids, Collections.stamps, Function.comp_def]

theorem ids_knownHosts (c : Collections) : c.ids .knownHosts = c.knownHosts.map (·.id) := by
  simp [Collections.ids, Collections.stamps, Function.comp_def]

theorem ids_identities (c : Collections) : c.ids .identities = c.identities.map (·.id) := by
  simp [Collections.ids, Collections.stamps, Function.comp_def]

theorem onlyIds_setHosts (hosts : List HostRecord) :
    OnlyIds s (s.setHosts hosts) .hosts (hosts.map (·.id)) := by
  intro k
  cases k <;> first | exact ids_hosts _ | rfl

theorem onlyIds_setKeys (keys : List KeyRecord) :
    OnlyIds s (s.setKeys keys) .keys (keys.map (·.id)) := by
  intro k
  cases k <;> first | exact ids_keys _ | rfl

theorem onlyIds_setSnippets (snippets : List SnippetRecord) :
    OnlyIds s (s.setSnippets snippets) .snippets (snippets.map (·.id)) := by
  intro k
  cases k <;> first | exact ids_snippets _ | rfl

theorem onlyIds_setKnownHosts (knownHosts : List KnownHostRecord) :
    OnlyIds s (s.setKnownHosts knownHosts) .knownHosts (knownHosts.map (·.id)) := by
  intro k
  cases k <;> first | exact ids_knownHosts _ | rfl

theorem onlyIds_setIdentities (identities : List IdentityRecord) :
    OnlyIds s (s.setIdentities identities) .identities (identities.map (·.id)) := by
  intro k
  cases k <;> first | exact ids_identities _ | rfl

theorem OnlyIds.mem {kind : VaultSyncEntityKind} {ids : List JsString}
    (h : OnlyIds s s' kind ids) {P : JsString → Prop}
    (hids : ∀ id, id ∈ ids ↔ P id) (k : VaultSyncEntityKind) (id : JsString) :
    id ∈ s'.collections.ids k ↔ if k = kind then P id else id ∈ s.collections.ids k := by
  rw [h k]
  split_ifs
  · exact hids id
  · exact Iff.rfl

theorem OnlyIds.keep {kind : VaultSyncEntityKind} {ids : List JsString}
    (h : OnlyIds s s' kind ids) (hids : ∀ id, id ∈ ids ↔ id ∈ s.collections.ids kind)
    (hdeletions : s'.deletions = s.deletions) : Changes p reading s s' .keep := by
  refine ⟨fun k id => (h.mem hids k id).trans ?_, hdeletions⟩
  split_ifs with hk
  · rw [hk]
  · exact Iff.rfl

theorem OnlyIds.write {kind : VaultSyncEntityKind} {ids : List JsString} {gained : Option JsString}
    {cleared : JsString} (h : OnlyIds s s' kind ids)
    (hids : ∀ id, id ∈ ids ↔ id ∈ s.collections.ids kind ∨ gained = some id)
    (hdeletions : s'.deletions = s.deletions) :
    Changes p reading s (s'.clearDeleted p kind cleared) (.write kind gained cleared) := by
  refine ⟨fun k id => (h.mem hids k id).trans ?_, ?_⟩
  · split_ifs with hk
    · simp [hk]
    · simp [hk]
  · show s'.deletions.put kind (removeDeletionEntry p (s'.deletions.of kind) cleared) = _
    rw [hdeletions]
    rfl

theorem OnlyIds.remove {kind : VaultSyncEntityKind} {ids : List JsString} {gone : JsString}
    (h : OnlyIds s s' kind ids)
    (hids : ∀ id, id ∈ ids ↔ id ∈ s.collections.ids kind ∧ id ≠ gone)
    (hdeletions : s'.deletions = s.deletions) :
    Changes p reading s (s'.markDeleted p kind gone reading) (.remove kind gone) := by
  refine ⟨fun k id => (h.mem hids k id).trans ?_, ?_⟩
  · split_ifs with hk
    · simp [hk]
    · simp [hk]
  · show s'.deletions.put kind _ = _
    rw [hdeletions]
    rfl

end Changes

section Lists
variable {α β : Type} {p : Platform}

theorem mem_sortedHostIds {hosts : List HostRecord} {id : JsString} :
    id ∈ (sortHostCollection p hosts).map (·.id) ↔ id ∈ hosts.map (·.id) := mem_map_sortHosts

theorem mem_map_editWhere {chosen : α → Bool} {edit : α → α} {f : α → β} {records : List α}
    {b : β} (h : ∀ r, f (edit r) = f r) :
    b ∈ (editWhere chosen edit records).map f ↔ b ∈ records.map f := by
  have hsame : (editWhere chosen edit records).map f = records.map f := by
    rw [editWhere, List.map_map]
    refine List.map_congr_left fun r _ => ?_
    rw [Function.comp_apply]
    split_ifs
    · exact h r
    · rfl
  rw [hsame]

theorem mem_map_filter_ne [DecidableEq β] {records : List α} {f : α → β} {b c : β} :
    b ∈ (records.filter fun r => f r ≠ c).map f ↔ b ∈ records.map f ∧ b ≠ c := by
  simp only [List.mem_map, List.mem_filter, decide_eq_true_eq]
  constructor
  · rintro ⟨r, ⟨hr, hne⟩, rfl⟩
    exact ⟨⟨r, hr, rfl⟩, hne⟩
  · rintro ⟨⟨r, hr, rfl⟩, hne⟩
    exact ⟨r, ⟨hr, hne⟩, rfl⟩

end Lists

section Actions
variable {p : Platform} {reading : Reading} {s : Stores}

/-- An action that sets the hosts, with the ids they had. -/
theorem keep_setHosts {hosts : List HostRecord}
    (h : ∀ id, id ∈ hosts.map (·.id) ↔ id ∈ s.collections.hosts.map (·.id)) :
    Changes p reading s (s.setHosts hosts) .keep :=
  (onlyIds_setHosts hosts).keep (fun id => (h id).trans (by rw [ids_hosts])) rfl

/-- An action that edits some hosts, which keep their ids. -/
theorem keep_editHosts {chosen : HostRecord → Bool} {edit : HostRecord → HostRecord}
    (h : ∀ host, (edit host).id = host.id) :
    Changes p reading s (s.setHosts (sortHostCollection p
      (editWhere chosen edit s.collections.hosts))) .keep :=
  keep_setHosts fun _ => mem_sortedHostIds.trans (mem_map_editWhere h)

theorem keep_setKeys {keys : List KeyRecord}
    (h : ∀ id, id ∈ keys.map (·.id) ↔ id ∈ s.collections.keys.map (·.id)) :
    Changes p reading s (s.setKeys keys) .keep :=
  (onlyIds_setKeys keys).keep (fun id => (h id).trans (by rw [ids_keys])) rfl

theorem keep_setSnippets {snippets : List SnippetRecord}
    (h : ∀ id, id ∈ snippets.map (·.id) ↔ id ∈ s.collections.snippets.map (·.id)) :
    Changes p reading s (s.setSnippets snippets) .keep :=
  (onlyIds_setSnippets snippets).keep (fun id => (h id).trans (by rw [ids_snippets])) rfl

theorem keep_setIdentities {identities : List IdentityRecord}
    (h : ∀ id, id ∈ identities.map (·.id) ↔ id ∈ s.collections.identities.map (·.id)) :
    Changes p reading s (s.setIdentities identities) .keep :=
  (onlyIds_setIdentities identities).keep (fun id => (h id).trans (by rw [ids_identities])) rfl

theorem keep_refl : Changes p reading s s .keep := ⟨fun _ _ => Iff.rfl, rfl⟩

theorem remove_deleteHost (hostId : JsString) :
    Changes p reading s (s.deleteHost p hostId reading) (.remove .hosts hostId) := by
  refine (onlyIds_setHosts _).remove (fun id => ?_) rfl
  rw [deleteHostFromCollection, mem_sortedHostIds, mem_map_filter_ne, ids_hosts]

theorem Changes.trans_keep {s s' s'' : Stores} {c : Change} (h : Changes p reading s s' c)
    (hkeep : Changes p reading s' s'' .keep) : Changes p reading s s'' c := by
  obtain ⟨hids, hdeletions⟩ := hkeep
  cases c with
  | keep => exact ⟨fun k id => (hids k id).trans (h.1 k id), hdeletions.trans h.2⟩
  | write => exact ⟨fun k id => (hids k id).trans (h.1 k id), hdeletions.trans h.2⟩
  | remove => exact ⟨fun k id => (hids k id).trans (h.1 k id), hdeletions.trans h.2⟩
  | adopt =>
    exact ⟨fun k id hid => (hids k id).mpr (h.1 k id hid),
      fun k id hid => h.2.1 k id ((hids k id).mp hid), hdeletions.trans h.2.2⟩
  | reseed => exact ⟨fun k id => (hids k id).trans (h.1 k id), hdeletions ▸ h.2⟩

theorem keep_unassign (hostId : JsString) :
    Changes p reading s (s.setKeys (unassignHostFromAll p s.collections.keys hostId)) .keep :=
  keep_setKeys fun id => by
    rw [unassignHostFromAll, sortKeys, mem_map_sortBy, List.map_map]
    exact Iff.rfl

theorem keep_untarget (hostId : JsString) :
    Changes p reading s
      (s.setSnippets (removeHostFromAllTargets p s.collections.snippets hostId)) .keep :=
  keep_setSnippets fun id => by
    rw [removeHostFromAllTargets, sortSnippets, mem_map_sortBy, List.map_map]
    exact Iff.rfl

theorem keep_forgetActiveHost (hostId : JsString) :
    Changes p reading s (s.forgetActiveHost hostId) .keep := by
  unfold Stores.forgetActiveHost
  split_ifs
  · exact ⟨fun _ _ => Iff.rfl, rfl⟩
  · exact keep_refl

theorem remove_cascade (hostId : JsString) :
    Changes p reading s (s.deleteHostAndCascade p hostId reading) (.remove .hosts hostId) :=
  (((remove_deleteHost hostId).trans_keep (keep_unassign hostId)).trans_keep
    (keep_untarget hostId)).trans_keep (keep_forgetActiveHost hostId)

theorem write_createHost (host : HostRecord) (cleared : JsString) :
    Changes p reading s
      ((s.setHosts (sortHostCollection p (s.collections.hosts ++ [host]))).clearDeleted p .hosts
        cleared) (.write .hosts (some host.id) cleared) := by
  refine (onlyIds_setHosts _).write (fun id => ?_) rfl
  rw [mem_sortedHostIds, ids_hosts, List.map_append, List.mem_append, List.map_singleton,
    List.mem_singleton, Option.some_inj, eq_comm]

theorem write_createSnippet {snippets : List SnippetRecord} (snippet : SnippetRecord)
    (h : ∀ id, id ∈ snippets.map (·.id) ↔
      id ∈ s.collections.snippets.map (·.id) ∨ id = snippet.id) :
    Changes p reading s ((s.setSnippets (sortSnippets p snippets)).clearDeleted p .snippets
      snippet.id) (.write .snippets (some snippet.id) snippet.id) := by
  refine (onlyIds_setSnippets _).write (fun id => ?_) rfl
  rw [sortSnippets, mem_map_sortBy, ids_snippets, Option.some_inj, h id, eq_comm]

/-- A key is written under its path: it is a new one, or one that is there. -/
theorem changes_upsertKey (a : StoreAction) (label : JsString) (metadata : KeyMetadata) (source : KeySource)
    (hasPassphrase : Bool) {fresh : JsString} (now : JsString) (hfresh : fresh ≠ []) :
    ∃ c, Changes p reading s (s.upsertKey p label metadata source hasPassphrase fresh now) c ∧
      Balanced s a c := by
  have hfound (keys : List KeyRecord) {key : KeyRecord}
      (h : (keys.find? fun key => key.privateKeyPath = metadata.privateKeyPath) = some key) :
      key ∈ keys ∧ key.privateKeyPath = metadata.privateKeyPath :=
    ⟨List.mem_of_find?_eq_some h, of_decide_eq_true (List.find?_some h :)⟩
  unfold Stores.upsertKey
  dsimp only
  cases hexisting : s.collections.keys.find? fun key =>
      key.privateKeyPath = metadata.privateKeyPath with
  | none =>
    have hkeys : VaultStores.upsertKey p s.collections.keys label metadata source hasPassphrase
        fresh now = sortKeys p (s.collections.keys ++
          [createKeyRecord label metadata source hasPassphrase fresh now]) := by
      rw [VaultStores.upsertKey, hexisting]
    rw [hkeys]
    cases hnext : (sortKeys p (s.collections.keys ++
        [createKeyRecord label metadata source hasPassphrase fresh now])).find? fun key =>
          key.privateKeyPath = metadata.privateKeyPath with
    | none =>
      rw [List.find?_eq_none] at hnext
      have hnot := hnext (createKeyRecord label metadata source hasPassphrase fresh now)
        (mem_sortBy.mpr (List.mem_append_right _ (List.mem_singleton_self _)))
      exact absurd (decide_eq_true rfl) hnot
    | some nextKey =>
      obtain ⟨hmem, hpath⟩ := hfound _ hnext
      have hid : nextKey.id = fresh := by
        rcases List.mem_append.mp (mem_sortBy.mp hmem) with hold | hnew
        · rw [List.find?_eq_none] at hexisting
          exact absurd (decide_eq_true hpath) (hexisting nextKey hold)
        · rw [List.mem_singleton.mp hnew]
          rfl
      refine ⟨.write .keys (some fresh) nextKey.id, ?_, ?_, fun _ => .inr (by rw [hid])⟩
      · refine (onlyIds_setKeys _).write (fun id => ?_) rfl
        rw [sortKeys, mem_map_sortBy, ids_keys, List.map_append, List.mem_append,
          List.map_singleton, List.mem_singleton, Option.some_inj]
        exact or_congr_right eq_comm
      · intro id hsome
        obtain rfl := Option.some.inj hsome
        exact ⟨hfresh, .inl hid.symm⟩
  | some existing =>
    have hids (id : JsString) : id ∈ (VaultStores.upsertKey p s.collections.keys label metadata
        source hasPassphrase fresh now).map (·.id) ↔ id ∈ s.collections.keys.map (·.id) := by
      rw [VaultStores.upsertKey, hexisting]
      dsimp only
      rw [sortKeys, mem_map_sortBy]
      refine mem_map_editWhere ?_
      exact fun _ => rfl
    split
    · exact ⟨.keep, keep_setKeys hids, trivial⟩
    · rename_i nextKey hnext
      refine ⟨.write .keys none nextKey.id, ?_, fun _ hnone => (by cases hnone), fun _ => .inl ?_⟩
      · refine (onlyIds_setKeys _).write (fun id => ?_) rfl
        rw [hids, ids_keys]
        exact (or_iff_left (by simp)).symm
      · rw [ids_keys]
        exact (hids nextKey.id).mp (List.mem_map_of_mem (hfound _ hnext).1)

/-- The ids that an action draws are new. -/
def FreshIds (s : Stores) : StoreAction → Prop
  | .createHost _ fresh | .importKey _ _ _ fresh | .addGeneratedKey _ _ _ fresh
  | .createSnippet _ fresh | .duplicateSnippet _ fresh => fresh ≠ []
  | .updateHost hostId _ fresh =>
    hostId = [] → fresh ≠ [] ∧ fresh ∉ tombstoneIds s.deletions .hosts
  | .upsertIdentity input => input.id ≠ []
  | .ensureMigrated generateId =>
    ∀ n, generateId n ≠ [] ∧ generateId n ∉ tombstoneIds s.deletions .identities
  | _ => True

/-- An update is of a record that is not deleted, and the sample data replaces nothing else. -/
def Addressed (s : Stores) : StoreAction → Prop
  | .updateHost hostId _ _ =>
    hostId ∈ tombstoneIds s.deletions .hosts → hostId ∈ s.collections.ids .hosts
  | .updateSnippet snippetId _ =>
    snippetId ∈ tombstoneIds s.deletions .snippets → snippetId ∈ s.collections.ids .snippets
  | .loadSampleData => ∀ id ∈ s.collections.ids .hosts, id ∈ sampleHostIds
  | _ => True

theorem balanced_write {a : StoreAction} {kind : VaultSyncEntityKind} {id : JsString} (h : id ≠ []) :
    Balanced s a (.write kind (some id) id) := by
  refine ⟨fun id' hid => ?_, fun _ => .inr rfl⟩
  obtain rfl := Option.some.inj hid
  exact ⟨h, .inl rfl⟩

theorem changes_updateHost {hostId : JsString} (values : HostFormValues) {fresh : JsString}
    (hfresh : FreshIds s (.updateHost hostId values fresh))
    (haddressed : Addressed s (.updateHost hostId values fresh)) :
    ∃ c, Changes p reading s (s.perform p reading (.updateHost hostId values fresh)) c ∧
      Balanced s (.updateHost hostId values fresh) c := by
  by_cases hempty : hostId = []
  · obtain ⟨hne, hnew⟩ := hfresh hempty
    refine ⟨.write .hosts (some fresh) hostId, ?_, ?_, fun hmem => .inl (haddressed hmem)⟩
    · have hhosts : upsertHostCollection p s.collections.hosts values hostId fresh reading.now =
          sortHostCollection p (s.collections.hosts ++
            [createHostRecord values none fresh reading.now]) := if_pos hempty
      show Changes p reading s ((s.setHosts (upsertHostCollection p s.collections.hosts values
        hostId fresh reading.now)).clearDeleted p .hosts hostId) _
      rw [hhosts]
      exact write_createHost (createHostRecord values none fresh reading.now) hostId
    · intro id hid
      obtain rfl := Option.some.inj hid
      exact ⟨hne, .inr hnew⟩
  · refine ⟨.write .hosts none hostId, ?_, fun _ hnone => (nomatch hnone),
      fun hmem => .inl (haddressed hmem)⟩
    refine (onlyIds_setHosts _).write (fun id => ?_) rfl
    have hhosts : upsertHostCollection p s.collections.hosts values hostId fresh reading.now =
        sortHostCollection p (editWhere (fun host => host.id = hostId)
          (fun host => createHostRecord values (some host) fresh reading.now)
          s.collections.hosts) := if_neg hempty
    rw [hhosts, mem_sortedHostIds, ids_hosts]
    refine (mem_map_editWhere ?_).trans (or_iff_left nofun).symm
    exact fun _ => rfl

theorem mem_clearDeleted {kind k : VaultSyncEntityKind} {id : JsString} {e : VaultDeletionEntry} :
    e ∈ (s.clearDeleted p kind id).deletions.of k ↔
      e ∈ s.deletions.of k ∧ ¬ (k = kind ∧ e.id = id) := by
  rw [Stores.clearDeleted, of_put]
  split_ifs with hk
  · rw [removeDeletionEntry, sortDeletionEntries, mem_sortBy, List.mem_filter, hk]
    simp
  · simp [hk]

theorem reseed_loadSampleData : Changes p reading s (s.loadSampleData p) .reseed := by
  have hclear (hosts : List HostRecord) (s' : Stores) (k : VaultSyncEntityKind)
      (e : VaultDeletionEntry) :
      e ∈ (hosts.foldl (fun s host => s.clearDeleted p .hosts host.id) s').deletions.of k ↔
        e ∈ s'.deletions.of k ∧ ¬ (k = .hosts ∧ e.id ∈ hosts.map (·.id)) := by
    induction hosts generalizing s' with
    | nil => simp
    | cons host hosts ih =>
      rw [List.foldl_cons, ih, mem_clearDeleted, List.map_cons, List.mem_cons]
      tauto
  unfold Stores.loadSampleData
  refine ⟨fun k id => ?_, fun k e => ?_⟩
  · rw [collections_clearAll, onlyIds_setHosts _ k]
    split_ifs
    · exact mem_sortedHostIds
    · exact Iff.rfl
  · rw [hclear, mem_sortedHostIds]
    exact Iff.rfl

theorem keep_assignIdentities (assignmentsByHostId : OrderedMap JsString JsString) :
    Changes p reading s (s.setHosts (applyIdentityAssignments s.collections.hosts
      assignmentsByHostId)) .keep :=
  keep_setHosts fun id => by
    rw [applyIdentityAssignments_eq, List.map_map]
    exact Iff.rfl

theorem adopt_setIdentities {generateId : ℕ → JsString} {identities : List IdentityRecord}
    (hold : ∀ identity ∈ s.collections.identities, identity ∈ identities)
    (hnew : ∀ identity ∈ identities,
      identity ∈ s.collections.identities ∨ ∃ n, identity.id = generateId n) :
    Changes p reading s (s.setIdentities identities) (.adopt generateId) := by
  refine ⟨fun k id hid => ?_, fun k id hid => ?_, rfl⟩
  · rw [onlyIds_setIdentities identities k]
    split_ifs with hk
    · rw [hk, ids_identities] at hid
      obtain ⟨identity, hidentity, rfl⟩ := List.mem_map.mp hid
      exact List.mem_map_of_mem (hold identity hidentity)
    · exact hid
  · rw [onlyIds_setIdentities identities k] at hid
    split_ifs at hid with hk
    · obtain ⟨identity, hidentity, rfl⟩ := List.mem_map.mp hid
      rcases hnew identity hidentity with hmem | hdrawn
      · left
        rw [hk, ids_identities]
        exact List.mem_map_of_mem hmem
      · exact .inr ⟨hk, hdrawn⟩
    · exact .inl hid

/-- The migration adds identities under the ids that it draws, and clears no tombstone. -/
theorem adopt_ensureMigrated (generateId : ℕ → JsString) (now : JsString)
    (h : s.migrationCompleted = false) :
    Changes p reading s (s.ensureMigrated p generateId now) (.adopt generateId) := by
  have hdrawn (hosts : List HostRecord) {m : Migration} (hm : Drawn generateId m) :
      Drawn generateId (hosts.foldl (migrateHost s.collections.identities
        (existingByKey p s.collections.identities) s.collections.keys generateId now) m) := by
    induction hosts generalizing m with
    | nil => exact hm
    | cons host hosts ih => exact ih (hm.migrateHost host)
  have hadded : ∀ identity ∈ (migrateHostsToIdentities p s.collections.hosts s.collections.keys
      s.collections.identities generateId now).identitiesToAdd, ∃ n, identity.id = generateId n :=
    hdrawn s.collections.hosts
      (show Drawn generateId ⟨OrderedMap.empty, OrderedMap.empty, []⟩ from nofun)
  unfold Stores.ensureMigrated
  rw [if_neg (by simp [h])]
  have hflag (t : Stores) (hosts : List HostRecord) :
      Changes p reading (t.setHosts hosts)
        { t.setHosts hosts with migrationCompleted := true } .keep := ⟨fun _ _ => Iff.rfl, rfl⟩
  refine ((adopt_setIdentities ?_ ?_).trans_keep (keep_assignIdentities _)).trans_keep
    (hflag _ _)
  · intro identity hidentity
    split_ifs
    · exact hidentity
    · exact mem_sortBy.mpr (List.mem_append_left _ hidentity)
  · intro identity hidentity
    split_ifs at hidentity
    · exact .inl hidentity
    · exact (List.mem_append.mp (mem_sortBy.mp hidentity)).imp_right (hadded identity)

theorem mem_concat_ids {α β : Type} {records : List α} {r : α} {f : α → β} {b : β} :
    b ∈ (records ++ [r]).map f ↔ b ∈ records.map f ∨ b = f r := by
  rw [List.map_append, List.mem_append, List.map_singleton, List.mem_singleton]

/-- Every action makes one of the changes, and a balanced one if its ids are new and what it updates
is not deleted. -/
theorem perform_changes (p : Platform) (reading : Reading) {a : StoreAction}
    (hfresh : FreshIds s a) (haddressed : Addressed s a) :
    ∃ c, Changes p reading s (s.perform p reading a) c ∧ Balanced s a c := by
  cases a with
  | createHost values fresh =>
    exact ⟨_, write_createHost (createHostRecord values none fresh reading.now) fresh,
      balanced_write hfresh⟩
  | updateHost hostId values fresh => exact changes_updateHost values hfresh haddressed
  | deleteHost hostId => exact ⟨_, remove_deleteHost hostId, rfl⟩
  | toggleFavorite | markConnected | assignKey | clearKeyByPath =>
    refine ⟨_, keep_editHosts ?_, trivial⟩
    exact fun _ => rfl
  | setSnippetCounts counts =>
    refine ⟨_, keep_setHosts fun id => ?_, trivial⟩
    rw [setSnippetCounts, mem_sortedHostIds, List.map_map]
    exact Iff.rfl
  | renameGroup oldName newName =>
    refine ⟨.keep, ?_, trivial⟩
    simp only [Stores.perform, renameGroup]
    split_ifs
    · exact keep_refl
    · refine keep_editHosts ?_
      exact fun _ => rfl
  | removeGroup groupName =>
    refine ⟨.keep, ?_, trivial⟩
    simp only [Stores.perform, removeGroup]
    split_ifs
    · exact keep_refl
    · refine keep_editHosts ?_
      exact fun _ => rfl
  | ensureLocalShellHost =>
    simp only [Stores.perform, Stores.ensureLocalShellHost]
    split_ifs
    · exact ⟨_, keep_refl, trivial⟩
    · exact ⟨_, write_createHost (createLocalShellHostRecord reading.now) localShellHostId,
        balanced_write (show localShellHostId ≠ [] by decide)⟩
  | loadSampleData => exact ⟨_, reseed_loadSampleData, haddressed⟩
  | importKey label metadata hasPassphrase fresh =>
    exact changes_upsertKey _ label metadata .imported hasPassphrase reading.now hfresh
  | addGeneratedKey label metadata hasPassphrase fresh =>
    exact changes_upsertKey _ label metadata .generated hasPassphrase reading.now hfresh
  | deleteKey keyId =>
    have hids (id : JsString) : id ∈ (sortKeys p (s.collections.keys.filter fun entry =>
        entry.id ≠ keyId)).map (·.id) ↔ id ∈ s.collections.keys.map (·.id) ∧ id ≠ keyId := by
      rw [sortKeys, mem_map_sortBy, mem_map_filter_ne]
    simp only [Stores.perform, Stores.deleteKey]
    split_ifs with hthere
    · refine ⟨.remove .keys keyId, (onlyIds_setKeys _).remove (fun id => ?_) rfl, rfl⟩
      rw [ids_keys]
      exact hids id
    · refine ⟨_, keep_setKeys fun id => (hids id).trans (and_iff_left_of_imp ?_), trivial⟩
      rintro hid rfl
      obtain ⟨key, hkey, hsame⟩ := List.mem_map.mp hid
      exact hthere (List.any_eq_true.mpr ⟨key, hkey, decide_eq_true hsame⟩)
  | unassignHostFromAll hostId => exact ⟨_, keep_unassign hostId, trivial⟩
  | assignHost keyId hostId =>
    refine ⟨_, keep_setKeys fun id => ?_, trivial⟩
    rw [assignHost, sortKeys, mem_map_sortBy, List.map_map]
    exact Iff.rfl
  | createSnippet values fresh =>
    exact ⟨_, write_createSnippet (createSnippetRecord values none fresh reading.now)
      fun id => mem_concat_ids, balanced_write hfresh⟩
  | updateSnippet snippetId values =>
    refine ⟨.write .snippets none snippetId, (onlyIds_setSnippets _).write (fun id => ?_) rfl,
      fun _ hnone => (by cases hnone), fun hmem => .inl (haddressed hmem)⟩
    rw [updateSnippet, sortSnippets, mem_map_sortBy, ids_snippets]
    refine (mem_map_editWhere ?_).trans (or_iff_left (by simp)).symm
    exact fun _ => rfl
  | deleteSnippet snippetId =>
    refine ⟨.remove .snippets snippetId, (onlyIds_setSnippets _).remove (fun id => ?_) rfl, rfl⟩
    rw [sortSnippets, mem_map_sortBy, mem_map_filter_ne, ids_snippets]
  | duplicateSnippet snippetId fresh =>
    simp only [Stores.perform, Stores.duplicateSnippet]
    split
    · exact ⟨_, keep_refl, trivial⟩
    · rename_i source _
      exact ⟨_, write_createSnippet (duplicateRecord source fresh reading.now)
        fun id => by rw [List.map_cons, List.mem_cons]; exact Or.comm, balanced_write hfresh⟩
  | removeHostFromAllTargets hostId => exact ⟨_, keep_untarget hostId, trivial⟩
  | markSnippetRun snippetId =>
    refine ⟨_, keep_setSnippets fun id => ?_, trivial⟩
    rw [markSnippetRun, sortSnippets, mem_map_sortBy]
    refine mem_map_editWhere ?_
    exact fun _ => rfl
  | trustKnownHost entry =>
    refine ⟨.write .knownHosts (some (createKnownHostId entry)) (createKnownHostId entry),
      (onlyIds_setKnownHosts _).write (fun id => ?_) rfl, balanced_write ?_⟩
    · rw [trustKnownHost, sortKnownHosts, mem_map_sortBy, List.map_cons, List.mem_cons,
        mem_map_filter_ne, ids_knownHosts, Option.some_inj]
      have hid : (createKnownHostRecord entry reading.now).id = createKnownHostId entry := rfl
      rw [hid]
      tauto
    · have hcolon : js ":" ≠ [] := by decide
      simp [createKnownHostId, hcolon]
  | removeKnownHost knownHostId =>
    refine ⟨.remove .knownHosts knownHostId, (onlyIds_setKnownHosts _).remove (fun id => ?_) rfl,
      rfl⟩
    rw [sortKnownHosts, mem_map_sortBy, mem_map_filter_ne, ids_knownHosts]
  | upsertIdentity input =>
    refine ⟨.write .identities (some input.id) input.id,
      (onlyIds_setIdentities _).write (fun id => ?_) rfl, balanced_write hfresh⟩
    rw [upsertIdentity, sortIdentities, mem_map_sortBy, mem_concat_ids, mem_map_filter_ne,
      ids_identities, Option.some_inj]
    have hid : (makeIdentityRecord input reading.now).id = input.id := rfl
    rw [hid]
    tauto
  | setLabel identityId label =>
    refine ⟨_, keep_setIdentities fun id => ?_, trivial⟩
    rw [setLabel, sortIdentities, mem_map_sortBy]
    refine mem_map_editWhere ?_
    exact fun _ => rfl
  | setComment identityId comment =>
    refine ⟨_, keep_setIdentities fun id => ?_, trivial⟩
    rw [setComment, sortIdentities, mem_map_sortBy]
    refine mem_map_editWhere ?_
    exact fun _ => rfl
  | removeIdentity identityId =>
    simp only [Stores.perform, Stores.removeIdentity]
    split_ifs
    · refine ⟨.remove .identities identityId,
        (onlyIds_setIdentities _).remove (fun id => ?_) rfl, rfl⟩
      rw [mem_map_filter_ne, ids_identities]
    · exact ⟨_, keep_refl, trivial⟩
  | ensureMigrated generateId =>
    cases hcompleted : s.migrationCompleted with
    | true =>
      refine ⟨.keep, ?_, trivial⟩
      simp only [Stores.perform, Stores.ensureMigrated, hcompleted, if_true]
      exact keep_refl
    | false => exact ⟨_, adopt_ensureMigrated generateId reading.now hcompleted, hfresh⟩
  | deleteHostAndCascade hostId => exact ⟨_, remove_cascade hostId, rfl⟩

end Actions
end VaultStores
