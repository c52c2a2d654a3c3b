import TerminalWorkspace.VaultStores.Migrating
import TerminalWorkspace.VaultStores.Rewriting

/-! The effect of every action on the five collections, for an action that touches no record
without dating it. -/
namespace VaultStores
open JsText Inventory LocalConfig

section Frames
variable {p : Platform} {s : Stores} {kind : VaultSyncEntityKind} {id : JsString}
  {reading : Reading}

@[simp] theorem collections_clearDeleted :
    (s.clearDeleted p kind id).collections = s.collections := rfl

@[simp] theorem collections_markDeleted :
    (s.markDeleted p kind id reading).collections = s.collections := rfl

@[simp] theorem collections_forgetActiveHost :
    (s.forgetActiveHost id).collections = s.collections := by
  unfold Stores.forgetActiveHost
  split_ifs <;> rfl

theorem collections_clearAll {hosts : List HostRecord} :
    (hosts.foldl (fun s host => s.clearDeleted p .hosts host.id) s).collections =
      s.collections := by
  induction hosts generalizing s with
  | nil => rfl
  | cons host hosts ih => exact ih

variable (p s id reading) in
theorem collections_cascade :
    (s.deleteHostAndCascade p id reading).collections =
      ⟨deleteHostFromCollection p s.collections.hosts id,
        unassignHostFromAll p s.collections.keys id,
        removeHostFromAllTargets p s.collections.snippets id,
        s.collections.knownHosts, s.collections.identities⟩ := by
  unfold Stores.deleteHostAndCascade
  rw [collections_forgetActiveHost]
  rfl

end Frames

section Conditions

/-- The identifiers that an action draws are new. -/
def Fresh (s : Stores) : StoreAction → Prop
  | .createHost _ fresh => fresh ∉ s.collections.ids .hosts
  | .updateHost hostId _ fresh => hostId = [] → fresh ∉ s.collections.ids .hosts
  | .importKey _ _ _ fresh | .addGeneratedKey _ _ _ fresh => fresh ∉ s.collections.ids .keys
  | .createSnippet _ fresh | .duplicateSnippet _ fresh => fresh ∉ s.collections.ids .snippets
  | .ensureMigrated generateId => Unused generateId s.collections.hosts
  | _ => True

/-- No key is assigned to the host. -/
def Unassigned (s : Stores) (hostId : JsString) : Prop :=
  ∀ key ∈ s.collections.keys, hostId ∉ key.assignedHostIds

/-- No snippet is targeted at the host. -/
def Untargeted (s : Stores) (hostId : JsString) : Prop :=
  ∀ snippet ∈ s.collections.snippets, hostId ∉ snippet.targetHostIds

/-- The action is not one of those that change a record and leave its time as it was. -/
def Dating (p : Platform) (s : Stores) (now : JsString) : StoreAction → Prop
  | .markConnected hostId =>
    ∀ host ∈ s.collections.hosts, host.id = hostId → host.lastConnectedAt = .value now
  | .setSnippetCounts counts =>
    ∀ host ∈ s.collections.hosts, (counts.get? host.id).getD 0 = host.snippetCount
  | .unassignHostFromAll hostId => Unassigned s hostId
  | .removeHostFromAllTargets hostId => Untargeted s hostId
  | .ensureMigrated _ =>
    s.migrationCompleted = true ∨
      ∀ host ∈ s.collections.hosts, Settled s.collections.identities
        (existingByKey p s.collections.identities) host
  | .deleteHostAndCascade hostId => Unassigned s hostId ∧ Untargeted s hostId
  | _ => True

def noCollections : Collections := ⟨[], [], [], [], []⟩

/-- The records that an action writes with a time of their own. -/
def dated (p : Platform) (now : JsString) : StoreAction → Collections
  | .loadSampleData => { noCollections with hosts := sortHostCollection p sampleHosts }
  | .upsertIdentity input =>
    if input.updatedAt.isSome then
      { noCollections with identities := [makeIdentityRecord input now] }
    else noCollections
  | _ => noCollections

end Conditions

section Effect

/-- What an action does to the five collections. -/
structure Effect (now : JsString) (c dated c' : Collections) : Prop where
  hosts : Rewrites now c.hosts dated.hosts c'.hosts
  normal : Normal c'.hosts
  keys : Rewrites now c.keys dated.keys c'.keys
  snippets : Rewrites now c.snippets dated.snippets c'.snippets
  knownHosts : Rewrites now c.knownHosts dated.knownHosts c'.knownHosts
  identities : Rewrites now c.identities dated.identities c'.identities

variable {p : Platform} {s : Stores} {reading : Reading} {now : JsString} {dates : Collections}
  (hnormal : Normal s.collections.hosts)
include hnormal

theorem Effect.refl : Effect now s.collections dates s.collections :=
  ⟨.refl, hnormal, .refl, .refl, .refl, .refl⟩

omit hnormal in
theorem effect_setHosts {hosts : List HostRecord}
    (h : Rewrites now s.collections.hosts dates.hosts hosts) (hhosts : Normal hosts) :
    Effect now s.collections dates (s.setHosts hosts).collections :=
  ⟨h, hhosts, .refl, .refl, .refl, .refl⟩

theorem effect_sortHosts {hosts : List HostRecord}
    (h : Rewrites now s.collections.hosts [] hosts) :
    Effect now s.collections noCollections
      (s.setHosts (sortHostCollection p hosts)).collections :=
  effect_setHosts (h.sortHosts hnormal fun _ hmem => absurd hmem List.not_mem_nil)
    (normal_sortHostCollection hosts)

theorem effect_setKeys {keys : List KeyRecord}
    (h : Rewrites now s.collections.keys dates.keys keys) :
    Effect now s.collections dates (s.setKeys (sortKeys p keys)).collections :=
  ⟨.refl, hnormal, h.sortBy _, .refl, .refl, .refl⟩

theorem effect_setSnippets {snippets : List SnippetRecord}
    (h : Rewrites now s.collections.snippets dates.snippets snippets) :
    Effect now s.collections dates (s.setSnippets (sortSnippets p snippets)).collections :=
  ⟨.refl, hnormal, .refl, h.sortBy _, .refl, .refl⟩

theorem effect_setKnownHosts {knownHosts : List KnownHostRecord}
    (h : Rewrites now s.collections.knownHosts dates.knownHosts knownHosts) :
    Effect now s.collections dates (s.setKnownHosts (sortKnownHosts p knownHosts)).collections :=
  ⟨.refl, hnormal, .refl, .refl, h.sortBy _, .refl⟩

theorem effect_setIdentities {identities : List IdentityRecord}
    (h : Rewrites now s.collections.identities dates.identities identities) :
    Effect now s.collections dates (s.setIdentities identities).collections :=
  ⟨.refl, hnormal, .refl, .refl, .refl, h⟩

theorem effect_moveGroup (fromGroup toGroup : JsString) :
    Effect now s.collections noCollections
      (s.setHosts (moveGroup p s.collections.hosts fromGroup toGroup now)).collections :=
  effect_sortHosts hnormal (rewrites_editWhere (fun _ => rfl) fun _ => rfl)

theorem effect_upsertKey {label : JsString} {metadata : KeyMetadata} {source : KeySource}
    {hasPassphrase : Bool} {fresh : JsString} (hfresh : fresh ∉ s.collections.ids .keys) :
    Effect now s.collections noCollections
      (s.upsertKey p label metadata source hasPassphrase fresh now).collections := by
  have hkeys : Effect now s.collections noCollections (s.setKeys (VaultStores.upsertKey p
      s.collections.keys label metadata source hasPassphrase fresh now)).collections := by
    unfold VaultStores.upsertKey
    rw [ids_eq] at hfresh
    split
    · exact effect_setKeys hnormal (rewrites_concat hfresh (.inl rfl))
    · exact effect_setKeys hnormal (rewrites_editWhere (fun _ => rfl) fun _ => rfl)
  unfold Stores.upsertKey
  dsimp only
  split <;> exact hkeys

theorem effect_unassign {hostId : JsString} (h : Unassigned s hostId) :
    Effect now s.collections noCollections
      (s.setKeys (unassignHostFromAll p s.collections.keys hostId)).collections := by
  refine effect_setKeys hnormal (rewrites_map (fun _ => rfl) fun key hkey => .inl ?_)
  have hall : key.assignedHostIds.filter (· ≠ hostId) = key.assignedHostIds :=
    List.filter_eq_self.mpr fun id hid => decide_eq_true fun hsame => h key hkey (hsame ▸ hid)
  rw [hall]

theorem effect_untarget {hostId : JsString} (h : Untargeted s hostId) :
    Effect now s.collections noCollections
      (s.setSnippets (removeHostFromAllTargets p s.collections.snippets hostId)).collections := by
  refine effect_setSnippets hnormal (rewrites_map (fun _ => rfl) fun snippet hsnippet => .inl ?_)
  have hall : snippet.targetHostIds.filter (· ≠ hostId) = snippet.targetHostIds :=
    List.filter_eq_self.mpr fun id hid =>
      decide_eq_true fun hsame => h snippet hsnippet (hsame ▸ hid)
  rw [hall]

theorem effect_deleteHost (hostId : JsString) :
    Effect now s.collections noCollections (s.deleteHost p hostId reading).collections :=
  effect_sortHosts hnormal (rewrites_filter _)

theorem effect_cascade {hostId : JsString} (hkeys : Unassigned s hostId)
    (hsnippets : Untargeted s hostId) :
    Effect now s.collections noCollections
      (s.deleteHostAndCascade p hostId reading).collections := by
  let deleted := s.deleteHost p hostId reading
  have hhosts : Effect now s.collections noCollections deleted.collections :=
    effect_deleteHost hnormal hostId
  have hunassigned : Effect now deleted.collections noCollections
      (deleted.setKeys (unassignHostFromAll p deleted.collections.keys hostId)).collections :=
    effect_unassign hhosts.normal hkeys
  have huntargeted : Effect now deleted.collections noCollections (deleted.setSnippets
      (removeHostFromAllTargets p deleted.collections.snippets hostId)).collections :=
    effect_untarget hhosts.normal hsnippets
  rw [collections_cascade]
  exact ⟨hhosts.hosts, hhosts.normal, hunassigned.keys, huntargeted.snippets, .refl, .refl⟩

theorem effect_ensureMigrated {generateId : ℕ → JsString}
    (hdistinct : DistinctIds s.collections) (hdating : Dating p s now (.ensureMigrated generateId)) :
    Effect now s.collections noCollections (s.ensureMigrated p generateId now).collections := by
  unfold Stores.ensureMigrated
  by_cases hcompleted : s.migrationCompleted = true
  · rw [if_pos hcompleted]
    exact Effect.refl hnormal
  · rw [if_neg hcompleted]
    have hsettled := hdating.resolve_left hcompleted
    have hids (kind : VaultSyncEntityKind) := ids_eq s.collections kind
    have hkept : Kept s.collections.hosts (s.collections.hosts.foldl
        (migrateHost s.collections.identities (existingByKey p s.collections.identities)
          s.collections.keys generateId now) ⟨OrderedMap.empty, OrderedMap.empty, []⟩) :=
      kept_foldl ⟨rfl, fun _ h => absurd h List.not_mem_nil⟩ (List.Subset.refl _) hsettled
    have hhosts := hkept.apply (by simpa [hids] using hdistinct .hosts)
    simp only [migrateHostsToIdentities, hkept.1, hhosts]
    exact Effect.refl hnormal

omit hnormal in
theorem effect_loadSampleData :
    Effect now s.collections (dated p now .loadSampleData) (s.loadSampleData p).collections := by
  have hsamples : (sampleHosts.map VaultRecord.id).Nodup := by decide +kernel
  unfold Stores.loadSampleData
  rw [collections_clearAll]
  refine effect_setHosts ⟨fun host hhost => .inr (.inr hhost), fun _ => ?_⟩
    (normal_sortHostCollection _)
  have hperm : (sortHostCollection p sampleHosts).Perm (sampleHosts.map normalizeHostRecord) :=
    sortBy_perm _ _
  have hids := hperm.map VaultRecord.id
  rw [List.map_map] at hids
  exact hids.nodup_iff.mpr hsamples

theorem effect_upsertIdentity (input : IdentityInput) :
    Effect now s.collections (dated p now (.upsertIdentity input))
      (s.setIdentities (upsertIdentity p s.collections.identities input now)).collections := by
  have hwritten : VaultRecord.updatedAt (makeIdentityRecord input now) = now ∨
      makeIdentityRecord input now ∈ (dated p now (.upsertIdentity input)).identities := by
    cases hupdated : input.updatedAt with
    | none =>
      left
      simp [VaultRecord.updatedAt, makeIdentityRecord, hupdated]
    | some updatedAt =>
      right
      simp [dated, hupdated]
  exact effect_setIdentities hnormal (Rewrites.sortBy _ (rewrites_replace
    (r := makeIdentityRecord input now) hwritten))

theorem effect_trustKnownHost (entry : KnownHostScanResult) :
    Effect now s.collections noCollections
      (s.setKnownHosts (trustKnownHost p s.collections.knownHosts entry now)).collections := by
  have hreplaced : Rewrites now s.collections.knownHosts [] _ :=
    rewrites_replace (r := createKnownHostRecord entry now) (.inl rfl)
  refine effect_setKnownHosts hnormal (hreplaced.perm ?_)
  exact (List.perm_append_singleton _ _).symm

/-- The effect of an action, whichever it is. -/
theorem effect_perform (hdistinct : DistinctIds s.collections) {a : StoreAction}
    (hfresh : Fresh s a) (hdating : Dating p s reading.now a) :
    Effect reading.now s.collections (dated p reading.now a)
      (s.perform p reading a).collections := by
  have hids (kind : VaultSyncEntityKind) := ids_eq s.collections kind
  cases a with
  | createHost values fresh =>
    rw [Fresh, hids] at hfresh
    exact effect_sortHosts hnormal (rewrites_concat hfresh (.inl rfl))
  | updateHost hostId values fresh =>
    rw [Fresh, hids] at hfresh
    change Effect _ _ _ (s.setHosts (upsertHostCollection p s.collections.hosts values hostId fresh
      reading.now)).collections
    unfold upsertHostCollection
    split_ifs with hempty
    · exact effect_sortHosts hnormal (rewrites_concat (hfresh hempty) (.inl rfl))
    · exact effect_sortHosts hnormal (rewrites_editWhere (fun _ => rfl) fun _ => rfl)
  | deleteHost hostId => exact effect_deleteHost hnormal hostId
  | toggleFavorite hostId =>
    exact effect_sortHosts hnormal (rewrites_editWhere (fun _ => rfl) fun _ => rfl)
  | markConnected hostId =>
    refine effect_sortHosts hnormal (rewrites_map (fun host => ?_) fun host hhost => .inl ?_)
    · split_ifs <;> rfl
    · split_ifs with hchosen
      · rw [← hdating host hhost (of_decide_eq_true hchosen)]
      · rfl
  | setSnippetCounts counts =>
    refine effect_sortHosts hnormal (rewrites_map (fun _ => rfl) fun host hhost => .inl ?_)
    rw [hdating host hhost]
  | assignKey hostId key =>
    exact effect_sortHosts hnormal (rewrites_editWhere (fun _ => rfl) fun _ => rfl)
  | clearKeyByPath privateKeyPath =>
    exact effect_sortHosts hnormal (rewrites_editWhere (fun _ => rfl) fun _ => rfl)
  | renameGroup oldName newName =>
    change Effect _ _ _ (s.setHosts (renameGroup p s.collections.hosts oldName newName
      reading.now)).collections
    unfold renameGroup
    dsimp only
    split_ifs
    · exact Effect.refl hnormal
    · exact effect_moveGroup hnormal _ _
  | removeGroup groupName =>
    change Effect _ _ _ (s.setHosts (removeGroup p s.collections.hosts groupName
      reading.now)).collections
    unfold removeGroup
    dsimp only
    split_ifs
    · exact Effect.refl hnormal
    · exact effect_moveGroup hnormal _ _
  | ensureLocalShellHost =>
    change Effect _ _ _ (s.ensureLocalShellHost p reading.now).collections
    unfold Stores.ensureLocalShellHost
    split_ifs with hpresent
    · exact Effect.refl hnormal
    · refine effect_sortHosts hnormal (rewrites_concat (fun hmem => hpresent ?_) (.inl rfl))
      obtain ⟨host, hhost, hid⟩ := List.mem_map.mp hmem
      exact List.any_eq_true.mpr ⟨host, hhost, decide_eq_true hid⟩
  | loadSampleData => exact effect_loadSampleData
  | importKey label metadata hasPassphrase fresh => exact effect_upsertKey hnormal hfresh
  | addGeneratedKey label metadata hasPassphrase fresh => exact effect_upsertKey hnormal hfresh
  | deleteKey keyId =>
    have hkeys : Effect reading.now s.collections noCollections _ :=
      effect_setKeys (p := p) hnormal (rewrites_filter fun entry => entry.id ≠ keyId)
    change Effect _ _ _ (s.deleteKey p keyId reading).collections
    unfold Stores.deleteKey
    dsimp only
    split_ifs <;> exact hkeys
  | unassignHostFromAll hostId => exact effect_unassign hnormal hdating
  | assignHost keyId hostId =>
    refine effect_setKeys hnormal (rewrites_map (fun _ => rfl) fun key _ => ?_)
    by_cases htouched : key.id = keyId ∨ hostId ∈ key.assignedHostIds
    · exact .inr (if_pos htouched)
    · left
      rw [not_or] at htouched
      have hall : key.assignedHostIds.filter (· ≠ hostId) = key.assignedHostIds :=
        List.filter_eq_self.mpr fun id hid =>
          decide_eq_true fun hsame => htouched.2 (hsame ▸ hid)
      rw [if_neg htouched.1, hall, if_neg (not_or.mpr htouched)]
  | createSnippet values fresh =>
    rw [Fresh, hids] at hfresh
    exact effect_setSnippets hnormal (rewrites_concat hfresh (.inl rfl))
  | updateSnippet snippetId values =>
    exact effect_setSnippets hnormal (rewrites_editWhere (fun _ => rfl) fun _ => rfl)
  | deleteSnippet snippetId => exact effect_setSnippets hnormal (rewrites_filter _)
  | duplicateSnippet snippetId fresh =>
    rw [Fresh, hids] at hfresh
    change Effect _ _ _ (s.duplicateSnippet p snippetId fresh reading.now).collections
    unfold Stores.duplicateSnippet
    split
    · exact Effect.refl hnormal
    · rename_i source _
      have hcopied : Rewrites reading.now s.collections.snippets [] _ :=
        rewrites_concat (r := duplicateRecord source fresh reading.now) hfresh (.inl rfl)
      exact effect_setSnippets hnormal (hcopied.perm (List.perm_append_singleton _ _).symm)
  | removeHostFromAllTargets hostId => exact effect_untarget hnormal hdating
  | markSnippetRun snippetId =>
    exact effect_setSnippets hnormal (rewrites_editWhere (fun _ => rfl) fun _ => rfl)
  | trustKnownHost entry => exact effect_trustKnownHost hnormal entry
  | removeKnownHost knownHostId => exact effect_setKnownHosts hnormal (rewrites_filter _)
  | upsertIdentity input => exact effect_upsertIdentity hnormal input
  | setLabel identityId label =>
    exact effect_setIdentities hnormal
      (Rewrites.sortBy _ (rewrites_editWhere (fun _ => rfl) fun _ => rfl))
  | setComment identityId comment =>
    exact effect_setIdentities hnormal
      (Rewrites.sortBy _ (rewrites_editWhere (fun _ => rfl) fun _ => rfl))
  | removeIdentity identityId =>
    change Effect _ _ _ (s.removeIdentity p identityId reading).collections
    unfold Stores.removeIdentity
    split_ifs
    · exact effect_setIdentities hnormal (rewrites_filter _)
    · exact Effect.refl hnormal
  | ensureMigrated generateId => exact effect_ensureMigrated hnormal hdistinct hdating
  | deleteHostAndCascade hostId => exact effect_cascade hnormal hdating.1 hdating.2

end Effect

end VaultStores
