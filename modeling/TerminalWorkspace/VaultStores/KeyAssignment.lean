import TerminalWorkspace.VaultStores.FormSaving
import TerminalWorkspace.VaultStores.InOrder

/-! Which key is assigned to which host, over the actions of the stores and over imports and
merges. -/
namespace VaultStores
open JsText Inventory LocalConfig Runs

section Functional

/-- Two key records share no host and no path. -/
structure Apart (a b : KeyRecord) : Prop where
  hosts : a.assignedHostIds.Disjoint b.assignedHostIds
  paths : a.privateKeyPath ≠ b.privateKeyPath

/-- A host is assigned to one key at most, and to that once; no two records have one path. -/
structure Functional (keys : List KeyRecord) : Prop where
  apart : keys.Pairwise Apart
  once : ∀ key ∈ keys, key.assignedHostIds.Nodup

/-- Besides, the records have ids of their own. -/
structure Assigned (keys : List KeyRecord) : Prop extends Functional keys where
  ids : (keys.map (·.id)).Nodup

theorem Apart.symm {a b : KeyRecord} (h : Apart a b) : Apart b a := ⟨h.hosts.symm, h.paths.symm⟩

instance : Std.Symm Apart := ⟨fun _ _ => Apart.symm⟩

theorem Functional.of_perm {keys sorted : List KeyRecord} (h : Functional keys)
    (hperm : sorted.Perm keys) : Functional sorted :=
  ⟨(hperm.pairwise_iff Apart.symm).mpr h.apart, fun key hkey => h.once key (hperm.mem_iff.mp hkey)⟩

theorem Assigned.of_perm {keys sorted : List KeyRecord} (h : Assigned keys)
    (hperm : sorted.Perm keys) : Assigned sorted :=
  ⟨h.toFunctional.of_perm hperm, (hperm.map _).nodup_iff.mpr h.ids⟩

theorem Assigned.sublist {keys part : List KeyRecord} (h : Assigned keys)
    (hpart : part.Sublist keys) : Assigned part :=
  ⟨⟨h.apart.sublist hpart, fun key hkey => h.once key (hpart.subset hkey)⟩,
    h.ids.sublist (hpart.map _)⟩

/-- Records that keep their id and path and lose hosts at most. -/
theorem Assigned.map {keys : List KeyRecord} (h : Assigned keys) {f : KeyRecord → KeyRecord}
    (hid : ∀ key, (f key).id = key.id) (hpath : ∀ key, (f key).privateKeyPath = key.privateKeyPath)
    (hhosts : ∀ key, (f key).assignedHostIds.Sublist key.assignedHostIds) :
    Assigned (keys.map f) := by
  have hapart : ∀ a b, Apart a b → Apart (f a) (f b) := by
    intro a b hab
    refine ⟨List.disjoint_of_subset_left (hhosts a).subset
      (List.disjoint_of_subset_right (hhosts b).subset hab.hosts), ?_⟩
    rw [hpath, hpath]
    exact hab.paths
  have hids : (keys.map f).map (·.id) = keys.map (·.id) := by
    rw [List.map_map]
    exact List.map_congr_left fun key _ => hid key
  refine ⟨⟨List.pairwise_map.mpr (h.apart.imp fun {a b} => hapart a b), ?_⟩, hids ▸ h.ids⟩
  exact List.forall_mem_map.mpr fun key hkey => (h.once key hkey).sublist (hhosts key)

end Functional

section Actions
variable {p : Platform} {keys : List KeyRecord}

theorem Assigned.sorted (h : Assigned keys) : Assigned (sortKeys p keys) :=
  h.of_perm (sortBy_perm _ _)

theorem Assigned.restrict (h : Assigned keys) (hostIds : List JsString) :
    Assigned (restrictKeys hostIds keys) := by
  refine Assigned.map h ?_ ?_ fun key => ?_
  · exact fun _ => rfl
  · exact fun _ => rfl
  · exact List.filter_sublist

theorem Assigned.unassign (h : Assigned keys) (hostId : JsString) :
    Assigned (unassignHostFromAll p keys hostId) := by
  refine Assigned.sorted (Assigned.map h ?_ ?_ fun key => ?_)
  · exact fun _ => rfl
  · exact fun _ => rfl
  · exact List.filter_sublist

theorem mem_assigned {key : KeyRecord} {keyId hostId id : JsString} :
    id ∈ (if key.id = keyId then (key.assignedHostIds ++ [hostId]).eraseDups
      else key.assignedHostIds.filter (· ≠ hostId)) ↔
        if id = hostId then key.id = keyId else id ∈ key.assignedHostIds := by
  by_cases hkey : key.id = keyId <;> by_cases hid : id = hostId <;> simp [hkey, hid]

/-- The host goes to the one key and leaves the others. -/
theorem Assigned.assign (h : Assigned keys) (keyId hostId now : JsString) :
    Assigned (assignHost p keys keyId hostId now) := by
  have hids : keys.Pairwise fun a b => a.id ≠ b.id := List.pairwise_map.mp h.ids
  refine Assigned.sorted ⟨⟨List.pairwise_map.mpr ((h.apart.and hids).imp fun {a b} hab => ?_), ?_⟩, ?_⟩
  · refine ⟨fun id ha hb => ?_, hab.1.paths⟩
    have ha := mem_assigned.mp ha
    have hb := mem_assigned.mp hb
    split_ifs at ha hb
    · exact hab.2 (ha.trans hb.symm)
    · exact hab.1.hosts ha hb
  · refine List.forall_mem_map.mpr fun key hkey => ?_
    show (if key.id = keyId then _ else _ : List JsString).Nodup
    split_ifs
    · exact nodup_eraseDups _
    · exact (h.once key hkey).filter _
  · rw [List.map_map]
    exact h.ids

theorem Assigned.upsert (h : Assigned keys) (label : JsString) (metadata : KeyMetadata)
    (source : KeySource) (hasPassphrase : Bool) {fresh : JsString} (now : JsString)
    (hfresh : fresh ∉ keys.map (·.id)) :
    Assigned (upsertKey p keys label metadata source hasPassphrase fresh now) := by
  unfold upsertKey
  split
  next hnone =>
    have hpath : ∀ key ∈ keys, key.privateKeyPath ≠ metadata.privateKeyPath := by simpa using hnone
    refine Assigned.sorted ⟨⟨List.pairwise_append.mpr
      ⟨h.apart, List.pairwise_singleton _ _, fun key hkey new hnew => ?_⟩, ?_⟩, ?_⟩
    · obtain rfl := List.mem_singleton.mp hnew
      exact ⟨List.disjoint_nil_right _, hpath key hkey⟩
    · exact List.forall_mem_append.mpr ⟨h.once, List.forall_mem_singleton.mpr List.nodup_nil⟩
    · rw [List.map_append]
      exact List.nodup_append_comm.mp (List.nodup_cons.mpr ⟨hfresh, h.ids⟩)
  next existing hfound =>
    refine Assigned.sorted (Assigned.map h (fun key => ?_) (fun key => ?_) fun key => ?_)
    · split_ifs <;> rfl
    · split_ifs <;> rfl
    · split_ifs <;> exact List.Sublist.refl _

/-- The keys after an action. -/
theorem Assigned.perform {s : Stores} (h : Assigned s.collections.keys) (reading : Reading)
    {a : StoreAction} (hfresh : Fresh s a) : Assigned (s.perform p reading a).collections.keys := by
  have hupsert : ∀ label metadata source hasPassphrase fresh,
      fresh ∉ s.collections.ids .keys →
        Assigned (s.upsertKey p label metadata source hasPassphrase fresh reading.now).collections.keys := by
    intro label metadata source hasPassphrase fresh hnew
    rw [ids_eq] at hnew
    have hkeys := h.upsert (p := p) label metadata source hasPassphrase reading.now hnew
    unfold Stores.upsertKey
    dsimp only
    split
    · exact hkeys
    · exact hkeys
  cases a with
  | importKey label metadata hasPassphrase fresh => exact hupsert _ _ _ _ _ hfresh
  | addGeneratedKey label metadata hasPassphrase fresh => exact hupsert _ _ _ _ _ hfresh
  | deleteKey keyId =>
    have hkeys : Assigned (sortKeys p (s.collections.keys.filter fun entry => entry.id ≠ keyId)) :=
      (h.sublist List.filter_sublist).sorted
    simp only [Stores.perform, Stores.deleteKey]
    split_ifs
    · exact hkeys
    · exact hkeys
  | unassignHostFromAll hostId => exact h.unassign hostId
  | assignHost keyId hostId => exact h.assign keyId hostId reading.now
  | deleteHostAndCascade hostId =>
    simp only [Stores.perform, collections_cascade]
    exact h.unassign hostId
  | ensureLocalShellHost =>
    simp only [Stores.perform, Stores.ensureLocalShellHost]
    split_ifs
    · exact h
    · exact h
  | loadSampleData =>
    simp only [Stores.perform, Stores.loadSampleData, collections_clearAll]
    exact h
  | duplicateSnippet snippetId fresh =>
    simp only [Stores.perform, Stores.duplicateSnippet]
    split <;> exact h
  | removeIdentity identityId =>
    simp only [Stores.perform, Stores.removeIdentity]
    split_ifs <;> exact h
  | ensureMigrated generateId =>
    simp only [Stores.perform, Stores.ensureMigrated]
    split_ifs <;> exact h
  | _ => exact h

end Actions

section Imports
variable (p : Platform) (s : Stores) (bundle : LocalConfigBundle) (resolution : ConflictResolution)
  (prepared : ℤ)

/-- The hosts that a merge keeps. -/
def mergedHostIds : List JsString :=
  (mergeCollection p s.collections.hosts (prepareImportedCollections p bundle).hosts
    (sortHostCollection p) (prepareImportedDeletions p bundle prepared).hosts
    resolution).records.map fun host => host.id

/-- The keys of this side as they go into a merge. -/
def localKeys : List KeyRecord :=
  sortKeys p (restrictKeys (mergedHostIds p s bundle resolution prepared) s.collections.keys)

def importedKeys : List KeyRecord :=
  sortKeys p (restrictKeys (mergedHostIds p s bundle resolution prepared)
    (prepareImportedCollections p bundle).keys)

/-- The merge keeps this version of the record. -/
def KeptKey (key : KeyRecord) : Prop :=
  (outcomeOf p resolution (localKeys p s bundle resolution prepared)
    (importedKeys p s bundle resolution prepared)
    (prepareImportedDeletions p bundle prepared).keys key.id).record = some key

/-- No key that is kept of this side and none that is taken from the other share a host or a
path. -/
def SidesApart : Prop :=
  ∀ key ∈ localKeys p s bundle resolution prepared,
    ∀ other ∈ importedKeys p s bundle resolution prepared, key.id ≠ other.id →
      KeptKey p s bundle resolution prepared key → KeptKey p s bundle resolution prepared other →
        Apart key other

variable {p s bundle resolution prepared}

theorem mergedKeys_eq :
    (mergePreparedCollections p s.collections (prepareImportedCollections p bundle)
        (prepareImportedDeletions p bundle prepared) resolution).records.keys =
      sortKeys p (joined p resolution (localKeys p s bundle resolution prepared)
        (importedKeys p s bundle resolution prepared)
        (prepareImportedDeletions p bundle prepared).keys) := rfl

theorem Functional.paths {keys : List KeyRecord} (h : Functional keys) :
    (keys.map (·.privateKeyPath)).Nodup := List.pairwise_map.mpr (h.apart.imp fun hab => hab.paths)

theorem Functional.apart_of_mem {keys : List KeyRecord} (h : Functional keys) {a b : KeyRecord}
    (ha : a ∈ keys) (hb : b ∈ keys) (hne : a.id ≠ b.id) : Apart a b :=
  h.apart.forall ha hb fun heq => hne (congrArg (·.id) heq)

/-- A merge of two functional assignments is one just when the sides are apart. -/
theorem merged_functional_iff (hlocal : Assigned (localKeys p s bundle resolution prepared))
    (himported : Assigned (importedKeys p s bundle resolution prepared)) :
    Functional (mergePreparedCollections p s.collections (prepareImportedCollections p bundle)
        (prepareImportedDeletions p bundle prepared) resolution).records.keys ↔
      SidesApart p s bundle resolution prepared := by
  have hperm := sortBy_perm (fun left right : KeyRecord =>
    p.localeCompare right.updatedAt left.updatedAt) (joined p resolution
      (localKeys p s bundle resolution prepared) (importedKeys p s bundle resolution prepared)
      (prepareImportedDeletions p bundle prepared).keys)
  rw [mergedKeys_eq]
  constructor
  · intro h key _ other _ hne hkey hother
    have hjoined := h.of_perm hperm.symm
    exact hjoined.apart_of_mem (mem_joined.mpr hkey) (mem_joined.mpr hother) hne
  · intro h
    refine Functional.of_perm ⟨?_, fun key hkey => ?_⟩ hperm
    · have hnodup : ((joined p resolution (localKeys p s bundle resolution prepared)
          (importedKeys p s bundle resolution prepared)
          (prepareImportedDeletions p bundle prepared).keys).map VaultRecord.id).Nodup := joined_nodup
      refine (List.pairwise_map.mp hnodup).imp_of_mem fun {key other} hkey hother hne => ?_
      have hkept := mem_joined.mp hkey
      have hotherKept := mem_joined.mp hother
      obtain hside | hside := (outcomeOf_record hkept).2
      · obtain hotherSide | hotherSide := (outcomeOf_record hotherKept).2
        · exact hlocal.apart_of_mem hside hotherSide hne
        · exact h key hside other hotherSide hne hkept hotherKept
      · obtain hotherSide | hotherSide := (outcomeOf_record hotherKept).2
        · exact (h other hotherSide key hside (Ne.symm hne) hotherKept hkept).symm
        · exact himported.apart_of_mem hside hotherSide hne
    · obtain hside | hside := (outcomeOf_record (mem_joined.mp hkey)).2
      · exact hlocal.once key hside
      · exact himported.once key hside

theorem merged_ids_nodup :
    ((mergePreparedCollections p s.collections (prepareImportedCollections p bundle)
      (prepareImportedDeletions p bundle prepared) resolution).records.keys.map (·.id)).Nodup :=
  ((sortBy_perm _ _).map _).nodup_iff.mpr joined_nodup

/-- The bundle was exported from a vault whose keys are assigned so. -/
def Exported (bundle : LocalConfigBundle) : Prop :=
  ∃ p other exportedAt snapshotId now, Assigned other.collections.keys ∧
    (bundle = buildLocalConfigBundle p other exportedAt snapshotId now ∨
      bundle = parsedBundle (buildLocalConfigBundle p other exportedAt snapshotId now))

theorem Exported.assigned {bundle : LocalConfigBundle} (h : Exported bundle) :
    Assigned bundle.keys := by
  obtain ⟨p, other, exportedAt, snapshotId, now, hassigned, rfl | rfl⟩ := h
  · exact hassigned
  · refine Assigned.map hassigned ?_ ?_ fun key => ?_
    · exact fun _ => rfl
    · exact fun _ => rfl
    · exact List.Sublist.refl _

theorem Exported.prepared_assigned {bundle : LocalConfigBundle} (h : Exported bundle) :
    Assigned (prepareImportedCollections p bundle).keys := (h.assigned.restrict _).sorted

end Imports

section Steps

/-- New keys get new ids, and bundles come from vaults whose keys are assigned so. -/
def Sourced (s : Stores) : VaultStep → Prop
  | .act _ a => Fresh s a
  | .importBundle input _ _ _ => Exported input.bundle

/-- A merge that is carried out has its sides apart. -/
def MergesApart (p : Platform) (s : Stores) : VaultStep → Prop
  | .act _ _ => True
  | .importBundle input options inspectedAt clock =>
    (applyImportedLocalConfigBundle p s.toLocalState input options inspectedAt clock).isOk = true →
      options.mode = .merge →
        SidesApart p s input.bundle (resolutionOf options.conflictResolution) clock.prepared

variable {p : Platform} {s : Stores}

theorem Assigned.act (h : Assigned s.collections.keys) {reading : Reading} {a : StoreAction}
    (hsourced : Sourced s (.act reading a)) :
    Assigned (vaultStep p s (.act reading a)).collections.keys := h.perform reading hsourced

/-- What an import stores of the keys. -/
theorem keys_import {input : ImportInput} {options : ApplyOptions} {inspectedAt : ℤ}
    {clock : ClockReadings} {after : LocalState}
    (h : applyImportedLocalConfigBundle p s.toLocalState input options inspectedAt clock = .ok after) :
    (vaultStep p s (.importBundle input options inspectedAt clock)).collections.keys =
      match options.mode with
      | .merge => (mergePreparedCollections p s.collections
          (prepareImportedCollections p input.bundle)
          (prepareImportedDeletions p input.bundle clock.prepared)
          (resolutionOf options.conflictResolution)).records.keys
      | .replace => (prepareImportedCollections p input.bundle).keys := by
  obtain ⟨imported, hbundle, himported⟩ := applyImported_eq_ok h
  have hcollections := (applyPreparedImport_eq_ok himported).1
  rw [hbundle] at hcollections
  simp only [vaultStep, h, hcollections]
  cases options.mode <;> rfl

theorem functional_step_iff (h : Assigned s.collections.keys) {st : VaultStep}
    (hsourced : Sourced s st) :
    Functional (vaultStep p s st).collections.keys ↔ MergesApart p s st := by
  cases st with
  | act reading a => exact iff_of_true (h.act hsourced).toFunctional trivial
  | importBundle input options inspectedAt clock =>
    cases happly : applyImportedLocalConfigBundle p s.toLocalState input options inspectedAt clock with
    | error e =>
      refine iff_of_true ?_ fun hok => ?_
      · simp only [vaultStep, happly]
        exact h.toFunctional
      · rw [happly] at hok
        cases hok
    | ok after =>
      rw [keys_import happly]
      have hprepared := hsourced.prepared_assigned (p := p)
      simp only [MergesApart, happly, Except.isOk, Except.toBool, forall_const]
      cases hmode : options.mode with
      | replace => exact iff_of_true hprepared.toFunctional (by simp)
      | merge =>
        simp only [forall_const]
        exact merged_functional_iff (h.restrict _).sorted (hprepared.restrict _).sorted

theorem ids_step (h : Assigned s.collections.keys) {st : VaultStep} (hsourced : Sourced s st) :
    ((vaultStep p s st).collections.keys.map (·.id)).Nodup := by
  cases st with
  | act reading a => exact (h.act hsourced).ids
  | importBundle input options inspectedAt clock =>
    cases happly : applyImportedLocalConfigBundle p s.toLocalState input options inspectedAt clock with
    | error e =>
      simp only [vaultStep, happly]
      exact h.ids
    | ok after =>
      rw [keys_import happly]
      cases options.mode with
      | replace => exact (hsourced.prepared_assigned (p := p)).ids
      | merge => exact merged_ids_nodup

/-- In a run of the stores each host has one key at most and no two records have one path, in
every state, just when every merge has its sides apart. -/
theorem keys_functional_run_iff (p : Platform) {start : Stores} {steps : List VaultStep}
    (hstart : Assigned start.collections.keys)
    (hsourced : Allowed (vaultStep p) Sourced start steps) :
    (∀ first, first <+: steps →
        Functional (run (vaultStep p) start first).collections.keys) ↔
      Allowed (vaultStep p) (MergesApart p) start steps :=
  forall_run_iff_allowed (I := fun s : Stores => Assigned s.collections.keys)
    (P := fun s => Functional s.collections.keys)
    (fun _ hs => hs.toFunctional)
    (fun _ _ hs hsource => functional_step_iff hs hsource)
    (fun _ _ hs hsource hapart =>
      ⟨(functional_step_iff hs hsource).mpr hapart, ids_step hs hsource⟩) hstart hsourced

theorem assigned_sampleStores (vaultId deviceId : JsString) :
    Assigned (sampleStores p vaultId deviceId).collections.keys := by
  refine Assigned.sorted ⟨⟨List.pairwise_pair.mpr ⟨fun id hprod hdeploy => ?_, by decide⟩,
    JsText.forall_mem_of_all (by decide +kernel)⟩, by decide +kernel⟩
  have hne : js "prod-gateway" ≠ js "billing-api" := by decide
  exact hne ((List.mem_singleton.mp hprod).symm.trans (List.mem_singleton.mp hdeploy))

/-- The texts stay in the order in which they arrive. -/
def arrivalOrder : Platform := ⟨fun _ _ => .eq, fun _ => none⟩

def workKey (id : JsString) : List VaultStep :=
  [.act ⟨js "2026-04-01T00:00:00.000Z", 0⟩ (.importKey (js "work")
      ⟨.ed25519, 256, js "SHA256:work", js "", js "~/.ssh/id_work", .absent⟩ false id),
    .act ⟨js "2026-04-01T00:00:01.000Z", 1⟩ (.assignHost id (js "prod-gateway"))]

/-- What a device exports after it has imported the key. -/
def workExport (id : JsString) : LocalConfigBundle :=
  buildLocalConfigBundle arrivalOrder (run (vaultStep arrivalOrder)
    (sampleStores arrivalOrder (js "v") (js "d")) (workKey id)).toLocalState
    (js "2026-04-01T00:00:02.000Z") (js "s") 2

/-- Two devices import one file, and a merge keeps both records. -/
def mergedWork : List VaultStep :=
  workKey (js "key-a") ++
    [.importBundle (.raw (workExport (js "key-b"))) ⟨.merge, some .keepLocal⟩ 3 ⟨3, 3⟩]

theorem workKey_sourced {id : JsString} {s : Stores}
    (hfresh : id ∉ s.collections.keys.map (·.id)) :
    Allowed (vaultStep p) Sourced s (workKey id) := by
  refine ⟨?_, trivial, trivial⟩
  show id ∉ s.collections.ids .keys
  rwa [ids_eq]

theorem exported_work : Exported (workExport (js "key-b")) := by
  have hfresh : js "key-b" ∉
      (sampleStores arrivalOrder (js "v") (js "d")).collections.keys.map (·.id) := by
    decide +kernel
  obtain ⟨himport, hassign, -⟩ := workKey_sourced (p := arrivalOrder) hfresh
  have hassigned : Assigned (run (vaultStep arrivalOrder)
      (sampleStores arrivalOrder (js "v") (js "d")) (workKey (js "key-b"))).collections.keys :=
    ((assigned_sampleStores _ _).act himport).act hassign
  exact ⟨arrivalOrder, _, _, _, _, hassigned, .inl rfl⟩

/-- Before the merge each host has one key. -/
theorem work_functional :
    Functional (run (vaultStep arrivalOrder) (sampleStores arrivalOrder (js "v") (js "d"))
      (workKey (js "key-a"))).collections.keys :=
  (keys_functional_run_iff arrivalOrder (assigned_sampleStores _ _)
    (workKey_sourced (by decide +kernel))).mpr ⟨trivial, trivial, trivial⟩ _ (List.prefix_refl _)

/-- A merge whose conflicts are decided beforehand is carried out. -/
theorem resolved_isOk {state : LocalState} {bundle : LocalConfigBundle} {chosen : ChosenResolution}
    {inspectedAt : ℤ} {clock : ClockReadings} {imported : PreparedImport}
    (hparse : parseImportedLocalConfigBundle p state bundle inspectedAt = .ok imported)
    (hmergeable : imported.analysis.strategy.mergeable = true) :
    (applyImportedLocalConfigBundle p state (.raw bundle) ⟨.merge, some chosen⟩ inspectedAt
      clock).isOk = true := by
  simp only [applyImportedLocalConfigBundle, hparse, applyPreparedImport, hmergeable,
    Bool.true_eq_false, and_false, if_false, reduceCtorEq]
  rfl

theorem mergedWork_sourced : Allowed (vaultStep arrivalOrder) Sourced
    (sampleStores arrivalOrder (js "v") (js "d")) mergedWork := by
  obtain ⟨himport, hassign, -⟩ := workKey_sourced (p := arrivalOrder)
    (show js "key-a" ∉ (sampleStores arrivalOrder (js "v") (js "d")).collections.keys.map (·.id) by
      decide +kernel)
  exact ⟨himport, hassign, exported_work, trivial⟩

/-- The sides of the merge have one path under two ids. -/
theorem work_not_apart :
    ¬ SidesApart arrivalOrder (run (vaultStep arrivalOrder)
      (sampleStores arrivalOrder (js "v") (js "d")) (workKey (js "key-a")))
      (workExport (js "key-b")) .keepLocal 3 := by
  generalize hmine : run (vaultStep arrivalOrder) (sampleStores arrivalOrder (js "v") (js "d"))
    (workKey (js "key-a")) = mine
  have hkept : ∀ id ∈ [js "key-a", js "key-b"],
      ((outcomeOf arrivalOrder .keepLocal
        (localKeys arrivalOrder mine (workExport (js "key-b")) .keepLocal 3)
        (importedKeys arrivalOrder mine (workExport (js "key-b")) .keepLocal 3)
        (prepareImportedDeletions arrivalOrder (workExport (js "key-b")) 3).keys id).record.map
          fun key => key.privateKeyPath) = some (js "~/.ssh/id_work") := by
    rw [← hmine]
    decide +kernel
  have hsides : js "key-a" ∉ (importedKeys arrivalOrder mine (workExport (js "key-b")) .keepLocal
        3).map VaultRecord.id ∧
      js "key-b" ∉ (localKeys arrivalOrder mine (workExport (js "key-b")) .keepLocal 3).map
        VaultRecord.id := by
    rw [← hmine]
    decide +kernel
  intro hapart
  obtain ⟨key, hkey, hpath⟩ := Option.map_eq_some_iff.mp (hkept (js "key-a") (by decide))
  obtain ⟨other, hother, hotherPath⟩ := Option.map_eq_some_iff.mp (hkept (js "key-b") (by decide))
  obtain ⟨hid, hside⟩ := outcomeOf_record hkey
  obtain ⟨hotherId, hotherSide⟩ := outcomeOf_record hother
  have hmem := hside.resolve_right fun hin => hsides.1 (hid ▸ List.mem_map_of_mem hin)
  have hotherMem := hotherSide.resolve_left fun hin =>
    hsides.2 (hotherId ▸ List.mem_map_of_mem hin)
  have hne : key.id ≠ other.id := by
    rw [show key.id = js "key-a" from hid, show other.id = js "key-b" from hotherId]
    decide
  refine (hapart key hmem other hotherMem hne ?_ ?_).paths (hpath.trans hotherPath.symm)
  · rwa [KeptKey, show key.id = js "key-a" from hid]
  · rwa [KeptKey, show other.id = js "key-b" from hotherId]

/-- Behind it there are two records of one file, with one host. -/
theorem merged_work_shared :
    ¬ ∀ (p : Platform) (vaultId deviceId : JsString) (steps : List VaultStep),
      Allowed (vaultStep p) Sourced (sampleStores p vaultId deviceId) steps →
        ∀ first, first <+: steps →
          Functional (run (vaultStep p) (sampleStores p vaultId deviceId) first).collections.keys := by
  intro h
  obtain ⟨himport, hassign, hmerge, -⟩ := mergedWork_sourced
  have hassigned : Assigned (run (vaultStep arrivalOrder)
      (sampleStores arrivalOrder (js "v") (js "d")) (workKey (js "key-a"))).collections.keys :=
    ((assigned_sampleStores _ _).act himport).act hassign
  have hfunctional := h arrivalOrder (js "v") (js "d") mergedWork mergedWork_sourced mergedWork
    (List.prefix_refl _)
  rw [mergedWork, run_append, run_cons, run_nil] at hfunctional
  have hapart := (functional_step_iff hassigned hmerge).mp hfunctional
  refine work_not_apart (hapart (resolved_isOk (if_neg ?_) ?_) rfl)
  · decide +kernel
  · decide +kernel

end Steps

end VaultStores
