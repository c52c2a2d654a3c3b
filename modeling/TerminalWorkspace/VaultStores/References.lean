import TerminalWorkspace.VaultStores.Reimport

/-! The references among the records after an import. The hosts of a merge are decided one by one,
so a host of this side may be kept while what it refers to is removed. -/
namespace VaultStores
open JsText Inventory LocalConfig
open ParsedRecord (parsed)

/-- Every reference is to a record of the same collections. -/
structure Intact (c : Collections) : Prop extends OwnReferences c where
  jumpHosts : ∀ host ∈ c.hosts, ∀ id, host.jumpHostId.truthy = some id → id ∈ c.ids .hosts
  identities : ∀ host ∈ c.hosts, ∀ id, host.identityId.truthy = some id → id ∈ c.ids .identities

/-- Between two times, the imported side is preferred. -/
def Prevails (resolution : ConflictResolution) (own imported : JsString) : Prop :=
  before own imported ∨ ¬ before imported own ∧ resolution = .preferImported

section Sorting
variable {α β : Type} {p : Platform}

theorem mem_map_sortBy {compare : α → α → Ordering} {records : List α} {f : α → β} {b : β} :
    b ∈ (sortBy compare records).map f ↔ b ∈ records.map f := by
  simp only [List.mem_map, mem_sortBy]

theorem mem_map_sortHosts {hosts : List HostRecord} {id : JsString} :
    id ∈ (sortHostCollection p hosts).map VaultRecord.id ↔ id ∈ hosts.map VaultRecord.id := by
  rw [sortHostCollection, mem_map_sortBy, List.map_map]
  rfl

end Sorting

section Fate
variable {α : Type} [VaultRecord α] (p : Platform) (resolution : ConflictResolution)
  (own imported : List α) (deletions : List VaultDeletionEntry)

/-- An imported tombstone prevails over the record with the id, of which there is no import. -/
def Dropped (id : JsString) : Prop :=
  (byId imported).get? id = none ∧ ∃ r deletion, (byId own).get? id = some r ∧
    (OrderedMap.ofList (deletions.map fun entry => (entry.id, entry))).get? id = some deletion ∧
    Prevails resolution (VaultRecord.updatedAt r) deletion.deletedAt

/-- Another version of the record is imported and prevails. -/
def Superseded (r : α) : Prop :=
  ∃ i, (byId imported).get? (VaultRecord.id r) = some i ∧
    stableSerialize p (VaultRecord.toJson r) ≠ stableSerialize p (VaultRecord.toJson i) ∧
    Prevails resolution (VaultRecord.updatedAt r) (VaultRecord.updatedAt i)

/-- A record that no tombstone and no other version prevails over. -/
def Stays (r : α) : Prop :=
  (byId own).get? (VaultRecord.id r) = some r ∧
    ¬ Dropped resolution own imported deletions (VaultRecord.id r) ∧
    ¬ Superseded p resolution imported r

variable {p resolution own imported deletions}

/-- A record that stays is the outcome of its id. -/
theorem Stays.record {r : α} (h : Stays p resolution own imported deletions r) :
    (outcomeOf p resolution own imported deletions (VaultRecord.id r)).record = some r := by
  obtain ⟨hown, hdropped, hsuperseded⟩ := h
  unfold outcomeOf
  rw [hown]
  cases himported : (byId imported).get? (VaultRecord.id r) with
  | none =>
    cases hdeletion : (OrderedMap.ofList (deletions.map fun entry => (entry.id, entry))).get?
      (VaultRecord.id r) with
    | none => rfl
    | some deletion =>
      have hnot : ¬ Prevails resolution (VaultRecord.updatedAt r) deletion.deletedAt :=
        fun hprevails => hdropped ⟨himported, r, deletion, hown, hdeletion, hprevails⟩
      simp only [Prevails, not_or, not_and] at hnot
      simp only [mergeOne, if_neg hnot.1]
      split_ifs with hlater hprefer
      · rfl
      · exact absurd hprefer (hnot.2 hlater)
      · rfl
  | some i =>
    rw [mergeOne_both]
    split_ifs with hsame hearlier hlater hprefer
    · rfl
    · exact absurd ⟨i, himported, hsame, .inl hearlier⟩ hsuperseded
    · rfl
    · exact absurd ⟨i, himported, hsame, .inr ⟨hlater, hprefer⟩⟩ hsuperseded
    · rfl

/-- What a merge keeps of an id is a record that stays, or the imported one. -/
theorem stays_or_imported {id : JsString} {r : α}
    (h : (outcomeOf p resolution own imported deletions id).record = some r) :
    Stays p resolution own imported deletions r ∨ (byId imported).get? id = some r := by
  obtain ⟨rfl, -⟩ := outcomeOf_record h
  unfold outcomeOf at h
  cases himported : (byId imported).get? (VaultRecord.id r) with
  | none =>
    left
    rw [himported] at h
    cases hown : (byId own).get? (VaultRecord.id r) with
    | none =>
      rw [hown] at h
      cases h
    | some l =>
      rw [hown] at h
      have hl : l = r := by
        rcases mergeOne_record_mem h with hsome | hnone
        · exact Option.some.inj hsome
        · cases hnone
      subst hl
      refine ⟨hown, ?_, ?_⟩
      · rintro ⟨-, l', deletion, hl', hdeletion, hprevails⟩
        obtain rfl := Option.some.inj (hown.symm.trans hl')
        rw [hdeletion] at h
        simp only [mergeOne] at h
        rcases hprevails with hearlier | ⟨hlater, hprefer⟩
        · rw [if_pos hearlier] at h
          cases h
        · split_ifs at h <;> cases h
      · rintro ⟨i, hi, -⟩
        rw [himported] at hi
        cases hi
  | some i =>
    rw [himported] at h
    cases hown : (byId own).get? (VaultRecord.id r) with
    | none =>
      rw [hown] at h
      exact .inr h
    | some l =>
      rw [hown, mergeOne_both] at h
      have hstays (hl : l = r)
          (hnot : stableSerialize p (VaultRecord.toJson r) ≠
              stableSerialize p (VaultRecord.toJson i) →
            ¬ Prevails resolution (VaultRecord.updatedAt r) (VaultRecord.updatedAt i)) :
          Stays p resolution own imported deletions r := by
        subst hl
        refine ⟨hown, ?_, ?_⟩
        · rintro ⟨hnone, -⟩
          rw [himported] at hnone
          cases hnone
        · rintro ⟨i', hi', hother, hprevails⟩
          obtain rfl := Option.some.inj (himported.symm.trans hi')
          exact hnot hother hprevails
      split_ifs at h with hsame hearlier hlater hprefer
      · obtain rfl := Option.some.inj h
        exact .inl (hstays rfl fun hother => absurd hsame hother)
      · exact .inr h
      · obtain rfl := Option.some.inj h
        refine .inl (hstays rfl fun _ hprevails => ?_)
        rcases hprevails with hnow | ⟨hnot, -⟩
        · exact hearlier hnow
        · exact hnot hlater
      · exact .inr h
      · obtain rfl := Option.some.inj h
        refine .inl (hstays rfl fun _ hprevails => ?_)
        rcases hprevails with hnow | ⟨-, hnow⟩
        · exact hearlier hnow
        · exact hprefer hnow

theorem Stays.mem {r : α} (h : Stays p resolution own imported deletions r) : r ∈ own :=
  (byId_get?_mem h.1).1

theorem not_dropped_of_imported {id : JsString} (h : id ∈ imported.map VaultRecord.id) :
    ¬ Dropped resolution own imported deletions id := by
  rintro ⟨hnone, -⟩
  have hsome := byId_get?_isSome_iff.mpr h
  rw [hnone] at hsome
  cases hsome

/-- After a merge the ids of both sides are there, but for those dropped. -/
theorem outcomeOf_isSome_iff {id : JsString} :
    (outcomeOf p resolution own imported deletions id).record.isSome ↔
      (id ∈ own.map VaultRecord.id ∨ id ∈ imported.map VaultRecord.id) ∧
        ¬ Dropped resolution own imported deletions id := by
  constructor
  · intro h
    obtain ⟨r, hr⟩ := Option.isSome_iff_exists.mp h
    obtain ⟨rfl, -⟩ := outcomeOf_record hr
    rcases stays_or_imported hr with hstays | himported
    · exact ⟨.inl (List.mem_map_of_mem hstays.mem), hstays.2.1⟩
    · have hmem := List.mem_map_of_mem (f := VaultRecord.id) (byId_get?_mem himported).1
      exact ⟨.inr hmem, not_dropped_of_imported hmem⟩
  · rintro ⟨hmem, hnot⟩
    by_cases himported : id ∈ imported.map VaultRecord.id
    · exact outcomeOf_imported himported
    · have hown := byId_get?_isSome_iff.mpr (hmem.resolve_right himported)
      obtain ⟨r, hr⟩ := Option.isSome_iff_exists.mp hown
      obtain ⟨-, rfl⟩ := byId_get?_mem hr
      have hstays : Stays p resolution own imported deletions r := by
        refine ⟨hr, hnot, ?_⟩
        rintro ⟨i, hi, -⟩
        exact himported (byId_get?_isSome_iff.mp (Option.isSome_of_eq_some hi))
      rw [hstays.record]
      rfl

/-- The ids of a merged collection, whose sort keeps the ids. -/
theorem mem_merge_ids {sort : List α → List α} {id : JsString}
    (hsort : ∀ l id, id ∈ (sort l).map VaultRecord.id ↔ id ∈ l.map VaultRecord.id) :
    id ∈ (mergeCollection p own imported sort deletions resolution).records.map VaultRecord.id ↔
      (id ∈ own.map VaultRecord.id ∨ id ∈ imported.map VaultRecord.id) ∧
        ¬ Dropped resolution own imported deletions id := by
  refine Iff.trans ?_ (outcomeOf_isSome_iff (p := p))
  rw [mergeCollection_records, hsort, joined_ids, List.mem_filter]
  refine and_iff_right_of_imp fun h => mem_allIds.mpr (outcomeOf_isSome_iff.mp h).1

end Fate

section Merged
variable (p : Platform) (resolution : ConflictResolution) (own imported : Collections)
  (deletions : VaultDeletionMap)

/-- No host that stays refers to a host or an identity that is dropped. -/
structure KeepsReferred : Prop where
  jumpHosts : ∀ host, Stays p resolution own.hosts imported.hosts deletions.hosts host →
    ∀ id, (normalizeHostRecord host).jumpHostId.truthy = some id →
      ¬ Dropped resolution own.hosts imported.hosts deletions.hosts id
  identities : ∀ host, Stays p resolution own.hosts imported.hosts deletions.hosts host →
    ∀ id, host.identityId.truthy = some id →
      ¬ Dropped resolution own.identities imported.identities deletions.identities id

variable {p resolution own imported deletions}

theorem normalizeHostRecord_jumpHost {host : HostRecord} {id : JsString}
    (h : (normalizeHostRecord host).jumpHostId.truthy = some id) :
    host.jumpHostId.truthy = some id := by
  simp only [normalizeHostRecord] at h
  split_ifs at h with hsupports
  · cases hjump : host.jumpHostId.truthy with
    | none =>
      rw [hjump] at h
      cases h
    | some jumpHostId =>
      rw [hjump] at h
      have hsame : truthy jumpHostId = some id := h
      unfold truthy at hsame
      split_ifs at hsame
      exact hsame
  · cases h

theorem mem_mergedHosts {host : HostRecord} :
    host ∈ (mergePreparedCollections p own imported deletions resolution).records.hosts ↔
      ∃ r, (outcomeOf p resolution own.hosts imported.hosts deletions.hosts
        (VaultRecord.id r)).record = some r ∧ normalizeHostRecord r = host := by
  show host ∈ sortHostCollection p (joined p resolution own.hosts imported.hosts deletions.hosts) ↔ _
  rw [sortHostCollection, mem_sortBy, List.mem_map]
  exact exists_congr fun r => and_congr_left fun _ => mem_joined

theorem mem_mergedHostIds {id : JsString} :
    id ∈ (mergePreparedCollections p own imported deletions resolution).records.ids .hosts ↔
      (id ∈ own.ids .hosts ∨ id ∈ imported.ids .hosts) ∧
        ¬ Dropped resolution own.hosts imported.hosts deletions.hosts id := by
  rw [ids_eq, ids_eq own, ids_eq imported]
  exact mem_merge_ids (fun _ _ => mem_map_sortHosts)

theorem mem_mergedIdentityIds {id : JsString} :
    id ∈ (mergePreparedCollections p own imported deletions resolution).records.ids .identities ↔
      (id ∈ own.ids .identities ∨ id ∈ imported.ids .identities) ∧
        ¬ Dropped resolution own.identities imported.identities deletions.identities id := by
  rw [ids_eq, ids_eq own, ids_eq imported]
  exact mem_merge_ids (fun _ _ => mem_map_sortBy)

/-- A merge of intact collections is intact if nothing is dropped that is referred to by a host
that stays. -/
theorem merged_intact_iff (hown : Intact own) (himported : Intact imported) :
    Intact (mergePreparedCollections p own imported deletions resolution).records ↔
      KeepsReferred p resolution own imported deletions := by
  have hkept (host : HostRecord)
      (h : Stays p resolution own.hosts imported.hosts deletions.hosts host) :
      normalizeHostRecord host ∈
        (mergePreparedCollections p own imported deletions resolution).records.hosts :=
    mem_mergedHosts.mpr ⟨host, h.record, rfl⟩
  constructor
  · intro h
    constructor
    · intro host hhost id hjump
      exact (mem_mergedHostIds.mp (h.jumpHosts _ (hkept host hhost) id hjump)).2
    · intro host hhost id hidentity
      exact (mem_mergedIdentityIds.mp (h.identities _ (hkept host hhost) id hidentity)).2
  · intro h
    refine ⟨merged_references, fun host hhost id hjump => ?_, fun host hhost id hidentity => ?_⟩
    · obtain ⟨r, hr, rfl⟩ := mem_mergedHosts.mp hhost
      have hsame := normalizeHostRecord_jumpHost hjump
      apply mem_mergedHostIds.mpr
      rcases stays_or_imported hr with hstays | hforeign
      · exact ⟨.inl (hown.jumpHosts r hstays.mem id hsame), h.jumpHosts r hstays id hjump⟩
      · have hmem := himported.jumpHosts r (byId_get?_mem hforeign).1 id hsame
        exact ⟨.inr hmem, not_dropped_of_imported (by rwa [ids_eq] at hmem)⟩
    · obtain ⟨r, hr, rfl⟩ := mem_mergedHosts.mp hhost
      apply mem_mergedIdentityIds.mpr
      rcases stays_or_imported hr with hstays | hforeign
      · exact ⟨.inl (hown.identities r hstays.mem id hidentity), h.identities r hstays id hidentity⟩
      · have hmem := himported.identities r (byId_get?_mem hforeign).1 id hidentity
        exact ⟨.inr hmem, not_dropped_of_imported (by rwa [ids_eq] at hmem)⟩

end Merged

section Imports
variable {p : Platform} {state exporter after : LocalState} {e : ExportReading}
  {input : ImportInput} {options : ApplyOptions} {inspectedAt : ℤ} {clock : ClockReadings}

theorem intact_prepared {bundle : LocalConfigBundle} (h : Intact bundle.collections) :
    Intact (prepareImportedCollections p bundle) := by
  have hhosts : (prepareImportedCollections p bundle).ids .hosts =
      (sortHostCollection p bundle.hosts).map fun host => host.id := by
    rw [ids_eq]
    rfl
  have hold {host : HostRecord} (hhost : host ∈ (prepareImportedCollections p bundle).hosts) :
      ∃ r ∈ bundle.collections.hosts, normalizeHostRecord r = host :=
    List.mem_map.mp (mem_sortBy.mp hhost)
  constructor
  case toOwnReferences =>
    constructor
    · intro key hkey
      rw [hhosts]
      exact restrictKeys_known _ key (mem_sortBy.mp hkey)
    · intro snippet hsnippet
      rw [hhosts]
      exact restrictSnippets_known _ snippet (mem_sortBy.mp hsnippet)
  case jumpHosts =>
    intro host hhost id hjump
    obtain ⟨r, hr, rfl⟩ := hold hhost
    exact mem_ids_prepared (h.jumpHosts r hr id (normalizeHostRecord_jumpHost hjump))
  case identities =>
    intro host hhost id hidentity
    obtain ⟨r, hr, rfl⟩ := hold hhost
    exact mem_ids_prepared (h.identities r hr id hidentity)

theorem reparseOptional_truthy (value : Optional JsString) :
    (reparseOptional value).truthy = value.truthy := by
  cases value <;> rfl

theorem ids_ownExport (kind : VaultSyncEntityKind) :
    (ownExport p exporter e).collections.ids kind = exporter.collections.ids kind := by
  rw [ids_eq, ids_eq exporter.collections]
  cases kind <;> exact List.map_map

/-- Writing the export to a file and reading it again keeps the references. -/
theorem intact_exported (h : Intact exporter.collections) :
    Intact (ownExport p exporter e).collections := by
  constructor
  case toOwnReferences =>
    constructor
    · intro key hkey
      obtain ⟨r, hr, rfl⟩ := List.mem_map.mp hkey
      rw [ids_ownExport]
      exact h.keys r hr
    · intro snippet hsnippet
      obtain ⟨r, hr, rfl⟩ := List.mem_map.mp hsnippet
      rw [ids_ownExport]
      exact h.snippets r hr
  case jumpHosts =>
    intro host hhost id hjump
    obtain ⟨r, hr, rfl⟩ := List.mem_map.mp hhost
    rw [ids_ownExport]
    exact h.jumpHosts r hr id ((reparseOptional_truthy r.jumpHostId).symm.trans hjump)
  case identities =>
    intro host hhost id hidentity
    obtain ⟨r, hr, rfl⟩ := List.mem_map.mp hhost
    rw [ids_ownExport]
    exact h.identities r hr id ((reparseOptional_truthy r.identityId).symm.trans hidentity)

/-- The collections that a successful import stores. -/
theorem apply_collections
    (h : applyImportedLocalConfigBundle p state input options inspectedAt clock = .ok after) :
    after.collections = match options.mode with
      | .replace => prepareImportedCollections p input.bundle
      | .merge => (mergedCollections p state input.bundle options.conflictResolution
        clock.prepared).records := by
  obtain ⟨imported, hbundle, himported⟩ := applyImported_eq_ok h
  rw [(applyPreparedImport_eq_ok himported).1, hbundle]
  cases options.mode <;> rfl

/-- An import of an intact export into an intact state leaves the references intact exactly if it
replaces the state, or drops nothing that a host that stays refers to. -/
theorem imported_intact_iff (hexporter : Intact exporter.collections)
    (hstate : Intact state.collections) (hinput : input.bundle = ownExport p exporter e)
    (h : applyImportedLocalConfigBundle p state input options inspectedAt clock = .ok after) :
    Intact after.collections ↔ options.mode = .replace ∨
      KeepsReferred p (resolutionOf options.conflictResolution) state.collections
        (prepareImportedCollections p input.bundle)
        (prepareImportedDeletions p input.bundle clock.prepared) := by
  have himported : Intact (prepareImportedCollections p input.bundle) := by
    rw [hinput]
    exact intact_prepared (intact_exported hexporter)
  rw [apply_collections h]
  cases hmode : options.mode with
  | replace => exact iff_of_true himported (.inl rfl)
  | merge =>
    rw [or_iff_right (by simp)]
    exact merged_intact_iff hstate himported

/-- A gateway, and a host behind it. -/
def gatewayState : LocalState where
  collections :=
    { hosts :=
        [{ billingApi with jumpHostId := .value (js "prod-gateway"), identityId := .absent },
          { prodGateway with
            identityId := .absent
            updatedAt := js "1969-12-31T00:00:00.000Z" }]
      keys := []
      snippets := []
      knownHosts := []
      identities := [] }
  deletions := emptyDeletionMap
  vaultId := js "v"
  deviceId := js "d"
  lastAppliedSnapshotId := none
  activeHostId := none

/-- The same vault on another device, where the gateway has been deleted. -/
def withoutGateway : LocalState where
  collections := ⟨[], [], [], [], []⟩
  deletions :=
    { emptyDeletionMap with hosts := [⟨js "prod-gateway", js "1970-01-01T00:00:00.000Z"⟩] }
  vaultId := js "v"
  deviceId := js "e"
  lastAppliedSnapshotId := none
  activeHostId := none

def gatewayImport : PreparedImport where
  bundle := ownExport datesPlatform withoutGateway ⟨js "1970-01-01T00:00:00.000Z", js "s", 0⟩
  analysis := ⟨.divergent, none⟩

theorem gatewayState_intact : Intact gatewayState.collections where
  keys := nofun
  snippets := nofun
  jumpHosts := by
    intro host hhost id hjump
    have hid : id = js "prod-gateway" := by
      rcases List.mem_cons.mp hhost with rfl | hhost
      · exact (Option.some.inj hjump).symm
      · obtain rfl := List.mem_singleton.mp hhost
        cases hjump
    rw [hid]
    decide
  identities := by
    intro host hhost id hidentity
    rcases List.mem_cons.mp hhost with rfl | hhost
    · cases hidentity
    · obtain rfl := List.mem_singleton.mp hhost
      cases hidentity

theorem withoutGateway_intact : Intact withoutGateway.collections where
  keys := nofun
  snippets := nofun
  jumpHosts := fun _ hhost => absurd hhost List.not_mem_nil
  identities := fun _ hhost => absurd hhost List.not_mem_nil

theorem imported_intact_gateway :
    ∃ after, applyImportedLocalConfigBundle datesPlatform gatewayState (.inspected gatewayImport)
        ⟨.merge, some .keepLocal⟩ 0 ⟨0, 0⟩ = .ok after ∧
      (Intact after.collections ↔ ImportMode.merge = .replace ∨
        KeepsReferred datesPlatform (resolutionOf (some .keepLocal)) gatewayState.collections
          (prepareImportedCollections datesPlatform gatewayImport.bundle)
          (prepareImportedDeletions datesPlatform gatewayImport.bundle 0)) := by
  obtain ⟨after, h⟩ := @apply_resolved datesPlatform gatewayState ⟨.merge, some .keepLocal⟩ 0
    ⟨0, 0⟩ gatewayImport rfl rfl (by decide)
  exact ⟨after, h, imported_intact_iff withoutGateway_intact gatewayState_intact rfl h⟩

/-- The deletion of the gateway is imported, and the host behind it stays. -/
theorem not_every_import_intact :
    ¬ ∀ (p : Platform) (state exporter after : LocalState) (e : ExportReading)
      (input : ImportInput) (options : ApplyOptions) (inspectedAt : ℤ) (clock : ClockReadings),
      Intact exporter.collections → Intact state.collections →
      input.bundle = ownExport p exporter e →
      applyImportedLocalConfigBundle p state input options inspectedAt clock = .ok after →
      Intact after.collections := by
  intro hall
  obtain ⟨after, h⟩ := @apply_resolved datesPlatform gatewayState ⟨.merge, some .keepLocal⟩ 0
    ⟨0, 0⟩ gatewayImport rfl rfl (by decide)
  have hintact := hall _ _ _ _ _ _ _ _ _ withoutGateway_intact gatewayState_intact rfl h
  have hmerged : after.collections = (mergedCollections datesPlatform gatewayState
      gatewayImport.bundle (some .keepLocal) 0).records := apply_collections h
  have hhosts : after.collections.hosts =
      [{ billingApi with jumpHostId := .value (js "prod-gateway"), identityId := .absent }] := by
    rw [hmerged]
    decide +kernel
  have hlive := hintact.jumpHosts _ (hhosts ▸ List.mem_singleton_self _) (js "prod-gateway") rfl
  rw [ids_eq] at hlive
  change js "prod-gateway" ∈ after.collections.hosts.map VaultRecord.id at hlive
  rw [hhosts] at hlive
  exact absurd hlive (by decide)

end Imports
end VaultStores
