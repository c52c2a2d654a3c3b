import TerminalWorkspace.Foundation.Runs
import TerminalWorkspace.LocalConfig.Preview
import TerminalWorkspace.VaultStores.Advances

/-! The last writer wins. As long as no action changes a record and leaves its time as it was, a
device that holds an earlier state takes over every record that was changed since, and finds
none of them in conflict. -/
namespace VaultStores
open JsText Inventory LocalConfig
open ParsedRecord (parsed)

section Versions
variable {α : Type} [VaultRecord α] [ParsedRecord α]

/-- The old collection has no such version of the record. -/
def Changed (old : List α) (r : α) : Prop :=
  ∀ l ∈ old, VaultRecord.id l = VaultRecord.id r → parsed l ≠ parsed r

variable {p : Platform} {resolution : ConflictResolution} {deletions : List VaultDeletionEntry}

/-- An imported record that is later than the local one is taken. -/
theorem outcomeOf_later (form : ImportedForm α p) {L I : List α} {id : JsString} {i : α}
    (himported : (byId I).get? id = some i)
    (hlater : ∀ l ∈ (byId L).get? id,
      before (VaultRecord.updatedAt l) (VaultRecord.updatedAt i) = true) :
    outcomeOf p resolution L I deletions id = .added i ∨
      outcomeOf p resolution L I deletions id = .updated i := by
  rw [outcomeOf, himported]
  cases hlocal : (byId L).get? id with
  | none => exact .inl rfl
  | some l =>
    have hbefore := hlater l hlocal
    have hserial : stableSerialize p (VaultRecord.toJson l) ≠
        stableSerialize p (VaultRecord.toJson i) := by
      intro hserial
      rw [form.updatedAt_of_serialize _ _ hserial, not_before_self] at hbefore
      cases hbefore
    right
    rw [mergeOne_both, if_neg hserial, if_pos hbefore]

/-- A function of records that keeps what identifies a version. -/
def KeepsVersion (f : α → α) : Prop :=
  ∀ r, VaultRecord.id (f r) = VaultRecord.id r ∧
    VaultRecord.updatedAt (f r) = VaultRecord.updatedAt r

/-- A merge of the old records with the new ones, each side in whatever order. -/
def MergesInto (form : ImportedForm α p) (own imported : α → α) (old new : List α)
    (merged : MergeResult α) : Prop :=
  ∃ (L I : List α) (deletions : List VaultDeletionEntry) (resolution : ConflictResolution),
    L.Perm (old.map own) ∧ I.Perm (new.map imported) ∧
      merged = mergeCollection p L I form.sort deletions resolution

/-- A merge takes over a record that was changed, and does not list it as a conflict. -/
theorem MergesInto.takes {form : ImportedForm α p} {own imported : α → α} {old new : List α}
    {merged : MergeResult α} (h : MergesInto form own imported old new merged)
    (hown : KeepsVersion own) (himported : KeepsVersion imported)
    (hdistinct : (new.map VaultRecord.id).Nodup) (hadvances : Advances old new) {r : α}
    (hr : r ∈ new) (hchanged : Changed old r) :
    form.normalize (imported r) ∈ merged.records ∧
      VaultRecord.id r ∉ merged.counts.conflictingIds := by
  obtain ⟨L, I, deletions, resolution, hL, hI, rfl⟩ := h
  have hids : ((new.map imported).map VaultRecord.id).Nodup := by
    rw [List.map_map]
    exact (List.map_congr_left fun r _ => (himported r).1).symm ▸ hdistinct
  have hfound : (byId I).get? (VaultRecord.id r) = some (imported r) := by
    rw [byId_perm hI hids, ← (himported r).1]
    exact byId_get?_of_nodup hids (List.mem_map_of_mem hr)
  have hlater : ∀ l ∈ (byId L).get? (VaultRecord.id r),
      before (VaultRecord.updatedAt l) (VaultRecord.updatedAt (imported r)) = true := by
    intro l hl
    obtain ⟨hmem, hid⟩ := byId_get?_mem hl
    obtain ⟨l', hl', rfl⟩ := List.mem_map.mp (hL.subset hmem)
    rw [(hown l').1] at hid
    rw [(hown l').2, (himported r).2]
    exact (hadvances l' hl' r hr hid).resolve_left (hchanged l' hl' hid)
  have houtcome : outcomeOf p resolution L I deletions (VaultRecord.id r) = .added (imported r) ∨
      outcomeOf p resolution L I deletions (VaultRecord.id r) = .updated (imported r) :=
    outcomeOf_later form hfound hlater
  constructor
  · have hrecord : (outcomeOf p resolution L I deletions (VaultRecord.id (imported r))).record =
        some (imported r) := by
      rw [(himported r).1]
      rcases houtcome with h | h <;> rw [h] <;> rfl
    exact mem_sortBy.mpr (List.mem_map_of_mem (mem_joined.mpr hrecord))
  · intro hconflict
    have hlisted := mem_conflictingIds hconflict
    rcases houtcome with h | h <;> rw [h] at hlisted <;> cases hlisted

/-- Records that are only sorted. -/
theorem mergesInto_sorted (form : ImportedForm α p) {compare : α → α → Ordering}
    (hsort : form.sort = sortBy compare) (old new : List α) :
    MergesInto form id parsed old new
      (mergeCollection p old (sortBy compare (new.map parsed)) (sortBy compare) deletions
        resolution) := by
  refine ⟨old, _, deletions, resolution, ?_, sortBy_perm _ _, by rw [hsort]⟩
  rw [List.map_id]

/-- Records that refer to hosts, with both sides restricted to the hosts that are known. -/
theorem mergesInto_restricted (form : ImportedForm α p) {compare : α → α → Ordering}
    (hsort : form.sort = sortBy compare) {restrict : List JsString → α → α}
    {live exported : List JsString}
    (hagain : ∀ r, restrict live (restrict exported r) = restrict exported r) (old new : List α) :
    MergesInto form (restrict live) (fun r => restrict exported (parsed r)) old new
      (mergeCollection p (sortBy compare (old.map (restrict live)))
        (sortBy compare ((sortBy compare ((new.map parsed).map (restrict exported))).map
          (restrict live))) (sortBy compare) deletions resolution) := by
  refine ⟨_, _, deletions, resolution, sortBy_perm _ _, ?_, by rw [hsort]⟩
  refine (sortBy_perm _ _).trans (((sortBy_perm _ _).map _).trans ?_)
  rw [List.map_map, List.map_map]
  exact List.map_congr_left (fun r _ => hagain (parsed r)) ▸ .refl _

end Versions

section Devices
variable {p : Platform}

/-- The record of a kind and id was changed, or is new. -/
def ChangedId (old new : Collections) (kind : VaultSyncEntityKind) (id : JsString) : Prop :=
  match kind with
  | .hosts => ∃ r ∈ new.hosts, VaultRecord.id r = id ∧ Changed old.hosts r
  | .keys => ∃ r ∈ new.keys, VaultRecord.id r = id ∧ Changed old.keys r
  | .snippets => ∃ r ∈ new.snippets, VaultRecord.id r = id ∧ Changed old.snippets r
  | .knownHosts => ∃ r ∈ new.knownHosts, VaultRecord.id r = id ∧ Changed old.knownHosts r
  | .identities => ∃ r ∈ new.identities, VaultRecord.id r = id ∧ Changed old.identities r

/-- Every changed record is there as it was exported; a reference to a host that was not
exported is dropped. -/
structure TakenOver (old new after : Collections) : Prop where
  hosts : ∀ r ∈ new.hosts, Changed old.hosts r → normalizeHostRecord (parsed r) ∈ after.hosts
  keys : ∀ r ∈ new.keys, Changed old.keys r →
    restrictKey (new.ids .hosts) (parsed r) ∈ after.keys
  snippets : ∀ r ∈ new.snippets, Changed old.snippets r →
    restrictSnippet (new.ids .hosts) (parsed r) ∈ after.snippets
  knownHosts : ∀ r ∈ new.knownHosts, Changed old.knownHosts r → parsed r ∈ after.knownHosts
  identities : ∀ r ∈ new.identities, Changed old.identities r → parsed r ∈ after.identities

/-- A device can merge another's export, it takes over every record that was changed, and its
preview lists none of them as a conflict. -/
def TakesOver (p : Platform) (device exported : LocalState) : Prop :=
  ∀ (exportedAt snapshotId : JsString) (exportedMs inspectedAt : ℤ) (clock : ClockReadings),
    let bundle := parsedBundle (buildLocalConfigBundle p exported exportedAt snapshotId exportedMs)
    (∃ after, applyImportedLocalConfigBundle p device (.raw bundle) ⟨.merge, some .keepLocal⟩
        inspectedAt clock = .ok after) ∧
      (∀ resolution after, applyImportedLocalConfigBundle p device (.raw bundle)
          ⟨.merge, resolution⟩ inspectedAt clock = .ok after →
        TakenOver device.collections exported.collections after.collections) ∧
      ∀ imported, parseImportedLocalConfigBundle p device bundle inspectedAt = .ok imported →
        ∃ plan, imported.analysis.mergePlan = some plan ∧
          ∀ kind id, ChangedId device.collections exported.collections kind id →
            id ∉ (plan.of kind).conflictingIds

variable {device exported : LocalState}

/-- The hosts of an export, in the order of the import. -/
def exportedHostIds (p : Platform) (exported : LocalState) : List JsString :=
  (sortHostCollection p (exported.collections.hosts.map parsed)).map fun host => host.id

theorem mem_exportedHostIds {id : JsString} :
    id ∈ exportedHostIds p exported ↔ id ∈ exported.collections.ids .hosts := by
  constructor
  · intro hid
    obtain ⟨host, hhost, rfl⟩ := List.mem_map.mp hid
    obtain ⟨host', hhost', rfl⟩ := List.mem_map.mp (mem_sortBy.mp hhost)
    obtain ⟨r, hr, rfl⟩ := List.mem_map.mp hhost'
    rw [ids_eq]
    exact List.mem_map.mpr ⟨r, hr, rfl⟩
  · exact imported_live

/-- The merge of every kind of record. -/
theorem merged_over (hp : p.Collates) (hdistinct : DistinctIds exported.collections)
    (hadvances : AdvancesEach device.collections exported.collections)
    (exportedAt snapshotId : JsString) (exportedMs : ℤ) (resolution : Option ChosenResolution)
    (preparedMs : ℤ) :
    let merged := mergedCollections p device (parsedBundle (buildLocalConfigBundle p exported
      exportedAt snapshotId exportedMs)) resolution preparedMs
    TakenOver device.collections exported.collections merged.records ∧
      ∀ kind id, ChangedId device.collections exported.collections kind id →
        id ∉ (merged.counts kind).conflictingIds := by
  intro merged
  have hdistinctIds (kind : VaultSyncEntityKind) :=
    ids_eq exported.collections kind ▸ hdistinct kind
  obtain ⟨hhosts, hkeys, hsnippets, hknownHosts, hidentities⟩ := hadvances
  have hlive : exportedHostIds p exported ⊆ merged.hosts.records.map fun host => host.id := by
    intro id hid
    exact @imported_kept _ _ p (hostForm hp) _ _ _ _ id hid
  have hhostsTaken : ∀ r ∈ exported.collections.hosts, Changed device.collections.hosts r →
      normalizeHostRecord (parsed r) ∈ merged.hosts.records ∧
        VaultRecord.id r ∉ merged.hosts.counts.conflictingIds := by
    intro r hr hchanged
    have hmerge : MergesInto (importedHosts hp) id (importedHosts hp).imported
        device.collections.hosts exported.collections.hosts merged.hosts := by
      refine ⟨device.collections.hosts, _, _, _, ?_, ?_, rfl⟩
      · rw [List.map_id]
      · refine (sortBy_perm _ _).trans ?_
        change ((exported.collections.hosts.map parsed).map normalizeHostRecord).Perm _
        rw [List.map_map]
        exact .refl _
    have htaken := hmerge.takes (fun _ => ⟨rfl, rfl⟩) (fun _ => ⟨rfl, rfl⟩) (hdistinctIds .hosts)
      hhosts hr hchanged
    rw [normalize_imported] at htaken
    exact htaken
  have hkeysTaken : ∀ r ∈ exported.collections.keys, Changed device.collections.keys r →
      restrictKey (exported.collections.ids .hosts) (parsed r) ∈ merged.keys.records ∧
        VaultRecord.id r ∉ merged.keys.counts.conflictingIds := by
    intro r hr hchanged
    have hmerge : MergesInto (LocalConfig.importedKeys hp)
        (restrictKey (merged.hosts.records.map fun host => host.id))
        (fun r => restrictKey (exportedHostIds p exported) (parsed r)) device.collections.keys
        exported.collections.keys merged.keys :=
      mergesInto_restricted _ (sort_keys hp) (restrictKey_again hlive) _ _
    rw [← restrictKey_congr fun id => mem_exportedHostIds (p := p)]
    exact hmerge.takes (fun _ => ⟨rfl, rfl⟩) (fun _ => ⟨rfl, rfl⟩) (hdistinctIds .keys) hkeys hr
      hchanged
  have hsnippetsTaken : ∀ r ∈ exported.collections.snippets, Changed device.collections.snippets r →
      restrictSnippet (exported.collections.ids .hosts) (parsed r) ∈ merged.snippets.records ∧
        VaultRecord.id r ∉ merged.snippets.counts.conflictingIds := by
    intro r hr hchanged
    have hmerge : MergesInto (importedSnippets hp)
        (restrictSnippet (merged.hosts.records.map fun host => host.id))
        (fun r => restrictSnippet (exportedHostIds p exported) (parsed r))
        device.collections.snippets exported.collections.snippets merged.snippets :=
      mergesInto_restricted _ (sort_snippets hp) (restrictSnippet_again hlive) _ _
    rw [← restrictSnippet_congr fun id => mem_exportedHostIds (p := p)]
    exact hmerge.takes (fun _ => ⟨rfl, rfl⟩) (fun _ => ⟨rfl, rfl⟩) (hdistinctIds .snippets)
      hsnippets hr hchanged
  have hknownHostsTaken : ∀ r ∈ exported.collections.knownHosts,
      Changed device.collections.knownHosts r → parsed r ∈ merged.knownHosts.records ∧
        VaultRecord.id r ∉ merged.knownHosts.counts.conflictingIds := by
    intro r hr hchanged
    have hmerge : MergesInto (importedKnownHosts hp) id parsed device.collections.knownHosts
        exported.collections.knownHosts merged.knownHosts :=
      mergesInto_sorted _ (sort_knownHosts hp) _ _
    exact hmerge.takes (fun _ => ⟨rfl, rfl⟩) (fun _ => ⟨rfl, rfl⟩) (hdistinctIds .knownHosts)
      hknownHosts hr hchanged
  have hidentitiesTaken : ∀ r ∈ exported.collections.identities,
      Changed device.collections.identities r → parsed r ∈ merged.identities.records ∧
        VaultRecord.id r ∉ merged.identities.counts.conflictingIds := by
    intro r hr hchanged
    have hmerge : MergesInto (importedIdentities hp) id parsed device.collections.identities
        exported.collections.identities merged.identities :=
      mergesInto_sorted _ (sort_identities hp) _ _
    exact hmerge.takes (fun _ => ⟨rfl, rfl⟩) (fun _ => ⟨rfl, rfl⟩) (hdistinctIds .identities)
      hidentities hr hchanged
  constructor
  · exact
      { hosts := fun r hr h => (hhostsTaken r hr h).1
        keys := fun r hr h => (hkeysTaken r hr h).1
        snippets := fun r hr h => (hsnippetsTaken r hr h).1
        knownHosts := fun r hr h => (hknownHostsTaken r hr h).1
        identities := fun r hr h => (hidentitiesTaken r hr h).1 }
  · intro kind id hchanged
    cases kind with
    | hosts =>
      obtain ⟨r, hr, rfl, h⟩ := hchanged
      exact (hhostsTaken r hr h).2
    | keys =>
      obtain ⟨r, hr, rfl, h⟩ := hchanged
      exact (hkeysTaken r hr h).2
    | snippets =>
      obtain ⟨r, hr, rfl, h⟩ := hchanged
      exact (hsnippetsTaken r hr h).2
    | knownHosts =>
      obtain ⟨r, hr, rfl, h⟩ := hchanged
      exact (hknownHostsTaken r hr h).2
    | identities =>
      obtain ⟨r, hr, rfl, h⟩ := hchanged
      exact (hidentitiesTaken r hr h).2

/-- A device takes over what another has advanced. -/
theorem takesOver_of_advances (hp : p.Collates) (hvault : device.vaultId = exported.vaultId)
    (hdistinct : DistinctIds exported.collections)
    (hadvances : AdvancesEach device.collections exported.collections) :
    TakesOver p device exported := by
  intro exportedAt snapshotId exportedMs inspectedAt clock bundle
  have hmerged (resolution : Option ChosenResolution) (preparedMs : ℤ) :=
    merged_over hp hdistinct hadvances exportedAt snapshotId exportedMs resolution preparedMs
  refine ⟨⟨_, (apply_resolved_iff hvault _ _ _ _ _ _).mpr ⟨fun _ => Option.some_ne_none _, rfl⟩⟩,
    fun resolution after happly => ?_, fun imported himported => ?_⟩
  · obtain ⟨-, rfl⟩ := (apply_resolved_iff hvault _ _ _ _ _ _).mp happly
    exact (hmerged resolution clock.prepared).1
  · obtain ⟨imported', himported', -, -, hplan⟩ :=
      parse_export (p := p) hvault exportedAt snapshotId exportedMs inspectedAt
    obtain rfl := Except.ok.inj (himported.symm.trans himported')
    refine ⟨_, hplan, fun kind id hchanged => ?_⟩
    rw [buildMergePlan_of]
    exact (hmerged none inspectedAt).2 kind id hchanged

end Devices

section Run
open Runs
variable {p : Platform} {start s : Stores}

/-- An action, at the time the clock shows. -/
structure Step where
  reading : Reading
  action : StoreAction

def step (p : Platform) (s : Stores) (st : Step) : Stores := s.perform p st.reading st.action

/-- The clock is ahead of every time in the vault, and the identifiers drawn are new. -/
structure Ticking (start s : Stores) (st : Step) : Prop where
  start : PastEach st.reading.now start.collections
  current : PastEach st.reading.now s.collections
  fresh : Fresh s st.action

/-- Whatever the step changes it dates: at the time of the step, or later than the version
before. -/
def DatesChanges (p : Platform) (s : Stores) (st : Step) : Prop :=
  Dating p s st.reading.now st.action ∧
    AdvancesEach s.collections (dated p st.reading.now st.action)

/-- The records that the step writes with a time of their own are later than the versions from
before the run, which may have been deleted since. -/
def DatedSince (p : Platform) (start _s : Stores) (st : Step) : Prop :=
  AdvancesEach start.collections (dated p st.reading.now st.action)

/-- What holds at every moment of a run whose steps date what they change. -/
structure Sound (s : Stores) : Prop where
  distinct : DistinctIds s.collections
  normal : Normal s.collections.hosts

theorem vaultId_clearAll (hosts : List HostRecord) :
    (hosts.foldl (fun s host => s.clearDeleted p .hosts host.id) s).vaultId = s.vaultId := by
  induction hosts generalizing s with
  | nil => rfl
  | cons host hosts ih => exact ih

/-- No action of the five stores touches the identity of the vault. -/
theorem vaultId_perform (reading : Reading) (a : StoreAction) :
    (s.perform p reading a).vaultId = s.vaultId := by
  cases a with
  | loadSampleData => exact vaultId_clearAll _
  | ensureLocalShellHost =>
    simp only [Stores.perform, Stores.ensureLocalShellHost]
    split_ifs <;> rfl
  | importKey =>
    simp only [Stores.perform, Stores.upsertKey]
    split <;> rfl
  | addGeneratedKey =>
    simp only [Stores.perform, Stores.upsertKey]
    split <;> rfl
  | deleteKey =>
    simp only [Stores.perform, Stores.deleteKey]
    split_ifs <;> rfl
  | duplicateSnippet =>
    simp only [Stores.perform, Stores.duplicateSnippet]
    split <;> rfl
  | removeIdentity =>
    simp only [Stores.perform, Stores.removeIdentity]
    split_ifs <;> rfl
  | ensureMigrated =>
    simp only [Stores.perform, Stores.ensureMigrated]
    split_ifs <;> rfl
  | deleteHostAndCascade =>
    simp only [Stores.perform, Stores.deleteHostAndCascade, Stores.forgetActiveHost]
    split_ifs <;> rfl
  | _ => rfl

theorem effect_step {st : Step} (h : Sound s) (hticking : Ticking start s st)
    (hdates : DatesChanges p s st) :
    Effect st.reading.now s.collections (dated p st.reading.now st.action)
      (step p s st).collections :=
  effect_perform h.normal h.distinct hticking.fresh hdates.1

theorem Sound.step {st : Step} (h : Sound s) (hticking : Ticking start s st)
    (hdates : DatesChanges p s st) : Sound (VaultStores.step p s st) := by
  have heffect := effect_step h hticking hdates
  exact ⟨heffect.distinct h.distinct, heffect.normal⟩

theorem vaultId_run (steps : List Step) : (run (step p) s steps).vaultId = s.vaultId := by
  induction steps generalizing s with
  | nil => rfl
  | cons st steps ih => exact ih.trans (vaultId_perform _ _)

/-- The state has moved forward since the start of the run. -/
structure Forward (start s : Stores) : Prop where
  sound : Sound s
  advances : AdvancesEach start.collections s.collections

theorem Forward.step {st : Step} (h : Forward start s) (hticking : Ticking start s st)
    (hdates : DatesChanges p s st) (hsince : DatedSince p start s st) :
    Forward start (VaultStores.step p s st) where
  sound := h.sound.step hticking hdates
  advances := (effect_step h.sound hticking hdates).advances hticking.start h.advances hsince

/-- In a run with a clock that moves forward, every step moves the records that it changes forward
if and only if it dates them; and then a device that still holds the state from before the run
takes over all that was changed. -/
theorem lastWriterWins_run (hp : p.Collates) (hdistinct : DistinctIds start.collections)
    (hnormal : Normal start.collections.hosts) {steps : List Step}
    (hticking : Allowed (step p) (Ticking start) start steps) :
    ((∀ first st, first ++ [st] <+: steps →
        AdvancesEach (run (step p) start first).collections
          (run (step p) start (first ++ [st])).collections) ↔
      Allowed (step p) (DatesChanges p) start steps) ∧
    (Allowed (step p) (DatesChanges p) start steps →
      Allowed (step p) (DatedSince p start) start steps →
      TakesOver p start.toLocalState (run (step p) start steps).toLocalState) := by
  have hinitial : Sound start := ⟨hdistinct, hnormal⟩
  constructor
  · have hsteps : (∀ first st, first ++ [st] <+: steps →
        AdvancesEach (run (step p) start first).collections
          (run (step p) start (first ++ [st])).collections) ↔
        Allowed (step p) (fun s st => AdvancesEach s.collections (step p s st).collections) start
          steps := by
      rw [allowed_iff]
      simp only [run_append]
      exact Iff.rfl
    have hcongr : Allowed (step p) (fun s st => Ticking start s st ∧
          AdvancesEach s.collections (step p s st).collections) start steps ↔
        Allowed (step p) (fun s st => Ticking start s st ∧ DatesChanges p s st) start steps := by
      refine allowed_congr (fun s st hs => and_congr_right fun htick => ?_)
        (fun s st hs hst => hs.step hst.1 hst.2) hinitial
      exact advances_perform_iff hs.distinct hs.normal htick.fresh htick.current
    rw [hsteps]
    constructor
    · intro h
      exact (hcongr.mp (hticking.and h)).imp fun _ _ hst => hst.2
    · intro h
      exact (hcongr.mpr (hticking.and h)).imp fun _ _ hst => hst.2
  · intro hdates hsince
    have hend : Forward start (run (step p) start steps) :=
      run_invariant (fun s st hs hst => hs.step hst.1 hst.2.1 hst.2.2)
        ⟨hinitial, advancesEach_self hdistinct⟩ (hticking.and (hdates.and hsince))
    exact takesOver_of_advances hp (vaultId_run steps).symm hend.sound.distinct hend.advances

/-- A vault with one host. -/
def oneHost : Stores where
  collections :=
    { hosts := [createLocalShellHostRecord (js "2026-01-01T00:00:00.000Z")]
      keys := []
      snippets := []
      knownHosts := []
      identities := [] }
  deletions := emptyDeletionMap
  vaultId := js "v"
  deviceId := js "d"
  lastAppliedSnapshotId := none
  activeHostId := none
  migrationCompleted := true

theorem oneHost_distinct : DistinctIds oneHost.collections := by
  intro kind
  cases kind <;> decide +kernel

theorem oneHost_normal : Normal oneHost.collections.hosts := by
  intro host hhost
  rw [List.mem_singleton.mp hhost]
  decide +kernel

theorem oneHost_past : PastEach (js "2026-01-02T00:00:00.000Z") oneHost.collections := by
  refine ⟨fun host hhost => ?_, ?_, ?_, ?_, ?_⟩
  · rw [List.mem_singleton.mp hhost]
    decide +kernel
  all_goals exact fun _ h => absurd h List.not_mem_nil

/-- An action of the next day. -/
def nextDay (action : StoreAction) : Step := ⟨⟨js "2026-01-02T00:00:00.000Z", 0⟩, action⟩

/-- The host becomes a favourite. -/
theorem lastWriterWins_favorite :
    TakesOver datesPlatform oneHost.toLocalState (run (step datesPlatform) oneHost
      [nextDay (.toggleFavorite localShellHostId)]).toLocalState := by
  have hnone : AdvancesEach oneHost.collections noCollections := by
    refine ⟨?_, ?_, ?_, ?_, ?_⟩
    all_goals exact fun _ _ _ h => absurd h List.not_mem_nil
  have hticking : Allowed (step datesPlatform) (Ticking oneHost) oneHost
      [nextDay (.toggleFavorite localShellHostId)] :=
    ⟨⟨oneHost_past, oneHost_past, trivial⟩, trivial⟩
  have hdates : Allowed (step datesPlatform) (DatesChanges datesPlatform) oneHost
      [nextDay (.toggleFavorite localShellHostId)] := ⟨⟨trivial, hnone⟩, trivial⟩
  have hsince : Allowed (step datesPlatform) (DatedSince datesPlatform oneHost) oneHost
      [nextDay (.toggleFavorite localShellHostId)] := ⟨hnone, trivial⟩
  exact (lastWriterWins_run datesPlatform_collates oneHost_distinct oneHost_normal
    hticking).2 hdates hsince

/-- A connection is recorded in the host, and the time of its last change is not. -/
theorem not_every_change_dated :
    ¬ ∀ (p : Platform) (start : Stores) (steps : List Step), p.Collates →
      DistinctIds start.collections → Normal start.collections.hosts →
      Allowed (step p) (Ticking start) start steps →
      (∀ first st, first ++ [st] <+: steps →
        AdvancesEach (run (step p) start first).collections
          (run (step p) start (first ++ [st])).collections) ∧
        TakesOver p start.toLocalState (run (step p) start steps).toLocalState := by
  intro h
  let st := nextDay (.markConnected localShellHostId)
  obtain ⟨hadvances, -⟩ := h datesPlatform oneHost [st] datesPlatform_collates oneHost_distinct
    oneHost_normal ⟨⟨oneHost_past, oneHost_past, trivial⟩, trivial⟩
  have hhosts := (hadvances [] st (List.prefix_refl _)).1
  have hnew : (run (step datesPlatform) oneHost ([] ++ [st])).collections.hosts =
      [{ createLocalShellHostRecord (js "2026-01-01T00:00:00.000Z") with
        lastConnectedAt := .value (js "2026-01-02T00:00:00.000Z") }] := by decide +kernel
  rw [hnew] at hhosts
  rcases hhosts _ List.mem_cons_self _ List.mem_cons_self rfl with hsame | hbefore
  · exact absurd hsame (by decide +kernel)
  · exact absurd hbefore (by decide +kernel)

end Run

end VaultStores
