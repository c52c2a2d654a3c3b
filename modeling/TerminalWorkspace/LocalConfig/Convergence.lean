import TerminalWorkspace.LocalConfig.Export
import TerminalWorkspace.LocalConfig.MergeTwice

/-! Two devices of a vault that merge each other's export. They end with the same records if
and only if every record that both of them hold is stored the way an import stores it. -/
namespace LocalConfig
open JsText Inventory
open ParsedRecord (parsed)

section Forms
variable {p : Platform}

/-- How a collection is imported: the records are parsed, and put in their final form. -/
structure ImportedForm (α : Type) [VaultRecord α] [ParsedRecord α] (p : Platform) extends
    FinalForm α p where
  parsed_id : ∀ r : α, VaultRecord.id (parsed r) = VaultRecord.id r
  parsed_updatedAt : ∀ r : α, VaultRecord.updatedAt (parsed r) = VaultRecord.updatedAt r
  parsed_normalize : ∀ r, parsed (normalize (parsed r)) = parsed (normalize r)
  updatedAt_of_serialize : ∀ l i : α,
    stableSerialize p (VaultRecord.toJson l) = stableSerialize p (VaultRecord.toJson i) →
    VaultRecord.updatedAt l = VaultRecord.updatedAt i
  unchanged_iff : ∀ l r : α, parsed l = parsed r →
    (stableSerialize p (VaultRecord.toJson l) =
      stableSerialize p (VaultRecord.toJson (normalize (parsed r))) ↔ normalize (parsed l) = l)

theorem reparseOptional_idem (value : Optional JsString) :
    reparseOptional (reparseOptional value) = reparseOptional value := by
  cases value <;> rfl

theorem truthy_reparse (value : Optional JsString) :
    (reparseOptional value).truthy = value.truthy := by
  cases value <;> rfl

theorem normalize_parsed (host : HostRecord) :
    normalizeHostRecord (parsed host) =
      { normalizeHostRecord host with
        lastConnectedAt := reparseOptional host.lastConnectedAt
        identityId := reparseOptional host.identityId } := by
  simp only [normalizeHostRecord, parsed, truthy_reparse]

def importedHosts (hp : p.Collates) : ImportedForm HostRecord p where
  toFinalForm := hostForm hp
  parsed_id _ := rfl
  parsed_updatedAt _ := rfl
  parsed_normalize host := by
    change parsed (normalizeHostRecord (parsed host)) = parsed (normalizeHostRecord host)
    rw [normalize_parsed]
    simp only [parsed, reparseOptional_idem]
    rfl
  updatedAt_of_serialize l i h := by
    have := congrArg (·.updatedAt) (HostRecord.ext_serialize h).1
    exact this
  unchanged_iff l r hsame := by
    change _ = stableSerialize p (VaultRecord.toJson (normalizeHostRecord (parsed r))) ↔
      normalizeHostRecord (parsed l) = l
    rw [← hsame]
    constructor
    · intro h
      have hnormal := normal_of_serialize (normalizeHostRecord_idem _) h
      obtain ⟨hfields, -⟩ := HostRecord.ext_serialize h
      have hconnected : l.lastConnectedAt = reparseOptional l.lastConnectedAt := by
        rw [normalize_parsed] at hfields
        exact congrArg (·.lastConnectedAt) hfields
      have hidentity : l.identityId = reparseOptional l.identityId := by
        rw [normalize_parsed] at hfields
        exact congrArg (·.identityId) hfields
      rw [normalize_parsed, ← hconnected, ← hidentity, hnormal]
    · intro h
      rw [h]

/-- A kind of record that is only sorted, and known from its serialisation. -/
def importedSorted (hp : p.Collates) (α : Type) [VaultRecord α] [ParsedRecord α]
    (hid : ∀ r : α, VaultRecord.id (parsed r) = VaultRecord.id r)
    (hupdated : ∀ r : α, VaultRecord.updatedAt (parsed r) = VaultRecord.updatedAt r)
    (hidem : ∀ r : α, parsed (parsed r) = parsed r)
    (hext : ∀ l i : α, stableSerialize p (VaultRecord.toJson l) =
      stableSerialize p (VaultRecord.toJson i) → l = i) : ImportedForm α p where
  toFinalForm := sortedForm hp α
  parsed_id := hid
  parsed_updatedAt := hupdated
  parsed_normalize := hidem
  updatedAt_of_serialize l i h := congrArg _ (hext l i h)
  unchanged_iff l r hsame := by
    change _ = stableSerialize p (VaultRecord.toJson (parsed r)) ↔ parsed l = l
    rw [← hsame]
    constructor
    · intro h
      exact (hext _ _ h).symm
    · intro h
      rw [h]

def importedKeys (hp : p.Collates) : ImportedForm KeyRecord p :=
  importedSorted hp KeyRecord (fun _ => rfl) (fun _ => rfl)
    (fun _ => by simp only [parsed, reparseOptional_idem]) fun _ _ => KeyRecord.ext_serialize

def importedSnippets (hp : p.Collates) : ImportedForm SnippetRecord p :=
  importedSorted hp SnippetRecord (fun _ => rfl) (fun _ => rfl)
    (fun _ => by simp only [parsed, reparseOptional_idem]) fun _ _ => SnippetRecord.ext_serialize

def importedKnownHosts (hp : p.Collates) : ImportedForm KnownHostRecord p :=
  importedSorted hp KnownHostRecord (fun _ => rfl) (fun _ => rfl) (fun _ => rfl)
    fun _ _ => KnownHostRecord.ext_serialize

def importedIdentities (hp : p.Collates) : ImportedForm IdentityRecord p :=
  importedSorted hp IdentityRecord (fun _ => rfl) (fun _ => rfl)
    (fun _ => by simp only [parsed, reparseOptional_idem]) fun _ _ => IdentityRecord.ext_serialize

end Forms

section Records
variable {α : Type} [VaultRecord α] [ParsedRecord α] {p : Platform}

/-- Two times of which neither is before the other. -/
def Tie (l r : α) : Prop :=
  before (VaultRecord.updatedAt l) (VaultRecord.updatedAt r) = false ∧
    before (VaultRecord.updatedAt r) (VaultRecord.updatedAt l) = false

/-- The record as an import of it would store it. -/
def ImportedForm.imported (form : ImportedForm α p) (r : α) : α := form.normalize (parsed r)

/-- The record is stored the way an import would store it. -/
def ImportedForm.Canonical (form : ImportedForm α p) (r : α) : Prop := form.imported r = r

/-- Two collections whose records are exported alike. -/
def SameRecords (left right : List α) : Prop :=
  ∀ r, r ∈ left.map parsed ↔ r ∈ right.map parsed

variable (form : ImportedForm α p)

theorem imported_updatedAt (r : α) :
    VaultRecord.updatedAt (form.imported r) = VaultRecord.updatedAt r :=
  (form.normalize_updatedAt _).trans (form.parsed_updatedAt r)

theorem normalize_imported (r : α) : form.normalize (form.imported r) = form.imported r :=
  form.normalize_idem _

/-- What one device decides about an id, when the other has exported its record. -/
def decided (l r : Option α) : Outcome α := mergeOne p .block l (r.map form.imported) none

theorem decided_alone (l : α) : decided form (some l) none = .retainedLocal l := rfl

theorem decided_new (r : α) : decided form none (some r) = .added (form.imported r) := rfl

theorem decided_tie {l r : α} (htie : Tie l r) (hsame : parsed l = parsed r)
    [Decidable (form.Canonical l)] :
    decided form (some l) (some r) = if form.Canonical l then .unchanged l else .conflict l := by
  have hiff : stableSerialize p (VaultRecord.toJson l) =
      stableSerialize p (VaultRecord.toJson (form.imported r)) ↔ form.Canonical l :=
    form.unchanged_iff l r hsame
  rw [decided, Option.map_some, mergeOne_both]
  by_cases hcanonical : form.Canonical l
  · rw [if_pos (hiff.mpr hcanonical), if_pos hcanonical]
  · rw [if_neg (mt hiff.mp hcanonical), if_neg hcanonical, imported_updatedAt, htie.1, htie.2]
    rfl

/-- Versions of different times are never serialised alike. -/
theorem serialize_ne {l r : α} (h : VaultRecord.updatedAt l ≠ VaultRecord.updatedAt r) :
    stableSerialize p (VaultRecord.toJson l) ≠
      stableSerialize p (VaultRecord.toJson (form.imported r)) := by
  intro hserial
  have hupdated := form.updatedAt_of_serialize _ _ hserial
  rw [imported_updatedAt] at hupdated
  exact h hupdated

theorem decided_later {l r : α}
    (h : before (VaultRecord.updatedAt l) (VaultRecord.updatedAt r) = true) :
    decided form (some l) (some r) = .updated (form.imported r) := by
  have hserial := serialize_ne form (l := l) (r := r) fun hupdated => by
    rw [hupdated, not_before_self] at h
    cases h
  rw [decided, Option.map_some, mergeOne_both, if_neg hserial, imported_updatedAt, if_pos h]

theorem decided_earlier {l r : α}
    (h : before (VaultRecord.updatedAt r) (VaultRecord.updatedAt l) = true) :
    decided form (some l) (some r) = .retainedLocal l := by
  have hserial := serialize_ne form (l := l) (r := r) fun hupdated => by
    rw [hupdated, not_before_self] at h
    cases h
  rw [decided, Option.map_some, mergeOne_both, if_neg hserial, imported_updatedAt,
    not_before_of_before h, if_pos h]
  rfl

/-- What both devices store under an id, when they store something alike. -/
theorem decided_alike {l r : Option α}
    (hsame : ∀ a ∈ l, ∀ b ∈ r, Tie a b → parsed a = parsed b) :
    ((decided form l r).record.map fun a => parsed (form.normalize a)) =
      (decided form r l).record.map fun a => parsed (form.normalize a) := by
  classical
  have halone (a : α) : parsed (form.normalize a) = parsed (form.normalize (form.imported a)) := by
    rw [normalize_imported, ImportedForm.imported, form.parsed_normalize]
  cases l with
  | none =>
    cases r with
    | none => rfl
    | some b =>
      rw [decided_new, decided_alone]
      exact congrArg some (halone b).symm
  | some a =>
    cases r with
    | none =>
      rw [decided_new, decided_alone]
      exact congrArg some (halone a)
    | some b =>
      by_cases hab : before (VaultRecord.updatedAt a) (VaultRecord.updatedAt b) = true
      · rw [decided_later form hab, decided_earlier form hab]
        exact congrArg some (halone b).symm
      · by_cases hba : before (VaultRecord.updatedAt b) (VaultRecord.updatedAt a) = true
        · rw [decided_later form hba, decided_earlier form hba]
          exact congrArg some (halone a)
        · have htie : Tie a b := ⟨Bool.eq_false_of_not_eq_true hab, Bool.eq_false_of_not_eq_true hba⟩
          have hparsed := hsame a rfl b rfl htie
          rw [decided_tie form htie hparsed, decided_tie form ⟨htie.2, htie.1⟩ hparsed.symm]
          have hexported : parsed (form.normalize a) = parsed (form.normalize b) := by
            rw [← form.parsed_normalize a, hparsed, form.parsed_normalize]
          split_ifs <;> exact congrArg some hexported

/-- Neither device finds a conflict if and only if both store the record the imported way. -/
theorem decided_conflicts {l r : Option α}
    (hsame : ∀ a ∈ l, ∀ b ∈ r, Tie a b → parsed a = parsed b) :
    ((decided form l r).isConflict = false ∧ (decided form r l).isConflict = false) ↔
      ∀ a ∈ l, ∀ b ∈ r, Tie a b → form.Canonical a ∧ form.Canonical b := by
  classical
  constructor
  · rintro ⟨hl, hr⟩ a rfl b rfl htie
    have hparsed := hsame a rfl b rfl htie
    rw [decided_tie form htie hparsed] at hl
    rw [decided_tie form ⟨htie.2, htie.1⟩ hparsed.symm] at hr
    constructor
    · by_contra hcanonical
      rw [if_neg hcanonical] at hl
      cases hl
    · by_contra hcanonical
      rw [if_neg hcanonical] at hr
      cases hr
  · intro h
    cases l with
    | none => cases r <;> exact ⟨rfl, rfl⟩
    | some a =>
      cases r with
      | none => exact ⟨rfl, rfl⟩
      | some b =>
        by_cases hab : before (VaultRecord.updatedAt a) (VaultRecord.updatedAt b) = true
        · rw [decided_later form hab, decided_earlier form hab]
          exact ⟨rfl, rfl⟩
        · by_cases hba : before (VaultRecord.updatedAt b) (VaultRecord.updatedAt a) = true
          · rw [decided_later form hba, decided_earlier form hba]
            exact ⟨rfl, rfl⟩
          · have htie : Tie a b :=
              ⟨Bool.eq_false_of_not_eq_true hab, Bool.eq_false_of_not_eq_true hba⟩
            have hparsed := hsame a rfl b rfl htie
            obtain ⟨ha, hb⟩ := h a rfl b rfl htie
            rw [decided_tie form htie hparsed, decided_tie form ⟨htie.2, htie.1⟩ hparsed.symm,
              if_pos ha, if_pos hb]
            exact ⟨rfl, rfl⟩

end Records

section Collection
variable {α : Type} [VaultRecord α] [ParsedRecord α] {p : Platform} (form : ImportedForm α p)

/-- The two views that a merge takes of a device's collection: its own, and the import's. -/
structure Views (records own imported : List α) : Prop where
  own : ∀ id, (byId own).get? id = (byId records).get? id
  imported : ∀ id, (byId imported).get? id = ((byId records).get? id).map form.imported

variable {form} {As Bs ownA ownB importedA importedB : List α}

theorem outcomeOf_views (hA : Views form As ownA importedA) (hB : Views form Bs ownB importedB)
    (id : JsString) : outcomeOf p .block ownA importedB [] id =
      decided form ((byId As).get? id) ((byId Bs).get? id) := by
  rw [outcomeOf, hA.own, hB.imported]
  rfl

theorem mem_merged_parsed {own imported : List α} {r : α} :
    r ∈ (mergeCollection p own imported form.sort [] .block).records.map parsed ↔
      ∃ id, ((outcomeOf p .block own imported [] id).record.map fun a =>
        parsed (form.normalize a)) = some r := by
  rw [mergeCollection_records]
  constructor
  · intro hr
    obtain ⟨x, hx, rfl⟩ := List.mem_map.mp hr
    obtain ⟨y, hy, rfl⟩ := List.mem_map.mp (mem_sortBy.mp hx)
    exact ⟨VaultRecord.id y, by rw [mem_joined.mp hy]; rfl⟩
  · rintro ⟨id, hid⟩
    obtain ⟨y, hy, rfl⟩ := Option.map_eq_some_iff.mp hid
    have hjoined := mem_joined.mpr ((outcomeOf_record hy).1 ▸ hy)
    exact List.mem_map_of_mem (mem_sortBy.mpr (List.mem_map_of_mem hjoined))

/-- Both merges of a collection are free of conflicts exactly if the records that both devices
hold are stored the imported way, and then they agree. -/
theorem converge_collection (hA : Views form As ownA importedA) (hB : Views form Bs ownB importedB)
    (hsame : ∀ a ∈ As, ∀ b ∈ Bs, VaultRecord.id a = VaultRecord.id b → Tie a b →
      parsed a = parsed b) :
    let mergeA := mergeCollection p ownA importedB form.sort [] .block
    let mergeB := mergeCollection p ownB importedA form.sort [] .block
    SameRecords mergeA.records mergeB.records ∧
      ((mergeA.counts.conflicts = 0 ∧ mergeB.counts.conflicts = 0) ↔
        ∀ id, ∀ a ∈ (byId As).get? id, ∀ b ∈ (byId Bs).get? id, Tie a b →
          form.Canonical a ∧ form.Canonical b) := by
  intro mergeA mergeB
  have hpair (id : JsString) : ∀ a ∈ (byId As).get? id, ∀ b ∈ (byId Bs).get? id, Tie a b →
      parsed a = parsed b := by
    intro a ha b hb
    obtain ⟨ha, hida⟩ := byId_get?_mem ha
    obtain ⟨hb, hidb⟩ := byId_get?_mem hb
    exact hsame a ha b hb (hida.trans hidb.symm)
  constructor
  · intro r
    rw [mem_merged_parsed, mem_merged_parsed]
    refine exists_congr fun id => ?_
    rw [outcomeOf_views hA hB, outcomeOf_views hB hA, decided_alike form (hpair id)]
  · rw [conflicts_eq_zero_iff, conflicts_eq_zero_iff, ← forall_and]
    refine forall_congr' fun id => ?_
    rw [outcomeOf_views hA hB, outcomeOf_views hB hA]
    exact decided_conflicts form (hpair id)

omit [ParsedRecord α] in
theorem byId_perm {l m : List α} (h : l.Perm m) (hnodup : (m.map VaultRecord.id).Nodup)
    (id : JsString) : (byId l).get? id = (byId m).get? id := by
  have hnodup' : (l.map VaultRecord.id).Nodup := (h.map _).nodup_iff.mpr hnodup
  cases hm : (byId m).get? id with
  | none =>
    rw [← Option.not_isSome_iff_eq_none, byId_get?_isSome_iff] at hm ⊢
    exact fun hl => hm ((h.map _).subset hl)
  | some r =>
    obtain ⟨hr, rfl⟩ := byId_get?_mem hm
    exact byId_get?_of_nodup hnodup' (h.symm.subset hr)

omit [ParsedRecord α] in
theorem byId_map {l : List α} {f : α → α} (hf : ∀ r, VaultRecord.id (f r) = VaultRecord.id r)
    (hnodup : (l.map VaultRecord.id).Nodup) (id : JsString) :
    (byId (l.map f)).get? id = ((byId l).get? id).map f := by
  have hids : (l.map f).map VaultRecord.id = l.map VaultRecord.id := by
    rw [List.map_map]
    exact List.map_congr_left fun r _ => hf r
  cases hl : (byId l).get? id with
  | none =>
    rw [← Option.not_isSome_iff_eq_none, byId_get?_isSome_iff] at hl
    rw [Option.map_none, ← Option.not_isSome_iff_eq_none, byId_get?_isSome_iff, hids]
    exact hl
  | some r =>
    obtain ⟨hr, rfl⟩ := byId_get?_mem hl
    rw [Option.map_some, ← hf r]
    exact byId_get?_of_nodup (hids ▸ hnodup) (List.mem_map_of_mem hr)

/-- A device's own list and an imported one, each in whatever order. -/
theorem views_of_perm (hnodup : (As.map VaultRecord.id).Nodup) (hown : ownA.Perm As)
    (himported : importedA.Perm (As.map form.imported)) : Views form As ownA importedA := by
  have hid (r : α) : VaultRecord.id (form.imported r) = VaultRecord.id r :=
    (form.normalize_id _).trans (form.parsed_id r)
  have hids : (As.map form.imported).map VaultRecord.id = As.map VaultRecord.id := by
    rw [List.map_map]
    exact List.map_congr_left fun r _ => hid r
  constructor
  · exact byId_perm hown hnodup
  · intro id
    rw [byId_perm himported (hids ▸ hnodup), byId_map hid hnodup]

end Collection

section Devices
variable {p : Platform} {A B : LocalState}

/-- No kind lists an id twice. -/
def DistinctIds (c : Collections) : Prop := ∀ kind, (c.ids kind).Nodup

/-- Keys and snippets refer to hosts of the same collections only. -/
structure OwnReferences (c : Collections) : Prop where
  keys : ∀ key ∈ c.keys, ∀ id ∈ key.assignedHostIds, id ∈ c.ids .hosts
  snippets : ∀ snippet ∈ c.snippets, ∀ id ∈ snippet.targetHostIds, id ∈ c.ids .hosts

/-- A state as the exchange takes it: without tombstones, and with references of its own. -/
structure Exchangeable (state : LocalState) : Prop where
  distinct : DistinctIds state.collections
  references : OwnReferences state.collections
  deletions : state.deletions = emptyDeletionMap

section Kinds
variable {α : Type} [VaultRecord α] [ParsedRecord α]

/-- No id carries two different records with the same time of change. -/
def OneVersion (As Bs : List α) : Prop :=
  ∀ a ∈ As, ∀ b ∈ Bs, VaultRecord.id a = VaultRecord.id b → Tie a b → parsed a = parsed b

/-- The records that both lists hold are stored the way an import stores them. -/
def StoredAsImported (imported : α → α) (As Bs : List α) : Prop :=
  ∀ a ∈ As, ∀ b ∈ Bs, VaultRecord.id a = VaultRecord.id b → Tie a b → imported a = a ∧ imported b = b

end Kinds

def SameCollections (c d : Collections) : Prop :=
  SameRecords c.hosts d.hosts ∧ SameRecords c.keys d.keys ∧ SameRecords c.snippets d.snippets ∧
    SameRecords c.knownHosts d.knownHosts ∧ SameRecords c.identities d.identities

def OneVersionEach (c d : Collections) : Prop :=
  OneVersion c.hosts d.hosts ∧ OneVersion c.keys d.keys ∧ OneVersion c.snippets d.snippets ∧
    OneVersion c.knownHosts d.knownHosts ∧ OneVersion c.identities d.identities

/-- An import normalises hosts, and lists no property as undefined but a jump host. -/
def EachStoredAsImported (c d : Collections) : Prop :=
  StoredAsImported (fun host => normalizeHostRecord (parsed host)) c.hosts d.hosts ∧
    StoredAsImported parsed c.keys d.keys ∧ StoredAsImported parsed c.snippets d.snippets ∧
    StoredAsImported parsed c.knownHosts d.knownHosts ∧
    StoredAsImported parsed c.identities d.identities

/-- An export is read on any device of the same vault, which may then merge it. -/
theorem parse_export (hvault : A.vaultId = B.vaultId) (exportedAt snapshotId : JsString)
    (exportedMs inspectedAt : ℤ) :
    let bundle := parsedBundle (buildLocalConfigBundle p B exportedAt snapshotId exportedMs)
    ∃ imported, parseImportedLocalConfigBundle p A bundle inspectedAt = .ok imported ∧
      imported.bundle = bundle ∧ imported.analysis.strategy.mergeable = true ∧
      imported.analysis.mergePlan = some (buildMergePlan p A.collections
        (prepareImportedCollections p bundle) (prepareImportedDeletions p bundle inspectedAt)) := by
  intro bundle
  have happ : ¬ (bundle.app ∉ [js "TermSnip", js "term-snip", js "terminal-workspace"] ∨
      bundle.version ∉ [1, 2, 3, 4, 5, 6]) := by
    simp [bundle, parsedBundle, buildLocalConfigBundle]
  have hmetadata : getImportedVaultMetadata bundle =
      some ⟨js "local-first-vault", B.vaultId, B.deviceId, snapshotId, B.lastAppliedSnapshotId⟩ :=
    rfl
  rw [parseImportedLocalConfigBundle, if_neg happ, hmetadata]
  refine ⟨_, rfl, rfl, ?_, if_pos hvault.symm⟩
  rw [importStrategy]
  split_ifs with hsnapshot hforeign
  · rfl
  · exact absurd hvault.symm hforeign
  · rfl
  · rfl

/-- When a merge of a device's export succeeds, and what it leaves. -/
theorem apply_resolved_iff (hvault : A.vaultId = B.vaultId) (exportedAt snapshotId : JsString)
    (exportedMs inspectedAt : ℤ) (resolution : Option ChosenResolution) (clock : ClockReadings)
    {after : LocalState} :
    let bundle := parsedBundle (buildLocalConfigBundle p B exportedAt snapshotId exportedMs)
    applyImportedLocalConfigBundle p A (.raw bundle) ⟨.merge, resolution⟩ inspectedAt clock =
        .ok after ↔
      ((mergedCollections p A bundle resolution clock.prepared).hasConflicts = true →
          resolution ≠ none) ∧
        after = mergedState p A bundle resolution clock := by
  intro bundle
  obtain ⟨imported, himported, hbundle, hmergeable, -⟩ :=
    parse_export (p := p) hvault exportedAt snapshotId exportedMs inspectedAt
  rw [applyImportedLocalConfigBundle, himported]
  simp only
  rw [applyPrepared_ok_iff, hbundle]
  simp only [hmergeable, true_and]
  rfl

/-- A merge of a device's export succeeds if and only if there are no conflicts. -/
theorem apply_export_iff (hvault : A.vaultId = B.vaultId) (exportedAt snapshotId : JsString)
    (exportedMs inspectedAt : ℤ) (clock : ClockReadings) {after : LocalState} :
    let bundle := parsedBundle (buildLocalConfigBundle p B exportedAt snapshotId exportedMs)
    applyImportedLocalConfigBundle p A (.raw bundle) ⟨.merge, none⟩ inspectedAt clock = .ok after ↔
      (mergedCollections p A bundle none clock.prepared).hasConflicts = false ∧
        after = mergedState p A bundle none clock := by
  intro bundle
  refine (apply_resolved_iff hvault exportedAt snapshotId exportedMs inspectedAt none clock).trans ?_
  simp [bundle]

section Side
variable {α : Type} [VaultRecord α] [ParsedRecord α]

/-- A merge that starts from a device's records and an import of the other's, in some order. -/
def MergesOf (form : ImportedForm α p) (As Bs : List α) (merge : MergeResult α) : Prop :=
  ∃ own imported : List α, own.Perm As ∧ imported.Perm (Bs.map form.imported) ∧
    merge = mergeCollection p own imported form.sort [] .block

/-- Every id of either side lives on where nothing was deleted. -/
theorem MergesOf.live {form : ImportedForm α p} {As Bs : List α} {merge : MergeResult α}
    (h : MergesOf form As Bs merge) {id : JsString}
    (hid : id ∈ As.map VaultRecord.id ∨ id ∈ Bs.map VaultRecord.id) :
    id ∈ merge.records.map VaultRecord.id := by
  obtain ⟨own, imported, hown, himported, rfl⟩ := h
  have hpresent : ((byId own).get? id).isSome ∨ ((byId imported).get? id).isSome := by
    rw [byId_get?_isSome_iff, byId_get?_isSome_iff]
    refine hid.imp (fun ha => (hown.map _).symm.subset ha) fun hb => ?_
    obtain ⟨b, hmem, rfl⟩ := List.mem_map.mp hb
    refine (himported.map _).symm.subset (List.mem_map.mpr ⟨form.imported b, ?_, ?_⟩)
    · exact List.mem_map_of_mem hmem
    · exact (form.normalize_id _).trans (form.parsed_id b)
  have hkept : ((outcomeOf p .block own imported [] id).record).isSome := by
    rw [outcomeOf]
    cases hl : (byId own).get? id with
    | none =>
      cases hi : (byId imported).get? id with
      | none => simp [hl, hi] at hpresent
      | some i => rfl
    | some l =>
      cases hi : (byId imported).get? id with
      | none => rfl
      | some i =>
        rw [mergeOne_both]
        split_ifs <;> rfl
  obtain ⟨r, hr⟩ := Option.isSome_iff_exists.mp hkept
  obtain rfl := (outcomeOf_record hr).1
  rw [mergeCollection_records]
  refine List.mem_map.mpr ⟨form.normalize r, ?_, form.normalize_id r⟩
  exact mem_sortBy.mpr (List.mem_map_of_mem (mem_joined.mpr hr))

end Side

theorem restrictKeys_eq_self {hostIds : List JsString} {keys : List KeyRecord}
    (h : ∀ key ∈ keys, ∀ id ∈ key.assignedHostIds, id ∈ hostIds) :
    restrictKeys hostIds keys = keys := by
  refine map_eq_self fun key hkey => ?_
  have hall : key.assignedHostIds.filter (· ∈ hostIds) = key.assignedHostIds :=
    List.filter_eq_self.mpr fun id hid => decide_eq_true (h key hkey id hid)
  rw [hall]

theorem restrictSnippets_eq_self {hostIds : List JsString} {snippets : List SnippetRecord}
    (h : ∀ snippet ∈ snippets, ∀ id ∈ snippet.targetHostIds, id ∈ hostIds) :
    restrictSnippets hostIds snippets = snippets := by
  refine map_eq_self fun snippet hsnippet => ?_
  have hall : snippet.targetHostIds.filter (· ∈ hostIds) = snippet.targetHostIds :=
    List.filter_eq_self.mpr fun id hid => decide_eq_true (h snippet hsnippet id hid)
  rw [hall]

/-- The merge that a device makes of the other's export. -/
def exchanged (p : Platform) (A B : LocalState) (exportedAt snapshotId : JsString)
    (exportedMs preparedMs : ℤ) : MergedCollections :=
  mergedCollections p A (parsedBundle (buildLocalConfigBundle p B exportedAt snapshotId exportedMs))
    none preparedMs

variable {exportedAt snapshotId : JsString} {exportedMs preparedMs : ℤ}

theorem exchanged_deletions (hB : Exchangeable B) :
    prepareImportedDeletions p (parsedBundle (buildLocalConfigBundle p B exportedAt snapshotId
      exportedMs)) preparedMs = emptyDeletionMap := by
  simp only [prepareImportedDeletions, parsedBundle, buildLocalConfigBundle, hB.deletions]
  rfl

theorem exchanged_hosts (hp : p.Collates) (hB : Exchangeable B) :
    MergesOf (importedHosts hp) A.collections.hosts B.collections.hosts
      (exchanged p A B exportedAt snapshotId exportedMs preparedMs).hosts := by
  refine ⟨A.collections.hosts, sortHostCollection p (B.collections.hosts.map parsed), .refl _, ?_, ?_⟩
  · refine (sortBy_perm _ _).trans ?_
    rw [List.map_map]
    exact .refl _
  · simp only [exchanged, mergedCollections, mergePreparedCollections, exchanged_deletions hB]
    rfl

/-- The hosts that a device knows after the merge. -/
theorem exchanged_live (hp : p.Collates) (hB : Exchangeable B) {id : JsString}
    (hid : id ∈ A.collections.ids .hosts ∨ id ∈ B.collections.ids .hosts) :
    id ∈ (exchanged p A B exportedAt snapshotId exportedMs preparedMs).hosts.records.map
      fun host => host.id := by
  rw [ids_eq, ids_eq] at hid
  exact (exchanged_hosts hp hB).live hid

/-- The hosts that a device finds in the other's export. -/
theorem imported_live {id : JsString} (hid : id ∈ B.collections.ids .hosts) :
    id ∈ (sortHostCollection p (B.collections.hosts.map parsed)).map fun host => host.id := by
  rw [ids_eq] at hid
  obtain ⟨host, hhost, rfl⟩ := List.mem_map.mp hid
  exact List.mem_map.mpr ⟨normalizeHostRecord (parsed host),
    mem_sortBy.mpr (List.mem_map_of_mem (List.mem_map_of_mem hhost)), rfl⟩

section Referring
variable {α : Type} [VaultRecord α] [ParsedRecord α] {refs : α → List JsString}
  {restrict : List JsString → List α → List α} {sort : List α → List α} {As Bs : List α}
  {live imported : List JsString}
  (hself : ∀ hostIds records, (∀ r ∈ records, ∀ id ∈ refs r, id ∈ hostIds) →
    restrict hostIds records = records)
  (hparsed : ∀ r : α, refs (parsed r) = refs r) (hperm : ∀ l, (sort l).Perm l)
include hself hparsed hperm

/-- A kind of record that refers to hosts: restricting it changes nothing where the hosts it
refers to are known. -/
theorem imported_referring (hB : ∀ r ∈ Bs, ∀ id ∈ refs r, id ∈ live)
    (hown : ∀ r ∈ Bs, ∀ id ∈ refs r, id ∈ imported) :
    (sort (restrict live (sort (restrict imported (Bs.map parsed))))).Perm (Bs.map parsed) := by
  have hall {hostIds : List JsString} (h : ∀ r ∈ Bs, ∀ id ∈ refs r, id ∈ hostIds) :
      ∀ r ∈ Bs.map parsed, ∀ id ∈ refs r, id ∈ hostIds := by
    intro r hr id hid
    obtain ⟨r', hr', rfl⟩ := List.mem_map.mp hr
    exact h r' hr' id (hparsed r' ▸ hid)
  rw [hself imported _ (hall hown), hself live _ fun r hr => hall hB r ((hperm _).subset hr)]
  exact (hperm _).trans (hperm _)

theorem mergesOf_referring {form : ImportedForm α p} (himported : form.imported = parsed)
    (hsort : form.sort = sort) (hA : ∀ r ∈ As, ∀ id ∈ refs r, id ∈ live)
    (hB : ∀ r ∈ Bs, ∀ id ∈ refs r, id ∈ live) (hown : ∀ r ∈ Bs, ∀ id ∈ refs r, id ∈ imported) :
    MergesOf form As Bs (mergeCollection p (sort (restrict live As))
      (sort (restrict live (sort (restrict imported (Bs.map parsed))))) sort [] .block) := by
  rw [hself live As hA]
  refine ⟨_, _, hperm As, ?_, by rw [hsort]⟩
  rw [himported]
  exact imported_referring hself hparsed hperm hB hown

end Referring

theorem exchanged_keys (hp : p.Collates) (hA : Exchangeable A) (hB : Exchangeable B) :
    MergesOf (importedKeys hp) A.collections.keys B.collections.keys
      (exchanged p A B exportedAt snapshotId exportedMs preparedMs).keys := by
  let live := (exchanged p A B exportedAt snapshotId exportedMs preparedMs).hosts.records.map
    fun host => host.id
  have hlocal : ∀ r ∈ A.collections.keys, ∀ id ∈ r.assignedHostIds, id ∈ live :=
    fun r hr id hid => exchanged_live hp hB (.inl (hA.references.keys r hr id hid))
  have hforeign : ∀ r ∈ B.collections.keys, ∀ id ∈ r.assignedHostIds, id ∈ live :=
    fun r hr id hid => exchanged_live hp hB (.inr (hB.references.keys r hr id hid))
  have hmerge := mergesOf_referring (fun _ _ => restrictKeys_eq_self) (fun _ => rfl)
    (fun _ => sortBy_perm _ _) (show (importedKeys hp).imported = parsed from rfl) (sort_keys hp)
    hlocal hforeign fun r hr id hid => imported_live (p := p) (hB.references.keys r hr id hid)
  have hdeletions : (prepareImportedDeletions p (parsedBundle (buildLocalConfigBundle p B exportedAt
      snapshotId exportedMs)) preparedMs).keys = [] := by
    rw [exchanged_deletions hB]
    rfl
  have hsame : (exchanged p A B exportedAt snapshotId exportedMs preparedMs).keys =
      mergeCollection p (sortKeys p (restrictKeys live A.collections.keys))
        (sortKeys p (restrictKeys live (sortKeys p (restrictKeys
          ((sortHostCollection p (B.collections.hosts.map parsed)).map fun host => host.id)
          (B.collections.keys.map parsed)))))
        (sortKeys p) (prepareImportedDeletions p (parsedBundle (buildLocalConfigBundle p B
          exportedAt snapshotId exportedMs)) preparedMs).keys .block := rfl
  rw [hsame, hdeletions]
  exact hmerge

theorem exchanged_snippets (hp : p.Collates) (hA : Exchangeable A) (hB : Exchangeable B) :
    MergesOf (importedSnippets hp) A.collections.snippets B.collections.snippets
      (exchanged p A B exportedAt snapshotId exportedMs preparedMs).snippets := by
  let live := (exchanged p A B exportedAt snapshotId exportedMs preparedMs).hosts.records.map
    fun host => host.id
  have hlocal : ∀ r ∈ A.collections.snippets, ∀ id ∈ r.targetHostIds, id ∈ live :=
    fun r hr id hid => exchanged_live hp hB (.inl (hA.references.snippets r hr id hid))
  have hforeign : ∀ r ∈ B.collections.snippets, ∀ id ∈ r.targetHostIds, id ∈ live :=
    fun r hr id hid => exchanged_live hp hB (.inr (hB.references.snippets r hr id hid))
  have hmerge := mergesOf_referring (fun _ _ => restrictSnippets_eq_self) (fun _ => rfl)
    (fun _ => sortBy_perm _ _) (show (importedSnippets hp).imported = parsed from rfl)
    (sort_snippets hp) hlocal hforeign
    fun r hr id hid => imported_live (p := p) (hB.references.snippets r hr id hid)
  have hdeletions : (prepareImportedDeletions p (parsedBundle (buildLocalConfigBundle p B exportedAt
      snapshotId exportedMs)) preparedMs).snippets = [] := by
    rw [exchanged_deletions hB]
    rfl
  have hsame : (exchanged p A B exportedAt snapshotId exportedMs preparedMs).snippets =
      mergeCollection p (sortSnippets p (restrictSnippets live A.collections.snippets))
        (sortSnippets p (restrictSnippets live (sortSnippets p (restrictSnippets
          ((sortHostCollection p (B.collections.hosts.map parsed)).map fun host => host.id)
          (B.collections.snippets.map parsed)))))
        (sortSnippets p) (prepareImportedDeletions p (parsedBundle (buildLocalConfigBundle p B
          exportedAt snapshotId exportedMs)) preparedMs).snippets .block := rfl
  rw [hsame, hdeletions]
  exact hmerge

theorem exchanged_knownHosts (hp : p.Collates) (hB : Exchangeable B) :
    MergesOf (importedKnownHosts hp) A.collections.knownHosts B.collections.knownHosts
      (exchanged p A B exportedAt snapshotId exportedMs preparedMs).knownHosts := by
  refine ⟨A.collections.knownHosts, sortKnownHosts p (B.collections.knownHosts.map parsed), .refl _,
    sortBy_perm _ _, ?_⟩
  rw [show (importedKnownHosts hp).sort = sortKnownHosts p from sort_knownHosts hp]
  simp only [exchanged, mergedCollections, mergePreparedCollections, exchanged_deletions hB]
  rfl

theorem exchanged_identities (hp : p.Collates) (hB : Exchangeable B) :
    MergesOf (importedIdentities hp) A.collections.identities B.collections.identities
      (exchanged p A B exportedAt snapshotId exportedMs preparedMs).identities := by
  refine ⟨A.collections.identities, sortIdentities p (B.collections.identities.map parsed), .refl _,
    sortBy_perm _ _, ?_⟩
  rw [show (importedIdentities hp).sort = sortIdentities p from sort_identities hp]
  simp only [exchanged, mergedCollections, mergePreparedCollections, exchanged_deletions hB]
  rfl

/-- The two merges of one kind. -/
theorem MergesOf.converge {α : Type} [VaultRecord α] [ParsedRecord α] {form : ImportedForm α p}
    {As Bs : List α} {mergeA mergeB : MergeResult α} (hA : MergesOf form As Bs mergeA)
    (hB : MergesOf form Bs As mergeB) (hdistinctA : (As.map VaultRecord.id).Nodup)
    (hdistinctB : (Bs.map VaultRecord.id).Nodup) (hone : OneVersion As Bs) :
    SameRecords mergeA.records mergeB.records ∧
      ((mergeA.counts.conflicts = 0 ∧ mergeB.counts.conflicts = 0) ↔
        StoredAsImported form.imported As Bs) := by
  obtain ⟨ownA, importedB, hownA, himportedB, rfl⟩ := hA
  obtain ⟨ownB, importedA, hownB, himportedA, rfl⟩ := hB
  obtain ⟨hsame, hconflicts⟩ := converge_collection (views_of_perm hdistinctA hownA himportedA)
    (views_of_perm hdistinctB hownB himportedB) hone
  refine ⟨hsame, hconflicts.trans ⟨fun h a ha b hb hid htie => ?_, fun h id a ha b hb htie => ?_⟩⟩
  · have hfoundA := byId_get?_of_nodup hdistinctA ha
    have hfoundB := byId_get?_of_nodup hdistinctB hb
    exact h _ a hfoundA b (hid ▸ hfoundB) htie
  · obtain ⟨ha, hida⟩ := byId_get?_mem ha
    obtain ⟨hb, hidb⟩ := byId_get?_mem hb
    exact h a ha b hb (hida.trans hidb.symm) htie

theorem hasConflicts_iff (m : MergedCollections) :
    m.hasConflicts = false ↔
      m.hosts.counts.conflicts = 0 ∧ m.keys.counts.conflicts = 0 ∧ m.snippets.counts.conflicts = 0 ∧
        m.knownHosts.counts.conflicts = 0 ∧ m.identities.counts.conflicts = 0 := by
  simp only [MergedCollections.hasConflicts, Bool.or_eq_false_iff, decide_eq_false_iff_not, not_lt,
    Nat.le_zero, and_assoc]

theorem hasConflicts_both {m n : MergedCollections} {hosts keys snippets knownHosts identities : Prop}
    (hhosts : (m.hosts.counts.conflicts = 0 ∧ n.hosts.counts.conflicts = 0) ↔ hosts)
    (hkeys : (m.keys.counts.conflicts = 0 ∧ n.keys.counts.conflicts = 0) ↔ keys)
    (hsnippets : (m.snippets.counts.conflicts = 0 ∧ n.snippets.counts.conflicts = 0) ↔ snippets)
    (hknownHosts : (m.knownHosts.counts.conflicts = 0 ∧ n.knownHosts.counts.conflicts = 0) ↔
      knownHosts)
    (hidentities : (m.identities.counts.conflicts = 0 ∧ n.identities.counts.conflicts = 0) ↔
      identities) :
    (m.hasConflicts = false ∧ n.hasConflicts = false) ↔
      hosts ∧ keys ∧ snippets ∧ knownHosts ∧ identities := by
  rw [hasConflicts_iff, hasConflicts_iff, ← hhosts, ← hkeys, ← hsnippets, ← hknownHosts,
    ← hidentities]
  constructor
  · rintro ⟨⟨h1, h2, h3, h4, h5⟩, g1, g2, g3, g4, g5⟩
    exact ⟨⟨h1, g1⟩, ⟨h2, g2⟩, ⟨h3, g3⟩, ⟨h4, g4⟩, h5, g5⟩
  · rintro ⟨⟨h1, g1⟩, ⟨h2, g2⟩, ⟨h3, g3⟩, ⟨h4, g4⟩, h5, g5⟩
    exact ⟨⟨h1, h2, h3, h4, h5⟩, g1, g2, g3, g4, g5⟩

/-- Two devices that merge each other's export both succeed, and end with the same records, if
and only if the records that both of them hold are stored the way an import stores them. -/
theorem merges_converge_iff (hp : p.Collates) (hvault : A.vaultId = B.vaultId)
    (hA : Exchangeable A) (hB : Exchangeable B)
    (hone : OneVersionEach A.collections B.collections)
    (exportedAtA exportedAtB snapshotIdA snapshotIdB : JsString) (exportedMsA exportedMsB : ℤ)
    (inspectedAtA inspectedAtB : ℤ) (clockA clockB : ClockReadings) :
    let bundleA := parsedBundle (buildLocalConfigBundle p A exportedAtA snapshotIdA exportedMsA)
    let bundleB := parsedBundle (buildLocalConfigBundle p B exportedAtB snapshotIdB exportedMsB)
    (∃ A' B',
      applyImportedLocalConfigBundle p A (.raw bundleB) ⟨.merge, none⟩ inspectedAtA clockA = .ok A' ∧
      applyImportedLocalConfigBundle p B (.raw bundleA) ⟨.merge, none⟩ inspectedAtB clockB = .ok B' ∧
      SameCollections A'.collections B'.collections) ↔
      EachStoredAsImported A.collections B.collections := by
  intro bundleA bundleB
  let mergeA := exchanged p A B exportedAtB snapshotIdB exportedMsB clockA.prepared
  let mergeB := exchanged p B A exportedAtA snapshotIdA exportedMsA clockB.prepared
  have hdistinctA := hA.distinct
  have hdistinctB := hB.distinct
  simp only [DistinctIds, ids_eq] at hdistinctA hdistinctB
  obtain ⟨hosts, keys, snippets, knownHosts, identities⟩ := hone
  have hhosts : _ ∧ (mergeA.hosts.counts.conflicts = 0 ∧ mergeB.hosts.counts.conflicts = 0 ↔ _) :=
    (exchanged_hosts hp hB).converge (exchanged_hosts hp hA) (hdistinctA .hosts)
      (hdistinctB .hosts) hosts
  have hkeys : _ ∧ (mergeA.keys.counts.conflicts = 0 ∧ mergeB.keys.counts.conflicts = 0 ↔ _) :=
    (exchanged_keys hp hA hB).converge (exchanged_keys hp hB hA) (hdistinctA .keys)
      (hdistinctB .keys) keys
  have hsnippets : _ ∧
      (mergeA.snippets.counts.conflicts = 0 ∧ mergeB.snippets.counts.conflicts = 0 ↔ _) :=
    (exchanged_snippets hp hA hB).converge (exchanged_snippets hp hB hA) (hdistinctA .snippets)
      (hdistinctB .snippets) snippets
  have hknownHosts : _ ∧
      (mergeA.knownHosts.counts.conflicts = 0 ∧ mergeB.knownHosts.counts.conflicts = 0 ↔ _) :=
    (exchanged_knownHosts hp hB).converge (exchanged_knownHosts hp hA) (hdistinctA .knownHosts)
      (hdistinctB .knownHosts) knownHosts
  have hidentities : _ ∧
      (mergeA.identities.counts.conflicts = 0 ∧ mergeB.identities.counts.conflicts = 0 ↔ _) :=
    (exchanged_identities hp hB).converge (exchanged_identities hp hA) (hdistinctA .identities)
      (hdistinctB .identities) identities
  have hmerged : (mergeA.hasConflicts = false ∧ mergeB.hasConflicts = false) ↔
      EachStoredAsImported A.collections B.collections :=
    hasConflicts_both hhosts.2 hkeys.2 hsnippets.2 hknownHosts.2 hidentities.2
  rw [← hmerged]
  constructor
  · rintro ⟨A', B', happlyA, happlyB, -⟩
    exact ⟨((apply_export_iff hvault _ _ _ _ _).mp happlyA).1,
      ((apply_export_iff hvault.symm _ _ _ _ _).mp happlyB).1⟩
  · rintro ⟨hnoneA, hnoneB⟩
    refine ⟨_, _, (apply_export_iff hvault _ _ _ _ _).mpr ⟨hnoneA, rfl⟩,
      (apply_export_iff hvault.symm _ _ _ _ _).mpr ⟨hnoneB, rfl⟩, ?_⟩
    exact ⟨hhosts.1, hkeys.1, hsnippets.1, hknownHosts.1, hidentities.1⟩

/-- A vault whose only record is a key without a public key file. -/
def keyState (publicKeyPath : Optional JsString) : LocalState where
  collections :=
    { hosts := []
      keys := [⟨js "k", js "Deploy", .ed25519, 256, js "SHA256:AAAA", [], js "/keys/deploy",
        publicKeyPath, .imported, false, [], js "2026-01-01T00:00:00.000Z",
        js "2026-01-01T00:00:00.000Z"⟩]
      snippets := []
      knownHosts := []
      identities := [] }
  deletions := emptyDeletionMap
  vaultId := js "v"
  deviceId := js "d"
  lastAppliedSnapshotId := none
  activeHostId := none

theorem keyState_exchangeable (publicKeyPath : Optional JsString) :
    Exchangeable (keyState publicKeyPath) where
  distinct kind := by cases kind <;> simp [keyState, ids_eq]
  references := by constructor <;> simp [keyState]
  deletions := rfl

/-- The two devices have the same key, if one of them lists the missing path as undefined. -/
theorem keyState_oneVersion {left right : Optional JsString}
    (h : reparseOptional left = reparseOptional right) :
    OneVersionEach (keyState left).collections (keyState right).collections := by
  refine ⟨fun a ha => absurd ha List.not_mem_nil, ?_, fun a ha => absurd ha List.not_mem_nil,
    fun a ha => absurd ha List.not_mem_nil, fun a ha => absurd ha List.not_mem_nil⟩
  intro a ha b hb _ _
  rw [List.mem_singleton.mp ha, List.mem_singleton.mp hb]
  simp [parsed, h]

/-- Both devices have imported the key. -/
theorem merges_converge_imported :
    ∃ A' B',
      applyImportedLocalConfigBundle datesPlatform (keyState .absent)
        (.raw (parsedBundle (buildLocalConfigBundle datesPlatform (keyState .absent)
          (js "2026-01-02") (js "s") 0))) ⟨.merge, none⟩ 0 ⟨0, 0⟩ = .ok A' ∧
      applyImportedLocalConfigBundle datesPlatform (keyState .absent)
        (.raw (parsedBundle (buildLocalConfigBundle datesPlatform (keyState .absent)
          (js "2026-01-02") (js "t") 0))) ⟨.merge, none⟩ 0 ⟨0, 0⟩ = .ok B' ∧
      SameCollections A'.collections B'.collections := by
  have hstored : EachStoredAsImported (keyState .absent).collections
      (keyState .absent).collections := by
    refine ⟨fun a ha => absurd ha List.not_mem_nil, ?_, fun a ha => absurd ha List.not_mem_nil,
      fun a ha => absurd ha List.not_mem_nil, fun a ha => absurd ha List.not_mem_nil⟩
    intro a ha b hb _ _
    rw [List.mem_singleton.mp ha, List.mem_singleton.mp hb]
    exact ⟨rfl, rfl⟩
  have hiff := merges_converge_iff datesPlatform_collates rfl (keyState_exchangeable .absent)
    (keyState_exchangeable .absent) (keyState_oneVersion rfl) (js "2026-01-02") (js "2026-01-02")
    (js "t") (js "s") 0 0 0 0 ⟨0, 0⟩ ⟨0, 0⟩
  exact hiff.mpr hstored

/-- One device has created the key and the other has imported it: the first refuses to merge
the second's export of the same key. -/
theorem not_every_exchange_converges :
    ¬ ∀ (p : Platform) (A B : LocalState) (exportedAtA exportedAtB snapshotIdA snapshotIdB : JsString)
      (exportedMsA exportedMsB inspectedAtA inspectedAtB : ℤ) (clockA clockB : ClockReadings),
      p.Collates → A.vaultId = B.vaultId → Exchangeable A → Exchangeable B →
      OneVersionEach A.collections B.collections →
      ∃ A' B',
        applyImportedLocalConfigBundle p A (.raw (parsedBundle (buildLocalConfigBundle p B
          exportedAtB snapshotIdB exportedMsB))) ⟨.merge, none⟩ inspectedAtA clockA = .ok A' ∧
        applyImportedLocalConfigBundle p B (.raw (parsedBundle (buildLocalConfigBundle p A
          exportedAtA snapshotIdA exportedMsA))) ⟨.merge, none⟩ inspectedAtB clockB = .ok B' ∧
        SameCollections A'.collections B'.collections := by
  intro h
  obtain ⟨A', -, hA', -, -⟩ := h datesPlatform (keyState .undefined) (keyState .absent)
    (js "2026-01-02") (js "2026-01-02") (js "s") (js "t") 0 0 0 0 ⟨0, 0⟩ ⟨0, 0⟩
    datesPlatform_collates rfl (keyState_exchangeable .undefined) (keyState_exchangeable .absent)
    (keyState_oneVersion rfl)
  have hnone := ((apply_export_iff rfl _ _ _ _ _).mp hA').1
  exact absurd hnone (by decide +kernel)

end Devices

end LocalConfig
