import TerminalWorkspace.VaultStores.Accounts

/-! The runs of the vault, in which every record that goes leaves a tombstone. An import that
replaces the vault starts its account anew. -/
namespace VaultStores
open JsText Inventory LocalConfig Ledgers Runs

/-- A tombstone that a compaction looks at, if it has not expired. -/
def Dated (p : Platform) (e : VaultDeletionEntry) : Prop :=
  e.id ≠ [] ∧ e.deletedAt ≠ [] ∧ ∃ ms, p.dateParse e.deletedAt = some ms

def Expired (p : Platform) (now : ℤ) (e : VaultDeletionEntry) : Prop :=
  ∃ ms, p.dateParse e.deletedAt = some ms ∧ ms < now - tombstoneRetentionMs

/-- No id is both live and deleted, and none is empty. -/
structure Consistent (s : LocalState) : Prop where
  named : ∀ kind, [] ∉ s.collections.ids kind
  apart : ∀ kind id, id ∈ s.collections.ids kind → id ∉ tombstoneIds s.deletions kind

structure InAccount (p : Platform) (s : LocalState) : Prop extends Consistent s where
  dated : ∀ kind, ∀ e ∈ s.deletions.of kind, Dated p e

section Compaction
variable {p : Platform} {now : ℤ} {entries : List VaultDeletionEntry} {e : VaultDeletionEntry}

theorem Dated.retained_or (h : Dated p e) (now : ℤ) : retained p now e = true ∨ Expired p now e := by
  obtain ⟨hid, hdeletedAt, ms, hms⟩ := h
  by_cases hlate : now - tombstoneRetentionMs ≤ ms
  · left
    simp [retained, hid, hdeletedAt, hms, hlate]
  · exact .inr ⟨ms, hms, not_le.mp hlate⟩

theorem dated_of_retained (h : retained p now e = true) : Dated p e := by
  unfold retained at h
  simp only [Bool.and_eq_true, decide_eq_true_eq] at h
  obtain ⟨⟨hid, hdeletedAt⟩, hparse⟩ := h
  cases hms : p.dateParse e.deletedAt with
  | none =>
    rw [hms] at hparse
    cases hparse
  | some ms => exact ⟨hid, hdeletedAt, ms, hms⟩

theorem dated_of_compacted (h : e ∈ compactDeletionEntries p entries now) : Dated p e :=
  dated_of_retained (compactDeletionEntries_retained h)

/-- A compaction keeps a tombstone for every id that has one which it looks at, up to the cap. -/
theorem compacted_or_atCap (he : e ∈ entries) (hretained : retained p now e = true) :
    (∃ v ∈ compactDeletionEntries p entries now, v.id = e.id) ∨
      (compactDeletionEntries p entries now).length = tombstoneMaxEntriesPerKind := by
  obtain ⟨v, hv, -⟩ := hasLater_latestEntries (List.mem_filter.mpr ⟨he, hretained⟩)
  have hmem := OrderedMap.get?_mem (Option.mem_def.mp hv)
  have hid : v.id = e.id := keyed_latestEntries _ _ hmem
  have hsorted : v ∈ sortDeletionEntries p (latestEntries (entries.filter (retained p now))).values :=
    mem_sortBy.mpr (List.mem_map_of_mem (f := Prod.snd) hmem)
  unfold compactDeletionEntries
  by_cases hlength : tombstoneMaxEntriesPerKind ≤
      (sortDeletionEntries p (latestEntries (entries.filter (retained p now))).values).length
  · exact .inr (List.length_take_of_le hlength)
  · rw [List.take_of_length_le (not_le.mp hlength).le]
    exact .inl ⟨v, hsorted, hid⟩

/-- And where the list is short and names no id twice, it keeps the tombstone itself. -/
theorem mem_compacted (hdistinct : (entries.map (·.id)).Nodup)
    (hlength : entries.length ≤ tombstoneMaxEntriesPerKind) (he : e ∈ entries)
    (hretained : retained p now e = true) : e ∈ compactDeletionEntries p entries now := by
  have hfiltered : ((entries.filter (retained p now)).map (·.id)).Nodup :=
    hdistinct.sublist (List.filter_sublist.map _)
  have hvalues : (latestEntries (entries.filter (retained p now))).values =
      entries.filter (retained p now) := by
    rw [OrderedMap.values, latestEntries_of_nodup hfiltered, List.map_map]
    exact List.map_id _
  unfold compactDeletionEntries
  rw [hvalues, List.take_of_length_le]
  · exact mem_sortBy.mpr (List.mem_filter.mpr ⟨he, hretained⟩)
  · rw [sortDeletionEntries, (sortBy_perm _ _).length_eq]
    exact (List.length_filter_le _ _).trans hlength

end Compaction

section Shedding

/-- The tombstones that a step brings. -/
def VaultStep.tombstones (kind : VaultSyncEntityKind) : VaultStep → List VaultDeletionEntry
  | .act reading a =>
    ((marked a).filter fun x => x.1 = kind).toList.map fun x => ⟨x.2, reading.now⟩
  | .importBundle input _ _ _ => (input.bundle.deletions.getD emptyDeletionMap).of kind

/-- The times at which a step compacts the tombstones. -/
def VaultStep.clocks : VaultStep → List ℤ
  | .act reading _ => [reading.nowMs]
  | .importBundle _ _ _ clock => [clock.prepared, clock.stored]

def VaultStep.replaces : VaultStep → Prop
  | .act _ _ => False
  | .importBundle _ options _ _ => options.mode = .replace

def Live (s : Stores) (x : VaultSyncEntityKind × JsString) : Prop := x.2 ∈ s.collections.ids x.1

def Deleted (s : Stores) (x : VaultSyncEntityKind × JsString) : Prop :=
  x.2 ∈ tombstoneIds s.deletions x.1

def Lapsed (p : Platform) (st : VaultStep) (e : VaultDeletionEntry) : Prop :=
  ∃ now ∈ st.clocks, Expired p now e

/-- The last trace of a record goes: its kind has as many tombstones as it may have, or one of its
tombstones has expired, and with it any later one. -/
def Shed (p : Platform) (s : Stores) (st : VaultStep) (x : VaultSyncEntityKind × JsString) : Prop :=
  let entries := s.deletions.of x.1 ++ st.tombstones x.1
  let s' := vaultStep p s st
  ¬ Live s' x ∧ ¬ Deleted s' x ∧ ∃ e ∈ entries, e.id = x.2 ∧
    ((s'.deletions.of x.1).length = tombstoneMaxEntriesPerKind ∨
      Lapsed p st e ∧ ∀ e' ∈ entries, e'.id = x.2 →
        before e.deletedAt e'.deletedAt → Lapsed p st e')

/-- The clock reads one time, the ids drawn are new, and a bundle is the export of a consistent
state. -/
def Faithful (p : Platform) (s : Stores) : VaultStep → Prop
  | .act reading a =>
    reading.now ≠ [] ∧ p.dateParse reading.now = some reading.nowMs ∧ FreshIds s a
  | .importBundle input _ _ _ =>
    ∃ (exporter : LocalState) (e : ExportReading),
      input.bundle = ownExport p exporter e ∧ Consistent exporter

/-- The updates and the sample data are as the pages use them. -/
def Orderly (p : Platform) (s : Stores) (st : VaultStep) : Prop :=
  Faithful p s st ∧ match st with
    | .act _ a => Addressed s a
    | .importBundle _ _ _ _ => True

end Shedding

section Acts
variable {p : Platform} {reading : Reading} {s s' : Stores} {a : StoreAction} {c : Change}
  {kind : VaultSyncEntityKind} {id : JsString}

theorem mem_tombstoneIds {deletions : VaultDeletionMap} :
    id ∈ tombstoneIds deletions kind ↔ ∃ e ∈ deletions.of kind, e.id = id := List.mem_map

theorem of_markDeleted (k : VaultSyncEntityKind) :
    (s.markDeleted p kind id reading).deletions.of k =
      if k = kind then compactDeletionEntries p
        (upsertDeletionEntry p (s.deletions.of kind) id reading.now) reading.nowMs
      else s.deletions.of k := of_put _ _ _ _

theorem mem_upsertDeletionEntry {entries : List VaultDeletionEntry} {now : JsString}
    {e : VaultDeletionEntry} :
    e ∈ upsertDeletionEntry p entries id now ↔ e = ⟨id, now⟩ ∨ e ∈ entries ∧ e.id ≠ id := by
  rw [upsertDeletionEntry, sortDeletionEntries, mem_sortBy, List.mem_cons, List.mem_filter,
    decide_eq_true_eq]

theorem Changes.inAccount (h : InAccount p s.toLocalState) (hc : Changes p reading s s' c)
    (hbalanced : Balanced s a c) : InAccount p s'.toLocalState := by
  cases c with
  | keep =>
    obtain ⟨hids, hdeletions⟩ := hc
    refine ⟨⟨fun k hk => h.named k ((hids k _).mp hk), fun k id hid => ?_⟩, ?_⟩
    · rw [hdeletions]
      exact h.apart k id ((hids k id).mp hid)
    · rw [hdeletions]
      exact h.dated
  | write kind gained cleared =>
    obtain ⟨hids, hdeletions⟩ := hc
    refine ⟨⟨fun k hk => ?_, fun k id hid hdeleted => ?_⟩, fun k e he => ?_⟩
    · rcases (hids k _).mp hk with hold | ⟨-, hnew⟩
      · exact h.named k hold
      · exact (hbalanced.1 _ hnew).1 rfl
    · rw [hdeletions] at hdeleted
      obtain ⟨e, he, rfl⟩ := mem_tombstoneIds.mp hdeleted
      obtain ⟨hmem, hnot⟩ := mem_clearDeleted.mp he
      rcases (hids k _).mp hid with hold | ⟨rfl, hnew⟩
      · exact h.apart k e.id hold (List.mem_map_of_mem hmem)
      · rcases (hbalanced.1 _ hnew).2 with hsame | hfree
        · exact hnot ⟨rfl, hsame⟩
        · exact hfree (List.mem_map_of_mem hmem)
    · rw [hdeletions] at he
      exact h.dated k e (mem_clearDeleted.mp he).1
  | remove kind gone =>
    obtain ⟨hids, hdeletions⟩ := hc
    refine ⟨⟨fun k hk => h.named k ((hids k _).mp hk).1, fun k id hid hdeleted => ?_⟩,
      fun k e he => ?_⟩
    · obtain ⟨hold, hne⟩ := (hids k id).mp hid
      rw [hdeletions] at hdeleted
      obtain ⟨e, he, rfl⟩ := mem_tombstoneIds.mp hdeleted
      rw [of_markDeleted] at he
      split_ifs at he with hk
      · rcases mem_upsertDeletionEntry.mp (compactDeletionEntries_subset he) with rfl | ⟨hmem, -⟩
        · exact hne ⟨hk, rfl⟩
        · exact h.apart k e.id hold (hk ▸ List.mem_map_of_mem hmem)
      · exact h.apart k e.id hold (List.mem_map_of_mem he)
    · rw [hdeletions, of_markDeleted] at he
      split_ifs at he
      · exact dated_of_compacted he
      · exact h.dated k e he
  | adopt generateId =>
    obtain ⟨-, hids, hdeletions⟩ := hc
    refine ⟨⟨fun k hk => ?_, fun k id hid => ?_⟩, ?_⟩
    · rcases hids k _ hk with hold | ⟨-, n, hn⟩
      · exact h.named k hold
      · exact (hbalanced n).1 hn.symm
    · rw [hdeletions]
      rcases hids k id hid with hold | ⟨rfl, n, rfl⟩
      · exact h.apart k id hold
      · exact (hbalanced n).2
    · rw [hdeletions]
      exact h.dated
  | reseed =>
    obtain ⟨hids, hdeletions⟩ := hc
    refine ⟨⟨fun k hk => ?_, fun k id hid hdeleted => ?_⟩, fun k e he => ?_⟩
    · have hsample := (hids k _).mp hk
      split_ifs at hsample
      · exact absurd hsample (by decide +kernel)
      · exact h.named k hsample
    · obtain ⟨e, he, rfl⟩ := mem_tombstoneIds.mp hdeleted
      obtain ⟨hmem, hnot⟩ := (hdeletions k e).mp he
      have hsample := (hids k _).mp hid
      split_ifs at hsample with hk
      · exact hnot ⟨hk, hsample⟩
      · exact h.apart k e.id hsample (List.mem_map_of_mem hmem)
    · exact h.dated k e ((hdeletions k e).mp he).1

theorem lapsed_of_not_retained {e : VaultDeletionEntry} (h : Dated p e)
    (hnot : retained p reading.nowMs e ≠ true) : Lapsed p (.act reading a) e :=
  ⟨reading.nowMs, List.mem_singleton_self _, (h.retained_or _).resolve_left hnot⟩

/-- A deletion compacts the tombstones of its kind, the new one with them. -/
theorem keeps_remove (h : InAccount p s.toLocalState) (hread : reading.now ≠ [])
    (hparse : p.dateParse reading.now = some reading.nowMs) {gone : JsString}
    (hc : Changes p reading s (s.perform p reading a) (.remove kind gone))
    (hmarked : marked a = some (kind, gone)) :
    KeepsAccount (vaultStep p) Live Deleted (Shed p) s (.act reading a) := by
  obtain ⟨hids, hdeletions⟩ := hc
  rintro ⟨k, id⟩ hx
  by_cases hlive : Live (s.perform p reading a) (k, id)
  · exact .inl hlive
  by_cases hdeleted : Deleted (s.perform p reading a) (k, id)
  · exact .inr (.inl hdeleted)
  refine .inr (.inr ⟨hlive, hdeleted, ?_⟩)
  have hk : k = kind := by
    by_contra hne
    rcases hx with hlive' | hdeleted'
    · exact hlive ((hids k id).mpr ⟨hlive', fun hsame => hne hsame.1⟩)
    · refine hdeleted ?_
      show id ∈ ((s.perform p reading a).deletions.of k).map (·.id)
      rw [hdeletions, of_markDeleted, if_neg hne]
      exact hdeleted'
  subst hk
  have hcompacted : (s.perform p reading a).deletions.of k = compactDeletionEntries p
      (upsertDeletionEntry p (s.deletions.of k) gone reading.now) reading.nowMs := by
    rw [hdeletions, of_markDeleted, if_pos rfl]
  have hlost {e : VaultDeletionEntry} (hid : e.id = id)
      (he : e ∈ upsertDeletionEntry p (s.deletions.of k) gone reading.now)
      (hretained : retained p reading.nowMs e = true) :
      ((s.perform p reading a).deletions.of k).length = tombstoneMaxEntriesPerKind := by
    rw [hcompacted]
    refine (compacted_or_atCap he hretained).resolve_left ?_
    rintro ⟨v, hv, hsame⟩
    refine hdeleted (mem_tombstoneIds.mpr ⟨v, ?_, hsame.trans hid⟩)
    rwa [hcompacted]
  have hbrought : (VaultStep.act reading a).tombstones k = [⟨gone, reading.now⟩] := by
    simp [VaultStep.tombstones, hmarked]
  rw [hbrought]
  by_cases hgone : id = gone
  · -- the new tombstone cannot have expired
    subst hgone
    have hne : id ≠ [] := by
      rcases hx with hlive' | hdeleted'
      · exact fun hempty => h.named k (hempty ▸ hlive')
      · obtain ⟨e, he, rfl⟩ := mem_tombstoneIds.mp hdeleted'
        exact (h.dated k e he).1
    refine ⟨⟨id, reading.now⟩, List.mem_append_right _ (List.mem_singleton_self _), rfl, .inl ?_⟩
    refine hlost (e := ⟨id, reading.now⟩) rfl (mem_upsertDeletionEntry.mpr (.inl rfl)) ?_
    have hcutoff : reading.nowMs - tombstoneRetentionMs ≤ reading.nowMs := by
      unfold tombstoneRetentionMs
      omega
    simp [retained, hne, hread, hparse, hcutoff]
  · have hdeleted' : Deleted s (k, id) := by
      refine hx.resolve_left fun hlive' => hlive ((hids k id).mpr ⟨hlive', ?_⟩)
      exact fun hsame => hgone hsame.2
    obtain ⟨e, he, hid⟩ := mem_tombstoneIds.mp hdeleted'
    have hupsert {e : VaultDeletionEntry} (he : e ∈ s.deletions.of k) (hid : e.id = id) :
        e ∈ upsertDeletionEntry p (s.deletions.of k) gone reading.now :=
      mem_upsertDeletionEntry.mpr (.inr ⟨he, fun hsame => hgone (hid.symm.trans hsame)⟩)
    refine ⟨e, List.mem_append_left _ he, hid, ?_⟩
    by_cases hcap : ((s.perform p reading a).deletions.of k).length = tombstoneMaxEntriesPerKind
    · exact .inl hcap
    · have hlapsed {e : VaultDeletionEntry} (he : e ∈ s.deletions.of k) (hid : e.id = id) :
          Lapsed p (.act reading a) e :=
        lapsed_of_not_retained (h.dated k e he) fun hretained =>
          hcap (hlost hid (hupsert he hid) hretained)
      refine .inr ⟨hlapsed he hid, fun e' he' hid' _ => ?_⟩
      rcases List.mem_append.mp he' with hold | hnew
      · exact hlapsed hold hid'
      · obtain rfl := List.mem_singleton.mp hnew
        exact absurd hid'.symm hgone

theorem Changes.keeps (h : InAccount p s.toLocalState) (hread : reading.now ≠ [])
    (hparse : p.dateParse reading.now = some reading.nowMs)
    (hc : Changes p reading s (s.perform p reading a) c) (hbalanced : Balanced s a c) :
    KeepsAccount (vaultStep p) Live Deleted (Shed p) s (.act reading a) := by
  cases c with
  | remove kind gone => exact keeps_remove h hread hparse hc hbalanced
  | keep =>
    obtain ⟨hids, hdeletions⟩ := hc
    rintro ⟨k, id⟩ (hlive | hdeleted)
    · exact .inl ((hids k id).mpr hlive)
    · refine .inr (.inl ?_)
      show id ∈ tombstoneIds (s.perform p reading a).deletions k
      rwa [hdeletions]
  | write kind gained cleared =>
    obtain ⟨hids, hdeletions⟩ := hc
    rintro ⟨k, id⟩ (hlive | hdeleted)
    · exact .inl ((hids k id).mpr (.inl hlive))
    · by_cases hcleared : k = kind ∧ id = cleared
      · obtain ⟨rfl, rfl⟩ := hcleared
        exact .inl ((hids k id).mpr ((hbalanced.2 hdeleted).imp_right fun hnew => ⟨rfl, hnew⟩))
      · obtain ⟨e, he, rfl⟩ := mem_tombstoneIds.mp hdeleted
        refine .inr (.inl (mem_tombstoneIds.mpr ⟨e, ?_, rfl⟩))
        show e ∈ (s.perform p reading a).deletions.of k
        rw [hdeletions]
        exact mem_clearDeleted.mpr ⟨he, hcleared⟩
  | adopt generateId =>
    obtain ⟨hids, -, hdeletions⟩ := hc
    rintro ⟨k, id⟩ (hlive | hdeleted)
    · exact .inl (hids k id hlive)
    · refine .inr (.inl ?_)
      show id ∈ tombstoneIds (s.perform p reading a).deletions k
      rwa [hdeletions]
  | reseed =>
    obtain ⟨hids, hdeletions⟩ := hc
    rintro ⟨k, id⟩ (hlive | hdeleted)
    · refine .inl ((hids k id).mpr ?_)
      split_ifs with hk
      · exact hbalanced id (hk ▸ hlive)
      · exact hlive
    · by_cases hsample : k = .hosts ∧ id ∈ sampleHostIds
      · exact .inl ((hids k id).mpr ((if_pos hsample.1).symm ▸ hsample.2))
      · obtain ⟨e, he, rfl⟩ := mem_tombstoneIds.mp hdeleted
        exact .inr (.inl (mem_tombstoneIds.mpr ⟨e, (hdeletions k e).mpr ⟨he, hsample⟩, rfl⟩))

end Acts

section Imports
variable {p : Platform} {s : Stores} {exporter after : LocalState} {e : ExportReading}
  {input : ImportInput} {options : ApplyOptions} {inspectedAt : ℤ} {clock : ClockReadings}
  {kind : VaultSyncEntityKind} {id : JsString}

theorem mem_preparedIds {bundle : LocalConfigBundle} :
    id ∈ (prepareImportedCollections p bundle).ids kind ↔ id ∈ bundle.collections.ids kind := by
  rw [ids_eq, ids_eq]
  cases kind with
  | hosts => exact mem_map_sortHosts
  | keys =>
    refine mem_map_sortBy.trans ?_
    rw [restrictKeys, List.map_map]
    exact Iff.rfl
  | snippets =>
    refine mem_map_sortBy.trans ?_
    rw [restrictSnippets, List.map_map]
    exact Iff.rfl
  | knownHosts => exact mem_map_sortBy
  | identities => exact mem_map_sortBy

/-- A merge brings no id of its own, and what it removes has an imported tombstone. -/
theorem mergedIds (own imported : Collections) (deletions : VaultDeletionMap)
    (resolution : ConflictResolution) :
    (id ∈ (mergePreparedCollections p own imported deletions resolution).records.ids kind →
      id ∈ own.ids kind ∨ id ∈ imported.ids kind) ∧
    (id ∈ own.ids kind →
      id ∉ (mergePreparedCollections p own imported deletions resolution).records.ids kind →
      ∃ e ∈ deletions.of kind, e.id = id) := by
  have hmerge {α : Type} [VaultRecord α] {ownRecords importedRecords : List α}
      {sort : List α → List α} {entries : List VaultDeletionEntry} {ownIds importedIds : List JsString}
      (hsort : ∀ l id, id ∈ (sort l).map VaultRecord.id ↔ id ∈ l.map VaultRecord.id)
      (hown : id ∈ ownRecords.map VaultRecord.id ↔ id ∈ ownIds)
      (himported : id ∈ importedRecords.map VaultRecord.id ↔ id ∈ importedIds) :
      (id ∈ (mergeCollection p ownRecords importedRecords sort entries
          resolution).records.map VaultRecord.id → id ∈ ownIds ∨ id ∈ importedIds) ∧
        (id ∈ ownIds → id ∉ (mergeCollection p ownRecords importedRecords sort entries
          resolution).records.map VaultRecord.id → ∃ e ∈ entries, e.id = id) := by
    rw [mem_merge_ids hsort, hown, himported]
    refine ⟨And.left, fun hmem hnot => ?_⟩
    obtain ⟨-, r, deletion, -, hdeletion, -⟩ := not_not.mp fun hdropped => hnot ⟨.inl hmem, hdropped⟩
    rw [OrderedMap.get?_ofList] at hdeletion
    obtain ⟨entry, hentry, hpair⟩ := List.mem_map.mp (OrderedMap.lastFor_mem hdeletion)
    exact ⟨entry, hentry, (Prod.mk.inj hpair).1⟩
  have hkeys (hostIds : List JsString) (keys : List KeyRecord) :
      id ∈ (sortKeys p (restrictKeys hostIds keys)).map VaultRecord.id ↔
        id ∈ keys.map VaultRecord.id := by
    refine mem_map_sortBy.trans ?_
    rw [restrictKeys, List.map_map]
    exact Iff.rfl
  have hsnippets (hostIds : List JsString) (snippets : List SnippetRecord) :
      id ∈ (sortSnippets p (restrictSnippets hostIds snippets)).map VaultRecord.id ↔
        id ∈ snippets.map VaultRecord.id := by
    refine mem_map_sortBy.trans ?_
    rw [restrictSnippets, List.map_map]
    exact Iff.rfl
  rw [ids_eq, ids_eq own, ids_eq imported]
  cases kind with
  | hosts => exact hmerge (fun _ _ => mem_map_sortHosts) Iff.rfl Iff.rfl
  | keys => exact hmerge (fun _ _ => mem_map_sortBy) (hkeys _ _) (hkeys _ _)
  | snippets => exact hmerge (fun _ _ => mem_map_sortBy) (hsnippets _ _) (hsnippets _ _)
  | knownHosts => exact hmerge (fun _ _ => mem_map_sortBy) Iff.rfl Iff.rfl
  | identities => exact hmerge (fun _ _ => mem_map_sortBy) Iff.rfl Iff.rfl

/-- The tombstones that a successful import stores. -/
theorem apply_deletions (kind : VaultSyncEntityKind) {state : LocalState}
    (h : applyImportedLocalConfigBundle p state input options inspectedAt clock = .ok after) :
    after.deletions.of kind = match options.mode with
      | .replace => compactDeletionEntries p
          ((prepareImportedDeletions p input.bundle clock.prepared).of kind) clock.stored
      | .merge => compactDeletionEntries p (mergeDeletionEntries p (state.deletions.of kind)
          ((prepareImportedDeletions p input.bundle clock.prepared).of kind)
          (after.collections.ids kind)) clock.stored := by
  obtain ⟨imported, hbundle, himported⟩ := applyImported_eq_ok h
  rw [(applyPreparedImport_eq_ok himported).2, hbundle, compactDeletionMap_of]
  cases options.mode <;> cases kind <;> rfl

theorem preparedDeletions_ownExport :
    (prepareImportedDeletions p (ownExport p exporter e) clock.prepared).of kind =
      compactDeletionEntries p (compactDeletionEntries p (exporter.deletions.of kind)
        e.exportedMs) clock.prepared := by
  cases kind <;> rfl

theorem bundleDeletions_ownExport :
    ((ownExport p exporter e).deletions.getD emptyDeletionMap).of kind =
      compactDeletionEntries p (exporter.deletions.of kind) e.exportedMs := by
  cases kind <;> rfl

/-- A tombstone that an export brings is one of the exporting state. -/
theorem prepared_subset {entry : VaultDeletionEntry}
    (h : entry ∈ (prepareImportedDeletions p (ownExport p exporter e) clock.prepared).of kind) :
    entry ∈ exporter.deletions.of kind := by
  rw [preparedDeletions_ownExport] at h
  exact compactDeletionEntries_subset (compactDeletionEntries_subset h)

theorem inAccount_applied {state : LocalState} (hstate : InAccount p state)
    (hexporter : Consistent exporter) (hinput : input.bundle = ownExport p exporter e)
    (h : applyImportedLocalConfigBundle p state input options inspectedAt clock = .ok after) :
    InAccount p after := by
  have hexported {kind : VaultSyncEntityKind} {id : JsString}
      (hid : id ∈ (prepareImportedCollections p input.bundle).ids kind) :
      id ∈ exporter.collections.ids kind := by
    rw [mem_preparedIds, hinput, ids_ownExport] at hid
    exact hid
  have hcollections := apply_collections h
  have hdeletions (kind : VaultSyncEntityKind) := apply_deletions kind h
  refine ⟨⟨fun kind hnamed => ?_, fun kind id hid hdeleted => ?_⟩, fun kind entry hentry => ?_⟩
  · rw [hcollections] at hnamed
    cases hmode : options.mode with
    | replace =>
      rw [hmode] at hnamed
      exact hexporter.named kind (hexported hnamed)
    | merge =>
      rw [hmode] at hnamed
      rcases (mergedIds _ _ _ _).1 hnamed with hown | himported
      · exact hstate.named kind hown
      · exact hexporter.named kind (hexported himported)
  · obtain ⟨entry, hentry, rfl⟩ := mem_tombstoneIds.mp hdeleted
    rw [hdeletions kind] at hentry
    cases hmode : options.mode with
    | replace =>
      rw [hmode] at hentry
      rw [hcollections, hmode] at hid
      have hmem := compactDeletionEntries_subset hentry
      rw [hinput] at hmem
      exact hexporter.apart kind entry.id (hexported hid)
        (List.mem_map_of_mem (prepared_subset hmem))
    | merge =>
      rw [hmode] at hentry
      exact mergeDeletionEntries_dead (compactDeletionEntries_subset hentry) hid
  · rw [hdeletions kind] at hentry
    cases hmode : options.mode with
    | replace =>
      rw [hmode] at hentry
      exact dated_of_compacted hentry
    | merge =>
      rw [hmode] at hentry
      exact dated_of_compacted hentry

/-- Of a tombstone that is looked at in a merge, one at least as late is stored, or it is lost to
the cap or to the retention period. -/
theorem merged_or_shed (clock : ClockReadings) {own imported : List VaultDeletionEntry}
    {live : List JsString} {entry : VaultDeletionEntry} (hown : ∀ e ∈ own, Dated p e)
    (himported : ∀ e ∈ imported, Dated p e)
    (hentry : entry ∈ own ++ imported) (hdead : entry.id ∉ live) :
    (∃ v ∈ compactDeletionEntries p (mergeDeletionEntries p own imported live) clock.stored,
        v.id = entry.id) ∨
      ∃ v ∈ own ++ imported, v.id = entry.id ∧
        ((compactDeletionEntries p (mergeDeletionEntries p own imported live) clock.stored).length =
            tombstoneMaxEntriesPerKind ∨
          Expired p clock.stored v ∧
            ∀ e ∈ own ++ imported, e.id = entry.id → before v.deletedAt e.deletedAt = false) := by
  have hlatest {e : VaultDeletionEntry} (he : e ∈ own ++ imported) (hid : e.id = entry.id) :
      HasLater (latestEntries ((own ++ imported).filter fun entry => entry.id ∉ live)) e := by
    refine hasLater_latestEntries (List.mem_filter.mpr ⟨he, decide_eq_true ?_⟩)
    rwa [hid]
  obtain ⟨v, hv, -⟩ := hlatest hentry rfl
  have hget := Option.mem_def.mp hv
  have hmem := OrderedMap.get?_mem hget
  have hid : v.id = entry.id := keyed_latestEntries _ _ hmem
  have hmerged : v ∈ mergeDeletionEntries p own imported live :=
    mem_sortBy.mpr (List.mem_map_of_mem (f := Prod.snd) hmem)
  have hv' : v ∈ own ++ imported :=
    List.mem_of_mem_filter (latestEntries_values (List.mem_map_of_mem (f := Prod.snd) hmem))
  have hdated : Dated p v := (List.mem_append.mp hv').elim (hown v) (himported v)
  rcases hdated.retained_or clock.stored with hretained | hexpired
  · rcases compacted_or_atCap hmerged hretained with ⟨w, hw, hsame⟩ | hcap
    · exact .inl ⟨w, hw, hsame.trans hid⟩
    · exact .inr ⟨v, hv', hid, .inl hcap⟩
  · refine .inr ⟨v, hv', hid, .inr ⟨hexpired, fun e he hsame => ?_⟩⟩
    obtain ⟨w, hw, hlater⟩ := hlatest he hsame
    rw [Option.mem_def, hsame, hget] at hw
    obtain rfl := Option.some.inj hw
    exact hlater

/-- A merge that succeeds keeps account. -/
theorem keeps_merge (hstate : InAccount p s.toLocalState) (hinput : input.bundle = ownExport p exporter e)
    (hmode : options.mode = .merge)
    (h : applyImportedLocalConfigBundle p s.toLocalState input options inspectedAt clock = .ok after) :
    KeepsAccount (vaultStep p) Live Deleted (Shed p) s
      (.importBundle input options inspectedAt clock) := by
  have hstep : vaultStep p s (.importBundle input options inspectedAt clock) =
      { after with migrationCompleted := s.migrationCompleted } := by
    simp only [vaultStep, h]
  have hmerged : after.collections = (mergedCollections p s.toLocalState input.bundle
      options.conflictResolution clock.prepared).records := by
    simpa only [hmode] using apply_collections h
  rintro ⟨kind, id⟩ hx
  by_cases hlive : id ∈ after.collections.ids kind
  · refine .inl ?_
    show id ∈ (vaultStep p s _).collections.ids kind
    rwa [hstep]
  by_cases hdeleted : id ∈ tombstoneIds after.deletions kind
  · refine .inr (.inl ?_)
    show id ∈ tombstoneIds (vaultStep p s _).deletions kind
    rwa [hstep]
  have hdeletions := apply_deletions kind h
  rw [hmode] at hdeletions
  simp only at hdeletions
  have hprepared : (prepareImportedDeletions p input.bundle clock.prepared).of kind =
      compactDeletionEntries p (compactDeletionEntries p (exporter.deletions.of kind)
        e.exportedMs) clock.prepared := by
    rw [hinput, preparedDeletions_ownExport]
  have hbrought : (VaultStep.importBundle input options inspectedAt clock).tombstones kind =
      compactDeletionEntries p (exporter.deletions.of kind) e.exportedMs := by
    show ((input.bundle.deletions.getD emptyDeletionMap).of kind) = _
    rw [hinput, bundleDeletions_ownExport]
  rw [hprepared] at hdeletions
  -- a record that the merge removes has an imported tombstone
  obtain ⟨entry, hentry, rfl⟩ : ∃ entry ∈ s.deletions.of kind ++ compactDeletionEntries p
      (compactDeletionEntries p (exporter.deletions.of kind) e.exportedMs) clock.prepared,
      entry.id = id := by
    rcases hx with hwas | hwas
    · have hnot : id ∉ (mergedCollections p s.toLocalState input.bundle
          options.conflictResolution clock.prepared).records.ids kind := by
        rwa [← hmerged]
      obtain ⟨entry, hentry, hid⟩ := (mergedIds _ _ _ _).2 hwas hnot
      rw [hprepared] at hentry
      exact ⟨entry, List.mem_append_right _ hentry, hid⟩
    · obtain ⟨entry, hentry, hid⟩ := mem_tombstoneIds.mp hwas
      exact ⟨entry, List.mem_append_left _ hentry, hid⟩
  have hshed := (merged_or_shed clock (hstate.dated kind)
    (fun _ he => dated_of_compacted he) hentry hlive).resolve_left (by
      rintro ⟨v, hv, hid⟩
      exact hdeleted (mem_tombstoneIds.mpr ⟨v, hdeletions ▸ hv, hid⟩))
  obtain ⟨v, hv, hid, hlost⟩ := hshed
  have hsub {e' : VaultDeletionEntry} (he' : e' ∈ s.deletions.of kind ++ compactDeletionEntries p
      (compactDeletionEntries p (exporter.deletions.of kind) e.exportedMs) clock.prepared) :
      e' ∈ s.deletions.of kind ++ compactDeletionEntries p (exporter.deletions.of kind)
        e.exportedMs :=
    List.mem_append.mpr ((List.mem_append.mp he').imp_right fun hm => compactDeletionEntries_subset hm)
  refine .inr (.inr ⟨?_, ?_, v, ?_, hid, ?_⟩)
  · show entry.id ∉ (vaultStep p s _).collections.ids kind
    rwa [hstep]
  · show entry.id ∉ tombstoneIds (vaultStep p s _).deletions kind
    rwa [hstep]
  · rw [hbrought]
    exact hsub hv
  · rcases hlost with hcap | ⟨hexpired, hlatest⟩
    · left
      rw [hstep]
      exact hdeletions ▸ hcap
    · right
      refine ⟨⟨clock.stored, by simp [VaultStep.clocks], hexpired⟩, fun e' he' hid' hbefore => ?_⟩
      rw [hbrought] at he'
      have hnot : e' ∉ s.deletions.of kind ++ compactDeletionEntries p (compactDeletionEntries p
          (exporter.deletions.of kind) e.exportedMs) clock.prepared := fun hmem => by
        rw [hlatest e' hmem hid'] at hbefore
        cases hbefore
      rw [List.mem_append, not_or] at hnot
      have hforeign := (List.mem_append.mp he').resolve_left hnot.1
      refine ⟨clock.prepared, by simp [VaultStep.clocks], ?_⟩
      refine ((dated_of_compacted hforeign).retained_or _).resolve_left fun hretained => hnot.2 ?_
      exact mem_compacted (compactDeletionEntries_ids_nodup _ _) (List.length_take_le _ _) hforeign
        hretained

end Imports

section Runs
variable {p : Platform} {s : Stores}

theorem inAccount_step {st : VaultStep} (h : InAccount p s.toLocalState) (horderly : Orderly p s st) :
    InAccount p (vaultStep p s st).toLocalState := by
  obtain ⟨hfaithful, haddressed⟩ := horderly
  cases st with
  | act reading a =>
    obtain ⟨-, -, hfresh⟩ := hfaithful
    obtain ⟨c, hc, hbalanced⟩ := perform_changes p reading hfresh haddressed
    exact hc.inAccount h hbalanced
  | importBundle input options inspectedAt clock =>
    obtain ⟨exporter, e, hinput, hexporter⟩ := hfaithful
    simp only [vaultStep]
    cases happly : applyImportedLocalConfigBundle p s.toLocalState input options inspectedAt
      clock with
    | error _ => exact h
    | ok after => exact inAccount_applied h hexporter hinput happly

theorem keepsAccount_step {st : VaultStep} (h : InAccount p s.toLocalState)
    (horderly : Orderly p s st) (hreplaces : ¬ st.replaces) :
    KeepsAccount (vaultStep p) Live Deleted (Shed p) s st := by
  obtain ⟨hfaithful, haddressed⟩ := horderly
  cases st with
  | act reading a =>
    obtain ⟨hread, hparse, hfresh⟩ := hfaithful
    obtain ⟨c, hc, hbalanced⟩ := perform_changes p reading hfresh haddressed
    exact hc.keeps h hread hparse hbalanced
  | importBundle input options inspectedAt clock =>
    obtain ⟨exporter, e, hinput, -⟩ := hfaithful
    cases happly : applyImportedLocalConfigBundle p s.toLocalState input options inspectedAt
      clock with
    | error _ =>
      have hsame : vaultStep p s (.importBundle input options inspectedAt clock) = s := by
        simp only [vaultStep, happly]
      rintro x hx
      rw [hsame]
      exact hx.imp_right .inl
    | ok after =>
      refine keeps_merge h hinput ?_ happly
      cases hmode : options.mode with
      | replace => exact absurd hmode hreplaces
      | merge => rfl

theorem inAccount_sample (p : Platform) (vaultId deviceId : JsString) :
    InAccount p (sampleStores p vaultId deviceId).toLocalState := by
  refine ⟨⟨fun kind => ?_, fun kind id _ => ?_⟩, fun kind e he => ?_⟩
  · rw [ids_eq]
    cases kind with
    | hosts => exact fun h => absurd (mem_map_sortHosts.mp h) (by decide +kernel)
    | keys => exact fun h => absurd (mem_map_sortBy.mp h) (by decide +kernel)
    | snippets => exact fun h => absurd (mem_map_sortBy.mp h) (by decide +kernel)
    | knownHosts => exact fun h => absurd (mem_map_sortBy.mp h) (by decide +kernel)
    | identities => exact fun h => absurd (mem_map_sortBy.mp h) (by decide +kernel)
  · cases kind <;> exact List.not_mem_nil
  · cases kind <;> cases he

/-- Over every orderly run no id is both live and deleted; and what was live since the vault was
last replaced, and is not live now, is deleted, but for what was shed. -/
theorem deletions_run {vaultId deviceId : JsString} {steps : List VaultStep}
    (h : Allowed (vaultStep p) (Orderly p) (sampleStores p vaultId deviceId) steps) :
    let final := run (vaultStep p) (sampleStores p vaultId deviceId) steps
    (∀ x, ¬ (Live final x ∧ Deleted final x)) ∧
      ∀ x, WasLive (vaultStep p) Live VaultStep.replaces (sampleStores p vaultId deviceId) steps x →
        Live final x ∨ Deleted final x ∨
          ShedSince (vaultStep p) Live (Shed p) (sampleStores p vaultId deviceId) steps x := by
  have hstep : ∀ (s : Stores) (st : VaultStep), InAccount p s.toLocalState → Orderly p s st →
      InAccount p (vaultStep p s st).toLocalState := fun _ _ hs => inAccount_step hs
  have hinit := inAccount_sample p vaultId deviceId
  have hfinal : InAccount p
      (run (vaultStep p) (sampleStores p vaultId deviceId) steps).toLocalState :=
    run_invariant hstep hinit h
  refine ⟨fun x hx => hfinal.apart x.1 x.2 hx.1 hx.2, fun x hx => ?_⟩
  exact accounted_run hstep (fun _ _ hs ho hr => keepsAccount_step hs ho hr) hinit h hx

/-- A sample host is deleted. -/
def deletesOne : List VaultStep :=
  [.act ⟨js "1970-01-01T00:00:00.000Z", 0⟩ (.deleteHost (js "billing-api"))]

theorem deletions_deletesOne :
    let start := sampleStores datesPlatform (js "v") (js "d")
    let final := run (vaultStep datesPlatform) start deletesOne
    (∀ x, ¬ (Live final x ∧ Deleted final x)) ∧
      ∀ x, WasLive (vaultStep datesPlatform) Live VaultStep.replaces start deletesOne x →
        Live final x ∨ Deleted final x ∨
          ShedSince (vaultStep datesPlatform) Live (Shed datesPlatform) start deletesOne x :=
  deletions_run ⟨⟨⟨by decide, by decide, trivial⟩, trivial⟩, trivial⟩

/-- A vault without records. -/
def emptyVault : LocalState where
  collections := ⟨[], [], [], [], []⟩
  deletions := emptyDeletionMap
  vaultId := js "w"
  deviceId := js "e"
  lastAppliedSnapshotId := none
  activeHostId := none

def emptyImport : ImportInput :=
  .inspected
    { bundle := ownExport datesPlatform emptyVault ⟨js "1970-01-01T00:00:00.000Z", js "s", 0⟩
      analysis := ⟨.adoptVault, none⟩ }

/-- The sample hosts are replaced by none, and leave no tombstone. -/
theorem not_every_deletion_marked :
    ¬ ∀ (p : Platform) (vaultId deviceId : JsString) (steps : List VaultStep),
      let start := sampleStores p vaultId deviceId
      let final := run (vaultStep p) start steps
      Allowed (vaultStep p) (Faithful p) start steps →
      (∀ x, ¬ (Live final x ∧ Deleted final x)) ∧
        ∀ x, WasLive (vaultStep p) Live (fun _ => False) start steps x →
          Live final x ∨ Deleted final x ∨ ShedSince (vaultStep p) Live (Shed p) start steps x := by
  intro h
  let st : VaultStep := .importBundle emptyImport ⟨.replace, none⟩ 0 ⟨0, 0⟩
  have hempty : Consistent emptyVault := by
    refine ⟨fun kind => ?_, fun kind id hid => ?_⟩
    · cases kind <;> exact List.not_mem_nil
    · cases kind <;> cases hid
  have hwas : Live (sampleStores datesPlatform (js "v") (js "d")) (.hosts, js "prod-gateway") := by
    unfold Live
    decide +kernel
  have hgone : (vaultStep datesPlatform (sampleStores datesPlatform (js "v") (js "d"))
      st).collections.ids .hosts = [] := by decide +kernel
  have hunmarked : tombstoneIds (vaultStep datesPlatform
      (sampleStores datesPlatform (js "v") (js "d")) st).deletions .hosts = [] := by decide +kernel
  have hend := (h datesPlatform (js "v") (js "d") [st]
    ⟨⟨emptyVault, _, rfl, hempty⟩, trivial⟩).2 (.hosts, js "prod-gateway")
    ⟨[], [st], rfl, fun _ _ => not_false, hwas⟩
  rcases hend with hlive | hdeleted | ⟨first, st', rest, hsteps, hshed, -⟩
  · change js "prod-gateway" ∈ (vaultStep datesPlatform _ st).collections.ids .hosts at hlive
    rw [hgone] at hlive
    exact List.not_mem_nil hlive
  · change js "prod-gateway" ∈ tombstoneIds (vaultStep datesPlatform _ st).deletions .hosts at hdeleted
    rw [hunmarked] at hdeleted
    exact List.not_mem_nil hdeleted
  · obtain ⟨rfl, rfl, rfl⟩ : first = [] ∧ st' = st ∧ rest = [] := by
      cases first with
      | nil =>
        obtain ⟨rfl, rfl⟩ := List.cons.inj hsteps
        exact ⟨rfl, rfl, rfl⟩
      | cons _ first => simp at hsteps
    obtain ⟨-, -, e, he, -⟩ := hshed
    exact List.not_mem_nil he

end Runs
end VaultStores
