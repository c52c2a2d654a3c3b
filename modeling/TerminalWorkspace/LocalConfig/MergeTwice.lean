import TerminalWorkspace.Inventory.Compaction
import TerminalWorkspace.LocalConfig.FinalForm
import TerminalWorkspace.LocalConfig.Resurrection

/-! Merging the same bundle twice. After one merge every id of the bundle has reached the
outcome that a second merge gives it; the tombstones follow unless a local one that is
dropped at the end has kept an imported one out. -/
namespace LocalConfig
open JsText Inventory

section Collection
variable {α : Type} [VaultRecord α]

variable {p : Platform} {form : FinalForm α p} {resolution : ConflictResolution}

/-- The record that a merge has taken from the import is unchanged in the next. -/
theorem mergeOne_self (i : α) (deletion : Option VaultDeletionEntry) :
    mergeOne p resolution (some i) (some i) deletion = .unchanged i := by
  simp [mergeOne]

/-- The same outcome, as far as the records and the conflicts of a second merge go. -/
def Settled (form : FinalForm α p) (resolution : ConflictResolution) (i : Option α)
    (deletion : Option VaultDeletionEntry) (first : Outcome α) : Prop :=
  let second := mergeOne p resolution (first.record.map form.normalize) i deletion
  second.record = first.record.map form.normalize ∧
    (first.isConflict = false → second.isConflict = false)

/-- What one merge has decided, the next one decides again. -/
theorem mergeOne_twice {l i : Option α} {deletion : Option VaultDeletionEntry}
    (hi : ∀ r ∈ i, form.normalize r = r) :
    Settled form resolution i deletion (mergeOne p resolution l i deletion) := by
  have htaken (i : α) (hi : form.normalize i = i) :
      Settled form resolution (some i) deletion (.added i) := by
    simp [Settled, Outcome.record, hi, mergeOne_self, Outcome.isConflict]
  cases l with
  | none =>
    cases i with
    | none => exact ⟨rfl, fun _ => rfl⟩
    | some i => exact htaken i (hi i rfl)
  | some l =>
    cases i with
    | none =>
      cases deletion with
      | none => exact ⟨rfl, fun _ => rfl⟩
      | some deletion =>
        simp only [mergeOne]
        split_ifs with hdeleted hkept hprefer
        · exact ⟨rfl, fun _ => rfl⟩
        · simp [Settled, mergeOne, Outcome.record, form.normalize_updatedAt, hdeleted, hkept,
            Outcome.isConflict]
        · exact ⟨rfl, by rintro ⟨⟩⟩
        · simp [Settled, mergeOne, Outcome.record, form.normalize_updatedAt, hdeleted, hkept,
            hprefer, Outcome.isConflict]
    | some i =>
      have hi := hi i rfl
      rw [mergeOne_both]
      split_ifs with hsame himported hlocal hprefer
      · have hl := form.normal_of_serialize l i hi hsame
        simp [Settled, Outcome.record, hl, mergeOne_both, hsame, Outcome.isConflict]
      · exact htaken i hi
      · by_cases hserial : stableSerialize p (VaultRecord.toJson (form.normalize l)) =
            stableSerialize p (VaultRecord.toJson i)
        all_goals
          simp [Settled, Outcome.record, mergeOne_both, form.normalize_updatedAt, himported,
            hlocal, hserial, Outcome.isConflict]
      · exact ⟨(htaken i hi).1, by rintro ⟨⟩⟩
      · by_cases hserial : stableSerialize p (VaultRecord.toJson (form.normalize l)) =
            stableSerialize p (VaultRecord.toJson i)
        all_goals
          simp [Settled, Outcome.record, mergeOne_both, form.normalize_updatedAt, himported,
            hlocal, hprefer, hserial, Outcome.isConflict]

section Twice
variable {localRecords importedRecords : List α} {deletions : List VaultDeletionEntry}

/-- Every id of the import has a record after the merge. -/
theorem outcomeOf_imported {id : JsString} (h : id ∈ importedRecords.map VaultRecord.id) :
    (outcomeOf p resolution localRecords importedRecords deletions id).record.isSome := by
  obtain ⟨i, hi⟩ := Option.isSome_iff_exists.mp (byId_get?_isSome_iff.mpr h)
  unfold outcomeOf
  rw [hi]
  cases (byId localRecords).get? id with
  | none => rfl
  | some l =>
    rw [mergeOne_both]
    split_ifs <;> rfl

/-- So every id of the import is kept. -/
theorem imported_kept {id : JsString} (h : id ∈ importedRecords.map VaultRecord.id) :
    id ∈ (mergeCollection p localRecords importedRecords form.sort deletions
      resolution).records.map VaultRecord.id := by
  have hkept : (outcomeOf p resolution localRecords importedRecords deletions id).record.isSome :=
    outcomeOf_imported h
  obtain ⟨r, hr⟩ := Option.isSome_iff_exists.mp hkept
  obtain ⟨rfl, -⟩ := outcomeOf_record hr
  exact List.mem_map.mpr ⟨form.normalize r,
    mem_sortBy.mpr (List.mem_map_of_mem (mem_joined.mpr hr)), form.normalize_id r⟩

variable (form resolution localRecords deletions)
  (himported : ∀ i ∈ importedRecords, form.normalize i = i)
include himported

/-- The outcome of an id in the second merge. -/
theorem outcomeOf_twice (id : JsString) :
    let merged := form.sort (joined p resolution localRecords importedRecords deletions)
    Settled form resolution ((byId importedRecords).get? id)
        ((OrderedMap.ofList (deletions.map fun entry => (entry.id, entry))).get? id)
        (outcomeOf p resolution localRecords importedRecords deletions id) ∧
      outcomeOf p resolution merged importedRecords deletions id =
        mergeOne p resolution ((outcomeOf p resolution localRecords importedRecords deletions
          id).record.map form.normalize) ((byId importedRecords).get? id)
          ((OrderedMap.ofList (deletions.map fun entry => (entry.id, entry))).get? id) := by
  constructor
  · refine mergeOne_twice fun r hr => ?_
    exact himported r (byId_get?_mem hr).1
  · rw [outcomeOf, byId_sort_joined]

theorem joined_twice :
    let merged := form.sort (joined p resolution localRecords importedRecords deletions)
    joined p resolution merged importedRecords deletions = merged := by
  intro merged
  have hnodup : (merged.map VaultRecord.id).Nodup := sort_nodup joined_nodup
  have hids : allIds (byId merged) (byId importedRecords) = merged.map VaultRecord.id := by
    rw [allIds, byId_keys_of_nodup hnodup]
    have hnew : ((byId importedRecords).keys.filter fun id => id ∉ merged.map VaultRecord.id) =
        [] := by
      refine List.filter_eq_nil_iff.mpr fun id hid => ?_
      rw [mem_byId_keys] at hid
      have hfound : ((byId merged).get? id).isSome := by
        rw [byId_sort_joined, Option.isSome_map]
        exact outcomeOf_imported hid
      simpa using byId_get?_isSome_iff.mp hfound
    rw [hnew, List.append_nil]
  have hrecord (r : α) (hr : r ∈ merged) :
      (outcomeOf p resolution merged importedRecords deletions (VaultRecord.id r)).record =
        some r := by
    obtain ⟨hsettled, houtcome⟩ := outcomeOf_twice form resolution localRecords deletions himported
      (VaultRecord.id r)
    rw [houtcome, hsettled.1, ← byId_sort_joined]
    exact byId_get?_of_nodup hnodup hr
  rw [joined, hids, List.filterMap_map]
  exact (List.filterMap_congr fun r hr => hrecord r hr).trans List.filterMap_some

/-- A second merge keeps the records of the first in their order, and has no conflict if the
first had none. -/
theorem mergeCollection_twice :
    let first := mergeCollection p localRecords importedRecords form.sort deletions resolution
    let second := mergeCollection p first.records importedRecords form.sort deletions resolution
    second.records = first.records ∧
      (first.counts.conflicts = 0 → second.counts.conflicts = 0) := by
  intro first second
  constructor
  · simp only [second, first, mergeCollection_records]
    rw [joined_twice form resolution localRecords deletions himported, sort_idem]
  · rw [conflicts_eq_zero_iff, conflicts_eq_zero_iff]
    intro hfirst id
    obtain ⟨hsettled, houtcome⟩ := outcomeOf_twice form resolution localRecords deletions himported id
    rw [mergeCollection_records, houtcome]
    exact hsettled.2 (hfirst id)

end Twice
end Collection

section Collections
variable {p : Platform}

theorem map_eq_self {α : Type*} {f : α → α} {l : List α} (h : ∀ a ∈ l, f a = a) : l.map f = l := by
  conv_rhs => rw [← List.map_id l]
  exact List.map_congr_left h

/-- A second merge of records that were both times put in order after `f`. -/
theorem prepared_twice {α : Type} [VaultRecord α] (hp : p.Collates) {f : α → α}
    (hf : ∀ r, f (f r) = f r) (ls is : List α) (deletions : List VaultDeletionEntry)
    (resolution : ConflictResolution) :
    let form := sortedForm hp α
    let merged (records : List α) := mergeCollection p (form.sort (records.map f))
      (form.sort (is.map f)) form.sort deletions resolution
    (merged (merged ls).records).records = (merged ls).records ∧
      ((merged ls).counts.conflicts = 0 → (merged (merged ls).records).counts.conflicts = 0) := by
  intro form merge
  let merged := merge ls
  have hfixed : ∀ r ∈ merged.records, f r = r := by
    intro r hr
    obtain ⟨r', hjoined, rfl⟩ := List.mem_map.mp (mem_sortBy.mp hr)
    have hsides := (outcomeOf_record (mem_joined.mp hjoined)).2
    have hside (side : List α) (h : r' ∈ form.sort (side.map f)) : f r' = r' := by
      obtain ⟨r'', hprepared, hr''⟩ := List.mem_map.mp (mem_sortBy.mp h)
      obtain ⟨r₀, -, rfl⟩ := List.mem_map.mp hprepared
      rw [← hr'']
      exact hf r₀
    exact hsides.elim (hside ls) (hside is)
  have hsorted : form.sort (merged.records.map f) = merged.records := by
    rw [map_eq_self hfixed]
    exact sort_idem
  have hagain : merge merged.records =
      mergeCollection p merged.records (form.sort (is.map f)) form.sort deletions resolution :=
    congrArg (fun records => mergeCollection p records (form.sort (is.map f)) form.sort deletions
      resolution) hsorted
  rw [show merge (merge ls).records = _ from hagain]
  exact mergeCollection_twice form resolution _ deletions fun _ _ => rfl

/-- What `restrictKeys` does to one key. -/
def restrictKey (hostIds : List JsString) (key : KeyRecord) : KeyRecord :=
  { key with assignedHostIds := key.assignedHostIds.filter (· ∈ hostIds) }

def restrictSnippet (hostIds : List JsString) (snippet : SnippetRecord) : SnippetRecord :=
  { snippet with targetHostIds := snippet.targetHostIds.filter (· ∈ hostIds) }

section Restrict
variable {hostIds known : List JsString}

theorem filter_known_congr (h : ∀ id, id ∈ hostIds ↔ id ∈ known) (ids : List JsString) :
    ids.filter (· ∈ hostIds) = ids.filter (· ∈ known) :=
  List.filter_congr fun id _ => decide_eq_decide.mpr (h id)

theorem filter_known_again (h : hostIds ⊆ known) (ids : List JsString) :
    (ids.filter (· ∈ hostIds)).filter (· ∈ known) = ids.filter (· ∈ hostIds) :=
  List.filter_eq_self.mpr fun _ hid =>
    decide_eq_true (h (of_decide_eq_true (List.mem_filter.mp hid).2))

theorem restrictKey_congr (h : ∀ id, id ∈ hostIds ↔ id ∈ known) (key : KeyRecord) :
    restrictKey hostIds key = restrictKey known key := by
  rw [restrictKey, filter_known_congr h, restrictKey]

theorem restrictSnippet_congr (h : ∀ id, id ∈ hostIds ↔ id ∈ known) (snippet : SnippetRecord) :
    restrictSnippet hostIds snippet = restrictSnippet known snippet := by
  rw [restrictSnippet, filter_known_congr h, restrictSnippet]

/-- A further restriction to hosts among which the first ones are changes nothing. -/
theorem restrictKey_again (h : hostIds ⊆ known) (key : KeyRecord) :
    restrictKey known (restrictKey hostIds key) = restrictKey hostIds key := by
  rw [restrictKey, restrictKey, filter_known_again h]

theorem restrictSnippet_again (h : hostIds ⊆ known) (snippet : SnippetRecord) :
    restrictSnippet known (restrictSnippet hostIds snippet) = restrictSnippet hostIds snippet := by
  rw [restrictSnippet, restrictSnippet, filter_known_again h]

end Restrict

theorem restrictKey_idem (hostIds : List JsString) (key : KeyRecord) :
    restrictKey hostIds (restrictKey hostIds key) = restrictKey hostIds key := by
  simp [restrictKey]

theorem restrictSnippet_idem (hostIds : List JsString) (snippet : SnippetRecord) :
    restrictSnippet hostIds (restrictSnippet hostIds snippet) =
      restrictSnippet hostIds snippet := by
  simp [restrictSnippet]

/-- The second merge of all collections keeps what the first has made of them. -/
theorem mergePrepared_twice (hp : p.Collates) {locals imported : Collections}
    (himported : ∀ host ∈ imported.hosts, normalizeHostRecord host = host)
    (deletions : VaultDeletionMap) (resolution : ConflictResolution) :
    let first := mergePreparedCollections p locals imported deletions resolution
    let second := mergePreparedCollections p first.records imported deletions resolution
    second.records = first.records ∧
      (first.hasConflicts = false → second.hasConflicts = false) := by
  intro first second
  have hhosts := mergeCollection_twice (hostForm hp) resolution locals.hosts deletions.hosts
    himported
  have hids : second.hosts.records.map (·.id) = first.hosts.records.map (·.id) :=
    congrArg (List.map fun host : HostRecord => host.id) hhosts.1
  have hkeys : second.keys.records = first.keys.records ∧
      (first.keys.counts.conflicts = 0 → second.keys.counts.conflicts = 0) := by
    have htwice := prepared_twice hp (restrictKey_idem (first.hosts.records.map (·.id))) locals.keys
      imported.keys deletions.keys resolution
    simp only [sort_keys] at htwice
    have hsecond : second.keys = mergeCollection p
        (sortKeys p (restrictKeys (second.hosts.records.map (·.id)) first.keys.records))
        (sortKeys p (restrictKeys (second.hosts.records.map (·.id)) imported.keys)) (sortKeys p)
        deletions.keys resolution := rfl
    rw [hsecond, hids]
    exact htwice
  have hsnippets : second.snippets.records = first.snippets.records ∧
      (first.snippets.counts.conflicts = 0 → second.snippets.counts.conflicts = 0) := by
    have htwice := prepared_twice hp (restrictSnippet_idem (first.hosts.records.map (·.id)))
      locals.snippets imported.snippets deletions.snippets resolution
    simp only [sort_snippets] at htwice
    have hsecond : second.snippets = mergeCollection p
        (sortSnippets p (restrictSnippets (second.hosts.records.map (·.id)) first.snippets.records))
        (sortSnippets p (restrictSnippets (second.hosts.records.map (·.id)) imported.snippets))
        (sortSnippets p) deletions.snippets resolution := rfl
    rw [hsecond, hids]
    exact htwice
  have hknownHosts := mergeCollection_twice (sortedForm hp KnownHostRecord) resolution
    locals.knownHosts deletions.knownHosts (fun i (_ : i ∈ imported.knownHosts) => rfl)
  rw [sort_knownHosts] at hknownHosts
  have hidentities := mergeCollection_twice (sortedForm hp IdentityRecord) resolution
    locals.identities deletions.identities (fun i (_ : i ∈ imported.identities) => rfl)
  rw [sort_identities] at hidentities
  constructor
  · simp only [MergedCollections.records]
    rw [show second.hosts.records = _ from hhosts.1, hkeys.1, hsnippets.1,
      show second.knownHosts.records = _ from hknownHosts.1,
      show second.identities.records = _ from hidentities.1]
    rfl
  · intro hnone
    simp only [MergedCollections.hasConflicts, Bool.or_eq_false_iff, decide_eq_false_iff_not,
      not_lt, Nat.le_zero] at hnone ⊢
    obtain ⟨⟨⟨⟨h1, h2⟩, h3⟩, h4⟩, h5⟩ := hnone
    exact ⟨⟨⟨⟨hhosts.2 h1, hkeys.2 h2⟩, hsnippets.2 h3⟩, hknownHosts.2 h4⟩, hidentities.2 h5⟩

end Collections

section Tombstones
variable {p : Platform}

/-- A local tombstone that is not earlier, as a string, than an imported one for the same
dead id is neither dropped by compaction nor sorted behind it. -/
def Unshadowed (p : Platform) (now : ℤ) (locals imported : List VaultDeletionEntry)
    (live : List JsString) : Prop :=
  ∀ e ∈ locals, ∀ i ∈ imported, e.id = i.id → e.id ∉ live →
    before e.deletedAt i.deletedAt = false → retained p now e = true ∧ sortedBefore p e i

variable {locals imported : List VaultDeletionEntry} {live : List JsString} {now : ℤ}

theorem mergeDeletionEntries_ids_nodup :
    ((mergeDeletionEntries p locals imported live).map (·.id)).Nodup :=
  sort_ids_nodup (latestEntries_ids_nodup _)

theorem compact_merged (hp : p.Collates) :
    compactDeletionEntries p (mergeDeletionEntries p locals imported live) now =
      ((mergeDeletionEntries p locals imported live).filter (retained p now)).take
        tombstoneMaxEntriesPerKind :=
  compactDeletionEntries_of_sorted mergeDeletionEntries_ids_nodup
    (sortDeletionEntries_pairwise hp _) now

/-- The merged entry for the id of an imported tombstone is at least as late. -/
theorem exists_merged (p : Platform) (locals : List VaultDeletionEntry) {i : VaultDeletionEntry}
    (hi : i ∈ imported) (hdead : i.id ∉ live) :
    ∃ e ∈ mergeDeletionEntries p locals imported live, e.id = i.id ∧ e ∈ locals ++ imported ∧
      before e.deletedAt i.deletedAt = false := by
  have hlist : i ∈ (locals ++ imported).filter fun entry => entry.id ∉ live :=
    List.mem_filter.mpr ⟨List.mem_append_right _ hi, decide_eq_true hdead⟩
  obtain ⟨e, he, hlater⟩ := hasLater_latestEntries hlist
  have hentry := OrderedMap.get?_mem (Option.mem_def.mp he)
  have hvalue := List.mem_map_of_mem (f := Prod.snd) hentry
  exact ⟨e, mem_sortBy.mpr hvalue, keyed_latestEntries _ _ hentry,
    List.mem_of_mem_filter (latestEntries_values hvalue), hlater⟩

theorem merged_latest {e i : VaultDeletionEntry}
    (he : e ∈ mergeDeletionEntries p locals imported live) (hi : i ∈ imported)
    (hid : i.id = e.id) : before e.deletedAt i.deletedAt = false := by
  obtain ⟨e', he', hid', -, hlater⟩ := exists_merged p locals hi
    (hid ▸ mergeDeletionEntries_dead he)
  have hsame : e' = e :=
    List.inj_on_of_nodup_map mergeDeletionEntries_ids_nodup he' he (hid'.trans hid)
  exact hsame ▸ hlater

section Stored
variable (hp : p.Collates) (himported : ∀ i ∈ imported, retained p now i = true)
  (hnodup : (imported.map (·.id)).Nodup)

/-- What a merge stores of the tombstones. -/
def storedDeletions (p : Platform) (now : ℤ) (locals imported : List VaultDeletionEntry)
    (live : List JsString) : List VaultDeletionEntry :=
  compactDeletionEntries p (mergeDeletionEntries p locals imported live) now

/-- The imported tombstones that a merge has not stored. -/
def missing (p : Platform) (now : ℤ) (locals imported : List VaultDeletionEntry)
    (live : List JsString) : List VaultDeletionEntry :=
  (imported.filter fun i => i.id ∉ live).filter
    fun i => i.id ∉ (storedDeletions p now locals imported live).map (·.id)

include hp in
theorem storedDeletions_merged {e : VaultDeletionEntry}
    (he : e ∈ storedDeletions p now locals imported live) :
    e ∈ mergeDeletionEntries p locals imported live := by
  rw [storedDeletions, compact_merged hp] at he
  exact List.mem_of_mem_filter (List.mem_of_mem_take he)

include hp in
theorem storedDeletions_sorted :
    (storedDeletions p now locals imported live).Pairwise (sortedBefore p) := by
  rw [storedDeletions, compact_merged hp]
  exact ((sortDeletionEntries_pairwise hp _).sublist List.filter_sublist).sublist
    (List.take_sublist _ _)

include hp hnodup in
/-- A second merge looks at what the first has stored and at what it has not. -/
theorem latest_storedDeletions :
    (latestEntries ((storedDeletions p now locals imported live ++ imported).filter fun e =>
      e.id ∉ live)).values =
      storedDeletions p now locals imported live ++ missing p now locals imported live := by
  have hids := compactDeletionEntries_ids_nodup (p := p)
    (mergeDeletionEntries p locals imported live) now
  have hdead : ((storedDeletions p now locals imported live).filter fun e => e.id ∉ live) =
      storedDeletions p now locals imported live :=
    List.filter_eq_self.mpr fun e he =>
      decide_eq_true (mergeDeletionEntries_dead (storedDeletions_merged hp he))
  have hentries := latestEntries_of_nodup hids
  rw [← storedDeletions] at hentries
  have hkeys : (latestEntries (storedDeletions p now locals imported live)).keys =
      (storedDeletions p now locals imported live).map (·.id) := by
    rw [OrderedMap.keys, hentries, List.map_map]
    rfl
  have hlater : ∀ i ∈ imported.filter fun i => i.id ∉ live,
      i.id ∈ (latestEntries (storedDeletions p now locals imported live)).keys →
      HasLater (latestEntries (storedDeletions p now locals imported live)) i := by
    intro i hi hkey
    obtain ⟨e, he⟩ := Option.isSome_iff_exists.mp (OrderedMap.mem_keys_iff.mp hkey)
    have hentry := OrderedMap.get?_mem he
    rw [hentries] at hentry
    obtain ⟨e', he', heq⟩ := List.mem_map.mp hentry
    obtain ⟨hid, rfl⟩ := Prod.mk.inj heq
    exact ⟨e', he, merged_latest (storedDeletions_merged hp he') (List.mem_of_mem_filter hi)
      hid.symm⟩
  rw [List.filter_append, hdead, latestEntries, List.foldl_append, ← latestEntries,
    OrderedMap.values, foldl_keepLatest_entries (hnodup.sublist (List.filter_sublist.map _)) hlater,
    hentries, hkeys, missing]
  simp [Function.comp_def]

variable (h : Unshadowed p now locals imported live)

include hp himported hnodup h in
/-- A missing tombstone has been cut off by an entry that is sorted before it. -/
theorem missing_behind {i : VaultDeletionEntry} (hi : i ∈ missing p now locals imported live) :
    (storedDeletions p now locals imported live).length = tombstoneMaxEntriesPerKind ∧
      ∀ e ∈ storedDeletions p now locals imported live, sortedBefore p e i := by
  obtain ⟨hi, hnew⟩ := List.mem_filter.mp hi
  obtain ⟨hi, hdead⟩ := List.mem_filter.mp hi
  have hdead := of_decide_eq_true hdead
  have hnew := of_decide_eq_true hnew
  obtain ⟨e, he, hid, hside, hlater⟩ := exists_merged p locals hi hdead
  have htotal := total_sortedBefore hp
  have hshadow : retained p now e = true ∧ sortedBefore p e i := by
    rcases List.mem_append.mp hside with hlocal | hown
    · exact h e hlocal i hi hid (hid ▸ hdead) hlater
    · obtain rfl := List.inj_on_of_nodup_map hnodup hown hi hid
      exact ⟨himported e hi, refl_of (sortedBefore p) e⟩
  let kept := (mergeDeletionEntries p locals imported live).filter (retained p now)
  have hstored : storedDeletions p now locals imported live = kept.take tombstoneMaxEntriesPerKind :=
    compact_merged hp
  have hkept : e ∈ kept := List.mem_filter.mpr ⟨he, hshadow.1⟩
  have hcut : e ∈ kept.drop tombstoneMaxEntriesPerKind := by
    rw [← List.take_append_drop tombstoneMaxEntriesPerKind kept, List.mem_append] at hkept
    refine hkept.resolve_left fun htaken => hnew ?_
    rw [hstored, ← hid]
    exact List.mem_map_of_mem htaken
  have hsorted : kept.Pairwise (sortedBefore p) :=
    (sortDeletionEntries_pairwise hp _).sublist List.filter_sublist
  constructor
  · have hlength := List.length_pos_of_mem hcut
    rw [List.length_drop] at hlength
    rw [hstored, List.length_take]
    omega
  · intro a ha
    rw [← List.take_append_drop tombstoneMaxEntriesPerKind kept] at hsorted
    have hbefore := (List.pairwise_append.mp hsorted).2.2 a (hstored ▸ ha) e hcut
    exact (trans_sortedBefore hp).trans _ _ _ hbefore hshadow.2

include hp himported hnodup h in
theorem storedDeletions_twice :
    storedDeletions p now (storedDeletions p now locals imported live) imported live =
      storedDeletions p now locals imported live := by
  have hbehind : ∀ a ∈ storedDeletions p now locals imported live,
      ∀ b ∈ missing p now locals imported live, sortedBefore p a b :=
    fun a ha b hb => (missing_behind hp himported hnodup h hb).2 a ha
  have hmerged : mergeDeletionEntries p (storedDeletions p now locals imported live) imported live =
      storedDeletions p now locals imported live ++
        sortDeletionEntries p (missing p now locals imported live) := by
    rw [mergeDeletionEntries, latest_storedDeletions hp hnodup,
      sortDeletionEntries_append (storedDeletions_sorted hp) hbehind]
  have hretained : ∀ e ∈ storedDeletions p now locals imported live ++
      sortDeletionEntries p (missing p now locals imported live), retained p now e = true := by
    intro e he
    rcases List.mem_append.mp he with he | he
    · exact compactDeletionEntries_retained he
    · rw [sortDeletionEntries, mem_sortBy] at he
      exact himported e (List.mem_of_mem_filter (List.mem_of_mem_filter he))
  conv_lhs => rw [storedDeletions, compact_merged hp, hmerged, List.filter_eq_self.mpr hretained]
  cases hmissing : missing p now locals imported live with
  | nil =>
    have hlength : (storedDeletions p now locals imported live).length ≤
        tombstoneMaxEntriesPerKind := by
      rw [storedDeletions, compact_merged hp]
      exact List.length_take_le _ _
    simpa [sortDeletionEntries, sortBy] using hlength
  | cons i rest =>
    have hfull := (missing_behind hp himported hnodup h (hmissing ▸ List.mem_cons_self)).1
    exact List.take_left' hfull

end Stored
end Tombstones

section Apply
variable {p : Platform} {state after : LocalState} {imported : PreparedImport}
  {resolution : Option ChosenResolution} {now : ℤ}

/-- The deletion map that a merge stores, kind by kind. -/
theorem storedMap_of (locals importedDeletions : VaultDeletionMap) (applied : Collections)
    (kind : VaultSyncEntityKind) :
    (compactDeletionMap p (buildAppliedDeletionMap p .merge locals importedDeletions applied)
      now).of kind =
      storedDeletions p now (locals.of kind) (importedDeletions.of kind) (applied.ids kind) := by
  cases kind <;> rfl

theorem prepared_hosts_normal (bundle : LocalConfigBundle) :
    ∀ host ∈ (prepareImportedCollections p bundle).hosts, normalizeHostRecord host = host := by
  intro host hhost
  obtain ⟨host', -, rfl⟩ := List.mem_map.mp (mem_sortBy.mp hhost)
  exact normalizeHostRecord_idem host'

theorem keptActive_twice (activeHostId : Option JsString) (applied : Collections) :
    keptActive (keptActive activeHostId applied) applied = keptActive activeHostId applied := by
  by_cases hactive : ((activeHostId.bind truthy).any fun id => id ∈ applied.ids .hosts) = true
  · have hkept : keptActive activeHostId applied = activeHostId := if_pos hactive
    rw [hkept, hkept]
  · have hhead : keptActive activeHostId applied = (applied.hosts.head?).map fun host => host.id :=
      if_neg hactive
    rw [hhead, keptActive]
    split_ifs <;> rfl

theorem mergedCollections_twice (hp : p.Collates) (state : LocalState) (bundle : LocalConfigBundle)
    (resolution : Option ChosenResolution) (now : ℤ) :
    let first := mergedCollections p state bundle resolution now
    let second := mergedCollections p (mergedState p state bundle resolution ⟨now, now⟩) bundle resolution
      now
    second.records = first.records ∧
      (first.hasConflicts = false → second.hasConflicts = false) :=
  mergePrepared_twice hp (prepared_hosts_normal bundle) _ _

theorem preparedDeletions_of (p : Platform) (now : ℤ) (bundle : LocalConfigBundle)
    (kind : VaultSyncEntityKind) :
    ∃ entries, (prepareImportedDeletions p bundle now).of kind =
      compactDeletionEntries p entries now :=
  ⟨_, compactDeletionMap_of _ _ _ _⟩

/-- The state after the second merge, up to its tombstones. -/
theorem mergedState_twice (hp : p.Collates) (state : LocalState) (bundle : LocalConfigBundle)
    (resolution : Option ChosenResolution) (now : ℤ) :
    let first := mergedState p state bundle resolution ⟨now, now⟩
    let second := mergedState p first bundle resolution ⟨now, now⟩
    second = { first with deletions := second.deletions } ∧
      ∀ kind, Unshadowed p now (state.deletions.of kind)
          ((prepareImportedDeletions p bundle now).of kind) (first.collections.ids kind) →
        second.deletions.of kind = first.deletions.of kind := by
  intro first second
  obtain ⟨hrecords, -⟩ := mergedCollections_twice hp state bundle resolution now
  have hcollections : second.collections = first.collections := hrecords
  constructor
  · have hvault : second.vaultId = first.vaultId := by
      change (Option.map _ _).getD ((Option.map _ _).getD state.vaultId) =
        (Option.map _ _).getD state.vaultId
      cases (getImportedVaultMetadata bundle).filter fun vault => vault.vaultId ≠ [] <;> rfl
    have hactive : second.activeHostId = first.activeHostId := by
      change keptActive (keptActive state.activeHostId first.collections) second.collections = _
      rw [hcollections, keptActive_twice]
      rfl
    calc second
        = { first with
            collections := second.collections, deletions := second.deletions
            vaultId := second.vaultId, activeHostId := second.activeHostId } := rfl
      _ = { first with deletions := second.deletions } := by rw [hcollections, hvault, hactive]
  · intro kind hunshadowed
    have hstored (s : LocalState) : (mergedState p s bundle resolution ⟨now, now⟩).deletions.of kind =
        storedDeletions p now (s.deletions.of kind)
          ((prepareImportedDeletions p bundle now).of kind)
          ((mergedState p s bundle resolution ⟨now, now⟩).collections.ids kind) := storedMap_of _ _ _ kind
    have hfirst : first.deletions.of kind = _ := hstored state
    have hsecond : second.deletions.of kind = _ := hstored first
    rw [hsecond, hfirst]
    have hlive : (mergedState p first bundle resolution ⟨now, now⟩).collections.ids kind =
        first.collections.ids kind := congrArg (fun c : Collections => c.ids kind) hcollections
    rw [hlive]
    obtain ⟨entries, hprepared⟩ := preparedDeletions_of p now bundle kind
    rw [hprepared] at hunshadowed ⊢
    exact storedDeletions_twice hp (fun i hi => compactDeletionEntries_retained hi)
      (compactDeletionEntries_ids_nodup _ _) hunshadowed

/-- A merge leaves the vault in a lineage that accepts the same bundle again. -/
theorem mergeable_twice {bundle : LocalConfigBundle} {vault : LocalVaultMetadata}
    (hvault : getImportedVaultMetadata bundle = some vault) (hsame : vault.vaultId = state.vaultId) :
    (importStrategy (mergedState p state bundle resolution ⟨now, now⟩)
      (getImportedVaultMetadata bundle)).mergeable = true := by
  simp only [importStrategy, mergedState, hvault]
  by_cases hempty : vault.vaultId = []
  · have hstate : state.vaultId = [] := hsame.symm.trans hempty
    simp [Option.filter, hempty, hstate, ImportStrategy.mergeable]
  · simp [Option.filter, hempty, ImportStrategy.mergeable]

/-- Collation by code units, and a clock that reads two ways to write a time. -/
def datesPlatform : Platform where
  localeCompare s t := if before s t then .lt else if before t s then .gt else .eq
  dateParse s :=
    if s = js "1970-01-01T00:00:00.000Z" then some 0
    else if s = js "Wed, 01 Jan 1969 00:00:00 GMT" then some (-31536000000)
    else none

theorem datesPlatform_collates : datesPlatform.Collates := collates_of_unitOrder rfl

/-- A vault in which the known host `k` was deleted at the given time, if at all. -/
def forgottenState (deletedAt : List JsString) : LocalState where
  collections := ⟨[], [], [], [], []⟩
  deletions := { emptyDeletionMap with knownHosts := deletedAt.map fun time => ⟨js "k", time⟩ }
  vaultId := js "v"
  deviceId := js "d"
  lastAppliedSnapshotId := none
  activeHostId := none

/-- An export of that vault in which the known host `k` is deleted. -/
def forgottenBundle : LocalConfigBundle where
  app := js "terminal-workspace"
  version := 6
  exportedAt := js "1970-01-01T00:00:00.000Z"
  vault := some ⟨js "local-first-vault", js "v", js "e", js "s", none⟩
  hosts := []
  keys := []
  snippets := []
  knownHosts := []
  identities := some []
  deletions := some { emptyDeletionMap with
    knownHosts := [⟨js "k", js "1970-01-01T00:00:00.000Z"⟩] }

end Apply
end LocalConfig
