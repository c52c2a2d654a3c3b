import Mathlib.Data.List.Pairwise
import TerminalWorkspace.Inventory.Compaction

/-! The laws of compaction: which tombstones are kept, in what order, and that neither the order
of the list nor a second compaction matters. They hold of all selections of some tombstones if
and only if the texts of their timestamps are in the order of the instants. -/
namespace Inventory
open JsText

section Laws

/-- When a record was deleted, as the platform reads it. -/
def deletionInstant (p : Platform) (e : VaultDeletionEntry) : Option ℤ :=
  if e.deletedAt = [] then none else p.dateParse e.deletedAt

/-- What compaction promises of a list of tombstones. -/
structure CompactionLaws (p : Platform) (entries : List VaultDeletionEntry) (now : ℤ) : Prop where
  given : compactDeletionEntries p entries now ⊆ entries
  latest : ∀ e ∈ compactDeletionEntries p entries now, ∀ other ∈ entries, other.id = e.id →
    ∀ i ∈ deletionInstant p other, ∀ j ∈ deletionInstant p e, i ≤ j
  once : ((compactDeletionEntries p entries now).map (·.id)).Nodup
  sorted : (compactDeletionEntries p entries now).Pairwise fun newer older =>
    ∀ i ∈ deletionInstant p older, ∀ j ∈ deletionInstant p newer, i ≤ j
  capped : (compactDeletionEntries p entries now).length ≤ tombstoneMaxEntriesPerKind
  recent : ∀ e ∈ compactDeletionEntries p entries now,
    ∃ i ∈ deletionInstant p e, now - tombstoneRetentionMs ≤ i
  /-- An id is dropped at the cap only, and none of its deletions is newer than one kept. -/
  dropped : ∀ e ∈ entries, retained p now e = true →
    e.id ∉ (compactDeletionEntries p entries now).map (·.id) →
      (compactDeletionEntries p entries now).length = tombstoneMaxEntriesPerKind ∧
        ∀ kept ∈ compactDeletionEntries p entries now,
          ∀ i ∈ deletionInstant p e, ∀ j ∈ deletionInstant p kept, i ≤ j
  unordered : (entries.Pairwise fun a b =>
      ∀ i ∈ deletionInstant p a, ∀ j ∈ deletionInstant p b, i ≠ j) →
    ∀ other, other.Perm entries →
      compactDeletionEntries p other now = compactDeletionEntries p entries now
  again : compactDeletionEntries p (compactDeletionEntries p entries now) now =
    compactDeletionEntries p entries now

/-- Of two tombstones that are looked at, the one deleted later has the later text: for the
comparison that finds the latest of an id, or for the collation that sorts different ids. -/
def TextsInOrder (p : Platform) (entries : List VaultDeletionEntry) (now : ℤ) : Prop :=
  ∀ a ∈ entries, ∀ b ∈ entries, retained p now a = true → retained p now b = true →
    ∀ i ∈ deletionInstant p a, ∀ j ∈ deletionInstant p b, i < j →
      (a.id = b.id → before a.deletedAt b.deletedAt = true) ∧
        (a.id ≠ b.id → p.localeCompare b.deletedAt a.deletedAt = .gt)

end Laws

section Retained
variable {p : Platform} {now : ℤ} {e : VaultDeletionEntry}

theorem retained_iff : retained p now e = true ↔
    e.id ≠ [] ∧ ∃ i ∈ deletionInstant p e, now - tombstoneRetentionMs ≤ i := by
  unfold retained deletionInstant
  by_cases htext : e.deletedAt = []
  · simp [htext]
  · cases hparse : p.dateParse e.deletedAt with
    | none => simp [htext]
    | some i => simp [htext]

/-- What compaction does not look at for its age is older than what it keeps. -/
theorem le_of_not_retained {other : VaultDeletionEntry} (he : retained p now e = true)
    (hid : other.id = e.id) (hother : ¬ retained p now other = true) {i j : ℤ}
    (hi : i ∈ deletionInstant p other) (hj : j ∈ deletionInstant p e) : i ≤ j := by
  obtain ⟨hne, k, hk, hcutoff⟩ := retained_iff.mp he
  obtain rfl := Option.mem_unique hk hj
  by_contra hlt
  exact hother (retained_iff.mpr ⟨hid ▸ hne, i, hi, by omega⟩)

end Retained

section Winners
variable {entries : List VaultDeletionEntry} {e w : VaultDeletionEntry}

theorem eq_of_id {l : List VaultDeletionEntry} (hnodup : (l.map (·.id)).Nodup) (he : e ∈ l)
    (hw : w ∈ l) (hid : e.id = w.id) : e = w :=
  List.inj_on_of_nodup_map hnodup he hw hid

/-- The winner of an id is one of its entries, and none of them is after it. -/
theorem exists_winner (he : e ∈ entries) : ∃ w ∈ (latestEntries entries).values,
    w.id = e.id ∧ before w.deletedAt e.deletedAt = false := by
  obtain ⟨w, hw, hlater⟩ := hasLater_latestEntries he
  have hmem := OrderedMap.get?_mem hw
  refine ⟨w, List.mem_map_of_mem (f := Prod.snd) hmem, ?_, hlater⟩
  exact keyed_latestEntries entries _ hmem

theorem not_before_of_winner (hw : w ∈ (latestEntries entries).values) (he : e ∈ entries)
    (hid : e.id = w.id) : before w.deletedAt e.deletedAt = false := by
  obtain ⟨winner, hwinner, hwid, hlater⟩ := exists_winner he
  rwa [eq_of_id (latestEntries_ids_nodup entries) hw hwinner (hid.symm.trans hwid.symm)]

end Winners

section Sufficient
variable {p : Platform} {now : ℤ} {entries : List VaultDeletionEntry}

/-- The entries that win their ids, before the cap. -/
def sortedWinners (p : Platform) (entries : List VaultDeletionEntry) (now : ℤ) :
    List VaultDeletionEntry :=
  sortDeletionEntries p (latestEntries (entries.filter (retained p now))).values

theorem compactDeletionEntries_eq_take : compactDeletionEntries p entries now =
    (sortedWinners p entries now).take tombstoneMaxEntriesPerKind := rfl

theorem mem_sortedWinners {w : VaultDeletionEntry} : w ∈ sortedWinners p entries now ↔
    w ∈ (latestEntries (entries.filter (retained p now))).values := by
  rw [sortedWinners, sortDeletionEntries, mem_sortBy]

theorem winner_given {w : VaultDeletionEntry} (hw : w ∈ sortedWinners p entries now) :
    w ∈ entries ∧ retained p now w = true :=
  List.mem_filter.mp (latestEntries_values (mem_sortedWinners.mp hw))

theorem sortedWinners_nodup : ((sortedWinners p entries now).map (·.id)).Nodup :=
  sort_ids_nodup (latestEntries_ids_nodup _)

/-- A winner is the latest of its id. -/
theorem TextsInOrder.latest (h : TextsInOrder p entries now) {w e : VaultDeletionEntry}
    (hw : w ∈ sortedWinners p entries now) (he : e ∈ entries) (hid : e.id = w.id) :
    ∀ i ∈ deletionInstant p e, ∀ j ∈ deletionInstant p w, i ≤ j := by
  intro i hi j hj
  obtain ⟨hmem, hretained⟩ := winner_given hw
  by_cases hlooked : retained p now e = true
  · by_contra hlt
    have hbefore := (h w hmem e he hretained hlooked j hj i hi (not_le.mp hlt)).1 hid.symm
    rw [not_before_of_winner (mem_sortedWinners.mp hw) (List.mem_filter.mpr ⟨he, hlooked⟩) hid]
      at hbefore
    cases hbefore
  · exact le_of_not_retained hretained hid hlooked hi hj

/-- The winners are sorted from the newest to the oldest. -/
theorem TextsInOrder.sorted (h : TextsInOrder p entries now) (hp : p.Collates) :
    (sortedWinners p entries now).Pairwise fun newer older =>
      ∀ i ∈ deletionInstant p older, ∀ j ∈ deletionInstant p newer, i ≤ j := by
  have hids : (sortedWinners p entries now).Pairwise fun newer older => newer.id ≠ older.id :=
    List.pairwise_map.mp sortedWinners_nodup
  have hcollated : (sortedWinners p entries now).Pairwise (sortedBefore p) :=
    sortDeletionEntries_pairwise hp _
  refine (hids.and hcollated).imp_of_mem ?_
  rintro newer older hnewer holder ⟨hid, hbefore⟩ i hi j hj
  obtain ⟨hmem, hretained⟩ := winner_given hnewer
  obtain ⟨hmem', hretained'⟩ := winner_given holder
  by_contra hlt
  exact hbefore
    ((h newer hmem older hmem' hretained hretained' j hj i hi (not_le.mp hlt)).2 hid)

/-- An id is dropped for newer ones only. -/
theorem TextsInOrder.dropped (h : TextsInOrder p entries now) (hp : p.Collates)
    {e : VaultDeletionEntry} (he : e ∈ entries) (hretained : retained p now e = true)
    (hdropped : e.id ∉ (compactDeletionEntries p entries now).map (·.id)) :
    (compactDeletionEntries p entries now).length = tombstoneMaxEntriesPerKind ∧
      ∀ kept ∈ compactDeletionEntries p entries now,
        ∀ i ∈ deletionInstant p e, ∀ j ∈ deletionInstant p kept, i ≤ j := by
  rw [compactDeletionEntries_eq_take] at hdropped ⊢
  obtain ⟨w, hw, hid, -⟩ := exists_winner (List.mem_filter.mpr ⟨he, hretained⟩)
  rw [← mem_sortedWinners] at hw
  have hsorted := h.sorted hp
  rw [← List.take_append_drop tombstoneMaxEntriesPerKind (sortedWinners p entries now)] at hw hsorted
  have hlate : w ∈ (sortedWinners p entries now).drop tombstoneMaxEntriesPerKind :=
    (List.mem_append.mp hw).resolve_left fun hmem =>
      hdropped (List.mem_map.mpr ⟨w, hmem, hid⟩)
  constructor
  · have hlength := List.length_pos_of_mem hlate
    rw [List.length_drop] at hlength
    rw [List.length_take]
    omega
  · intro kept hkept i hi j hj
    have hwinner := List.mem_of_mem_drop hlate
    obtain ⟨-, k, hk, -⟩ := retained_iff.mp (winner_given hwinner).2
    have hwon := h.latest hwinner he hid.symm i hi k hk
    exact hwon.trans ((List.pairwise_append.mp hsorted).2.2 kept hkept w hlate k hk j hj)

/-- Both comparisons tell two tombstones apart whose instants differ. -/
theorem TextsInOrder.eq_of_tied (h : TextsInOrder p entries now)
    (hdistinct : entries.Pairwise fun a b =>
      ∀ i ∈ deletionInstant p a, ∀ j ∈ deletionInstant p b, i ≠ j)
    {v w : VaultDeletionEntry} (hv : v ∈ entries) (hw : w ∈ entries)
    (hlooked : retained p now v = true) (hlooked' : retained p now w = true)
    (htied : v.id = w.id → before v.deletedAt w.deletedAt = false ∧
      before w.deletedAt v.deletedAt = false)
    (hcollated : v.id ≠ w.id → sortedBefore p v w ∧ sortedBefore p w v) : v = w := by
  by_contra hne
  have : Std.Symm fun a b : VaultDeletionEntry =>
      ∀ i ∈ deletionInstant p a, ∀ j ∈ deletionInstant p b, i ≠ j :=
    ⟨fun a b hab i hi j hj => (hab j hj i hi).symm⟩
  obtain ⟨-, i, hi, -⟩ := retained_iff.mp hlooked
  obtain ⟨-, j, hj, -⟩ := retained_iff.mp hlooked'
  have hij := hdistinct.forall hv hw hne i hi j hj
  by_cases hid : v.id = w.id
  · obtain ⟨hvw, hwv⟩ := htied hid
    rcases lt_or_gt_of_ne hij with hlt | hgt
    · cases hvw.symm.trans ((h v hv w hw hlooked hlooked' i hi j hj hlt).1 hid)
    · cases hwv.symm.trans ((h w hw v hv hlooked' hlooked j hj i hi hgt).1 hid.symm)
  · obtain ⟨hvw, hwv⟩ := hcollated hid
    rcases lt_or_gt_of_ne hij with hlt | hgt
    · exact hvw ((h v hv w hw hlooked hlooked' i hi j hj hlt).2 hid)
    · exact hwv ((h w hw v hv hlooked' hlooked j hj i hi hgt).2 (Ne.symm hid))

/-- Distinct instants are told apart, so the winners are the same in any order of the list. -/
theorem TextsInOrder.unordered (h : TextsInOrder p entries now) (hp : p.Collates)
    (hdistinct : entries.Pairwise fun a b =>
      ∀ i ∈ deletionInstant p a, ∀ j ∈ deletionInstant p b, i ≠ j)
    {other : List VaultDeletionEntry} (hperm : other.Perm entries) :
    compactDeletionEntries p other now = compactDeletionEntries p entries now := by
  have hwins : ∀ l l' : List VaultDeletionEntry, l.Perm entries → l'.Perm entries →
      ∀ w ∈ sortedWinners p l now, w ∈ sortedWinners p l' now := by
    intro l l' hl hl' w hw
    obtain ⟨hmem, hlooked⟩ := winner_given hw
    have hmem' := hl'.mem_iff.mpr (hl.mem_iff.mp hmem)
    obtain ⟨v, hv, hid, hlater⟩ := exists_winner (List.mem_filter.mpr ⟨hmem', hlooked⟩)
    rw [← mem_sortedWinners] at hv
    obtain ⟨hgiven, hlooked'⟩ := winner_given hv
    have hgiven' := hl.mem_iff.mpr (hl'.mem_iff.mp hgiven)
    have hnot := not_before_of_winner (mem_sortedWinners.mp hw)
      (List.mem_filter.mpr ⟨hgiven', hlooked'⟩) hid
    have heq : v = w := h.eq_of_tied hdistinct (hl'.mem_iff.mp hgiven) (hl.mem_iff.mp hmem)
      hlooked' hlooked (fun _ => ⟨hlater, hnot⟩) fun hne => absurd hid hne
    exact heq ▸ hv
  have hsame : ∀ w, w ∈ sortedWinners p other now ↔ w ∈ sortedWinners p entries now :=
    fun w => ⟨hwins other entries hperm (.refl _) w, hwins entries other (.refl _) hperm w⟩
  have hnodup : ∀ l, (sortedWinners p l now).Nodup := fun l =>
    List.Nodup.of_map _ sortedWinners_nodup
  have hwinners := (List.perm_ext_iff_of_nodup (hnodup other) (hnodup entries)).mpr hsame
  have hsorted : ∀ l, (sortedWinners p l now).Pairwise (sortedBefore p) :=
    fun l => sortDeletionEntries_pairwise hp _
  rw [compactDeletionEntries_eq_take, compactDeletionEntries_eq_take,
    List.Perm.eq_of_pairwise ?_ (hsorted other) (hsorted entries) hwinners]
  intro v w hv hw hvw hwv
  obtain ⟨hmem, hlooked⟩ := winner_given ((hsame v).mp hv)
  obtain ⟨hmem', hlooked'⟩ := winner_given hw
  refine h.eq_of_tied hdistinct hmem hmem' hlooked hlooked' (fun hid => ?_) fun _ => ⟨hvw, hwv⟩
  rw [eq_of_id sortedWinners_nodup ((hsame v).mp hv) hw hid]
  exact ⟨not_before_self _, not_before_self _⟩

theorem compactDeletionEntries_again (hp : p.Collates) :
    compactDeletionEntries p (compactDeletionEntries p entries now) now =
      compactDeletionEntries p entries now := by
  have hsorted : (compactDeletionEntries p entries now).Pairwise (sortedBefore p) :=
    (sortDeletionEntries_pairwise hp _).sublist (List.take_sublist _ _)
  rw [compactDeletionEntries_of_sorted (compactDeletionEntries_ids_nodup entries now) hsorted,
    List.filter_eq_self.mpr fun e he => compactDeletionEntries_retained he]
  exact List.take_of_length_le (List.length_take_le _ _)

theorem TextsInOrder.laws (h : TextsInOrder p entries now) (hp : p.Collates) :
    CompactionLaws p entries now where
  given := compactDeletionEntries_subset
  latest e he other hother hid := h.latest (List.mem_of_mem_take he) hother hid
  once := compactDeletionEntries_ids_nodup entries now
  sorted := (h.sorted hp).sublist (List.take_sublist _ _)
  capped := List.length_take_le _ _
  recent e he := (retained_iff.mp (compactDeletionEntries_retained he)).2
  dropped e he hretained hdropped := h.dropped hp he hretained hdropped
  unordered hdistinct other hperm := h.unordered hp hdistinct hperm
  again := compactDeletionEntries_again hp

end Sufficient

section Necessary
variable {p : Platform} {now : ℤ} {a b : VaultDeletionEntry}

/-- Of two tombstones of one id the first is kept where the text of the second is not later. -/
theorem compactDeletionEntries_pair (ha : retained p now a = true) (hb : retained p now b = true)
    (hid : a.id = b.id) (hbefore : before a.deletedAt b.deletedAt = false) :
    compactDeletionEntries p [a, b] now = [a] := by
  have hkept : [a, b].filter (retained p now) = [a, b] := by simp [ha, hb]
  have hfirst : latestEntries [a] = OrderedMap.empty.set a.id a := rfl
  have hlatest : latestEntries [a, b] = OrderedMap.empty.set a.id a := by
    have hfold : latestEntries [a, b] = keepLatest (latestEntries [a]) b := rfl
    rw [hfold, hfirst, keepLatest, ← hid, OrderedMap.get?_set_self]
    exact if_neg (by simp [hbefore])
  rw [compactDeletionEntries, hkept, hlatest]
  rfl

theorem compactDeletionEntries_sorted_pair (ha : retained p now a = true)
    (hb : retained p now b = true) (hid : a.id ≠ b.id) (hsorted : sortedBefore p a b) :
    compactDeletionEntries p [a, b] now = [a, b] := by
  rw [compactDeletionEntries_of_sorted (by simpa using hid) (by simpa using hsorted)]
  simp [ha, hb, tombstoneMaxEntriesPerKind]

theorem textsInOrder_of_laws {entries : List VaultDeletionEntry}
    (h : ∀ part : List VaultDeletionEntry, part.Subperm entries → CompactionLaws p part now) :
    TextsInOrder p entries now := by
  intro a ha b hb hlooked hlooked' i hi j hj hij
  have hne : a ≠ b := by
    rintro rfl
    exact absurd (Option.mem_unique hi hj) hij.ne
  have hlaws := h [a, b] (List.subperm_of_subset (by simpa using hne) (by simp [ha, hb]))
  refine ⟨fun hid => ?_, fun hid => ?_⟩
  · by_contra hbefore
    have hpair := compactDeletionEntries_pair hlooked hlooked' hid (Bool.eq_false_of_not_eq_true hbefore)
    have hle := hlaws.latest a (by rw [hpair]; exact List.mem_singleton_self a) b (by simp) hid.symm
      j hj i hi
    exact absurd hij (not_lt.mpr hle)
  · by_contra hcollated
    have hpair := compactDeletionEntries_sorted_pair hlooked hlooked' hid hcollated
    have hsorted := hlaws.sorted
    rw [hpair, List.pairwise_pair] at hsorted
    exact absurd hij (not_lt.mpr (hsorted j hj i hi))

end Necessary

section Characterisation

theorem TextsInOrder.subperm {p : Platform} {now : ℤ} {entries part : List VaultDeletionEntry}
    (h : TextsInOrder p entries now) (hpart : part.Subperm entries) : TextsInOrder p part now :=
  fun a ha b hb => h a (hpart.subset ha) b (hpart.subset hb)

/-- Compaction keeps its promises to every selection of some tombstones, in any order, if and
only if their texts are in the order of the instants. -/
theorem compactionLaws_iff {p : Platform} (hp : p.Collates) (entries : List VaultDeletionEntry)
    (now : ℤ) :
    (∀ part : List VaultDeletionEntry, part.Subperm entries → CompactionLaws p part now) ↔
      TextsInOrder p entries now :=
  ⟨textsInOrder_of_laws, fun h _ hpart => (h.subperm hpart).laws hp⟩

/-- Collation by code units, and a clock that reads two timestamps of different zones. -/
def zonesPlatform : Platform where
  localeCompare := unitOrder
  dateParse s :=
    if s = js "2026-03-01T01:00:00+02:00" then some 1772319600000
    else if s = js "2026-02-28T23:30:00Z" then some 1772321400000
    else none

theorem compactionLaws_iff_one : (∀ part : List VaultDeletionEntry,
      part.Subperm [⟨js "k", js "2026-02-28T23:30:00Z"⟩] →
        CompactionLaws zonesPlatform part 1772321400000) ↔
    TextsInOrder zonesPlatform [⟨js "k", js "2026-02-28T23:30:00Z"⟩] 1772321400000 :=
  compactionLaws_iff (collates_of_unitOrder rfl) _ _

/-- The deletion half an hour earlier is written with the later date, and kept. -/
theorem earlier_deletion_kept : ¬ CompactionLaws zonesPlatform
    [⟨js "k", js "2026-02-28T23:30:00Z"⟩, ⟨js "k", js "2026-03-01T01:00:00+02:00"⟩]
    1772321400000 := by
  intro h
  have hkept : compactDeletionEntries zonesPlatform
      [⟨js "k", js "2026-02-28T23:30:00Z"⟩, ⟨js "k", js "2026-03-01T01:00:00+02:00"⟩]
      1772321400000 = [⟨js "k", js "2026-03-01T01:00:00+02:00"⟩] := by decide +kernel
  have hle := h.latest ⟨js "k", js "2026-03-01T01:00:00+02:00"⟩ (by rw [hkept]; exact .head _)
    ⟨js "k", js "2026-02-28T23:30:00Z"⟩ (.head _) rfl 1772321400000 (by decide +kernel)
    1772319600000 (by decide +kernel)
  exact absurd hle (by decide)

end Characterisation

end Inventory
