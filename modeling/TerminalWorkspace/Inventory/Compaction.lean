import TerminalWorkspace.Inventory.Tombstones

/-! What is left of a list of tombstones: the latest one of each id, sorted, and after
compaction the first of those that are retained. -/
namespace Inventory
open JsText

section Latest

theorem not_before_trans {s t u : JsString} (hst : before s t = false) (htu : before t u = false) :
    before s u = false := by
  simp only [before, decide_eq_false_iff_not] at hst htu ⊢
  exact List.le_trans htu hst

theorem not_before_self (s : JsString) : before s s = false := by simp [before]

theorem not_before_of_before {s t : JsString} (h : before s t = true) : before t s = false := by
  simp only [before, decide_eq_true_eq, decide_eq_false_iff_not] at h ⊢
  exact List.lt_asymm h

/-- A collation that goes by the code units. -/
def unitOrder (s t : JsString) : Ordering :=
  if before s t then .lt else if before t s then .gt else .eq

theorem unitOrder_eq_gt (s t : JsString) : unitOrder s t = .gt ↔ before t s = true := by
  rw [unitOrder]
  cases hst : before s t with
  | true => simp [not_before_of_before hst]
  | false => cases before t s <;> simp

theorem collates_of_unitOrder {p : Platform} (h : p.localeCompare = unitOrder) : p.Collates where
  total s t hgt := by
    rw [h, unitOrder_eq_gt] at hgt
    rw [h, ne_eq, unitOrder_eq_gt, not_before_of_before hgt]
    exact Bool.false_ne_true
  trans s t u hst htu := by
    rw [h, ne_eq, unitOrder_eq_gt, Bool.not_eq_true] at hst htu ⊢
    exact not_before_trans htu hst

theorem keepLatest_get? (m : OrderedMap JsString VaultDeletionEntry) (entry : VaultDeletionEntry)
    (id : JsString) :
    (keepLatest m entry).get? id =
      if entry.id = id then
        match m.get? id with
        | none => some entry
        | some existing =>
          if before existing.deletedAt entry.deletedAt then some entry else some existing
      else m.get? id := by
  unfold keepLatest
  split_ifs with hid
  · subst hid
    cases hget : m.get? entry.id with
    | none => simp
    | some existing =>
      simp only
      split_ifs
      · simp
      · exact hget
  · split
    · rw [OrderedMap.get?_set, if_neg (Ne.symm hid)]
    · split_ifs
      · rw [OrderedMap.get?_set, if_neg (Ne.symm hid)]
      · rfl

/-- The map holds for every id an entry of that id. -/
def Keyed (m : OrderedMap JsString VaultDeletionEntry) : Prop := ∀ x ∈ m.entries, x.2.id = x.1

theorem keyed_keepLatest {m : OrderedMap JsString VaultDeletionEntry} (h : Keyed m)
    (entry : VaultDeletionEntry) : Keyed (keepLatest m entry) := by
  have hset : Keyed (m.set entry.id entry) := by
    intro x hx
    rcases OrderedMap.mem_setEntry hx with rfl | hx
    · rfl
    · exact h x hx
  unfold keepLatest
  split
  · exact hset
  · split_ifs
    · exact hset
    · exact h

theorem keyed_foldl {m : OrderedMap JsString VaultDeletionEntry} (h : Keyed m)
    (entries : List VaultDeletionEntry) : Keyed (entries.foldl keepLatest m) := by
  induction entries generalizing m with
  | nil => exact h
  | cons entry entries ih => exact ih (keyed_keepLatest h entry)

theorem Keyed.values_ids {m : OrderedMap JsString VaultDeletionEntry} (h : Keyed m) :
    m.values.map (·.id) = m.keys := by
  rw [OrderedMap.values, OrderedMap.keys, List.map_map]
  exact List.map_congr_left h

theorem keyed_latestEntries (entries : List VaultDeletionEntry) : Keyed (latestEntries entries) :=
  keyed_foldl (fun _ hx => absurd hx List.not_mem_nil) entries

theorem latestEntries_ids_nodup (entries : List VaultDeletionEntry) :
    ((latestEntries entries).values.map (·.id)).Nodup := by
  rw [(keyed_latestEntries entries).values_ids]
  exact (latestEntries entries).nodup

/-- An entry for the id that is at least as late. -/
def HasLater (m : OrderedMap JsString VaultDeletionEntry) (e : VaultDeletionEntry) : Prop :=
  ∃ m' ∈ m.get? e.id, before m'.deletedAt e.deletedAt = false

theorem hasLater_keepLatest (m : OrderedMap JsString VaultDeletionEntry)
    (entry : VaultDeletionEntry) : HasLater (keepLatest m entry) entry := by
  rw [HasLater, keepLatest_get?, if_pos rfl]
  cases m.get? entry.id with
  | none => exact ⟨entry, rfl, not_before_self _⟩
  | some existing =>
    simp only
    split_ifs with hlater
    · exact ⟨entry, rfl, not_before_self _⟩
    · exact ⟨existing, rfl, Bool.eq_false_of_not_eq_true hlater⟩

theorem HasLater.keepLatest {m : OrderedMap JsString VaultDeletionEntry} {e : VaultDeletionEntry}
    (h : HasLater m e) (entry : VaultDeletionEntry) : HasLater (keepLatest m entry) e := by
  obtain ⟨m', hm', hlater⟩ := h
  rw [HasLater, keepLatest_get?]
  split_ifs with hid
  · rw [Option.mem_def.mp hm']
    simp only
    split_ifs with hnew
    · exact ⟨entry, rfl, not_before_trans (not_before_of_before hnew) hlater⟩
    · exact ⟨m', rfl, hlater⟩
  · exact ⟨m', hm', hlater⟩

theorem HasLater.foldl {m : OrderedMap JsString VaultDeletionEntry} {e : VaultDeletionEntry}
    (h : HasLater m e) (entries : List VaultDeletionEntry) :
    HasLater (entries.foldl Inventory.keepLatest m) e := by
  induction entries generalizing m with
  | nil => exact h
  | cons entry entries ih => exact ih (h.keepLatest entry)

/-- For every entry of the list the latest ones have one that is at least as late. -/
theorem hasLater_latestEntries {entries : List VaultDeletionEntry} {e : VaultDeletionEntry}
    (he : e ∈ entries) : HasLater (latestEntries entries) e := by
  obtain ⟨first, rest, rfl⟩ := List.append_of_mem he
  rw [latestEntries, List.foldl_append, List.foldl_cons]
  exact (hasLater_keepLatest _ e).foldl rest

theorem foldl_keepLatest_entries {entries : List VaultDeletionEntry}
    {m : OrderedMap JsString VaultDeletionEntry} (hnodup : (entries.map (·.id)).Nodup)
    (hlater : ∀ e ∈ entries, e.id ∈ m.keys → HasLater m e) :
    (entries.foldl keepLatest m).entries =
      m.entries ++ (entries.filter fun e => e.id ∉ m.keys).map fun e => (e.id, e) := by
  induction entries generalizing m with
  | nil => simp
  | cons entry entries ih =>
    obtain ⟨hnew, hnodup⟩ := List.nodup_cons.mp hnodup
    by_cases hmem : entry.id ∈ m.keys
    · have hsame : keepLatest m entry = m := by
        obtain ⟨m', hm', hbefore⟩ := hlater entry List.mem_cons_self hmem
        rw [keepLatest, Option.mem_def.mp hm']
        simp [hbefore]
      rw [List.foldl_cons, hsame, ih hnodup fun e he => hlater e (List.mem_cons_of_mem _ he)]
      simp [hmem]
    · have hset : (keepLatest m entry).entries = m.entries ++ [(entry.id, entry)] := by
        have hnone : m.get? entry.id = none := by
          rw [OrderedMap.mem_keys_iff] at hmem
          exact Option.not_isSome_iff_eq_none.mp hmem
        rw [keepLatest, hnone]
        exact OrderedMap.setEntry_of_not_mem hmem
      have hkeys : (keepLatest m entry).keys = m.keys ++ [entry.id] := by
        rw [OrderedMap.keys, hset, List.map_append]
        rfl
      have hdiffer : ∀ e ∈ entries, e.id ≠ entry.id := by
        intro e he heq
        exact hnew (List.mem_map.mpr ⟨e, he, heq⟩)
      have hfilter : (entries.filter fun e => e.id ∉ m.keys ++ [entry.id]) =
          entries.filter fun e => e.id ∉ m.keys := by
        refine List.filter_congr fun e he => ?_
        simp [hdiffer e he]
      rw [List.foldl_cons, ih hnodup, hset, hkeys, hfilter]
      · simp [hmem]
      · intro e he hkey
        rw [hkeys, List.mem_append, List.mem_singleton] at hkey
        exact (hlater e (List.mem_cons_of_mem _ he)
          (hkey.resolve_right (hdiffer e he))).keepLatest entry

/-- Entries of different ids are all latest. -/
theorem latestEntries_of_nodup {entries : List VaultDeletionEntry}
    (hnodup : (entries.map (·.id)).Nodup) :
    (latestEntries entries).entries = entries.map fun e => (e.id, e) := by
  rw [latestEntries, foldl_keepLatest_entries hnodup fun e _ he => absurd he List.not_mem_nil]
  simp [OrderedMap.empty, OrderedMap.keys]

end Latest

section Compaction
variable {p : Platform}

/-- The order that a sort of tombstones establishes. -/
def sortedBefore (p : Platform) (left right : VaultDeletionEntry) : Prop :=
  p.localeCompare right.deletedAt left.deletedAt ≠ .gt

instance (p : Platform) : DecidableRel (sortedBefore p) :=
  fun _ _ => inferInstanceAs (Decidable (¬ _))

theorem total_sortedBefore (hp : p.Collates) : Std.Total (sortedBefore p) := by
  constructor
  intro a b
  by_cases hab : sortedBefore p a b
  · exact .inl hab
  · exact .inr (hp.total _ _ (of_not_not hab))

theorem trans_sortedBefore (hp : p.Collates) : IsTrans _ (sortedBefore p) :=
  ⟨fun _ _ _ hab hbc => hp.trans _ _ _ hbc hab⟩

theorem sortDeletionEntries_eq (entries : List VaultDeletionEntry) :
    sortDeletionEntries p entries = entries.insertionSort (sortedBefore p) := rfl

theorem sortDeletionEntries_pairwise (hp : p.Collates) (entries : List VaultDeletionEntry) :
    (sortDeletionEntries p entries).Pairwise (sortedBefore p) := by
  have := total_sortedBefore hp
  have := trans_sortedBefore hp
  exact List.pairwise_insertionSort _ _

theorem sortDeletionEntries_of_pairwise {entries : List VaultDeletionEntry}
    (h : entries.Pairwise (sortedBefore p)) : sortDeletionEntries p entries = entries :=
  h.insertionSort_eq

/-- What sorts after a sorted list is sorted behind it. -/
theorem sortDeletionEntries_append {first second : List VaultDeletionEntry}
    (hfirst : first.Pairwise (sortedBefore p))
    (h : ∀ a ∈ first, ∀ b ∈ second, sortedBefore p a b) :
    sortDeletionEntries p (first ++ second) = first ++ sortDeletionEntries p second := by
  induction first with
  | nil => rfl
  | cons a first ih =>
    obtain ⟨ha, hfirst⟩ := List.pairwise_cons.mp hfirst
    have hrest := ih hfirst fun a ha b hb => h a (List.mem_cons_of_mem _ ha) b hb
    rw [sortDeletionEntries_eq] at hrest
    rw [List.cons_append, sortDeletionEntries_eq, List.insertionSort_cons, hrest, List.cons_append]
    have hall : ∀ b ∈ first ++ sortDeletionEntries p second, sortedBefore p a b := by
      intro b hb
      rcases List.mem_append.mp hb with hb | hb
      · exact ha b hb
      · exact h a List.mem_cons_self b (mem_sortBy.mp hb)
    cases hl : first ++ sortDeletionEntries p second with
    | nil => rfl
    | cons b l => exact if_pos (hall b (hl ▸ List.mem_cons_self))

/-- Compacting sorted entries of different ids cuts off what is not retained, and the end. -/
theorem compactDeletionEntries_of_sorted {entries : List VaultDeletionEntry}
    (hnodup : (entries.map (·.id)).Nodup) (hsorted : entries.Pairwise (sortedBefore p)) (now : ℤ) :
    compactDeletionEntries p entries now =
      (entries.filter (retained p now)).take tombstoneMaxEntriesPerKind := by
  have hvalues : (latestEntries (entries.filter (retained p now))).values =
      entries.filter (retained p now) := by
    have hids : ((entries.filter (retained p now)).map (·.id)).Nodup :=
      hnodup.sublist ((List.filter_sublist).map _)
    rw [OrderedMap.values, latestEntries_of_nodup hids, List.map_map]
    exact List.map_id _
  rw [compactDeletionEntries, hvalues,
    sortDeletionEntries_of_pairwise (hsorted.sublist List.filter_sublist)]

theorem compactDeletionEntries_retained {entries : List VaultDeletionEntry} {now : ℤ}
    {e : VaultDeletionEntry} (he : e ∈ compactDeletionEntries p entries now) :
    retained p now e = true := by
  have hsorted := List.mem_of_mem_take he
  rw [sortDeletionEntries, mem_sortBy] at hsorted
  exact (List.mem_filter.mp (latestEntries_values hsorted)).2

theorem sort_ids_nodup {entries : List VaultDeletionEntry} (h : (entries.map (·.id)).Nodup) :
    ((sortDeletionEntries p entries).map (·.id)).Nodup :=
  ((sortBy_perm _ entries).map _).nodup_iff.mpr h

theorem compactDeletionEntries_ids_nodup (entries : List VaultDeletionEntry) (now : ℤ) :
    ((compactDeletionEntries p entries now).map (·.id)).Nodup := by
  have hnodup := sort_ids_nodup (p := p)
    (latestEntries_ids_nodup (entries.filter (retained p now)))
  exact hnodup.sublist ((List.take_sublist _ _).map _)

end Compaction
end Inventory
