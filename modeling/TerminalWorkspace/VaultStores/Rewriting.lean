import TerminalWorkspace.LocalConfig.Convergence
import TerminalWorkspace.VaultStores.Actions

/-! What the actions do to the collections: every record afterwards was there before, was
written at the moment of the action, or carries a time that was handed over with it. -/
namespace VaultStores
open JsText Inventory LocalConfig

section Lists
variable {α : Type} [VaultRecord α]

/-- How an action rewrites a collection. The dated records carry a time of their own. -/
structure Rewrites (now : JsString) (old dated new : List α) : Prop where
  written : ∀ r ∈ new, r ∈ old ∨ VaultRecord.updatedAt r = now ∨ r ∈ dated
  distinct : (old.map VaultRecord.id).Nodup → (new.map VaultRecord.id).Nodup

variable {now : JsString} {old dated new : List α}

theorem Rewrites.refl : Rewrites now old dated old :=
  ⟨fun _ hr => .inl hr, id⟩

theorem Rewrites.perm {other : List α} (h : Rewrites now old dated new) (hperm : other.Perm new) :
    Rewrites now old dated other where
  written r hr := h.written r (hperm.subset hr)
  distinct hold := ((hperm.map _).nodup_iff).mpr (h.distinct hold)

theorem Rewrites.sortBy (compare : α → α → Ordering) (h : Rewrites now old dated new) :
    Rewrites now old dated (Inventory.sortBy compare new) := h.perm (sortBy_perm _ _)

theorem rewrites_filter (keep : α → Bool) : Rewrites now old dated (old.filter keep) where
  written _ hr := .inl (List.mem_of_mem_filter hr)
  distinct hold := hold.sublist (List.filter_sublist.map _)

theorem rewrites_map {f : α → α} (hid : ∀ r, VaultRecord.id (f r) = VaultRecord.id r)
    (hf : ∀ r ∈ old, f r = r ∨ VaultRecord.updatedAt (f r) = now) :
    Rewrites now old dated (old.map f) where
  written r hr := by
    obtain ⟨r', hr', rfl⟩ := List.mem_map.mp hr
    rcases hf r' hr' with hsame | hnow
    · exact .inl (hsame.symm ▸ hr')
    · exact .inr (.inl hnow)
  distinct hold := by
    rw [List.map_map, show VaultRecord.id ∘ f = VaultRecord.id from funext hid]
    exact hold

/-- An edit that sets the time of the change. -/
theorem rewrites_editWhere {chosen : α → Bool} {edit : α → α}
    (hid : ∀ r, VaultRecord.id (edit r) = VaultRecord.id r)
    (hnow : ∀ r, VaultRecord.updatedAt (edit r) = now) :
    Rewrites now old dated (editWhere chosen edit old) := by
  refine rewrites_map (fun r => ?_) fun r _ => ?_
  · split_ifs
    · exact hid r
    · rfl
  · split_ifs
    · exact .inr (hnow r)
    · exact .inl rfl

theorem rewrites_concat {r : α} (hfresh : VaultRecord.id r ∉ old.map VaultRecord.id)
    (hnow : VaultRecord.updatedAt r = now ∨ r ∈ dated) :
    Rewrites now old dated (old ++ [r]) where
  written r' hr' := by
    rcases List.mem_append.mp hr' with hold | hnew
    · exact .inl hold
    · obtain rfl := List.mem_singleton.mp hnew
      exact .inr hnow
  distinct hold := by
    rw [List.map_append, List.map_singleton]
    refine hold.append (List.nodup_singleton _) ?_
    intro id hmem hid
    exact hfresh (List.mem_singleton.mp hid ▸ hmem)

/-- The record with an id is replaced by another. -/
theorem rewrites_replace {r : α} (hnow : VaultRecord.updatedAt r = now ∨ r ∈ dated) :
    Rewrites now old dated
      ((old.filter fun r' => VaultRecord.id r' ≠ VaultRecord.id r) ++ [r]) := by
  have hrest : Rewrites now (old.filter fun r' => VaultRecord.id r' ≠ VaultRecord.id r) dated
      ((old.filter fun r' => VaultRecord.id r' ≠ VaultRecord.id r) ++ [r]) := by
    refine rewrites_concat (fun hmem => ?_) hnow
    obtain ⟨r', hr', hid⟩ := List.mem_map.mp hmem
    exact of_decide_eq_true (List.mem_filter.mp hr').2 hid
  constructor
  · intro r' hr'
    exact (hrest.written r' hr').imp_left fun hmem => List.mem_of_mem_filter hmem
  · intro hold
    exact hrest.distinct (hold.sublist (List.filter_sublist.map _))

end Lists

section Hosts
variable {p : Platform} {now : JsString} {old new : List HostRecord}

def Normal (hosts : List HostRecord) : Prop := ∀ host ∈ hosts, normalizeHostRecord host = host

theorem normal_sortHostCollection (hosts : List HostRecord) :
    Normal (sortHostCollection p hosts) := by
  intro host hhost
  obtain ⟨host', -, rfl⟩ := List.mem_map.mp (mem_sortBy.mp hhost)
  exact normalizeHostRecord_idem host'

/-- Sorting the collection normalises the hosts, which the old ones are already. -/
theorem Rewrites.sortHosts {dated : List HostRecord} (hnormal : Normal old)
    (hdated : ∀ host ∈ dated, normalizeHostRecord host ∈ dated)
    (h : Rewrites now old dated new) :
    Rewrites now old dated (sortHostCollection p new) := by
  refine Rewrites.sortBy _ ⟨fun host hhost => ?_, fun hold => ?_⟩
  · obtain ⟨host', hhost', rfl⟩ := List.mem_map.mp hhost
    rcases h.written host' hhost' with hmem | hnow | hmem
    · exact .inl ((hnormal host' hmem).symm ▸ hmem)
    · exact .inr (.inl hnow)
    · exact .inr (.inr (hdated host' hmem))
  · rw [List.map_map]
    exact h.distinct hold

end Hosts

end VaultStores
