import TerminalWorkspace.VaultStores.Effects

/-! Which actions move every record that they change forward in time: those that date what they
change, and no others. -/
namespace VaultStores
open JsText Inventory LocalConfig
open ParsedRecord (parsed)

section Versions
variable {α : Type} [VaultRecord α] [ParsedRecord α]

/-- Each version is exported like the one that it replaces, or is later. -/
def Advances (old new : List α) : Prop :=
  ∀ l ∈ old, ∀ r ∈ new, VaultRecord.id l = VaultRecord.id r →
    parsed l = parsed r ∨ before (VaultRecord.updatedAt l) (VaultRecord.updatedAt r) = true

/-- Every record was last changed before now. -/
def Past (now : JsString) (records : List α) : Prop :=
  ∀ r ∈ records, before (VaultRecord.updatedAt r) now = true

theorem advances_self {records : List α} (hdistinct : (records.map VaultRecord.id).Nodup) :
    Advances records records := by
  intro l hl r hr hid
  rw [List.inj_on_of_nodup_map hdistinct hl hr hid]
  exact .inl rfl

/-- A rewriting advances every collection that the old one has advanced. -/
theorem Rewrites.advances {now : JsString} {start old dated new : List α}
    (h : Rewrites now old dated new) (hpast : Past now start) (hold : Advances start old)
    (hdated : Advances start dated) : Advances start new := by
  intro l hl r hr hid
  rcases h.written r hr with hmem | hnow | hmem
  · exact hold l hl r hmem hid
  · exact .inr (hnow ▸ hpast l hl)
  · exact hdated l hl r hmem hid

/-- A record that keeps its time is exported as before. -/
theorem Advances.same {old new : List α} (h : Advances old new) {l r : α} (hl : l ∈ old)
    (hr : r ∈ new) (hid : VaultRecord.id l = VaultRecord.id r)
    (hupdated : VaultRecord.updatedAt l = VaultRecord.updatedAt r) : parsed l = parsed r := by
  refine (h l hl r hr hid).resolve_right ?_
  rw [hupdated, not_before_self]
  exact Bool.false_ne_true

end Versions

section Each
variable {p : Platform} {s : Stores} {now : JsString}

def AdvancesEach (c d : Collections) : Prop :=
  Advances c.hosts d.hosts ∧ Advances c.keys d.keys ∧ Advances c.snippets d.snippets ∧
    Advances c.knownHosts d.knownHosts ∧ Advances c.identities d.identities

def PastEach (now : JsString) (c : Collections) : Prop :=
  Past now c.hosts ∧ Past now c.keys ∧ Past now c.snippets ∧ Past now c.knownHosts ∧
    Past now c.identities

theorem advancesEach_self {c : Collections} (hdistinct : DistinctIds c) : AdvancesEach c c := by
  have hids (kind : VaultSyncEntityKind) := ids_eq c kind ▸ hdistinct kind
  exact ⟨advances_self (hids .hosts), advances_self (hids .keys), advances_self (hids .snippets),
    advances_self (hids .knownHosts), advances_self (hids .identities)⟩

theorem Effect.advances {now : JsString} {from' c dates c' : Collections}
    (h : Effect now c dates c') (hpast : PastEach now from') (hold : AdvancesEach from' c)
    (hdated : AdvancesEach from' dates) : AdvancesEach from' c' := by
  obtain ⟨phosts, pkeys, psnippets, pknownHosts, pidentities⟩ := hpast
  obtain ⟨ohosts, okeys, osnippets, oknownHosts, oidentities⟩ := hold
  obtain ⟨dhosts, dkeys, dsnippets, dknownHosts, didentities⟩ := hdated
  exact ⟨h.hosts.advances phosts ohosts dhosts, h.keys.advances pkeys okeys dkeys,
    h.snippets.advances psnippets osnippets dsnippets,
    h.knownHosts.advances pknownHosts oknownHosts dknownHosts,
    h.identities.advances pidentities oidentities didentities⟩

theorem Effect.distinct {now : JsString} {c dates c' : Collections} (h : Effect now c dates c')
    (hdistinct : DistinctIds c) : DistinctIds c' := by
  have hids (kind : VaultSyncEntityKind) := ids_eq c kind ▸ hdistinct kind
  intro kind
  rw [ids_eq]
  cases kind with
  | hosts => exact h.hosts.distinct (hids .hosts)
  | keys => exact h.keys.distinct (hids .keys)
  | snippets => exact h.snippets.distinct (hids .snippets)
  | knownHosts => exact h.knownHosts.distinct (hids .knownHosts)
  | identities => exact h.identities.distinct (hids .identities)

/-- The host as an action leaves it that has changed neither its id nor its time. -/
theorem same_host {hosts : List HostRecord} {edit : HostRecord → HostRecord}
    (h : Advances hosts (sortHostCollection p (hosts.map edit))) {host : HostRecord}
    (hhost : host ∈ hosts) (hid : (edit host).id = host.id)
    (hupdated : (edit host).updatedAt = host.updatedAt) :
    parsed host = parsed (normalizeHostRecord (edit host)) :=
  h.same hhost (mem_sortBy.mpr (List.mem_map_of_mem (List.mem_map_of_mem hhost))) hid.symm
    hupdated.symm

theorem unassigned_of_advances {hostId : JsString}
    (h : Advances s.collections.keys (unassignHostFromAll p s.collections.keys hostId)) :
    Unassigned s hostId := by
  intro key hkey hassigned
  have hsame := h.same hkey (mem_sortBy.mpr (List.mem_map_of_mem hkey)) rfl rfl
  have hall : key.assignedHostIds = key.assignedHostIds.filter (· ≠ hostId) :=
    congrArg KeyRecord.assignedHostIds hsame
  rw [hall] at hassigned
  exact of_decide_eq_true (List.mem_filter.mp hassigned).2 rfl

theorem untargeted_of_advances {hostId : JsString}
    (h : Advances s.collections.snippets
      (removeHostFromAllTargets p s.collections.snippets hostId)) :
    Untargeted s hostId := by
  intro snippet hsnippet htargeted
  have hsame := h.same hsnippet (mem_sortBy.mpr (List.mem_map_of_mem hsnippet)) rfl rfl
  have hall : snippet.targetHostIds = snippet.targetHostIds.filter (· ≠ hostId) :=
    congrArg SnippetRecord.targetHostIds hsame
  rw [hall] at htargeted
  exact of_decide_eq_true (List.mem_filter.mp htargeted).2 rfl

theorem settled_of_advances {generateId : ℕ → JsString} (hdistinct : DistinctIds s.collections)
    (hunused : Unused generateId s.collections.hosts) (hpending : ¬ s.migrationCompleted = true)
    (h : Advances s.collections.hosts (s.ensureMigrated p generateId now).collections.hosts) :
    ∀ host ∈ s.collections.hosts, Settled s.collections.identities
      (existingByKey p s.collections.identities) host := by
  intro host hhost
  by_contra hunsettled
  have hids := hdistinct .hosts
  rw [ids_eq] at hids
  have hdrawn : Drawn generateId ⟨OrderedMap.empty, OrderedMap.empty, []⟩ :=
    fun _ h => absurd h List.not_mem_nil
  have hrelinked : Relinked (s.collections.hosts.foldl
      (migrateHost s.collections.identities (existingByKey p s.collections.identities)
        s.collections.keys generateId now) ⟨OrderedMap.empty, OrderedMap.empty, []⟩) host :=
    relinked_foldl hdrawn hids hunused (fun _ _ hi => existingByKey_mem hi) hhost hunsettled
  obtain ⟨identityId, hother, hne, hwritten⟩ := hrelinked.apply hhost
  rw [Stores.ensureMigrated, if_neg hpending] at h
  have hsame := h.same hhost hwritten rfl rfl
  have hidentity : reparseOptional host.identityId = .value identityId :=
    congrArg (fun r : HostRecord => r.identityId) hsame
  cases hvalue : host.identityId with
  | absent => rw [hvalue] at hidentity; cases hidentity
  | undefined => rw [hvalue] at hidentity; cases hidentity
  | value id =>
    rw [hvalue] at hidentity
    obtain rfl := Optional.value.inj hidentity
    exact hother (by simp [hvalue, Optional.truthy, Optional.get?, truthy, hne])

/-- An action that moves every record it changes forward dates what it changes. -/
theorem dating_of_advances {reading : Reading} (hdistinct : DistinctIds s.collections)
    {a : StoreAction} (hfresh : Fresh s a)
    (h : AdvancesEach s.collections (s.perform p reading a).collections) :
    Dating p s reading.now a := by
  cases a with
  | markConnected hostId =>
    intro host hhost hid
    have hsame := same_host h.1 hhost (by split_ifs <;> rfl) (by split_ifs <;> rfl)
    rw [if_pos (decide_eq_true hid)] at hsame
    have hconnected : reparseOptional host.lastConnectedAt = .value reading.now :=
      congrArg HostRecord.lastConnectedAt hsame
    cases hvalue : host.lastConnectedAt with
    | absent => rw [hvalue] at hconnected; cases hconnected
    | undefined => rw [hvalue] at hconnected; cases hconnected
    | value time => rw [hvalue] at hconnected; exact hconnected
  | setSnippetCounts counts =>
    intro host hhost
    have hsame := same_host h.1 hhost rfl rfl
    exact (congrArg HostRecord.snippetCount hsame).symm
  | unassignHostFromAll hostId => exact unassigned_of_advances h.2.1
  | removeHostFromAllTargets hostId => exact untargeted_of_advances h.2.2.1
  | ensureMigrated generateId =>
    by_cases hcompleted : s.migrationCompleted = true
    · exact .inl hcompleted
    · exact .inr (settled_of_advances hdistinct hfresh hcompleted h.1)
  | deleteHostAndCascade hostId =>
    have hcollections : (s.perform p reading (.deleteHostAndCascade hostId)).collections =
        ⟨deleteHostFromCollection p s.collections.hosts hostId,
          unassignHostFromAll p s.collections.keys hostId,
          removeHostFromAllTargets p s.collections.snippets hostId,
          s.collections.knownHosts, s.collections.identities⟩ :=
      collections_cascade p s hostId reading
    rw [hcollections] at h
    exact ⟨unassigned_of_advances h.2.1, untargeted_of_advances h.2.2.1⟩
  | _ => trivial

/-- And what it writes with a time of its own is later than the versions before. -/
theorem dated_of_advances {reading : Reading} {a : StoreAction}
    (h : AdvancesEach s.collections (s.perform p reading a).collections) :
    AdvancesEach s.collections (dated p reading.now a) := by
  have hnone : AdvancesEach s.collections noCollections := by
    refine ⟨?_, ?_, ?_, ?_, ?_⟩
    all_goals exact fun _ _ _ h => absurd h List.not_mem_nil
  cases a with
  | loadSampleData =>
    refine ⟨?_, hnone.2⟩
    have hhosts := h.1
    rw [Stores.perform, Stores.loadSampleData, collections_clearAll] at hhosts
    exact hhosts
  | upsertIdentity input =>
    simp only [dated]
    split_ifs
    · refine ⟨hnone.1, hnone.2.1, hnone.2.2.1, hnone.2.2.2.1, fun l hl r hr => ?_⟩
      have hwritten : r ∈ (s.perform p reading (.upsertIdentity input)).collections.identities :=
        mem_sortBy.mpr (List.mem_append_right _ hr)
      exact h.2.2.2.2 l hl r hwritten
    · exact hnone
  | _ => exact hnone

/-- An action moves every record that it changes forward if and only if it dates them. -/
theorem advances_perform_iff {reading : Reading} (hdistinct : DistinctIds s.collections)
    (hnormal : Normal s.collections.hosts) {a : StoreAction} (hfresh : Fresh s a)
    (hpast : PastEach reading.now s.collections) :
    AdvancesEach s.collections (s.perform p reading a).collections ↔
      Dating p s reading.now a ∧ AdvancesEach s.collections (dated p reading.now a) := by
  constructor
  · intro h
    exact ⟨dating_of_advances hdistinct hfresh h, dated_of_advances h⟩
  · rintro ⟨hdating, hdated⟩
    exact (effect_perform hnormal hdistinct hfresh hdating).advances hpast
      (advancesEach_self hdistinct) hdated

end Each

end VaultStores
