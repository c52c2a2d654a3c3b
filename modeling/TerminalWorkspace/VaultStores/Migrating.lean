import TerminalWorkspace.LocalConfig.Convergence
import TerminalWorkspace.VaultStores.Identities

/-! The hosts that the identity migration leaves as they are, and those that it links anew. -/
namespace VaultStores
open JsText Inventory LocalConfig

variable {existingIdentities : List IdentityRecord} {existing : OrderedMap JsString IdentityRecord}
  {keys : List KeyRecord} {generateId : ℕ → JsString} {now : JsString} {hosts : List HostRecord}

/-- A host that is linked to an identity, or needs none. A link to an identity whose id is empty
is not written. -/
def Settled (existingIdentities : List IdentityRecord)
    (existing : OrderedMap JsString IdentityRecord) (host : HostRecord) : Prop :=
  (linkedIdentity existingIdentities host).isSome ∨
    ∀ key ∈ hostEquivalenceKey host, ∃ identity ∈ existing.get? key, identity.id = []

theorem truthy_eq {s t : JsString} (h : truthy s = some t) : s = t ∧ t ≠ [] := by
  unfold truthy at h
  split_ifs at h with hs
  obtain rfl := Option.some.inj h
  exact ⟨rfl, hs⟩

theorem optional_truthy {value : Optional JsString} {s : JsString} (h : value.truthy = some s) :
    value.get? = some s ∧ s ≠ [] := by
  obtain ⟨t, ht, htruthy⟩ := Option.bind_eq_some_iff.mp h
  obtain ⟨rfl, hne⟩ := truthy_eq htruthy
  exact ⟨ht, hne⟩

/-- The identity that a host is linked to has the id that the host names. -/
theorem linkedIdentity_some {host : HostRecord} {identity : IdentityRecord}
    (h : linkedIdentity existingIdentities host = some identity) :
    host.identityId.truthy = some identity.id := by
  obtain ⟨identityId, htruthy, hfind⟩ := Option.bind_eq_some_iff.mp h
  have hid : identity.id = identityId := by simpa using List.find?_some hfind
  exact hid ▸ htruthy

theorem linkedIdentity_mem {host : HostRecord} {identity : IdentityRecord}
    (h : linkedIdentity existingIdentities host = some identity) :
    identity ∈ existingIdentities := by
  obtain ⟨_, -, hfind⟩ := Option.bind_eq_some_iff.mp h
  exact List.mem_of_find?_eq_some hfind

/-- A host that names an existing identity is linked to one. -/
theorem linkedIdentity_isSome {host : HostRecord} {identity : IdentityRecord}
    (hmem : identity ∈ existingIdentities) (h : host.identityId.truthy = some identity.id) :
    (linkedIdentity existingIdentities host).isSome := by
  rw [linkedIdentity, h, Option.bind_some, List.find?_isSome]
  exact ⟨identity, hmem, decide_eq_true rfl⟩

theorem existingByKey_mem {p : Platform} {key : JsString} {identity : IdentityRecord}
    (h : (existingByKey p existingIdentities).get? key = some identity) :
    identity ∈ existingIdentities := by
  have hvalue : identity ∈ (existingByKey p existingIdentities).values :=
    List.mem_map_of_mem (OrderedMap.get?_mem h)
  revert hvalue
  unfold existingByKey
  refine List.foldlRecOn _ _ (motive := fun m : OrderedMap JsString IdentityRecord =>
    identity ∈ m.values → identity ∈ existingIdentities) ?_ ?_
  · exact fun hempty => absurd hempty List.not_mem_nil
  · intro m ih other hother hset
    split at hset
    · exact ih hset
    · split_ifs at hset
      · exact ih hset
      · rcases OrderedMap.mem_values_set hset with rfl | hold
        · exact mem_sortBy.mp hother
        · exact ih hold

section Kept

/-- Every host is assigned the identity that it names already, or one without an id. -/
def Kept (hosts : List HostRecord) (m : Migration) : Prop :=
  m.newIdentitiesByKey = OrderedMap.empty ∧
    ∀ e ∈ m.assignmentsByHostId.entries, ∃ host ∈ hosts, host.id = e.1 ∧
      (host.identityId.truthy = some e.2 ∨ e.2 = [])

theorem Kept.migrateHost {m : Migration} (h : Kept hosts m) {host : HostRecord} (hhost : host ∈ hosts)
    (hsettled : Settled existingIdentities existing host) :
    Kept hosts (migrateHost existingIdentities existing keys generateId now m host) := by
  unfold VaultStores.migrateHost
  cases hlinked : linkedIdentity existingIdentities host with
  | some previously =>
    refine ⟨h.1, fun e he => ?_⟩
    rcases OrderedMap.mem_setEntry he with rfl | hold
    · exact ⟨host, hhost, rfl, .inl (linkedIdentity_some hlinked)⟩
    · exact h.2 e hold
  | none =>
    have hnameless := hsettled.resolve_left (by simp [hlinked])
    cases hkey : hostEquivalenceKey host with
    | none => exact h
    | some key =>
      obtain ⟨identity, hfound, hempty⟩ := hnameless key hkey
      simp only [Option.mem_def.mp hfound, Option.some_or]
      refine ⟨h.1, fun e he => ?_⟩
      rcases OrderedMap.mem_setEntry he with rfl | hold
      · exact ⟨host, hhost, rfl, .inr hempty⟩
      · exact h.2 e hold

theorem kept_foldl {m : Migration} (h : Kept hosts m) {rest : List HostRecord}
    (hrest : rest ⊆ hosts) (hsettled : ∀ host ∈ hosts, Settled existingIdentities existing host) :
    Kept hosts (rest.foldl (migrateHost existingIdentities existing keys generateId now) m) := by
  induction rest generalizing m with
  | nil => exact h
  | cons host rest ih =>
    have hhost := hrest List.mem_cons_self
    exact ih (h.migrateHost hhost (hsettled host hhost)) fun _ hr =>
      hrest (List.mem_cons_of_mem _ hr)

theorem Kept.apply {m : Migration} (h : Kept hosts m)
    (hdistinct : (hosts.map VaultRecord.id).Nodup) :
    applyIdentityAssignments hosts m.assignmentsByHostId = hosts := by
  refine map_eq_self fun host hhost => ?_
  cases hassigned : m.assignmentsByHostId.get? host.id with
  | none => rfl
  | some identityId =>
    obtain ⟨host', hhost', hid, hkept⟩ := h.2 _ (OrderedMap.get?_mem hassigned)
    obtain rfl := List.inj_on_of_nodup_map hdistinct hhost' hhost hid
    rcases hkept with htruthy | hempty
    · obtain ⟨hget, hne⟩ := optional_truthy htruthy
      simp [truthy, hne, hget]
    · obtain rfl : identityId = [] := hempty
      rfl

end Kept

section Relinked

/-- The identifiers drawn are not empty, and no host names one of them. -/
def Unused (generateId : ℕ → JsString) (hosts : List HostRecord) : Prop :=
  ∀ n, generateId n ≠ [] ∧ ∀ host ∈ hosts, host.identityId.truthy ≠ some (generateId n)

/-- Every new identity has an identifier that was drawn. -/
def Drawn (generateId : ℕ → JsString) (m : Migration) : Prop :=
  ∀ identity ∈ m.newIdentitiesByKey.values, ∃ n, identity.id = generateId n

/-- The host is assigned an identity other than the one it names. -/
def Relinked (m : Migration) (host : HostRecord) : Prop :=
  ∃ identityId ∈ m.assignmentsByHostId.get? host.id, identityId ≠ [] ∧
    host.identityId.truthy ≠ some identityId

theorem Drawn.migrateHost {m : Migration} (h : Drawn generateId m) (host : HostRecord) :
    Drawn generateId (migrateHost existingIdentities existing keys generateId now m host) := by
  unfold VaultStores.migrateHost
  cases linkedIdentity existingIdentities host with
  | some previously => exact h
  | none =>
    cases hostEquivalenceKey host with
    | none => exact h
    | some key =>
      cases hfound : (existing.get? key).or (m.newIdentitiesByKey.get? key) with
      | some identity =>
        simp only [hfound]
        exact h
      | none =>
        simp only [hfound]
        intro identity hidentity
        rcases OrderedMap.mem_values_set hidentity with rfl | hold
        · exact ⟨_, rfl⟩
        · exact h identity hold

theorem migrateHost_get?_ne {m : Migration} {host : HostRecord} {id : JsString}
    (hne : id ≠ host.id) :
    (migrateHost existingIdentities existing keys generateId now m host).assignmentsByHostId.get? id =
      m.assignmentsByHostId.get? id := by
  unfold VaultStores.migrateHost Migration.assign
  dsimp only
  split
  · rw [OrderedMap.get?_set, if_neg hne]
  · split
    · rfl
    · split <;> rw [OrderedMap.get?_set, if_neg hne]

theorem foldl_get?_ne {m : Migration} {rest : List HostRecord} {id : JsString}
    (hne : ∀ host ∈ rest, id ≠ host.id) :
    (rest.foldl (migrateHost existingIdentities existing keys generateId now)
      m).assignmentsByHostId.get? id = m.assignmentsByHostId.get? id := by
  induction rest generalizing m with
  | nil => rfl
  | cons host rest ih =>
    rw [List.foldl_cons, ih fun other hother => hne other (List.mem_cons_of_mem _ hother),
      migrateHost_get?_ne (hne host List.mem_cons_self)]

/-- A host that is not settled is linked anew when its turn comes. -/
theorem relinked_migrateHost {m : Migration} (hdrawn : Drawn generateId m) {host : HostRecord}
    (hunused : ∀ n, generateId n ≠ [] ∧ host.identityId.truthy ≠ some (generateId n))
    (hexisting : ∀ key, ∀ identity ∈ existing.get? key, identity ∈ existingIdentities)
    (hunsettled : ¬ Settled existingIdentities existing host) :
    Relinked (migrateHost existingIdentities existing keys generateId now m host) host := by
  rw [Settled, not_or] at hunsettled
  obtain ⟨hunlinked, hkeyed⟩ := hunsettled
  push Not at hkeyed
  obtain ⟨key, hkey, hnamed⟩ := hkeyed
  have hlinked : linkedIdentity existingIdentities host = none :=
    Option.not_isSome_iff_eq_none.mp hunlinked
  simp only [VaultStores.migrateHost, hlinked, Option.mem_def.mp hkey]
  cases hfound : (existing.get? key).or (m.newIdentitiesByKey.get? key) with
  | some identity =>
    simp only
    refine ⟨identity.id, OrderedMap.get?_set_self _ _ _, ?_⟩
    rcases Option.or_eq_some_iff.mp hfound with hold | ⟨-, hnew⟩
    · refine ⟨hnamed identity hold, fun htruthy => hunlinked ?_⟩
      exact linkedIdentity_isSome (hexisting key identity hold) htruthy
    · obtain ⟨n, hn⟩ := hdrawn identity (List.mem_map_of_mem (OrderedMap.get?_mem hnew))
      exact hn ▸ hunused n
  | none =>
    simp only
    exact ⟨_, OrderedMap.get?_set_self _ _ _, hunused _⟩

/-- And stays so, for no other host has its id. -/
theorem relinked_foldl {m : Migration} (hdrawn : Drawn generateId m) {rest : List HostRecord}
    (hdistinct : (rest.map VaultRecord.id).Nodup) (hunused : Unused generateId rest)
    (hexisting : ∀ key, ∀ identity ∈ existing.get? key, identity ∈ existingIdentities)
    {host : HostRecord} (hhost : host ∈ rest)
    (hunsettled : ¬ Settled existingIdentities existing host) :
    Relinked (rest.foldl (migrateHost existingIdentities existing keys generateId now) m) host := by
  induction rest generalizing m with
  | nil => exact absurd hhost List.not_mem_nil
  | cons first rest ih =>
    rw [List.map_cons, List.nodup_cons] at hdistinct
    rcases List.mem_cons.mp hhost with rfl | hmem
    · have hrelinked : Relinked (migrateHost existingIdentities existing keys generateId now m host)
          host := relinked_migrateHost hdrawn
        (fun n => ⟨(hunused n).1, (hunused n).2 host List.mem_cons_self⟩) hexisting hunsettled
      have hother : ∀ other ∈ rest, host.id ≠ other.id := fun other hother hid =>
        hdistinct.1 (List.mem_map.mpr ⟨other, hother, hid.symm⟩)
      rw [Relinked, List.foldl_cons, foldl_get?_ne hother]
      exact hrelinked
    · refine ih (hdrawn.migrateHost first) hdistinct.2 (fun n => ⟨(hunused n).1, ?_⟩) hmem
      exact fun other hother => (hunused n).2 other (List.mem_cons_of_mem _ hother)

/-- What is written into a host that is linked anew. -/
theorem Relinked.apply {m : Migration} {host : HostRecord} (h : Relinked m host)
    (hhost : host ∈ hosts) :
    ∃ identityId, host.identityId.truthy ≠ some identityId ∧ identityId ≠ [] ∧
      { host with identityId := .value identityId } ∈
        applyIdentityAssignments hosts m.assignmentsByHostId := by
  obtain ⟨identityId, hassigned, hne, hother⟩ := h
  refine ⟨identityId, hother, hne, List.mem_map.mpr ⟨host, hhost, ?_⟩⟩
  have hget : host.identityId.get? ≠ some identityId := by
    intro hget
    exact hother (by simp [Optional.truthy, hget, truthy, hne])
  simp [Option.mem_def.mp hassigned, truthy, hne, hget]

end Relinked

end VaultStores
