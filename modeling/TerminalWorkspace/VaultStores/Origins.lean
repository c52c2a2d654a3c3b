import Mathlib.Data.List.Find
import TerminalWorkspace.Foundation.FilledMap
import TerminalWorkspace.VaultStores.Credentials
import TerminalWorkspace.VaultStores.Migrating

/-! The record that a host gets its identity from in the migration, and what the loop over the
hosts leaves behind. -/
namespace VaultStores
open JsText Inventory LocalConfig

/-- An existing identity, or the host that a new one is derived from. -/
inductive Origin where
  | existing (identity : IdentityRecord)
  | derived (source : HostRecord)
  deriving DecidableEq

def Origin.credentials : Origin → Credentials
  | .existing identity => identityCredentials identity
  | .derived source => hostCredentials source

instance (c : Credentials) : Decidable c.Authenticates :=
  inferInstanceAs (Decidable (c.authMethod = .password ∨
    c.authMethod = .privateKey ∧ c.privateKeyPath ≠ []))

section Origins
variable (p : Platform) (existingIdentities : List IdentityRecord) (hosts : List HostRecord)

/-- Of the identities with the key the one created first. -/
def earliest (key : JsString) : Option IdentityRecord :=
  (sortBy (fun left right => p.localeCompare left.createdAt right.createdAt)
    existingIdentities).find? fun identity => (identityCredentials identity).equivalenceKey = some key

/-- Of the hosts with the key that are not linked the one listed first. -/
def firstUnlinked (key : JsString) : Option HostRecord :=
  hosts.find? fun host => linkedIdentity existingIdentities host = none ∧
    (hostCredentials host).equivalenceKey = some key

def origin (host : HostRecord) : Option Origin :=
  match linkedIdentity existingIdentities host with
  | some previously => some (.existing previously)
  | none =>
    (hostCredentials host).equivalenceKey.bind fun key =>
      ((earliest p existingIdentities key).map .existing).or
        ((firstUnlinked existingIdentities hosts key).map .derived)

/-- The host is linked, or it authenticates. -/
def Concerned (host : HostRecord) : Prop :=
  (linkedIdentity existingIdentities host).isSome ∨ (hostCredentials host).Authenticates

instance (host : HostRecord) : Decidable (Concerned existingIdentities host) :=
  inferInstanceAs (Decidable (_ ∨ _))

/-- What is written under an id last stands. -/
def lastConcerned (id : JsString) : Option HostRecord :=
  hosts.reverse.find? fun host => host.id = id ∧ Concerned existingIdentities host

end Origins

section Loop
variable (p : Platform) (existingIdentities : List IdentityRecord) (hosts : List HostRecord)
  (keys : List KeyRecord) (generateId : ℕ → JsString) (now : JsString)

/-- What the loop over the hosts has found in the end. -/
def migrated : Migration :=
  hosts.foldl (migrateHost existingIdentities (existingByKey p existingIdentities) keys generateId
    now) ⟨OrderedMap.empty, OrderedMap.empty, []⟩

/-- The key under which a host asks for a new identity. -/
def asked (host : HostRecord) : Option JsString :=
  if (linkedIdentity existingIdentities host).isSome then none
  else (hostCredentials host).equivalenceKey.filter fun key =>
    (earliest p existingIdentities key).isNone

/-- The id that a host is assigned. -/
def assigned (newIdentitiesByKey : OrderedMap JsString IdentityRecord) (host : HostRecord) :
    Option JsString :=
  match linkedIdentity existingIdentities host with
  | some previously => some previously.id
  | none =>
    (hostCredentials host).equivalenceKey.bind fun key =>
      ((earliest p existingIdentities key).or (newIdentitiesByKey.get? key)).map (·.id)

end Loop

variable {p : Platform} {existingIdentities : List IdentityRecord} {hosts : List HostRecord}
  {keys : List KeyRecord} {generateId : ℕ → JsString} {now : JsString}

theorem hostEquivalenceKey_eq (host : HostRecord) :
    hostEquivalenceKey host = (hostCredentials host).equivalenceKey :=
  buildIdentityEquivalenceKey_eq _ _ _

theorem get?_existingByKey (key : JsString) :
    (existingByKey p existingIdentities).get? key = earliest p existingIdentities key := by
  rw [earliest, ← OrderedMap.get?_foldl_enter, existingByKey]
  congr 2
  funext m identity
  rw [buildIdentityEquivalenceKey_eq, OrderedMap.enter, identityCredentials]
  cases (credentialsOf identity.authMethod identity.username
    identity.privateKeyPath).equivalenceKey <;> rfl

theorem asked_eq_some_iff {host : HostRecord} {key : JsString} :
    asked p existingIdentities host = some key ↔
      linkedIdentity existingIdentities host = none ∧
        (hostCredentials host).equivalenceKey = some key ∧
          earliest p existingIdentities key = none := by
  unfold asked
  cases linkedIdentity existingIdentities host with
  | some previously => simp
  | none => simp [Option.filter_eq_some_iff]

section Step
variable (m : Migration) (host : HostRecord)

/-- One host: a new identity is entered under its key. -/
theorem migrateHost_newIdentities :
    (migrateHost existingIdentities (existingByKey p existingIdentities) keys generateId now m
      host).newIdentitiesByKey =
      OrderedMap.enter (asked p existingIdentities)
        (fun n source => derivedIdentity keys source (generateId n) now) m.newIdentitiesByKey
          host := by
  unfold VaultStores.migrateHost OrderedMap.enter asked
  simp only [hostEquivalenceKey_eq, get?_existingByKey]
  cases linkedIdentity existingIdentities host with
  | some previously => rfl
  | none =>
    cases hkey : (hostCredentials host).equivalenceKey with
    | none => rfl
    | some key =>
      cases hearliest : earliest p existingIdentities key with
      | some identity => simp [Migration.assign, hearliest, Option.filter_some]
      | none =>
        cases hnew : m.newIdentitiesByKey.get? key with
        | some identity => simp [Migration.assign, hearliest, hnew, Option.filter_some]
        | none => simp [Migration.assign, hearliest, hnew, Option.filter_some]

/-- One host: the id that it is assigned is written under its own. -/
theorem migrateHost_assignments :
    (migrateHost existingIdentities (existingByKey p existingIdentities) keys generateId now m
      host).assignmentsByHostId =
      ((assigned p existingIdentities (migrateHost existingIdentities
        (existingByKey p existingIdentities) keys generateId now m host).newIdentitiesByKey
          host).elim m.assignmentsByHostId (m.assignmentsByHostId.set host.id)) := by
  rw [migrateHost_newIdentities]
  unfold VaultStores.migrateHost OrderedMap.enter asked assigned
  simp only [hostEquivalenceKey_eq, get?_existingByKey]
  cases linkedIdentity existingIdentities host with
  | some previously => rfl
  | none =>
    cases hkey : (hostCredentials host).equivalenceKey with
    | none => rfl
    | some key =>
      cases hearliest : earliest p existingIdentities key with
      | some identity => simp [Migration.assign, hearliest, Option.filter_some]
      | none =>
        cases hnew : m.newIdentitiesByKey.get? key with
        | some identity => simp [Migration.assign, hearliest, hnew, Option.filter_some]
        | none => simp [Migration.assign, hearliest, hnew, Option.filter_some]

end Step

section Whole

theorem migrated_append (hosts : List HostRecord) (host : HostRecord) :
    migrated p existingIdentities (hosts ++ [host]) keys generateId now =
      migrateHost existingIdentities (existingByKey p existingIdentities) keys generateId now
        (migrated p existingIdentities hosts keys generateId now) host := by
  rw [migrated, List.foldl_append]
  rfl

theorem newIdentities_eq :
    (migrated p existingIdentities hosts keys generateId now).newIdentitiesByKey =
      hosts.foldl (OrderedMap.enter (asked p existingIdentities)
        fun n source => derivedIdentity keys source (generateId n) now) OrderedMap.empty :=
  (List.foldl_hom Migration.newIdentitiesByKey
    fun m host => (migrateHost_newIdentities m host).symm).symm

/-- Each new identity is derived from the first host that asks for it. -/
theorem newIdentity_derived {n : ℕ} {e : JsString × IdentityRecord}
    (h : (migrated p existingIdentities hosts keys generateId now).newIdentitiesByKey.entries[n]? =
      some e) :
    ∃ source, firstUnlinked existingIdentities hosts e.1 = some source ∧
      earliest p existingIdentities e.1 = none ∧
        e.2 = derivedIdentity keys source (generateId n) now := by
  rw [newIdentities_eq] at h
  rcases OrderedMap.getElem?_foldl_enter h with hempty | ⟨-, source, hfind, hmade⟩
  · cases hempty
  · have hsource : asked p existingIdentities source = some e.1 := by
      simpa using List.find?_some hfind
    have hasked := asked_eq_some_iff.mp hsource
    refine ⟨source, ?_, hasked.2.2, hmade⟩
    rw [← hfind]
    refine List.find?_congr fun host _ => decide_eq_decide.mpr ?_
    rw [asked_eq_some_iff, and_iff_left hasked.2.2]

theorem newIdentity_isSome (keys : List KeyRecord) (generateId : ℕ → JsString) (now : JsString)
    {host : HostRecord} (hhost : host ∈ hosts) {key : JsString}
    (hasked : asked p existingIdentities host = some key) :
    ((migrated p existingIdentities hosts keys generateId now).newIdentitiesByKey.get?
      key).isSome := by
  rw [newIdentities_eq]
  exact OrderedMap.get?_foldl_enter_isSome hhost hasked

/-- Only the entry under the key that a host asks for decides what it is assigned. -/
theorem assigned_congr {new new' : OrderedMap JsString IdentityRecord} {host : HostRecord}
    (h : ∀ key, asked p existingIdentities host = some key → new.get? key = new'.get? key) :
    assigned p existingIdentities new host = assigned p existingIdentities new' host := by
  unfold assigned
  cases hlinked : linkedIdentity existingIdentities host with
  | some previously => rfl
  | none =>
    cases hkey : (hostCredentials host).equivalenceKey with
    | none => rfl
    | some key =>
      cases hearliest : earliest p existingIdentities key with
      | some identity => simp [hearliest]
      | none => simp [hearliest, h key (asked_eq_some_iff.mpr ⟨hlinked, hkey, hearliest⟩)]

/-- The assignments are those of all hosts, written one after the other. -/
theorem assignments_eq :
    (migrated p existingIdentities hosts keys generateId now).assignmentsByHostId =
      OrderedMap.ofList (hosts.filterMap fun host =>
        (assigned p existingIdentities
          (migrated p existingIdentities hosts keys generateId now).newIdentitiesByKey host).map
            (host.id, ·)) := by
  induction hosts using List.reverseRecOn with
  | nil => rfl
  | append_singleton hosts host ih =>
    have hkept : ∀ other ∈ hosts,
        assigned p existingIdentities (migrated p existingIdentities (hosts ++ [host]) keys
          generateId now).newIdentitiesByKey other =
        assigned p existingIdentities (migrated p existingIdentities hosts keys generateId
          now).newIdentitiesByKey other := by
      intro other hother
      refine assigned_congr fun key hasked => ?_
      obtain ⟨identity, hidentity⟩ :=
        Option.isSome_iff_exists.mp (newIdentity_isSome keys generateId now hother hasked)
      rw [migrated_append, migrateHost_newIdentities, hidentity]
      exact OrderedMap.get?_enter_of_some hidentity host
    have hfilter := List.filterMap_congr fun other hother =>
      congrArg (Option.map (other.id, ·)) (hkept other hother)
    rw [List.filterMap_append, hfilter, OrderedMap.ofList, OrderedMap.setAll_append,
      ← OrderedMap.ofList, ← ih, migrated_append, migrateHost_assignments]
    cases hassigned : assigned p existingIdentities (migrateHost existingIdentities
      (existingByKey p existingIdentities) keys generateId now
        (migrated p existingIdentities hosts keys generateId now) host).newIdentitiesByKey host with
    | none => simp [hassigned]
    | some identityId => simp [hassigned]

theorem assigned_isSome_iff {host : HostRecord} (hhost : host ∈ hosts) :
    (assigned p existingIdentities
      (migrated p existingIdentities hosts keys generateId now).newIdentitiesByKey host).isSome ↔
        Concerned existingIdentities host := by
  unfold assigned Concerned
  rw [← Credentials.equivalenceKey_isSome_iff]
  cases hlinked : linkedIdentity existingIdentities host with
  | some previously => simp
  | none =>
    cases hkey : (hostCredentials host).equivalenceKey with
    | none => simp
    | some key =>
      cases hearliest : earliest p existingIdentities key with
      | some identity => simp [hearliest]
      | none =>
        have hasked := asked_eq_some_iff.mpr ⟨hlinked, hkey, hearliest⟩
        simpa [hearliest] using newIdentity_isSome keys generateId now hhost hasked

/-- What stands under an id in the end. -/
theorem get?_assignments (id : JsString) :
    (migrated p existingIdentities hosts keys generateId now).assignmentsByHostId.get? id =
      (lastConcerned existingIdentities hosts id).bind (assigned p existingIdentities
        (migrated p existingIdentities hosts keys generateId now).newIdentitiesByKey) := by
  rw [assignments_eq, OrderedMap.get?_ofList, OrderedMap.lastFor_filterMap]
  congr 1
  refine List.find?_congr fun host hhost => decide_eq_decide.mpr ?_
  rw [assigned_isSome_iff (List.mem_reverse.mp hhost)]

theorem origin_isSome_iff {host : HostRecord} (hhost : host ∈ hosts) :
    (origin p existingIdentities hosts host).isSome ↔ Concerned existingIdentities host := by
  unfold origin Concerned
  rw [← Credentials.equivalenceKey_isSome_iff]
  cases hlinked : linkedIdentity existingIdentities host with
  | some previously => simp
  | none =>
    cases hkey : (hostCredentials host).equivalenceKey with
    | none => simp
    | some key =>
      have hfirst : (firstUnlinked existingIdentities hosts key).isSome :=
        List.find?_isSome.mpr ⟨host, hhost, decide_eq_true ⟨hlinked, hkey⟩⟩
      simp [hfirst]

/-- A host is assigned the existing identity that it originates from. -/
theorem assigned_of_existing {host : HostRecord} {identity : IdentityRecord}
    (h : origin p existingIdentities hosts host = some (.existing identity))
    (new : OrderedMap JsString IdentityRecord) :
    identity ∈ existingIdentities ∧ assigned p existingIdentities new host = some identity.id := by
  unfold origin at h
  unfold assigned
  cases hlinked : linkedIdentity existingIdentities host with
  | some previously =>
    rw [hlinked] at h
    obtain rfl := Origin.existing.inj (Option.some.inj h)
    exact ⟨linkedIdentity_mem hlinked, rfl⟩
  | none =>
    rw [hlinked] at h
    obtain ⟨key, hkey, hor⟩ := Option.bind_eq_some_iff.mp h
    cases hearliest : earliest p existingIdentities key with
    | none => simp [hearliest] at hor
    | some other =>
      rw [hearliest] at hor
      obtain rfl := Origin.existing.inj (Option.some.inj hor)
      refine ⟨mem_sortBy.mp (List.mem_of_find?_eq_some hearliest), ?_⟩
      simp [hkey, hearliest]

/-- The record that a host without a link originates from has the key of the host. -/
theorem origin_equivalenceKey {host : HostRecord} {o : Origin}
    (hlinked : linkedIdentity existingIdentities host = none)
    (h : origin p existingIdentities hosts host = some o) :
    o.credentials.equivalenceKey = (hostCredentials host).equivalenceKey := by
  rw [origin, hlinked] at h
  obtain ⟨key, hkey, hor⟩ := Option.bind_eq_some_iff.mp h
  rcases Option.or_eq_some_iff.mp hor with hold | ⟨-, hnew⟩
  · obtain ⟨identity, hearliest, rfl⟩ := Option.map_eq_some_iff.mp hold
    have hidentity : (identityCredentials identity).equivalenceKey = some key := by
      simpa using List.find?_some hearliest
    rw [hkey]
    exact hidentity
  · obtain ⟨source, hfirst, rfl⟩ := Option.map_eq_some_iff.mp hnew
    have hsource : linkedIdentity existingIdentities source = none ∧
        (hostCredentials source).equivalenceKey = some key := by
      simpa using List.find?_some hfirst
    rw [hkey]
    exact hsource.2

theorem identityCredentials_derived (source : HostRecord) (fresh : JsString) :
    identityCredentials (derivedIdentity keys source fresh now) = hostCredentials source := by
  by_cases hmethod : source.authMethod = .privateKey <;>
    simp [identityCredentials, hostCredentials, credentialsOf, derivedIdentity, hmethod]

/-- A host is assigned the new identity that was derived from the host it originates from. -/
theorem assigned_of_derived {host source : HostRecord} (hhost : host ∈ hosts)
    (h : origin p existingIdentities hosts host = some (.derived source)) :
    ∃ identity ∈ (migrated p existingIdentities hosts keys generateId
        now).newIdentitiesByKey.values,
      assigned p existingIdentities (migrated p existingIdentities hosts keys generateId
        now).newIdentitiesByKey host = some identity.id ∧
          identityCredentials identity = hostCredentials source := by
  unfold origin at h
  unfold assigned
  cases hlinked : linkedIdentity existingIdentities host with
  | some previously => simp [hlinked] at h
  | none =>
    rw [hlinked] at h
    obtain ⟨key, hkey, hor⟩ := Option.bind_eq_some_iff.mp h
    cases hearliest : earliest p existingIdentities key with
    | some other => simp [hearliest] at hor
    | none =>
      have hasked := asked_eq_some_iff.mpr ⟨hlinked, hkey, hearliest⟩
      obtain ⟨identity, hidentity⟩ :=
        Option.isSome_iff_exists.mp (newIdentity_isSome keys generateId now hhost hasked)
      obtain ⟨n, hn⟩ := List.getElem?_of_mem (OrderedMap.get?_mem hidentity)
      obtain ⟨source', hsource', -, hderived⟩ := newIdentity_derived hn
      have hsame : source' = source := by simpa [hearliest, hsource'] using hor
      refine ⟨identity, OrderedMap.mem_values_iff.mpr ⟨key, hidentity⟩, ?_, ?_⟩
      · simp [hkey, hearliest, hidentity]
      · rw [show identity = _ from hderived, identityCredentials_derived, hsame]

end Whole

end VaultStores
