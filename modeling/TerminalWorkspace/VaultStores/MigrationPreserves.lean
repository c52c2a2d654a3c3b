import TerminalWorkspace.LocalConfig.Resurrection
import TerminalWorkspace.VaultStores.Actions
import TerminalWorkspace.VaultStores.Origins

/-! What hosts connect with survives the identity migration exactly if every host originates from a
record with its own credentials. -/
namespace VaultStores
open JsText Inventory LocalConfig

section Statement

def LinkedTo (identities : List IdentityRecord) (host : HostRecord) (identity : IdentityRecord) :
    Prop :=
  identity ∈ identities ∧ host.identityId.truthy = some identity.id

/-- A host before and after the migration. -/
structure HostPreserved (existingIdentities identities : List IdentityRecord)
    (host host' : HostRecord) : Prop where
  linked : (linkedIdentity existingIdentities host).isSome → host' = host
  unlinked : linkedIdentity existingIdentities host = none →
    (hostCredentials host).Authenticates →
      (∃ identity, LinkedTo identities host' identity) ∧
        ∀ identity, LinkedTo identities host' identity →
          identityCredentials identity = hostCredentials host
  others : host' = { host with identityId := host'.identityId }

/-- The stores before and after the migration, with the identities that it adds. -/
structure Preserved (p : Platform) (s s' : Stores) (added : List IdentityRecord) : Prop where
  identities : s'.collections.identities.Perm (s.collections.identities ++ added)
  hosts : List.Forall₂ (HostPreserved s.collections.identities s'.collections.identities)
    s.collections.hosts s'.collections.hosts
  distinct : added.Pairwise fun identity other =>
    identityCredentials identity ≠ identityCredentials other
  isNew : ∀ identity ∈ added, ∀ other ∈ s.collections.identities,
    identityCredentials identity ≠ identityCredentials other
  again : ∀ generateId now,
    Stores.ensureMigrated p { s' with migrationCompleted := false } generateId now = s'

/-- The identifiers drawn are unlike each other and unlike those in use. -/
structure DrawsNew (generateId : ℕ → JsString) (s : Stores) : Prop where
  injective : Function.Injective generateId
  unused : Unused generateId s.collections.hosts
  isNew : ∀ n, ∀ identity ∈ s.collections.identities, identity.id ≠ generateId n

/-- A linked host keeps its link; any other gets an identity with its own credentials, under an id
that stands for no others. -/
def Origin.Suits (existingIdentities : List IdentityRecord) (host : HostRecord) : Origin → Prop
  | .existing identity =>
    match linkedIdentity existingIdentities host with
    | some previously => identity.id = previously.id
    | none => identity.id ≠ [] ∧ ∀ other ∈ existingIdentities, other.id = identity.id →
        identityCredentials other = hostCredentials host
  | .derived source =>
    linkedIdentity existingIdentities host = none ∧ hostCredentials source = hostCredentials host

/-- What is assigned under the id of a host suits the host. -/
def OriginsSuit (p : Platform) (existingIdentities : List IdentityRecord)
    (hosts : List HostRecord) : Prop :=
  ∀ host ∈ hosts, Concerned existingIdentities host →
    ∀ last ∈ lastConcerned existingIdentities hosts host.id,
      ∀ o ∈ origin p existingIdentities hosts last, o.Suits existingIdentities host

end Statement

section Stamp

/-- What an assignment writes into a host. -/
def stamp (assignment : Option JsString) (host : HostRecord) : HostRecord :=
  match assignment.bind truthy with
  | none => host
  | some nextIdentityId =>
    if host.identityId.get? = some nextIdentityId then host
    else { host with identityId := .value nextIdentityId }

theorem applyIdentityAssignments_eq_stamp (hosts : List HostRecord)
    (assignmentsByHostId : OrderedMap JsString JsString) :
    applyIdentityAssignments hosts assignmentsByHostId =
      hosts.map fun host => stamp (assignmentsByHostId.get? host.id) host := rfl

variable {host : HostRecord} {identityId : JsString}

theorem stamp_others (assignment : Option JsString) (host : HostRecord) :
    stamp assignment host = { host with identityId := (stamp assignment host).identityId } := by
  unfold stamp
  split
  · rfl
  · split <;> rfl

theorem stamp_id (assignment : Option JsString) (host : HostRecord) :
    (stamp assignment host).id = host.id := by
  rw [stamp_others]

theorem stamp_nil (host : HostRecord) : stamp (some []) host = host := rfl

theorem get?_stamp (h : identityId ≠ []) :
    (stamp (some identityId) host).identityId.get? = some identityId := by
  simp only [stamp, Option.bind_some, truthy, if_neg h]
  split_ifs with hsame
  · exact hsame
  · rfl

theorem truthy_stamp (h : identityId ≠ []) :
    (stamp (some identityId) host).identityId.truthy = some identityId := by
  rw [Optional.truthy, get?_stamp h, Option.bind_some, truthy, if_neg h]

theorem stamp_eq_self (h : host.identityId.get? = some identityId) :
    stamp (some identityId) host = host := by
  by_cases hempty : identityId = []
  · rw [hempty, stamp_nil]
  · simp [stamp, truthy, hempty, h]

end Stamp

section Added
variable (p : Platform) (existingIdentities : List IdentityRecord) (hosts : List HostRecord)
  (keys : List KeyRecord) (generateId : ℕ → JsString) (now : JsString)

def added : List IdentityRecord :=
  (migrated p existingIdentities hosts keys generateId now).newIdentitiesByKey.values

def assignmentOf (id : JsString) : Option JsString :=
  (migrated p existingIdentities hosts keys generateId now).assignmentsByHostId.get? id

variable {p existingIdentities hosts keys generateId now} {identity other : IdentityRecord}

/-- A new identity has an identifier that was drawn for it, and a key that no existing one has. -/
theorem newIdentity_key {n : ℕ} {e : JsString × IdentityRecord}
    (h : (migrated p existingIdentities hosts keys generateId now).newIdentitiesByKey.entries[n]? =
      some e) :
    e.2.id = generateId n ∧ (identityCredentials e.2).equivalenceKey = some e.1 ∧
      earliest p existingIdentities e.1 = none := by
  obtain ⟨source, hfirst, hearliest, hmade⟩ := newIdentity_derived h
  have hsource : linkedIdentity existingIdentities source = none ∧
      (hostCredentials source).equivalenceKey = some e.1 := by
    simpa using List.find?_some hfirst
  rw [hmade, identityCredentials_derived]
  exact ⟨rfl, hsource.2, hearliest⟩

theorem added_place (h : identity ∈ added p existingIdentities hosts keys generateId now) :
    ∃ (n : ℕ) (key : JsString), (migrated p existingIdentities hosts keys generateId
      now).newIdentitiesByKey.entries[n]? = some (key, identity) := by
  obtain ⟨e, he, rfl⟩ := List.mem_map.mp h
  obtain ⟨n, hn⟩ := List.getElem?_of_mem he
  exact ⟨n, e.1, hn⟩

theorem added_pairwise : (added p existingIdentities hosts keys generateId now).Pairwise
    fun identity other => identityCredentials identity ≠ identityCredentials other := by
  refine List.pairwise_map.mpr ((List.pairwise_map.mp (migrated p existingIdentities hosts keys
    generateId now).newIdentitiesByKey.nodup).imp_of_mem ?_)
  intro e e' he he' hne hsame
  obtain ⟨n, hn⟩ := List.getElem?_of_mem he
  obtain ⟨n', hn'⟩ := List.getElem?_of_mem he'
  have h := (newIdentity_key hn).2.1
  rw [hsame, (newIdentity_key hn').2.1] at h
  exact hne (Option.some.inj h).symm

theorem added_isNew (h : identity ∈ added p existingIdentities hosts keys generateId now)
    (hother : other ∈ existingIdentities) :
    identityCredentials identity ≠ identityCredentials other := by
  intro hsame
  obtain ⟨n, key, hn⟩ := added_place h
  obtain ⟨-, hkey, hearliest⟩ := newIdentity_key hn
  refine absurd (List.find?_eq_none.mp hearliest other (mem_sortBy.mpr hother)) ?_
  simpa [← hsame] using hkey

/-- Two new identities with one id are the same. -/
theorem added_unique (hinjective : Function.Injective generateId)
    (h : identity ∈ added p existingIdentities hosts keys generateId now)
    (hother : other ∈ added p existingIdentities hosts keys generateId now)
    (hid : other.id = identity.id) : other = identity := by
  obtain ⟨n, key, hn⟩ := added_place h
  obtain ⟨n', key', hn'⟩ := added_place hother
  obtain rfl : n' = n :=
    hinjective ((newIdentity_key hn').1.symm.trans (hid.trans (newIdentity_key hn).1))
  exact congrArg Prod.snd (Option.some.inj (hn'.symm.trans hn))

/-- No host names a new identity before the migration. -/
theorem added_unnamed (hunused : Unused generateId hosts)
    (h : identity ∈ added p existingIdentities hosts keys generateId now) {host : HostRecord}
    (hhost : host ∈ hosts) : identity.id ≠ [] ∧ host.identityId.truthy ≠ some identity.id := by
  obtain ⟨n, key, hn⟩ := added_place h
  rw [(newIdentity_key hn).1]
  exact ⟨(hunused n).1, (hunused n).2 host hhost⟩

end Added

section Hosts
variable {p : Platform} {existingIdentities identities : List IdentityRecord}
  {hosts : List HostRecord} {keys : List KeyRecord} {generateId : ℕ → JsString} {now : JsString}
  {host last : HostRecord} {id : JsString}

theorem lastConcerned_some (h : lastConcerned existingIdentities hosts id = some last) :
    last ∈ hosts ∧ last.id = id ∧ Concerned existingIdentities last := by
  have hlast : last.id = id ∧ Concerned existingIdentities last := by
    simpa using List.find?_some h
  exact ⟨List.mem_reverse.mp (List.mem_of_find?_eq_some h), hlast⟩

theorem exists_lastConcerned (hhost : host ∈ hosts) (h : Concerned existingIdentities host) :
    ∃ last, lastConcerned existingIdentities hosts host.id = some last :=
  Option.isSome_iff_exists.mp (List.find?_isSome.mpr
    ⟨host, List.mem_reverse.mpr hhost, decide_eq_true ⟨rfl, h⟩⟩)

/-- What is assigned under an id that concerns somebody. -/
theorem assignmentOf_cases (h : lastConcerned existingIdentities hosts id = some last) :
    (∃ identity ∈ existingIdentities,
      origin p existingIdentities hosts last = some (.existing identity) ∧
        assignmentOf p existingIdentities hosts keys generateId now id = some identity.id) ∨
    ∃ source, ∃ identity ∈ added p existingIdentities hosts keys generateId now,
      origin p existingIdentities hosts last = some (.derived source) ∧
        identityCredentials identity = hostCredentials source ∧
          assignmentOf p existingIdentities hosts keys generateId now id = some identity.id := by
  obtain ⟨hmem, -, hconcerned⟩ := lastConcerned_some h
  obtain ⟨o, ho⟩ := Option.isSome_iff_exists.mp ((origin_isSome_iff (p := p) hmem).mpr hconcerned)
  rw [assignmentOf, get?_assignments, h, Option.bind_some]
  cases o with
  | existing identity =>
    obtain ⟨hidentity, hassigned⟩ := assigned_of_existing ho
      (migrated p existingIdentities hosts keys generateId now).newIdentitiesByKey
    exact .inl ⟨identity, hidentity, ho, hassigned⟩
  | derived source =>
    obtain ⟨identity, hidentity, hassigned, hcredentials⟩ := assigned_of_derived hmem ho
    exact .inr ⟨source, identity, hidentity, ho, hcredentials, hassigned⟩

theorem assignmentOf_eq_none (h : lastConcerned existingIdentities hosts id = none) :
    assignmentOf p existingIdentities hosts keys generateId now id = none := by
  rw [assignmentOf, get?_assignments, h, Option.bind_none]

section Directions
variable (hinjective : Function.Injective generateId) (hunused : Unused generateId hosts)
  (hisNew : ∀ n, ∀ identity ∈ existingIdentities, identity.id ≠ generateId n)
  (hidentities : ∀ identity, identity ∈ identities ↔ identity ∈ existingIdentities ∨
    identity ∈ added p existingIdentities hosts keys generateId now)
include hunused hidentities

/-- A host that is not linked and not written to is linked to nothing. -/
theorem not_linkedTo (hhost : host ∈ hosts) (hlinked : linkedIdentity existingIdentities host = none)
    (identity : IdentityRecord) : ¬ LinkedTo identities host identity := by
  rintro ⟨hmem, htruthy⟩
  rcases (hidentities identity).mp hmem with hold | hnew
  · have hsome := linkedIdentity_isSome hold htruthy
    rw [hlinked] at hsome
    cases hsome
  · exact (added_unnamed hunused hnew hhost).2 htruthy

include hinjective hisNew

/-- A host that is assigned what suits it is preserved. -/
theorem hostPreserved_of_suits (hsuits : OriginsSuit p existingIdentities hosts)
    (hhost : host ∈ hosts) :
    HostPreserved existingIdentities identities host
      (stamp (assignmentOf p existingIdentities hosts keys generateId now host.id) host) := by
  refine ⟨fun hlinked => ?_, fun hlinked hauthenticates => ?_, stamp_others _ _⟩
  · obtain ⟨previously, hpreviously⟩ := Option.isSome_iff_exists.mp hlinked
    obtain ⟨last, hlast⟩ := exists_lastConcerned hhost (.inl hlinked)
    rcases assignmentOf_cases (p := p) hlast with
      ⟨identity, -, ho, hassigned⟩ | ⟨source, identity, -, ho, -, -⟩
    · have hsuit := hsuits host hhost (.inl hlinked) last hlast _ ho
      rw [Origin.Suits, hpreviously] at hsuit
      rw [hassigned, hsuit]
      exact stamp_eq_self (optional_truthy (linkedIdentity_some hpreviously)).1
    · have hsuit := hsuits host hhost (.inl hlinked) last hlast _ ho
      rw [Origin.Suits, hpreviously] at hsuit
      cases hsuit.1
  · obtain ⟨last, hlast⟩ := exists_lastConcerned hhost (.inr hauthenticates)
    rcases assignmentOf_cases (p := p) hlast with
      ⟨identity, hidentity, ho, hassigned⟩ | ⟨source, identity, hidentity, ho, hcredentials, hassigned⟩
    · have hsuit := hsuits host hhost (.inr hauthenticates) last hlast _ ho
      rw [Origin.Suits, hlinked] at hsuit
      rw [hassigned]
      refine ⟨⟨identity, (hidentities identity).mpr (.inl hidentity), truthy_stamp hsuit.1⟩, ?_⟩
      rintro other ⟨hother, htruthy⟩
      rw [truthy_stamp hsuit.1] at htruthy
      have hid : identity.id = other.id := Option.some.inj htruthy
      rcases (hidentities other).mp hother with hold | hnew
      · exact hsuit.2 other hold hid.symm
      · obtain ⟨n, key, hn⟩ := added_place hnew
        exact absurd (hid.trans (newIdentity_key hn).1) (hisNew n identity hidentity)
    · have hsuit := hsuits host hhost (.inr hauthenticates) last hlast _ ho
      have hne := (added_unnamed hunused hidentity hhost).1
      rw [hassigned]
      refine ⟨⟨identity, (hidentities identity).mpr (.inr hidentity), truthy_stamp hne⟩, ?_⟩
      rintro other ⟨hother, htruthy⟩
      rw [truthy_stamp hne] at htruthy
      have hid : identity.id = other.id := Option.some.inj htruthy
      rcases (hidentities other).mp hother with hold | hnew
      · obtain ⟨n, key, hn⟩ := added_place hidentity
        exact absurd (hid.symm.trans (newIdentity_key hn).1) (hisNew n other hold)
      · rw [added_unique hinjective hidentity hnew hid.symm, hcredentials]
        exact hsuit.2

omit hinjective hisNew

/-- A host that is preserved is not assigned the empty id. -/
theorem assigned_ne_nil (hmem : last ∈ hosts) (hconcerned : Concerned existingIdentities last)
    {identity : IdentityRecord}
    (horigin : origin p existingIdentities hosts last = some (.existing identity))
    (hpreserved : HostPreserved existingIdentities identities last (stamp (some identity.id) last)) :
    identity.id ≠ [] := by
  cases hlinked : linkedIdentity existingIdentities last with
  | some previously =>
    rw [origin, hlinked] at horigin
    obtain rfl := Origin.existing.inj (Option.some.inj horigin)
    exact (optional_truthy (linkedIdentity_some hlinked)).2
  | none =>
    intro hempty
    have hauthenticates := hconcerned.resolve_left (by simp [hlinked])
    obtain ⟨other, hother⟩ := (hpreserved.unlinked hlinked hauthenticates).1
    rw [hempty, stamp_nil] at hother
    exact not_linkedTo hunused hidentities hmem hlinked other hother

/-- If every host is preserved, each is assigned what suits it. -/
theorem originsSuit_of_preserved
    (h : ∀ host ∈ hosts, HostPreserved existingIdentities identities host
      (stamp (assignmentOf p existingIdentities hosts keys generateId now host.id) host)) :
    OriginsSuit p existingIdentities hosts := by
  intro host hhost hconcerned last hlast o ho
  obtain ⟨hmem, hid, hconcernedLast⟩ := lastConcerned_some hlast
  have hpreserved := h host hhost
  have hpreservedLast := h last hmem
  rw [hid] at hpreservedLast
  have hauthenticates (hlinked : linkedIdentity existingIdentities host = none) :=
    hconcerned.resolve_left (by simp [hlinked])
  rcases assignmentOf_cases hlast with
    ⟨identity, hidentity, ho', hassigned⟩ | ⟨source, identity, hidentity, ho', hcredentials, hassigned⟩
  · obtain rfl : o = .existing identity := Option.some.inj (ho.symm.trans ho')
    rw [hassigned] at hpreserved hpreservedLast
    have hne := assigned_ne_nil hunused hidentities hmem hconcernedLast ho' hpreservedLast
    unfold Origin.Suits
    cases hlinked : linkedIdentity existingIdentities host with
    | some previously =>
      have hsame := hpreserved.linked (by simp [hlinked])
      have htruthy := linkedIdentity_some hlinked
      rw [← hsame, truthy_stamp hne] at htruthy
      exact Option.some.inj htruthy
    | none =>
      refine ⟨hne, fun other hother hotherId => ?_⟩
      refine (hpreserved.unlinked hlinked (hauthenticates hlinked)).2 other
        ⟨(hidentities other).mpr (.inl hother), ?_⟩
      rw [truthy_stamp hne, hotherId]
  · obtain rfl : o = .derived source := Option.some.inj (ho.symm.trans ho')
    rw [hassigned] at hpreserved
    obtain ⟨hne, hunnamed⟩ := added_unnamed hunused hidentity hhost
    have hlinked : linkedIdentity existingIdentities host = none := by
      by_contra hlinked
      have hsame := hpreserved.linked (Option.isSome_iff_ne_none.mpr hlinked)
      rw [← hsame, truthy_stamp hne] at hunnamed
      exact hunnamed rfl
    refine ⟨hlinked, ?_⟩
    rw [← hcredentials]
    exact (hpreserved.unlinked hlinked (hauthenticates hlinked)).2 identity
      ⟨(hidentities identity).mpr (.inr hidentity), truthy_stamp hne⟩

omit hidentities

/-- No host is assigned the empty id. -/
theorem assignmentOf_ne_nil (hsuits : OriginsSuit p existingIdentities hosts) {identityId : JsString}
    (h : assignmentOf p existingIdentities hosts keys generateId now id = some identityId) :
    identityId ≠ [] := by
  cases hlast : lastConcerned existingIdentities hosts id with
  | none =>
    rw [assignmentOf_eq_none hlast] at h
    cases h
  | some last =>
    obtain ⟨hmem, rfl, hconcerned⟩ := lastConcerned_some hlast
    rcases assignmentOf_cases hlast with
      ⟨identity, -, ho, hassigned⟩ | ⟨source, identity, hidentity, -, -, hassigned⟩
    · obtain rfl : identity.id = identityId := Option.some.inj (hassigned.symm.trans h)
      have hsuit := hsuits last hmem hconcerned last hlast _ ho
      unfold Origin.Suits at hsuit
      cases hlinked : linkedIdentity existingIdentities last with
      | some previously =>
        rw [hlinked] at hsuit
        rw [show identity.id = previously.id from hsuit]
        exact (optional_truthy (linkedIdentity_some hlinked)).2
      | none =>
        rw [hlinked] at hsuit
        exact hsuit.1
    · obtain rfl : identity.id = identityId := Option.some.inj (hassigned.symm.trans h)
      exact (added_unnamed hunused hidentity hmem).1

include hidentities

/-- After the migration every host that is concerned is linked. -/
theorem linked_after (hhost : host ∈ hosts)
    (hpreserved : HostPreserved existingIdentities identities host
      (stamp (assignmentOf p existingIdentities hosts keys generateId now host.id) host))
    (h : Concerned identities
      (stamp (assignmentOf p existingIdentities hosts keys generateId now host.id) host)) :
    (linkedIdentity identities
      (stamp (assignmentOf p existingIdentities hosts keys generateId now host.id) host)).isSome := by
  rcases h with hlinked | hauthenticates
  · exact hlinked
  · cases hlinked : linkedIdentity existingIdentities host with
    | some previously =>
      rw [hpreserved.linked (by simp [hlinked])]
      exact linkedIdentity_isSome ((hidentities previously).mpr (.inl (linkedIdentity_mem hlinked)))
        (linkedIdentity_some hlinked)
    | none =>
      have hcredentials : (hostCredentials host).Authenticates := by
        rw [hpreserved.others] at hauthenticates
        exact hauthenticates
      obtain ⟨⟨identity, hidentity, htruthy⟩, -⟩ := hpreserved.unlinked hlinked hcredentials
      exact linkedIdentity_isSome hidentity htruthy

/-- After the migration all hosts with one id name the same identity, if one of them is linked. -/
theorem same_after (hsuits : OriginsSuit p existingIdentities hosts) {other : HostRecord}
    (hother : other ∈ hosts) (hid : other.id = host.id) {previously : IdentityRecord}
    (h : linkedIdentity identities
      (stamp (assignmentOf p existingIdentities hosts keys generateId now other.id) other) =
        some previously) :
    (stamp (assignmentOf p existingIdentities hosts keys generateId now host.id)
      host).identityId.get? = some previously.id := by
  rw [hid] at h
  have htruthy := linkedIdentity_some h
  cases hassigned : assignmentOf p existingIdentities hosts keys generateId now host.id with
  | some identityId =>
    have hne := assignmentOf_ne_nil hunused hsuits hassigned
    rw [hassigned, truthy_stamp hne] at htruthy
    rw [get?_stamp hne, Option.some.inj htruthy]
  | none =>
    rw [hassigned] at h htruthy
    cases hlinked : linkedIdentity existingIdentities other with
    | none =>
      have hmem := linkedIdentity_mem h
      exact absurd ⟨hmem, htruthy⟩ (not_linkedTo hunused hidentities hother hlinked previously)
    | some earlier =>
      have hconcerned : Concerned existingIdentities other := .inl (by simp [hlinked])
      obtain ⟨last, hlast⟩ := exists_lastConcerned hother hconcerned
      rw [hid] at hlast
      rcases assignmentOf_cases (p := p) hlast with
        ⟨_, -, -, hsome⟩ | ⟨_, _, -, -, -, hsome⟩
      · exact absurd (hassigned.symm.trans hsome) nofun
      · exact absurd (hassigned.symm.trans hsome) nofun

end Directions

section Again

/-- Where every host that is concerned is linked, nothing is added. -/
theorem added_eq_nil (h : ∀ host ∈ hosts, Concerned existingIdentities host →
    (linkedIdentity existingIdentities host).isSome) :
    added p existingIdentities hosts keys generateId now = [] := by
  refine List.eq_nil_iff_forall_not_mem.mpr fun identity hidentity => ?_
  obtain ⟨n, key, hn⟩ := added_place hidentity
  obtain ⟨source, hfirst, -, -⟩ := newIdentity_derived hn
  obtain ⟨hlinked, hkey⟩ : linkedIdentity existingIdentities source = none ∧
      (hostCredentials source).equivalenceKey = some key := by
    simpa using List.find?_some hfirst
  have hconcerned : Concerned existingIdentities source :=
    .inr (Credentials.equivalenceKey_isSome_iff.mp (by simp [hkey]))
  have hsome := h source (List.mem_of_find?_eq_some hfirst) hconcerned
  rw [hlinked] at hsome
  cases hsome

/-- Where besides all hosts with one id name the same identity, nothing is written. -/
theorem stamp_of_linked (h : ∀ host ∈ hosts, Concerned existingIdentities host →
    (linkedIdentity existingIdentities host).isSome)
    (hsame : ∀ other ∈ hosts, other.id = host.id →
      ∀ previously ∈ linkedIdentity existingIdentities other,
        host.identityId.get? = some previously.id) :
    stamp (assignmentOf p existingIdentities hosts keys generateId now host.id) host = host := by
  cases hlast : lastConcerned existingIdentities hosts host.id with
  | none =>
    rw [assignmentOf_eq_none hlast]
    rfl
  | some last =>
    obtain ⟨hmem, hid, hconcerned⟩ := lastConcerned_some hlast
    obtain ⟨previously, hpreviously⟩ := Option.isSome_iff_exists.mp (h last hmem hconcerned)
    have horigin : origin p existingIdentities hosts last = some (.existing previously) := by
      rw [origin, hpreviously]
    have hassigned := (assigned_of_existing horigin
      (migrated p existingIdentities hosts keys generateId now).newIdentitiesByKey).2
    rw [assignmentOf, get?_assignments, hlast, Option.bind_some, hassigned]
    exact stamp_eq_self (hsame last hmem hid previously hpreviously)

/-- A migration that adds nothing and writes nothing. -/
theorem ensureMigrated_eq_self {t : Stores} (hpending : t.migrationCompleted = false)
    (hadded : added p t.collections.identities t.collections.hosts t.collections.keys generateId
      now = [])
    (hstamp : ∀ host ∈ t.collections.hosts, stamp (assignmentOf p t.collections.identities
      t.collections.hosts t.collections.keys generateId now host.id) host = host) :
    t.ensureMigrated p generateId now = { t with migrationCompleted := true } := by
  have hhosts := map_eq_self hstamp
  have hidentities : (migrateHostsToIdentities p t.collections.hosts t.collections.keys
      t.collections.identities generateId now).identitiesToAdd = [] := hadded
  rw [Stores.ensureMigrated, if_neg (by simp [hpending])]
  dsimp only
  rw [if_pos hidentities, applyIdentityAssignments_eq_stamp]
  exact congrArg (fun hosts => { t.setHosts hosts with migrationCompleted := true }) hhosts

end Again

end Hosts

section Stores
variable {p : Platform} {s : Stores} {generateId : ℕ → JsString} {now : JsString}

theorem ensureMigrated_identities (hpending : s.migrationCompleted = false) :
    (s.ensureMigrated p generateId now).collections.identities.Perm
      (s.collections.identities ++ added p s.collections.identities s.collections.hosts
        s.collections.keys generateId now) := by
  have hadded : (migrateHostsToIdentities p s.collections.hosts s.collections.keys
      s.collections.identities generateId now).identitiesToAdd =
        added p s.collections.identities s.collections.hosts s.collections.keys generateId now := rfl
  rw [Stores.ensureMigrated, if_neg (by simp [hpending])]
  dsimp only [Stores.setHosts, Stores.setIdentities]
  rw [hadded]
  split_ifs with hnone
  · rw [hnone, List.append_nil]
  · exact sortBy_perm _ _

theorem ensureMigrated_hosts (hpending : s.migrationCompleted = false) :
    (s.ensureMigrated p generateId now).collections.hosts =
      s.collections.hosts.map fun host =>
        stamp (assignmentOf p s.collections.identities s.collections.hosts s.collections.keys
          generateId now host.id) host := by
  rw [Stores.ensureMigrated, if_neg (by simp [hpending])]
  rfl

theorem suits_of_preserved (hpending : s.migrationCompleted = false) (hdraws : DrawsNew generateId s)
    (h : Preserved p s (s.ensureMigrated p generateId now)
      (migrateHostsToIdentities p s.collections.hosts s.collections.keys s.collections.identities
        generateId now).identitiesToAdd) :
    OriginsSuit p s.collections.identities s.collections.hosts := by
  have hhosts := h.hosts
  rw [ensureMigrated_hosts hpending, List.forall₂_map_right_iff, List.forall₂_same] at hhosts
  exact originsSuit_of_preserved hdraws.unused
    (fun identity => (ensureMigrated_identities hpending).mem_iff.trans List.mem_append) hhosts

theorem preserved_of_suits (hpending : s.migrationCompleted = false) (hdraws : DrawsNew generateId s)
    (hsuits : OriginsSuit p s.collections.identities s.collections.hosts) :
    Preserved p s (s.ensureMigrated p generateId now)
      (migrateHostsToIdentities p s.collections.hosts s.collections.keys s.collections.identities
        generateId now).identitiesToAdd := by
  have hperm := @ensureMigrated_identities p s generateId now hpending
  have hhosts := @ensureMigrated_hosts p s generateId now hpending
  have hidentities : ∀ identity,
      identity ∈ (s.ensureMigrated p generateId now).collections.identities ↔
        identity ∈ s.collections.identities ∨ identity ∈ added p s.collections.identities
          s.collections.hosts s.collections.keys generateId now := fun identity =>
    hperm.mem_iff.trans List.mem_append
  have hpreserved := fun host (hhost : host ∈ s.collections.hosts) =>
    hostPreserved_of_suits hdraws.injective hdraws.unused hdraws.isNew hidentities hsuits hhost
  refine ⟨hperm, ?_, added_pairwise, fun identity hidentity other hother =>
    added_isNew hidentity hother, fun generateId' now' => ?_⟩
  · rw [hhosts, List.forall₂_map_right_iff, List.forall₂_same]
    exact hpreserved
  · have hlinked : ∀ host' ∈ (s.ensureMigrated p generateId now).collections.hosts,
        Concerned (s.ensureMigrated p generateId now).collections.identities host' →
          (linkedIdentity (s.ensureMigrated p generateId now).collections.identities
            host').isSome := by
      intro host' hhost'
      rw [hhosts] at hhost'
      obtain ⟨host, hhost, rfl⟩ := List.mem_map.mp hhost'
      exact linked_after hdraws.unused hidentities hhost (hpreserved host hhost)
    have hsame : ∀ host' ∈ (s.ensureMigrated p generateId now).collections.hosts,
        ∀ other' ∈ (s.ensureMigrated p generateId now).collections.hosts, other'.id = host'.id →
          ∀ previously ∈ linkedIdentity
            (s.ensureMigrated p generateId now).collections.identities other',
              host'.identityId.get? = some previously.id := by
      intro host' hhost' other' hother' hid previously hpreviously
      rw [hhosts] at hhost' hother'
      obtain ⟨host, hhost, rfl⟩ := List.mem_map.mp hhost'
      obtain ⟨other, hother, rfl⟩ := List.mem_map.mp hother'
      rw [stamp_id, stamp_id] at hid
      exact same_after hdraws.unused hidentities hsuits hother hid hpreviously
    have hcompleted : (s.ensureMigrated p generateId now).migrationCompleted = true := by
      rw [Stores.ensureMigrated, if_neg (by simp [hpending])]
    refine Eq.trans (ensureMigrated_eq_self
      (t := { s.ensureMigrated p generateId now with migrationCompleted := false }) rfl
      (added_eq_nil hlinked) fun host' hhost' => stamp_of_linked hlinked (hsame host' hhost')) ?_
    rw [← hcompleted]

/-- The migration preserves what hosts connect with exactly if what is assigned to each host suits
it. -/
theorem ensureMigrated_preserves_iff (p : Platform) (s : Stores) (generateId : ℕ → JsString)
    (now : JsString) (hpending : s.migrationCompleted = false) (hdraws : DrawsNew generateId s) :
    Preserved p s (s.ensureMigrated p generateId now)
        (migrateHostsToIdentities p s.collections.hosts s.collections.keys s.collections.identities
          generateId now).identitiesToAdd ↔
      OriginsSuit p s.collections.identities s.collections.hosts :=
  ⟨suits_of_preserved hpending hdraws, preserved_of_suits hpending hdraws⟩

end Stores

section Confusion
variable {p : Platform} {existingIdentities : List IdentityRecord} {hosts : List HostRecord}

theorem lastConcerned_self (hdistinct : (hosts.map VaultRecord.id).Nodup) {host last : HostRecord}
    (hhost : host ∈ hosts) (hlast : lastConcerned existingIdentities hosts host.id = some last) :
    last = host := by
  obtain ⟨hmem, hid, -⟩ := lastConcerned_some hlast
  exact List.inj_on_of_nodup_map hdistinct hmem hhost hid

/-- Where no id stands twice, only credentials whose username and path join to one text are
confused. -/
theorem originsSuit_iff_not_confused (hhosts : (hosts.map VaultRecord.id).Nodup)
    (hidentities : (existingIdentities.map VaultRecord.id).Nodup)
    (hnonempty : ∀ identity ∈ existingIdentities, identity.id ≠ []) :
    OriginsSuit p existingIdentities hosts ↔
      ∀ host ∈ hosts, linkedIdentity existingIdentities host = none →
        ∀ o ∈ origin p existingIdentities hosts host,
          ¬ (hostCredentials host).Confused o.credentials := by
  constructor
  · intro h host hhost hlinked o ho hconfused
    have hconcerned := (origin_isSome_iff (p := p) hhost).mp (Option.isSome_of_mem ho)
    obtain ⟨last, hlast⟩ := exists_lastConcerned hhost hconcerned
    obtain rfl := lastConcerned_self hhosts hhost hlast
    have hsuit := h last hhost hconcerned last hlast o ho
    cases o with
    | existing identity =>
      rw [Origin.Suits, hlinked] at hsuit
      exact hconfused.1 (hsuit.2 identity (assigned_of_existing ho OrderedMap.empty).1 rfl).symm
    | derived source => exact hconfused.1 hsuit.2.symm
  · intro h host hhost hconcerned last hlast o ho
    obtain rfl := lastConcerned_self hhosts hhost hlast
    cases hlinked : linkedIdentity existingIdentities last with
    | some previously =>
      rw [origin, hlinked] at ho
      obtain rfl := Option.some.inj ho
      rw [Origin.Suits, hlinked]
    | none =>
      have hkey := origin_equivalenceKey hlinked ho
      have hauthenticates := hconcerned.resolve_left (by simp [hlinked])
      have horigin : o.credentials.Authenticates := by
        rw [← Credentials.equivalenceKey_isSome_iff, hkey]
        exact Credentials.equivalenceKey_isSome_iff.mpr hauthenticates
      have hsame : hostCredentials last = o.credentials :=
        ((Credentials.equivalenceKey_eq_iff hauthenticates horigin).mp hkey.symm).resolve_right
          (h last hhost hlinked o ho)
      cases o with
      | existing identity =>
        have hidentity := (assigned_of_existing ho OrderedMap.empty).1
        rw [Origin.Suits, hlinked]
        refine ⟨hnonempty identity hidentity, fun other hother hid => ?_⟩
        rw [List.inj_on_of_nodup_map hidentities hother hidentity hid]
        exact hsame.symm
      | derived source => exact ⟨hlinked, hsame.symm⟩

theorem origin_mem {host : HostRecord} {o : Origin}
    (h : origin p existingIdentities hosts host = some o) :
    (∃ identity ∈ existingIdentities, o = .existing identity) ∨
      ∃ source ∈ hosts, o = .derived source := by
  cases o with
  | existing identity =>
    exact .inl ⟨identity, (assigned_of_existing h OrderedMap.empty).1, rfl⟩
  | derived source =>
    unfold origin at h
    cases hlinked : linkedIdentity existingIdentities host with
    | some previously => simp [hlinked] at h
    | none =>
      rw [hlinked] at h
      obtain ⟨key, -, hor⟩ := Option.bind_eq_some_iff.mp h
      rcases Option.or_eq_some_iff.mp hor with hold | ⟨-, hnew⟩
      · obtain ⟨_, -, hne⟩ := Option.map_eq_some_iff.mp hold
        cases hne
      · obtain ⟨_, hfirst, hsame⟩ := Option.map_eq_some_iff.mp hnew
        obtain rfl := Origin.derived.inj hsame
        exact .inr ⟨_, List.mem_of_find?_eq_some hfirst, rfl⟩

/-- Where moreover no username has a `|`, none are. -/
theorem originsSuit_of_no_bar (hhosts : (hosts.map VaultRecord.id).Nodup)
    (hidentities : (existingIdentities.map VaultRecord.id).Nodup)
    (hnonempty : ∀ identity ∈ existingIdentities, identity.id ≠ [])
    (hhostNames : ∀ host ∈ hosts, .scalar '|' ∉ (hostCredentials host).username)
    (hnames : ∀ identity ∈ existingIdentities,
      .scalar '|' ∉ (identityCredentials identity).username) :
    OriginsSuit p existingIdentities hosts := by
  refine (originsSuit_iff_not_confused hhosts hidentities hnonempty).mpr ?_
  intro host hhost hlinked o ho
  refine Credentials.not_confused (hhostNames host hhost) ?_
  rcases origin_mem ho with ⟨identity, hidentity, rfl⟩ | ⟨source, hsource, rfl⟩
  · exact hnames identity hidentity
  · exact hhostNames source hsource

end Confusion

section Examples

/-- A host with a key file that is linked to no identity. -/
def keyedHost (id username privateKeyPath : String) : HostRecord :=
  { prodGateway with
    id := js id
    username := js username
    privateKeyPath := js privateKeyPath
    identityId := .absent }

def keyedStores (hosts : List HostRecord) : Stores where
  collections := ⟨hosts, [], [], [], []⟩
  deletions := emptyDeletionMap
  vaultId := js "v"
  deviceId := js "d"
  lastAppliedSnapshotId := none
  activeHostId := none
  migrationCompleted := false

def unary (n : ℕ) : JsString := List.replicate (n + 1) (.scalar 'i')

theorem drawsNew_unary {hosts : List HostRecord} (h : ∀ host ∈ hosts, host.identityId = .absent) :
    DrawsNew unary (keyedStores hosts) where
  injective := by
    intro m n hmn
    have hlength := congrArg List.length hmn
    simp only [unary, List.length_replicate] at hlength
    omega
  unused := by
    refine fun n => ⟨by simp [unary], fun host hhost => ?_⟩
    rw [h host hhost]
    nofun
  isNew := fun _ _ hidentity => absurd hidentity List.not_mem_nil

def sharedKey : List HostRecord :=
  [keyedHost "h1" "ops" "~/.ssh/id", keyedHost "h2" "ops" "~/.ssh/id "]

/-- Two hosts with one key file share an identity. -/
theorem ensureMigrated_preserves_sharedKey :
    Preserved plainPlatform (keyedStores sharedKey)
      ((keyedStores sharedKey).ensureMigrated plainPlatform unary [])
      (migrateHostsToIdentities plainPlatform sharedKey [] [] unary []).identitiesToAdd := by
  refine (ensureMigrated_preserves_iff plainPlatform (keyedStores sharedKey) unary [] rfl
    (drawsNew_unary (by decide +kernel))).mpr ?_
  exact originsSuit_of_no_bar (by decide +kernel) List.nodup_nil (by simp [keyedStores])
    (by decide +kernel) (by simp [keyedStores])

def barredNames : List HostRecord := [keyedHost "h1" "a|b" "c", keyedHost "h2" "a" "b|c"]

/-- The second host is linked to the identity of the first. -/
theorem barred_name_confused :
    ¬ Preserved plainPlatform (keyedStores barredNames)
      ((keyedStores barredNames).ensureMigrated plainPlatform unary [])
      (migrateHostsToIdentities plainPlatform barredNames [] [] unary []).identitiesToAdd := by
  intro h
  have hsuits := suits_of_preserved rfl (drawsNew_unary (by decide +kernel)) h
  have hsuit := hsuits (keyedHost "h2" "a" "b|c") (by decide +kernel) (by decide +kernel)
    (keyedHost "h2" "a" "b|c") (by decide +kernel) (.derived (keyedHost "h1" "a|b" "c"))
    (by decide +kernel)
  exact absurd hsuit.2 (by decide +kernel)

end Examples

end VaultStores
