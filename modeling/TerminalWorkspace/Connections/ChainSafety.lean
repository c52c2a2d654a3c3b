import TerminalWorkspace.Connections.SecretCheck

/-! When a connection is built at all, and what each hop of it carries. -/
namespace Connections
open JsText Inventory
open RecordFile (trim)

section Faults
variable (s : Stores) (knownHosts : List KnownHostRecord) (host : BackendConnectionHost)

/-- Behind some hop the chain comes back to the id of that hop. -/
def Revisits : Prop :=
  ∃ hop jump later, Hop s host hop ∧ JumpsTo s hop jump ∧
    Hop s jump.toBackendConnectionHost later ∧ later.id = hop.id

/-- The link of some hop names no host. -/
def Dangles : Prop :=
  ∃ hop jumpHostId, Hop s host hop ∧ jumpLink hop = some jumpHostId ∧
    ∀ entry ∈ s.hosts, entry.id ≠ jumpHostId

/-- Some hop that requires a trusted key has none. -/
def Untrusted : Prop :=
  ∃ hop, Hop s host hop ∧ needsTrustedKey hop = true ∧
    ∀ knownHost ∈ knownHosts, ¬ (knownHost.hostname = hop.hostname ∧ knownHost.port = hop.port)

end Faults

/-- What a hop carries of its own record, its own identity and its own secrets. An identity that
uses no key clears the key path. -/
structure HopCarries (s : Stores) (knownHosts : List KnownHostRecord) (hop : BackendConnectionHost)
    (c : BackendHostConnection) : Prop where
  address : c.hostname = hop.hostname ∧ c.port = hop.port ∧ c.protocol = hop.protocol
  own : resolveIdentityForHost hop s.identities = none →
    c.username = hop.username ∧ c.authMethod = hop.authMethod ∧
      c.privateKeyPath = hop.privateKeyPath
  username : ∀ identity, resolveIdentityForHost hop s.identities = some identity →
    c.username = if trim isSpace identity.username = [] then hop.username
      else trim isSpace identity.username
  authMethod : ∀ identity, resolveIdentityForHost hop s.identities = some identity →
    c.authMethod = identity.authMethod
  keyless : ∀ identity, resolveIdentityForHost hop s.identities = some identity →
    identity.authMethod ≠ .privateKey → c.privateKeyPath = []
  keyPath : ∀ identity, resolveIdentityForHost hop s.identities = some identity →
    identity.authMethod = .privateKey →
      (identity.privateKeyPath = [] → c.privateKeyPath = hop.privateKeyPath) ∧
        (trim isSpace identity.privateKeyPath ≠ [] → c.privateKeyPath = identity.privateKeyPath)
  secrets : c.password = (getHostConnectionSecrets s hop.id).password ∧
    c.passphrase = (getHostConnectionSecrets s hop.id).passphrase
  trusted : needsTrustedKey hop = true → ∃ knownHost ∈ knownHosts,
    knownHost.hostname = hop.hostname ∧ knownHost.port = hop.port ∧
      c.knownHostPublicKey = some knownHost.publicKey

/-- The hops of a connection carry what those of the chain have, one for one. -/
def ChainCarries (s : Stores) (knownHosts : List KnownHostRecord) :
    List BackendConnectionHost → BackendHostConnection → Prop
  | [], _ => False
  | [hop], c => HopCarries s knownHosts hop c ∧ c.jumpHost = none
  | hop :: next :: hops, c => HopCarries s knownHosts hop c ∧
      ∃ inner, c.jumpHost = some inner ∧ ChainCarries s knownHosts (next :: hops) inner

section Build
variable {s : Stores} {knownHosts : List KnownHostRecord} {host : BackendConnectionHost}
  {chainHostIds : List JsString} {c : BackendHostConnection}

theorem findKnownHostMatch_eq_none : findKnownHostMatch knownHosts host = none ↔
    ∀ knownHost ∈ knownHosts,
      ¬ (knownHost.hostname = host.hostname ∧ knownHost.port = host.port) := by
  simp [findKnownHostMatch]

theorem hopCarries_hopConnection (jumpHost : Option BackendHostConnection)
    (htrusted : ¬ (needsTrustedKey host = true ∧ keyOf knownHosts host = none)) :
    HopCarries s knownHosts host
      (hopConnection s (findKnownHostMatch knownHosts host) host jumpHost) where
  address := ⟨rfl, rfl, rfl⟩
  own h := by simp [hopConnection, h, effectiveUsername, effectiveAuthMethod, effectivePrivateKeyPath]
  username identity h := by
    simp only [hopConnection, h, effectiveUsername, truthy]
    split_ifs <;> rfl
  authMethod identity h := by simp [hopConnection, h, effectiveAuthMethod]
  keyless identity h hmethod := by simp [hopConnection, h, effectivePrivateKeyPath, hmethod]
  keyPath identity h hmethod := by
    simp only [hopConnection, h, effectivePrivateKeyPath, if_pos hmethod]
    refine ⟨fun hempty => by rw [hempty]; rfl, fun hblank => ?_⟩
    have hne : identity.privateKeyPath ≠ [] := fun hnil => hblank (by rw [hnil]; rfl)
    rw [truthy, if_neg hne, Option.getD_some]
  secrets := ⟨rfl, rfl⟩
  trusted hneeds := by
    cases hmatch : findKnownHostMatch knownHosts host with
    | none => exact absurd ⟨hneeds, by rw [keyOf, hmatch]; rfl⟩ htrusted
    | some knownHost =>
      have haddress : knownHost.hostname = host.hostname ∧ knownHost.port = host.port := by
        simpa using List.find?_some hmatch
      exact ⟨knownHost, List.mem_of_find?_eq_some hmatch, haddress.1, haddress.2, rfl⟩

theorem JumpsTo.unique {jump other : HostRecord} (h : JumpsTo s host jump)
    (hother : JumpsTo s host other) : jump = other :=
  Option.some.inj ((jumpsTo_iff.mp h).symm.trans (jumpsTo_iff.mp hother))

theorem JumpsTo.mem {jump : HostRecord} (h : JumpsTo s host jump) : jump ∈ s.hosts := by
  obtain ⟨id, -, hfind⟩ := h
  exact List.mem_of_find?_eq_some hfind

theorem not_jumpsTo (h : jumpLink host = none) (jump : HostRecord) : ¬ JumpsTo s host jump := by
  simp [JumpsTo, h]

/-- A successful build has gone down the whole chain. -/
theorem build_ok (h : buildBackendConnectionRecursive s knownHosts host chainHostIds = .ok c) :
    ∃ hops, Walk s host hops ∧ (hops.map (·.id)).Nodup ∧
      (∀ hop ∈ hops, hop.id ∉ chainHostIds) ∧ ChainCarries s knownHosts hops c ∧
      ∀ hop ∈ hops, ¬ (needsTrustedKey hop = true ∧ keyOf knownHosts hop = none) := by
  induction hm : unvisited s host chainHostIds using Nat.strong_induction_on
    generalizing host chainHostIds c with
  | h n ih =>
    obtain ⟨hnew, htrust, hcases⟩ := build_eq_ok.mp h
    rcases hcases with ⟨hlink, rfl⟩ | ⟨jump, inner, hjump, hinner, rfl⟩
    · exact ⟨[host], .last hlink, List.nodup_singleton _, List.forall_mem_singleton.mpr hnew,
        ⟨hopCarries_hopConnection none htrust, rfl⟩, List.forall_mem_singleton.mpr htrust⟩
    · have hlt := hm ▸ unvisited_jump hnew hjump.mem
      obtain ⟨hops, hwalk, hnodup, hfresh, hcarries, htrusted⟩ := ih _ hlt hinner rfl
      have hids : host.id ∉ hops.map (·.id) := by
        intro hmem
        obtain ⟨hop, hhop, hid⟩ := List.mem_map.mp hmem
        exact hfresh hop hhop (List.mem_cons.mpr (.inl hid))
      refine ⟨host :: hops, .jump hjump hwalk, List.nodup_cons.mpr ⟨hids, hnodup⟩,
        List.forall_mem_cons.mpr ⟨hnew, fun hop hhop hmem =>
          hfresh hop hhop (List.mem_cons_of_mem _ hmem)⟩, ?_,
        List.forall_mem_cons.mpr ⟨htrust, htrusted⟩⟩
      cases hops with
      | nil => cases hwalk.head
      | cons next hops =>
        exact ⟨hopCarries_hopConnection (some inner) htrust, inner, rfl, hcarries⟩

theorem Walk.mem {hops : List BackendConnectionHost} (h : Walk s host hops)
    {hop : BackendConnectionHost} (hhop : Hop s host hop) : hop ∈ hops := by
  induction h with
  | last hlink =>
    cases hhop with
    | here => exact List.mem_cons_self
    | jump hjump _ => exact absurd hjump (not_jumpsTo hlink _)
  | jump hjump _ ih =>
    cases hhop with
    | here => exact List.mem_cons_self
    | jump hjump' hrest =>
      obtain rfl := hjump.unique hjump'
      exact List.mem_cons_of_mem _ (ih hrest)

theorem Walk.not_revisits {hops : List BackendConnectionHost} (h : Walk s host hops)
    (hnodup : (hops.map (·.id)).Nodup) : ¬ Revisits s host := by
  induction h with
  | last hlink =>
    rintro ⟨hop, jump, later, hhop, hjump, -⟩
    cases hhop with
    | here => exact not_jumpsTo hlink _ hjump
    | jump hjump' _ => exact not_jumpsTo hlink _ hjump'
  | jump hjump hrest ih =>
    obtain ⟨hnew, hnodup⟩ := List.nodup_cons.mp hnodup
    rintro ⟨hop, jump', later, hhop, hjump', hlater, hid⟩
    cases hhop with
    | here =>
      obtain rfl := hjump.unique hjump'
      exact hnew (List.mem_map.mpr ⟨later, hrest.mem hlater, hid⟩)
    | jump hjump'' hhop =>
      obtain rfl := hjump.unique hjump''
      exact ih hnodup ⟨hop, jump', later, hhop, hjump', hlater, hid⟩

theorem Walk.not_dangles {hops : List BackendConnectionHost} (h : Walk s host hops) :
    ¬ Dangles s host := by
  induction h with
  | last hlink =>
    rintro ⟨hop, jumpHostId, hhop, hid, -⟩
    cases hhop with
    | here => exact absurd (hlink.symm.trans hid) nofun
    | jump hjump _ => exact not_jumpsTo hlink _ hjump
  | jump hjump _ ih =>
    rintro ⟨hop, jumpHostId, hhop, hid, hnone⟩
    cases hhop with
    | here =>
      obtain ⟨id, hlink, hfind⟩ := hjump
      obtain rfl := Option.some.inj (hid.symm.trans hlink)
      exact hnone _ (List.mem_of_find?_eq_some hfind) (by simpa using List.find?_some hfind)
    | jump hjump' hhop =>
      obtain rfl := hjump.unique hjump'
      exact ih ⟨hop, jumpHostId, hhop, hid, hnone⟩

/-- A build that throws has met a fault on its way down. -/
theorem faults_of_error {e : ConnectError}
    (h : buildBackendConnectionRecursive s knownHosts host chainHostIds = .error e) :
    (∃ hop, Hop s host hop ∧ hop.id ∈ chainHostIds) ∨
      Revisits s host ∨ Dangles s host ∨ Untrusted s knownHosts host := by
  fun_induction buildBackendConnectionRecursive s knownHosts host chainHostIds with
  | case1 host chainHostIds hvisited => exact .inl ⟨host, .here host, hvisited⟩
  | case2 host chainHostIds hnew knownHost htrust =>
    rw [Bool.and_eq_true, Option.isNone_iff_eq_none] at htrust
    exact .inr (.inr (.inr ⟨host, .here host, htrust.1, findKnownHostMatch_eq_none.mp htrust.2⟩))
  | case3 => cases h
  | case4 host chainHostIds hnew knownHost htrust jumpHostId hlink hfind =>
    refine .inr (.inr (.inl ⟨host, jumpHostId, .here host, hlink, fun entry hentry heq => ?_⟩))
    exact List.find?_eq_none.mp hfind entry hentry (by simpa using heq)
  | case5 host chainHostIds hnew knownHost htrust jumpHostId hlink jump hfind e' he ih =>
    have hjump : JumpsTo s host jump := ⟨jumpHostId, hlink, hfind⟩
    obtain rfl := Except.error.inj h
    rcases ih he with ⟨hop, hhop, hmem⟩ | hrevisits | hdangles | huntrusted
    · -- the hop that is met again is this one, or one above it
      rcases List.mem_cons.mp hmem with hid | hmem
      · exact .inr (.inl ⟨host, jump, hop, .here host, hjump, hhop, hid⟩)
      · exact .inl ⟨hop, .jump hjump hhop, hmem⟩
    · obtain ⟨hop, jump', later, hhop, hrest⟩ := hrevisits
      exact .inr (.inl ⟨hop, jump', later, .jump hjump hhop, hrest⟩)
    · obtain ⟨hop, jumpHostId', hhop, hrest⟩ := hdangles
      exact .inr (.inr (.inl ⟨hop, jumpHostId', .jump hjump hhop, hrest⟩))
    · obtain ⟨hop, hhop, hrest⟩ := huntrusted
      exact .inr (.inr (.inr ⟨hop, .jump hjump hhop, hrest⟩))
  | case6 => cases h

/-- The build throws exactly where the chain has a fault, and otherwise each hop of the connection
carries its own. -/
theorem buildBackendConnection_safe (s : Stores) (host : BackendConnectionHost)
    (knownHosts : List KnownHostRecord) :
    ((∃ e, buildBackendConnection s host knownHosts = .error e) ↔
      Revisits s host ∨ Dangles s host ∨ Untrusted s knownHosts host) ∧
    ∀ c, buildBackendConnection s host knownHosts = .ok c →
      ∃ hops, Walk s host hops ∧ (hops.map (·.id)).Nodup ∧ ChainCarries s knownHosts hops c := by
  refine ⟨⟨?_, fun hfault => ?_⟩, fun c hc => ?_⟩
  · rintro ⟨e, he⟩
    refine (faults_of_error he).resolve_left ?_
    rintro ⟨hop, -, hmem⟩
    cases hmem
  · cases hbuild : buildBackendConnection s host knownHosts with
    | error e => exact ⟨e, rfl⟩
    | ok c =>
      obtain ⟨hops, hwalk, hnodup, -, -, htrusted⟩ := build_ok hbuild
      rcases hfault with hrevisits | hdangles | ⟨hop, hhop, hneeds, hnone⟩
      · exact absurd hrevisits (hwalk.not_revisits hnodup)
      · exact absurd hdangles hwalk.not_dangles
      · refine absurd ⟨hneeds, ?_⟩ (htrusted hop (hwalk.mem hhop))
        rw [keyOf, findKnownHostMatch_eq_none.mpr hnone]
        rfl
  · obtain ⟨hops, hwalk, hnodup, -, hcarries, -⟩ := build_ok hc
    exact ⟨hops, hwalk, hnodup, hcarries⟩

end Build

/-- A password identity that still has a key path. -/
def retiredKeyIdentity : IdentityRecord :=
  { passwordIdentity with privateKeyPath := js "/keys/old" }

/-- Its path is not carried. -/
theorem keyless_identity_clears_path :
    ¬ ∀ (s : Stores) (host : BackendConnectionHost) (knownHosts : List KnownHostRecord)
      (c : BackendHostConnection) (identity : IdentityRecord),
      buildBackendConnection s host knownHosts = .ok c →
      resolveIdentityForHost host s.identities = some identity →
      c.privateKeyPath = if trim isSpace identity.privateKeyPath = [] then host.privateKeyPath
        else identity.privateKeyPath := by
  intro h
  let host : BackendConnectionHost :=
    { (plainHost "h").toBackendConnectionHost with identityId := .value retiredKeyIdentity.id }
  let s : Stores := ⟨[], [retiredKeyIdentity], fun _ => none⟩
  have hbuild : buildBackendConnection s host [] = .ok (hopConnection s none host none) :=
    build_eq_ok.mpr ⟨List.not_mem_nil, by decide, .inl ⟨by decide, rfl⟩⟩
  have hpath := h s host [] _ retiredKeyIdentity hbuild (by decide)
  revert hpath
  decide
end Connections
