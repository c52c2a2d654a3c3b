import TerminalWorkspace.Connections.ConnectPaths

/-! The secret check before a session is restored, and the connection that is built afterwards.
The check looks at the fields of the hosts, the builder prefers those of a bound identity. -/
namespace Connections
open JsText Inventory

/-- What the secret check reads besides the stores of the builder. The keychain answers with the
secrets that its services hold for a host; loading those of another host may have moved some of
them, so the answer depends on what is in memory already. -/
structure SecretSources where
  demoMode : Bool
  isTauriRuntime : Bool
  keys : List KeyRecord
  keychain : Stores → JsString → ConnectionSecrets

structure HostSecretRequirement where
  needsPassword : Bool
  needsPassphrase : Bool
  deriving DecidableEq

/-- `hostsById`: of two hosts with one id the later one counts. -/
def hostsById (s : Stores) : OrderedMap JsString HostRecord :=
  OrderedMap.ofList (s.hosts.map fun entry => (entry.id, entry))

/-- The host that the check looks at next. -/
def linkedHost (s : Stores) (host : BackendConnectionHost) : Option HostRecord :=
  host.jumpHostId.truthy.bind (hostsById s).get?

theorem linkedHost_mem {s : Stores} {host : BackendConnectionHost} {next : HostRecord}
    (h : linkedHost s host = some next) :
    next ∈ s.hosts := by
  obtain ⟨id, -, hget⟩ := Option.bind_eq_some_iff.mp h
  rw [hostsById, OrderedMap.get?_ofList] at hget
  obtain ⟨entry, hentry, heq⟩ := List.mem_map.mp (OrderedMap.lastFor_mem hget)
  exact (Prod.mk.inj heq).2 ▸ hentry

/-- The loop of `resolveConnectionChain`; the host looked at last comes first. -/
def resolveChainFrom (s : Stores) (currentHost : HostRecord) (visitedHostIds : List JsString)
    (chain : List HostRecord) : Except ConnectError (List HostRecord) :=
  if _ : currentHost.id ∈ visitedHostIds then .error (.jumpHostCycle currentHost.label)
  else
    match _ : linkedHost s currentHost.toBackendConnectionHost with
    | none => .ok (currentHost :: chain)
    | some next =>
      resolveChainFrom s next (currentHost.id :: visitedHostIds) (currentHost :: chain)
  termination_by unvisited s currentHost.toBackendConnectionHost visitedHostIds
  decreasing_by exact unvisited_jump ‹_› (linkedHost_mem ‹_›)

def resolveConnectionChain (s : Stores) (host : HostRecord) :
    Except ConnectError (List HostRecord) :=
  resolveChainFrom s host [] []

/-- Whether the key record at a path has a passphrase. -/
def keyHasPassphrase (keys : List KeyRecord) (privateKeyPath : JsString) : Bool :=
  (keys.find? fun key => key.privateKeyPath = privateKeyPath).any (·.hasPassphrase)

def getHostSecretRequirement (sources : SecretSources) (s : Stores) (host : HostRecord) :
    HostSecretRequirement :=
  if sources.demoMode then ⟨false, false⟩
  else
    let secrets := getHostConnectionSecrets s host.id
    { needsPassword := host.authMethod = .password && secrets.password = []
      needsPassphrase :=
        host.authMethod = .privateKey && keyHasPassphrase sources.keys host.privateKeyPath &&
          secrets.passphrase = [] }

/-- A host without a record in memory gets what the keychain holds for it, if that is anything. -/
def hydrateHostConnectionSecrets (sources : SecretSources) (s : Stores) (hostId : JsString) :
    Stores :=
  if (s.secretsByHostId hostId).isSome || !sources.isTauriRuntime then s
  else
    let values := sources.keychain s hostId
    if values.password = [] ∧ values.passphrase = [] then s
    else
      { s with secretsByHostId := fun id =>
          if id = hostId then some values else s.secretsByHostId id }

def hydrateConnectionSecrets (sources : SecretSources) (s : Stores) (chain : List HostRecord) :
    Stores :=
  chain.foldl (fun s entry => hydrateHostConnectionSecrets sources s entry.id) s

/-- The answer, with the stores that the hydration leaves. -/
def canRestoreSessionWithoutPrompt (sources : SecretSources) (s : Stores) (host : HostRecord) :
    Except ConnectError (Bool × Stores) :=
  if sources.demoMode then .ok (true, s)
  else
    match resolveConnectionChain s host with
    | .error e => .error e
    | .ok chain =>
      let hydrated := hydrateConnectionSecrets sources s chain
      match resolveConnectionChain hydrated host with
      | .error e => .error e
      | .ok chain =>
        .ok (chain.all fun entry =>
          let requirement := getHostSecretRequirement sources hydrated entry
          !requirement.needsPassword && !requirement.needsPassphrase, hydrated)

/-- The hops of the builder, the target first. -/
inductive Walk (s : Stores) : BackendConnectionHost → List BackendConnectionHost → Prop
  | last {host : BackendConnectionHost} (h : jumpLink host = none) : Walk s host [host]
  | jump {host : BackendConnectionHost} {jump : HostRecord} {hops : List BackendConnectionHost}
      (h : JumpsTo s host jump) (hrest : Walk s jump.toBackendConnectionHost hops) :
      Walk s host (host :: hops)

/-- The check and the builder walk the same chain of hops. -/
def SameChain (s : Stores) (host : HostRecord) : Prop :=
  ∃ chain, resolveConnectionChain s host = .ok chain ∧
    Walk s host.toBackendConnectionHost (chain.reverse.map (·.toBackendConnectionHost))

/-- The connection to a host, and those to its jump hosts. -/
inductive HopConnection : BackendHostConnection → BackendHostConnection → Prop
  | here (c : BackendHostConnection) : HopConnection c c
  | jump {c inner hop : BackendHostConnection} (h : c.jumpHost = some inner)
      (hhop : HopConnection inner hop) : HopConnection c hop

/-- A connection carries the secret that it authenticates with. -/
def Supplied (keys : List KeyRecord) (c : BackendHostConnection) : Prop :=
  (c.authMethod = .password → c.password ≠ []) ∧
    (c.authMethod = .privateKey → keyHasPassphrase keys c.privateKeyPath = true → c.passphrase ≠ [])

/-- The host that the builder resolves next. -/
def jumpHostOf (s : Stores) (host : BackendConnectionHost) : Option HostRecord :=
  (jumpLink host).bind fun jumpHostId => s.hosts.find? fun candidate => candidate.id = jumpHostId

/-- The check goes on from a hop where the builder does, and asks for each secret that is missing
for the credentials in effect. -/
structure CheckCovers (sources : SecretSources) (s : Stores) (hop : BackendConnectionHost) :
    Prop where
  next : (linkedHost s hop).map (·.toBackendConnectionHost) =
    (jumpHostOf s hop).map (·.toBackendConnectionHost)
  password : effectiveAuthMethod (resolveIdentityForHost hop s.identities) hop = .password →
    (getHostConnectionSecrets s hop.id).password = [] →
    sources.demoMode = false ∧ hop.authMethod = .password
  passphrase : effectiveAuthMethod (resolveIdentityForHost hop s.identities) hop = .privateKey →
    keyHasPassphrase sources.keys
      (effectivePrivateKeyPath (resolveIdentityForHost hop s.identities) hop) = true →
    (getHostConnectionSecrets s hop.id).passphrase = [] →
    sources.demoMode = false ∧ hop.authMethod = .privateKey ∧
      keyHasPassphrase sources.keys hop.privateKeyPath = true

section Chains
variable {s : Stores} {knownHosts : List KnownHostRecord}

theorem jumpsTo_iff {host : BackendConnectionHost} {jump : HostRecord} :
    JumpsTo s host jump ↔ jumpHostOf s host = some jump := by
  rw [JumpsTo, jumpHostOf, Option.bind_eq_some_iff]

/-- The hosts that the check looks at, the target first. -/
inductive Follows (s : Stores) : HostRecord → List HostRecord → Prop
  | last {host : HostRecord} (h : linkedHost s host.toBackendConnectionHost = none) :
      Follows s host [host]
  | jump {host next : HostRecord} {hops : List HostRecord}
      (h : linkedHost s host.toBackendConnectionHost = some next) (hrest : Follows s next hops) :
      Follows s host (host :: hops)

theorem resolveChainFrom_ok {host : HostRecord} {visitedHostIds : List JsString}
    {accumulated chain : List HostRecord}
    (h : resolveChainFrom s host visitedHostIds accumulated = .ok chain) :
    ∃ hops, chain = hops.reverse ++ accumulated ∧ Follows s host hops := by
  fun_induction resolveChainFrom s host visitedHostIds accumulated with
  | case1 => cases h
  | case2 host visitedHostIds accumulated hnew hlink =>
    exact ⟨[host], (Except.ok.inj h).symm, .last hlink⟩
  | case3 host visitedHostIds accumulated hnew next hlink ih =>
    obtain ⟨hops, rfl, hfollows⟩ := ih h
    exact ⟨host :: hops, by simp, .jump hlink hfollows⟩

theorem Follows.head {host : HostRecord} {hops : List HostRecord} (h : Follows s host hops) :
    hops.head? = some host := by
  cases h <;> rfl

theorem Walk.head {host : BackendConnectionHost} {hops : List BackendConnectionHost}
    (h : Walk s host hops) : hops.head? = some host := by
  cases h <;> rfl

theorem Walk.last_iff {host : BackendConnectionHost} (h : Walk s host [host]) :
    jumpHostOf s host = none := by
  cases h with
  | last hlink => simp [jumpHostOf, hlink]
  | jump _ hrest => cases hrest.head

theorem Walk.rest {host other : BackendConnectionHost} {hops : List BackendConnectionHost}
    (h : Walk s host (other :: hops)) (hne : hops ≠ []) :
    ∃ jump, jumpHostOf s host = some jump ∧ Walk s jump.toBackendConnectionHost hops := by
  cases h with
  | last => exact absurd rfl hne
  | jump hjump hrest => exact ⟨_, jumpsTo_iff.mp hjump, hrest⟩

/-- Two walks along one chain take the same next hop everywhere. -/
theorem Follows.same_next {host : HostRecord} {hops : List HostRecord} (h : Follows s host hops)
    (hwalk : Walk s host.toBackendConnectionHost (hops.map (·.toBackendConnectionHost)))
    {hop : BackendConnectionHost} (hhop : Hop s host.toBackendConnectionHost hop) :
    (linkedHost s hop).map (·.toBackendConnectionHost) =
      (jumpHostOf s hop).map (·.toBackendConnectionHost) := by
  induction h with
  | last hlink =>
    have hnone := Walk.last_iff hwalk
    cases hhop with
    | here => rw [hlink, hnone]
    | jump hjump =>
      rw [jumpsTo_iff, hnone] at hjump
      cases hjump
  | @jump host next hops hlink hrest ih =>
    have hne : hops.map (·.toBackendConnectionHost) ≠ [] := by
      intro hnil
      have hhead := hrest.head
      rw [List.map_eq_nil_iff.mp hnil] at hhead
      cases hhead
    obtain ⟨jump, hjump, hwalk⟩ := Walk.rest hwalk hne
    have hsame : next.toBackendConnectionHost = jump.toBackendConnectionHost := by
      have hhead := hwalk.head
      rw [List.head?_map, hrest.head] at hhead
      exact Option.some.inj hhead
    cases hhop with
    | here => rw [hlink, hjump, Option.map_some, Option.map_some, hsame]
    | @jump _ _ jump' hjump' hhop =>
      rw [jumpsTo_iff, hjump] at hjump'
      obtain rfl := Option.some.inj hjump'
      rw [← hsame] at hwalk hhop
      exact ih hwalk hhop

/-- Where the check goes on as the builder does, it walks the chain that the builder walked. -/
theorem resolveChainFrom_of_build {host : HostRecord} {chainHostIds : List JsString}
    {c : BackendHostConnection} {accumulated : List HostRecord}
    (h : buildBackendConnectionRecursive s knownHosts host.toBackendConnectionHost chainHostIds =
      .ok c)
    (hnext : ∀ hop, Hop s host.toBackendConnectionHost hop →
      (linkedHost s hop).map (·.toBackendConnectionHost) =
        (jumpHostOf s hop).map (·.toBackendConnectionHost)) :
    ∃ hops : List HostRecord,
      Walk s host.toBackendConnectionHost (hops.map (·.toBackendConnectionHost)) ∧
      resolveChainFrom s host chainHostIds accumulated = .ok (hops.reverse ++ accumulated) := by
  induction hm : unvisited s host.toBackendConnectionHost chainHostIds using
    Nat.strong_induction_on generalizing host chainHostIds c accumulated with
  | h n ih =>
    obtain ⟨hnew, -, hcases⟩ := build_eq_ok.mp h
    have hhere := hnext _ (.here _)
    rw [resolveChainFrom, dif_neg hnew]
    rcases hcases with ⟨hlink, -⟩ | ⟨jump, inner, hjump, hinner, -⟩
    · have hnone : linkedHost s host.toBackendConnectionHost = none := by
        simpa [jumpHostOf, hlink] using hhere
      refine ⟨[host], .last hlink, ?_⟩
      split
      · rfl
      · rename_i hsome
        rw [hnone] at hsome
        cases hsome
    · rw [jumpsTo_iff.mp hjump, Option.map_some] at hhere
      obtain ⟨next, hlink, hsame⟩ := Option.map_eq_some_iff.mp hhere
      split
      · rename_i hnone
        rw [hlink] at hnone
        cases hnone
      · rename_i next' hlink'
        obtain rfl := Option.some.inj (hlink.symm.trans hlink')
        have hlt : unvisited s next.toBackendConnectionHost (host.id :: chainHostIds) < n :=
          hm ▸ unvisited_jump hnew (linkedHost_mem hlink)
        rw [← hsame] at hinner
        obtain ⟨hops, hwalk, hresolve⟩ : ∃ hops : List HostRecord,
            Walk s next.toBackendConnectionHost (hops.map (·.toBackendConnectionHost)) ∧
              resolveChainFrom s next (host.id :: chainHostIds) (host :: accumulated) =
                .ok (hops.reverse ++ host :: accumulated) :=
          ih _ hlt hinner (fun hop hhop => hnext hop (.jump hjump (hsame ▸ hhop))) rfl
        refine ⟨host :: hops, .jump hjump (hsame ▸ hwalk), ?_⟩
        rw [hresolve, List.reverse_cons, List.append_assoc, List.singleton_append]

end Chains

section Secrets
variable {sources : SecretSources} {s s' : Stores} {knownHosts : List KnownHostRecord}

/-- What the credentials in effect need for a hop is there. -/
def HopSupplied (sources : SecretSources) (s : Stores) (hop : BackendConnectionHost) : Prop :=
  Supplied sources.keys (hopConnection s none hop none)

/-- The connections of a build are those to its hops. -/
theorem supplied_iff {host : BackendConnectionHost} {chainHostIds : List JsString}
    {c : BackendHostConnection}
    (h : buildBackendConnectionRecursive s knownHosts host chainHostIds = .ok c) :
    (∀ hop, HopConnection c hop → Supplied sources.keys hop) ↔
      ∀ hop, Hop s host hop → HopSupplied sources s hop := by
  induction hm : unvisited s host chainHostIds using Nat.strong_induction_on
    generalizing host chainHostIds c with
  | h n ih =>
    obtain ⟨hnew, -, hcases⟩ := build_eq_ok.mp h
    rcases hcases with ⟨hlink, rfl⟩ | ⟨jump, inner, hjump, hinner, rfl⟩
    · constructor
      · intro hsupplied hop hhop
        cases hhop with
        | here =>
          have hhere := hsupplied _ (.here _)
          exact hhere
        | jump hj =>
          obtain ⟨id, hid, -⟩ := hj
          rw [hlink] at hid
          cases hid
      · intro hsupplied hop hhop
        cases hhop with
        | here => exact hsupplied _ (.here _)
        | jump hj => cases hj
    · have hlt : unvisited s jump.toBackendConnectionHost (host.id :: chainHostIds) < n := by
        obtain ⟨id, -, hfind⟩ := hjump
        exact hm ▸ unvisited_jump hnew (List.mem_of_find?_eq_some hfind)
      have hrec := ih _ hlt hinner rfl
      constructor
      · intro hsupplied hop hhop
        cases hhop with
        | here =>
          have hhere := hsupplied _ (.here _)
          exact hhere
        | jump hj hhop =>
          obtain rfl := Option.some.inj ((jumpsTo_iff.mp hj).symm.trans (jumpsTo_iff.mp hjump))
          exact hrec.mp (fun hop hhop => hsupplied hop (.jump rfl hhop)) hop hhop
      · intro hsupplied hop hhop
        cases hhop with
        | here => exact hsupplied _ (.here _)
        | jump hj hhop =>
          obtain rfl := Option.some.inj hj
          exact hrec.mpr (fun hop hhop => hsupplied hop (.jump hjump hhop)) hop hhop

/-- Hydration reads the hosts and changes no more than the secrets. -/
theorem hydrateConnectionSecrets_hosts (chain : List HostRecord) :
    (hydrateConnectionSecrets sources s chain).hosts = s.hosts := by
  induction chain generalizing s with
  | nil => rfl
  | cons entry chain ih =>
    refine (ih (s := hydrateHostConnectionSecrets sources s entry.id)).trans ?_
    unfold hydrateHostConnectionSecrets
    split
    · rfl
    · dsimp only
      split <;> rfl

/-- The answer of a check that does not only ask for the mode: no host of the chain lacks a
secret. -/
theorem canRestore_true {host : HostRecord} (hmode : sources.demoMode = false)
    (h : canRestoreSessionWithoutPrompt sources s host = .ok (true, s')) :
    ∃ chain, resolveConnectionChain s' host = .ok chain ∧
      ∀ entry ∈ chain, getHostSecretRequirement sources s' entry = ⟨false, false⟩ := by
  simp only [canRestoreSessionWithoutPrompt, hmode, Bool.false_eq_true, if_false] at h
  split at h
  · cases h
  · split at h
    · cases h
    · rename_i chain hchain
      obtain ⟨hall, hstores⟩ := Prod.mk.inj (Except.ok.inj h)
      rw [hstores] at hall hchain
      refine ⟨chain, hchain, fun entry hentry => ?_⟩
      have hentry := List.all_eq_true.mp hall entry hentry
      simp only [Bool.and_eq_true, Bool.not_eq_true'] at hentry
      obtain ⟨hpassword, hpassphrase⟩ := hentry
      calc getHostSecretRequirement sources s' entry
          = ⟨(getHostSecretRequirement sources s' entry).needsPassword,
              (getHostSecretRequirement sources s' entry).needsPassphrase⟩ := rfl
        _ = ⟨false, false⟩ := by rw [hpassword, hpassphrase]

/-- A hop of the builder is one of the hosts that it walks. -/
theorem Walk.mem_of_hop {host : BackendConnectionHost} {hops : List BackendConnectionHost}
    (h : Walk s host hops) {hop : BackendConnectionHost} (hhop : Hop s host hop) : hop ∈ hops := by
  induction h with
  | last hlink =>
    cases hhop with
    | here => exact List.mem_singleton_self _
    | jump hj =>
      obtain ⟨id, hid, -⟩ := hj
      rw [hlink] at hid
      cases hid
  | jump hjump hrest ih =>
    cases hhop with
    | here => exact List.mem_cons_self
    | jump hj hhop =>
      obtain rfl := Option.some.inj ((jumpsTo_iff.mp hj).symm.trans (jumpsTo_iff.mp hjump))
      exact List.mem_cons_of_mem _ (ih hhop)

/-- A secret that a host asks for is there once the check is content. -/
theorem asked_of_content {entry : HostRecord} (hmode : sources.demoMode = false)
    (h : getHostSecretRequirement sources s entry = ⟨false, false⟩) :
    (entry.authMethod = .password → (getHostConnectionSecrets s entry.id).password ≠ []) ∧
      (entry.authMethod = .privateKey →
        keyHasPassphrase sources.keys entry.privateKeyPath = true →
        (getHostConnectionSecrets s entry.id).passphrase ≠ []) := by
  simp only [getHostSecretRequirement, hmode, Bool.false_eq_true, if_false,
    HostSecretRequirement.mk.injEq] at h
  obtain ⟨hpassword, hpassphrase⟩ := h
  constructor
  · intro hauth hempty
    simp [hauth, hempty] at hpassword
  · intro hauth hkey hempty
    simp [hauth, hkey, hempty] at hpassphrase

/-- When the check lets a session be restored and the connection is built, the connection carries
every secret it needs, along the chain that the check has walked, if and only if the check covers
every hop. -/
theorem secretCheck_iff {host : HostRecord} {c : BackendHostConnection}
    (hrestore : canRestoreSessionWithoutPrompt sources s host = .ok (true, s'))
    (hbuild : buildBackendConnection s' host.toBackendConnectionHost knownHosts = .ok c) :
    ((∀ hop, HopConnection c hop → Supplied sources.keys hop) ∧ SameChain s' host) ↔
      ∀ hop, Hop s' host.toBackendConnectionHost hop → CheckCovers sources s' hop := by
  constructor
  · rintro ⟨hsupplied, chain, hchain, hwalk⟩ hop hhop
    obtain ⟨hpassword, hpassphrase⟩ := (supplied_iff hbuild).mp hsupplied hop hhop
    obtain ⟨hops, rfl, hfollows⟩ := resolveChainFrom_ok hchain
    rw [List.append_nil, List.reverse_reverse] at hwalk
    exact
      { next := hfollows.same_next hwalk hhop
        password := fun hauth hempty => absurd hempty (hpassword hauth)
        passphrase := fun hauth hkey hempty => absurd hempty (hpassphrase hauth hkey) }
  · intro hcovers
    obtain ⟨hops, hwalk, hresolve⟩ : ∃ hops : List HostRecord,
        Walk s' host.toBackendConnectionHost (hops.map (·.toBackendConnectionHost)) ∧
          resolveConnectionChain s' host = .ok (hops.reverse ++ []) :=
      resolveChainFrom_of_build hbuild fun hop hhop => (hcovers hop hhop).next
    have hasked (hmode : sources.demoMode = false) {hop : BackendConnectionHost}
        (hhop : Hop s' host.toBackendConnectionHost hop) :
        (hop.authMethod = .password → (getHostConnectionSecrets s' hop.id).password ≠ []) ∧
          (hop.authMethod = .privateKey →
            keyHasPassphrase sources.keys hop.privateKeyPath = true →
            (getHostConnectionSecrets s' hop.id).passphrase ≠ []) := by
      obtain ⟨chain, hchain, hcontent⟩ := canRestore_true hmode hrestore
      obtain rfl := Except.ok.inj (hresolve.symm.trans hchain)
      obtain ⟨entry, hentry, rfl⟩ := List.mem_map.mp (hwalk.mem_of_hop hhop)
      refine asked_of_content hmode (hcontent entry ?_)
      rwa [List.append_nil, List.mem_reverse]
    refine ⟨(supplied_iff hbuild).mpr fun hop hhop => ⟨fun hauth hempty => ?_,
      fun hauth hkey hempty => ?_⟩, hops.reverse ++ [], hresolve, ?_⟩
    · obtain ⟨hmode, hown⟩ := (hcovers hop hhop).password hauth hempty
      exact (hasked hmode hhop).1 hown hempty
    · obtain ⟨hmode, hown, hownKey⟩ := (hcovers hop hhop).passphrase hauth hkey hempty
      exact (hasked hmode hhop).2 hown hownKey hempty
    · rwa [List.append_nil, List.reverse_reverse]

/-- One host with a saved password. -/
def savedStores : Stores :=
  { plainStores [plainHost "h"] with secretsByHostId := fun _ => some ⟨js "secret", []⟩ }

def nativeSources : SecretSources := ⟨false, true, [], fun _ _ => ⟨[], []⟩⟩

theorem resolveChain_single {s : Stores} {host : HostRecord}
    (h : linkedHost s host.toBackendConnectionHost = none) :
    resolveConnectionChain s host = .ok [host] := by
  rw [resolveConnectionChain, resolveChainFrom, dif_neg List.not_mem_nil]
  split
  · rfl
  · rename_i hsome
    rw [h] at hsome
    cases hsome

/-- A host that needs nothing more than what is in memory, and has no jump host. -/
theorem canRestore_single {host : HostRecord} {values : ConnectionSecrets}
    (hchain : resolveConnectionChain { s with secretsByHostId := fun _ => some values } host =
      .ok [host])
    (hcontent : getHostSecretRequirement sources
      { s with secretsByHostId := fun _ => some values } host = ⟨false, false⟩) :
    canRestoreSessionWithoutPrompt sources { s with secretsByHostId := fun _ => some values } host =
      .ok (true, { s with secretsByHostId := fun _ => some values }) := by
  have hhydrated : hydrateConnectionSecrets sources
      { s with secretsByHostId := fun _ => some values } [host] =
        { s with secretsByHostId := fun _ => some values } := rfl
  unfold canRestoreSessionWithoutPrompt
  split
  · rfl
  · simp only [hchain, hhydrated, List.all_cons, List.all_nil, hcontent]
    rfl

theorem secretCheck_savedPassword :
    (∀ hop, HopConnection (hopConnection savedStores none (plainHost "h").toBackendConnectionHost
        none) hop → Supplied nativeSources.keys hop) ∧
      SameChain savedStores (plainHost "h") := by
  have hbuild : buildBackendConnection savedStores (plainHost "h").toBackendConnectionHost [] =
      .ok (hopConnection savedStores none (plainHost "h").toBackendConnectionHost none) :=
    build_eq_ok.mpr ⟨List.not_mem_nil, by decide, .inl ⟨by decide, rfl⟩⟩
  have hchain : resolveConnectionChain savedStores (plainHost "h") = .ok [plainHost "h"] :=
    resolveChain_single (by decide)
  have hrestore : canRestoreSessionWithoutPrompt nativeSources savedStores (plainHost "h") =
      .ok (true, savedStores) :=
    canRestore_single hchain (by decide)
  refine (secretCheck_iff hrestore hbuild).mpr fun hop hhop => ?_
  cases hhop with
  | here => exact ⟨by decide, by decide, by decide⟩
  | jump hj =>
    obtain ⟨id, hid, -⟩ := hj
    have hnone : jumpLink (plainHost "h").toBackendConnectionHost = none := by decide
    rw [hnone] at hid
    cases hid

/-- An identity with a password, and a host that names it. -/
def passwordIdentity : IdentityRecord where
  id := js "i"
  label := js "Operator"
  username := js "operator"
  authMethod := .password
  privateKeyPath := []
  keyId := .absent
  hasPassphrase := false
  comment := []
  source := .imported
  createdAt := []
  updatedAt := []

def boundHost : HostRecord :=
  { plainHost "h" with authMethod := .none, identityId := .value (js "i") }

/-- No password is in memory, and one that is empty is in its place. -/
def boundStores : Stores := ⟨[boundHost], [passwordIdentity], fun _ => some ⟨[], []⟩⟩

/-- The host needs no secret of its own, and the connection authenticates with the password of
its identity, which nobody has asked for. -/
theorem not_every_check_agrees :
    ¬ ∀ (sources : SecretSources) (s s' : Stores) (host : HostRecord)
      (knownHosts : List KnownHostRecord) (c : BackendHostConnection),
      sources.demoMode = false → host ∈ s.hosts →
      canRestoreSessionWithoutPrompt sources s host = .ok (true, s') →
      buildBackendConnection s' host.toBackendConnectionHost knownHosts = .ok c →
      (∀ hop, HopConnection c hop → Supplied sources.keys hop) ∧ SameChain s' host := by
  intro h
  have hbuild : buildBackendConnection boundStores boundHost.toBackendConnectionHost [] =
      .ok (hopConnection boundStores none boundHost.toBackendConnectionHost none) :=
    build_eq_ok.mpr ⟨List.not_mem_nil, by decide, .inl ⟨by decide, rfl⟩⟩
  have hchain : resolveConnectionChain boundStores boundHost = .ok [boundHost] :=
    resolveChain_single (by decide)
  have hrestore : canRestoreSessionWithoutPrompt nativeSources boundStores boundHost =
      .ok (true, boundStores) :=
    canRestore_single (s := boundStores) hchain (by decide)
  obtain ⟨hsupplied, -⟩ := h nativeSources boundStores boundStores boundHost [] _ rfl
    (List.mem_singleton_self _) hrestore hbuild
  exact (hsupplied _ (.here _)).1 (by decide) (by decide)

end Secrets

end Connections
