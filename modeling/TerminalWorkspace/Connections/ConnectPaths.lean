import TerminalWorkspace.Connections.Builder

/-! When the connect paths agree. Two builds of one host differ only through the
keys their collections have for its hops, and through the fields of the host
that a call site leaves out. -/
namespace Connections
open JsText Inventory

section Builder
variable {s : Stores} {knownHosts knownHosts' : List KnownHostRecord}
  {host : BackendConnectionHost} {chainHostIds : List JsString} {c : BackendHostConnection}

/-- The jump host of a host, as the store resolves it. -/
def JumpsTo (s : Stores) (host : BackendConnectionHost) (jump : HostRecord) : Prop :=
  ∃ jumpHostId, jumpLink host = some jumpHostId ∧
    s.hosts.find? (fun candidate => candidate.id = jumpHostId) = some jump

/-- The hops of a host: itself, and those of its jump host. -/
inductive Hop (s : Stores) : BackendConnectionHost → BackendConnectionHost → Prop
  | here (host : BackendConnectionHost) : Hop s host host
  | jump {host hop : BackendConnectionHost} {jump : HostRecord} (h : JumpsTo s host jump)
      (hhop : Hop s jump.toBackendConnectionHost hop) : Hop s host hop

/-- The key a collection has for a host. -/
def keyOf (knownHosts : List KnownHostRecord) (host : BackendConnectionHost) : Option TrustedKey :=
  (findKnownHostMatch knownHosts host).map KnownHostRecord.trustedKey

theorem keyOf_eq_none : keyOf knownHosts host = none ↔
    (findKnownHostMatch knownHosts host).isNone = true := by
  simp [keyOf]

theorem map_trustedKey_eq {knownHost knownHost' : Option KnownHostRecord} :
    knownHost.map KnownHostRecord.trustedKey = knownHost'.map KnownHostRecord.trustedKey ↔
      knownHost.map (·.algorithm) = knownHost'.map (·.algorithm) ∧
        knownHost.map (·.publicKey) = knownHost'.map (·.publicKey) := by
  cases knownHost <;> cases knownHost' <;> simp [KnownHostRecord.trustedKey]

theorem hopConnection_inj {knownHost knownHost' : Option KnownHostRecord}
    {jump jump' : Option BackendHostConnection} :
    hopConnection s knownHost host jump = hopConnection s knownHost' host jump' ↔
      knownHost.map KnownHostRecord.trustedKey = knownHost'.map KnownHostRecord.trustedKey ∧
        jump = jump' := by
  rw [map_trustedKey_eq]
  simp only [hopConnection, BackendHostConnection.mk.injEq, true_and, and_true]
  tauto

/-- What a successful build has checked, and what it returns. -/
theorem build_eq_ok : buildBackendConnectionRecursive s knownHosts host chainHostIds = .ok c ↔
    host.id ∉ chainHostIds ∧ ¬ (needsTrustedKey host = true ∧ keyOf knownHosts host = none) ∧
    ((jumpLink host = none ∧
        c = hopConnection s (findKnownHostMatch knownHosts host) host none) ∨
      ∃ jump inner, JumpsTo s host jump ∧
        buildBackendConnectionRecursive s knownHosts jump.toBackendConnectionHost
          (host.id :: chainHostIds) = .ok inner ∧
        c = hopConnection s (findKnownHostMatch knownHosts host) host (some inner)) := by
  rw [buildBackendConnectionRecursive, keyOf_eq_none]
  by_cases hnew : host.id ∈ chainHostIds
  · simp [hnew]
  rw [dif_neg hnew]
  by_cases htrust : (needsTrustedKey host && (findKnownHostMatch knownHosts host).isNone) = true
  · have hboth := (Bool.and_eq_true _ _).mp htrust
    simp [hboth]
  have hboth : ¬ (needsTrustedKey host = true ∧
      (findKnownHostMatch knownHosts host).isNone = true) := by
    rwa [Bool.and_eq_true] at htrust
  simp only [if_neg htrust, hnew, hboth, not_false_eq_true, true_and]
  cases hlink : jumpLink host with
  | none => simp [JumpsTo, hlink, eq_comm]
  | some jumpHostId =>
    simp only [JumpsTo, hlink, Option.some_inj, exists_eq_left', reduceCtorEq, false_and, false_or]
    split
    · rename_i hfind
      simp [hfind]
    · rename_i jump hfind
      simp only [hfind, Option.some_inj, exists_and_left, exists_eq_left']
      cases buildBackendConnectionRecursive s knownHosts jump.toBackendConnectionHost
        (host.id :: chainHostIds) with
      | error e => simp
      | ok inner => simp [eq_comm]

/-- Two collections build the same connection exactly when they have the same key
for every hop. -/
theorem build_congr_iff
    (h : buildBackendConnectionRecursive s knownHosts host chainHostIds = .ok c) :
    buildBackendConnectionRecursive s knownHosts' host chainHostIds = .ok c ↔
      ∀ hop, Hop s host hop → keyOf knownHosts' hop = keyOf knownHosts hop := by
  induction hm : unvisited s host chainHostIds using Nat.strong_induction_on
    generalizing host chainHostIds c with
  | h n ih =>
    obtain ⟨hnew, htrust, hcases⟩ := build_eq_ok.mp h
    rw [build_eq_ok]
    rcases hcases with ⟨hlink, rfl⟩ | ⟨jump, inner, hjump, hinner, rfl⟩
    · have hno (j : HostRecord) : ¬ JumpsTo s host j := by simp [JumpsTo, hlink]
      constructor
      · rintro ⟨-, -, ⟨-, heq⟩ | ⟨j, -, hj, -⟩⟩
        · intro hop hhop
          cases hhop with
          | here => exact (hopConnection_inj.mp heq).1.symm
          | jump hj => exact absurd hj (hno _)
        · exact absurd hj (hno j)
      · intro hkeys
        have hhere := hkeys host (.here host)
        exact ⟨hnew, hhere ▸ htrust, .inl ⟨hlink, hopConnection_inj.mpr ⟨hhere.symm, rfl⟩⟩⟩
    · have hunique (j : HostRecord) (hj : JumpsTo s host j) : j = jump := by
        obtain ⟨id, hid, hfind⟩ := hj
        obtain ⟨id', hid', hfind'⟩ := hjump
        obtain rfl : id = id' := Option.some.inj (hid.symm.trans hid')
        exact Option.some.inj (hfind.symm.trans hfind')
      have hlt : unvisited s jump.toBackendConnectionHost (host.id :: chainHostIds) < n := by
        obtain ⟨id, -, hfind⟩ := hjump
        exact hm ▸ unvisited_jump hnew (List.mem_of_find?_eq_some hfind)
      have hrec := ih _ hlt hinner rfl
      constructor
      · rintro ⟨-, -, ⟨hlink, -⟩ | ⟨j, inner', hj, hinner', heq⟩⟩
        · obtain ⟨id, hid, -⟩ := hjump
          simp [hlink] at hid
        · obtain rfl := hunique j hj
          obtain ⟨hkey, hin⟩ := hopConnection_inj.mp heq
          obtain rfl := Option.some.inj hin
          intro hop hhop
          cases hhop with
          | here => exact hkey.symm
          | jump hj' hhop => exact hrec.mp hinner' hop (hunique _ hj' ▸ hhop)
      · intro hkeys
        have hhere := hkeys host (.here host)
        refine ⟨hnew, hhere ▸ htrust, .inr ⟨jump, inner, hjump, ?_, ?_⟩⟩
        · exact hrec.mpr fun hop hhop => hkeys hop (.jump hjump hhop)
        · exact hopConnection_inj.mpr ⟨hhere.symm, rfl⟩

theorem keyOf_fromKey (key : Option TrustedKey) (hop : BackendConnectionHost) :
    keyOf (knownHostsFromKey host key) hop =
      if host.hostname = hop.hostname ∧ host.port = hop.port then key else none := by
  cases key with
  | none => simp [keyOf, findKnownHostMatch, knownHostsFromKey]
  | some key =>
    split_ifs with h
    · simp [keyOf, findKnownHostMatch, knownHostsFromKey, h, KnownHostRecord.trustedKey]
    · have hb : (decide (host.hostname = hop.hostname) && decide (host.port = hop.port)) = false := by
        simpa using h
      simp [keyOf, findKnownHostMatch, knownHostsFromKey, hb]

theorem keyOf_congr {hop : BackendConnectionHost}
    (h : host.hostname = hop.hostname ∧ host.port = hop.port) :
    keyOf knownHosts hop = keyOf knownHosts host := by
  rw [keyOf, keyOf, findKnownHostMatch, findKnownHostMatch, h.1, h.2]

end Builder

section Paths
variable {s : Stores} {knownHosts : List KnownHostRecord} {host : HostRecord}
  {c : BackendHostConnection}

/-- The restore manager passes on the target's key alone, so it agrees exactly when no
hop at another address has one. -/
theorem restoreConnection_iff
    (h : buildBackendConnection s host.toBackendConnectionHost knownHosts = .ok c) :
    restoreConnection s host knownHosts = .ok c ↔
      ∀ hop, Hop s host.toBackendConnectionHost hop →
        (host.hostname = hop.hostname ∧ host.port = hop.port) ∨
          findKnownHostMatch knownHosts hop = none := by
  refine (build_congr_iff h).trans (forall₂_congr fun hop _ => ?_)
  rw [keyOf_fromKey]
  split_ifs with haddr
  · simp only [haddr, and_self, true_or, iff_true]
    exact (keyOf_congr haddr).symm
  · rw [eq_comm, keyOf, Option.map_eq_none_iff, or_iff_right haddr]

/-- The bound identity, if there is one, repeats the credentials of the host. -/
def IdentityRepeats (s : Stores) (host : BackendConnectionHost) : Prop :=
  ∀ identity, resolveIdentityForHost host s.identities = some identity →
    (RecordFile.trim isSpace identity.username = [] ∨
      RecordFile.trim isSpace identity.username = host.username) ∧
    identity.authMethod = host.authMethod ∧
    if identity.authMethod = .privateKey then
      identity.privateKeyPath = [] ∨ identity.privateKeyPath = host.privateKeyPath
    else host.privateKeyPath = []

theorem truthy_getD_eq {value other : JsString} :
    (truthy value).getD other = other ↔ value = [] ∨ value = other := by
  rw [truthy]
  split_ifs with h <;> simp [h]

theorem identityRepeats_iff {host : BackendConnectionHost} :
    IdentityRepeats s host ↔
      effectiveAuthMethod (resolveIdentityForHost host s.identities) host = host.authMethod ∧
      effectivePrivateKeyPath (resolveIdentityForHost host s.identities) host =
        host.privateKeyPath ∧
      effectiveUsername (resolveIdentityForHost host s.identities) host = host.username := by
  rw [IdentityRepeats]
  cases resolveIdentityForHost host s.identities with
  | none => simp [effectiveAuthMethod, effectivePrivateKeyPath, effectiveUsername]
  | some identity =>
    simp only [Option.some_inj, forall_eq', effectiveAuthMethod, effectivePrivateKeyPath,
      effectiveUsername, truthy_getD_eq]
    split_ifs
    · rw [truthy_getD_eq]
      tauto
    · rw [eq_comm (a := ([] : JsString))]
      tauto

/-- The fields that the pane leaves out make no difference for this host. -/
structure PathsAgree (s : Stores) (host : BackendConnectionHost)
    (knownHosts : List KnownHostRecord) : Prop where
  no_jump : jumpLink host = none
  identity : IdentityRepeats s host
  key : hostSupportsTrustedKeys host.protocol = true ∨ findKnownHostMatch knownHosts host = none

/-- The host that the pane assembles. -/
def paneHost (host : BackendConnectionHost) : BackendConnectionHost :=
  { host with identityId := .absent, jumpHostId := .absent }

theorem jumpLink_paneHost (host : BackendConnectionHost) : jumpLink (paneHost host) = none := by
  rw [jumpLink]
  split_ifs <;> rfl

theorem hopConnection_paneHost_eq {host : BackendConnectionHost}
    {knownHost knownHost' : Option KnownHostRecord} {jump : Option BackendHostConnection} :
    hopConnection s knownHost host jump = hopConnection s knownHost' (paneHost host) none ↔
      knownHost.map KnownHostRecord.trustedKey = knownHost'.map KnownHostRecord.trustedKey ∧
        jump = none ∧ IdentityRepeats s host := by
  have hnone : resolveIdentityForHost (paneHost host) s.identities = none := rfl
  rw [map_trustedKey_eq, identityRepeats_iff]
  simp only [hopConnection, hnone, BackendHostConnection.mk.injEq]
  simp only [paneHost, effectiveAuthMethod, effectivePrivateKeyPath, effectiveUsername]
  tauto

/-- The collection that the pane builds from. -/
def paneKnownHosts (knownHosts : List KnownHostRecord) (host : BackendConnectionHost) :
    List KnownHostRecord :=
  knownHostsFromKey (paneHost host)
    ((if hostSupportsTrustedKeys host.protocol then findKnownHostMatch knownHosts host
      else none).map KnownHostRecord.trustedKey)

theorem paneConnection_eq : paneConnection s host knownHosts =
    buildBackendConnectionRecursive s (paneKnownHosts knownHosts host.toBackendConnectionHost)
      (paneHost host.toBackendConnectionHost) [] := rfl

theorem keyOf_pane {host : BackendConnectionHost} :
    keyOf (paneKnownHosts knownHosts host) (paneHost host) =
      if hostSupportsTrustedKeys host.protocol then keyOf knownHosts host else none := by
  refine (keyOf_fromKey _ _).trans ?_
  rw [if_pos ⟨rfl, rfl⟩]
  split_ifs <;> rfl

theorem paneConnection_iff
    (h : buildBackendConnection s host.toBackendConnectionHost knownHosts = .ok c) :
    paneConnection s host knownHosts = .ok c ↔
      PathsAgree s host.toBackendConnectionHost knownHosts := by
  obtain ⟨-, htrust, hcases⟩ := build_eq_ok.mp h
  obtain ⟨jump, hjump, rfl⟩ : ∃ jump, (jump = none ↔ jumpLink host.toBackendConnectionHost = none) ∧
      c = hopConnection s (findKnownHostMatch knownHosts host.toBackendConnectionHost)
        host.toBackendConnectionHost jump := by
    rcases hcases with ⟨hlink, rfl⟩ | ⟨j, inner, ⟨id, hid, -⟩, -, rfl⟩
    · exact ⟨none, by simp [hlink], rfl⟩
    · exact ⟨some inner, by simp [hid], rfl⟩
  rw [paneConnection_eq, build_eq_ok]
  constructor
  · rintro ⟨-, -, ⟨-, heq⟩ | ⟨j, -, ⟨id, hid, -⟩, -⟩⟩
    · obtain ⟨hkey, hnone, hidentity⟩ := hopConnection_paneHost_eq.mp heq
      refine ⟨hjump.mp hnone, hidentity, ?_⟩
      have hkey' := hkey.trans keyOf_pane
      by_cases hsupports : hostSupportsTrustedKeys host.protocol = true
      · exact .inl hsupports
      · rw [if_neg hsupports] at hkey'
        exact .inr (Option.map_eq_none_iff.mp hkey')
    · simp [jumpLink_paneHost] at hid
  · intro hagree
    have hkey : keyOf knownHosts host.toBackendConnectionHost =
        keyOf (paneKnownHosts knownHosts host.toBackendConnectionHost)
          (paneHost host.toBackendConnectionHost) := by
      rw [keyOf_pane]
      rcases hagree.key with hsupports | hnone
      · rw [if_pos hsupports]
      · have hnokey : keyOf knownHosts host.toBackendConnectionHost = none := by
          simp [keyOf, hnone]
        simp [hnokey]
    have hneeds : needsTrustedKey (paneHost host.toBackendConnectionHost) =
        needsTrustedKey host.toBackendConnectionHost := rfl
    refine ⟨List.not_mem_nil, by rwa [hneeds, ← hkey], .inl ⟨jumpLink_paneHost _, ?_⟩⟩
    exact hopConnection_paneHost_eq.mpr ⟨hkey, hjump.mpr hagree.no_jump, hagree.identity⟩

/-- All three paths build the same connection exactly for the hosts whose jump link,
identity and known key the pane may leave out. -/
theorem connectPaths_iff
    (h : buildBackendConnection s host.toBackendConnectionHost knownHosts = .ok c) :
    (paneConnection s host knownHosts = .ok c ∧ restoreConnection s host knownHosts = .ok c) ↔
      PathsAgree s host.toBackendConnectionHost knownHosts := by
  rw [paneConnection_iff h, restoreConnection_iff h, and_iff_left_iff_imp]
  intro hagree hop hhop
  cases hhop with
  | here => exact .inl ⟨rfl, rfl⟩
  | jump hjump =>
    obtain ⟨id, hid, -⟩ := hjump
    simp [hagree.no_jump] at hid

/-- A host without identity, jump host or environment. -/
def plainHost (id : String) : HostRecord where
  agentForwarding := false
  authMethod := .password
  environment := OrderedMap.empty
  hostKeyPolicy := .allowUnknown
  id := js id
  hostname := js id
  identityId := .absent
  label := js id
  port := 22
  privateKeyPath := []
  jumpHostId := .absent
  sftpRoot := js "/home"
  protocol := .ssh
  username := js "u"
  group := []
  tags := []
  note := []
  favorite := false
  keyLabel := []
  snippetCount := 0
  forwardingCount := 0
  createdAt := []
  updatedAt := []
  lastConnectedAt := .absent

def plainStores (hosts : List HostRecord) : Stores := ⟨hosts, [], fun _ => none⟩

theorem build_plainHost :
    buildBackendConnection (plainStores [plainHost "h"]) (plainHost "h").toBackendConnectionHost [] =
      .ok (hopConnection (plainStores [plainHost "h"]) none (plainHost "h").toBackendConnectionHost
        none) :=
  build_eq_ok.mpr ⟨List.not_mem_nil, by decide, .inl ⟨by decide, rfl⟩⟩

theorem connectPaths_plainHost :
    let s := plainStores [plainHost "h"]
    let c := hopConnection s none (plainHost "h").toBackendConnectionHost none
    paneConnection s (plainHost "h") [] = .ok c ∧ restoreConnection s (plainHost "h") [] = .ok c :=
  (connectPaths_iff build_plainHost).mpr ⟨by decide, fun identity h => by simp [resolveIdentityForHost,
    plainStores] at h, .inl (by decide)⟩

/-- Behind a bastion, the pane asks for a direct connection. -/
theorem not_every_path_agrees :
    ¬ ∀ (s : Stores) (host : HostRecord) (knownHosts : List KnownHostRecord)
      (c : BackendHostConnection), host ∈ s.hosts →
      buildBackendConnection s host.toBackendConnectionHost knownHosts = .ok c →
      paneConnection s host knownHosts = .ok c ∧ restoreConnection s host knownHosts = .ok c := by
  intro h
  let bastion := plainHost "b"
  let target : HostRecord := { plainHost "h" with jumpHostId := .value (js "b") }
  let s := plainStores [target, bastion]
  have hjump : JumpsTo s target.toBackendConnectionHost bastion :=
    ⟨js "b", by decide, by decide⟩
  have hinner : buildBackendConnectionRecursive s [] bastion.toBackendConnectionHost [target.id] =
      .ok _ := build_eq_ok.mpr ⟨by decide, by decide, .inl ⟨by decide, rfl⟩⟩
  have hbuild : buildBackendConnection s target.toBackendConnectionHost [] = .ok _ :=
    build_eq_ok.mpr ⟨List.not_mem_nil, by decide, .inr ⟨bastion, _, hjump, hinner, rfl⟩⟩
  have hagree := (paneConnection_iff hbuild).mp (h s target [] _ (by simp [s, plainStores]) hbuild).1
  exact absurd hagree.no_jump (by decide)

end Paths

end Connections
