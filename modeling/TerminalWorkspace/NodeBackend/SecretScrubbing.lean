import TerminalWorkspace.NodeBackend.ConnectSecrets

/-! When every secret buffer is scrubbed. The configuration of a hop is created before its jump
hosts are connected, and it is scrubbed only after that has succeeded. -/
namespace NodeConnect
open JsText Inventory Traced

section Conditions
variable (w : Answers)

def TrustsKey (host : HopHost) : Prop :=
  host.hostKeyPolicy = .requireTrusted → trustedPublicKey host ≠ none

/-- The key file is read, and the passphrase that goes with it is no string. -/
def StopsHalfway (hop : ℕ) (host : HopHost) : Prop :=
  TrustsKey host ∧ host.authMethod = .privateKey ∧ (w.readFile hop).isSome ∧
    host.passphrase.truthy ∧ host.passphrase.isText = false

/-- Everything the configuration of a hop is made from is there. -/
def Configured (hop : ℕ) (host : HopHost) : Prop :=
  TrustsKey host ∧
    match host.authMethod with
    | .none => True
    | .password => host.password.orEmpty.isText
    | .privateKey =>
      (w.readFile hop).isSome ∧ (host.passphrase.truthy → host.passphrase.isText)

def HoldsSecrets (host : HopHost) : Prop := host.authMethod ≠ .none

/-- The hop and all hops behind it are configured, forwarded to and ready. -/
def Reachable (hop : ℕ) : ConnectHost → Prop
  | .direct host => Configured w hop host ∧ w.handshake hop = .ready
  | .via host jumpHost =>
    Configured w hop host ∧ Reachable (hop + 1) jumpHost ∧ w.forwardOut hop ∧
      w.handshake hop = .ready

/-- No hop fails behind one that holds secrets already, and none stops between two secrets. -/
def NoSecretsWaiting (hop : ℕ) : ConnectHost → Prop
  | .direct host => ¬ StopsHalfway w hop host
  | .via host jumpHost =>
    ¬ StopsHalfway w hop host ∧
      (Configured w hop host →
        (HoldsSecrets host → Reachable w (hop + 1) jumpHost ∧ w.forwardOut hop) ∧
          NoSecretsWaiting (hop + 1) jumpHost)

end Conditions

/-! ## Traces of several hops -/

/-- The hop whose secrets the event is about. -/
def Event.hop : Event → Option ℕ
  | created buffer | scrubbed buffer => some buffer.hop
  | connect hop _ => some hop
  | ended _ => none

def atHop (hop : ℕ) (event : Event) : Bool := event.hop = some hop

theorem scrubbedOnce_atHop {trace : List Event} {buffer : SecretBuffer} :
    ScrubbedOnce (trace.filter (atHop buffer.hop)) buffer ↔ ScrubbedOnce trace buffer := by
  have hcount : (trace.filter (atHop buffer.hop)).count (.scrubbed buffer) =
      trace.count (.scrubbed buffer) :=
    List.count_filter (by simp [atHop, Event.hop])
  rw [ScrubbedOnce, ScrubbedOnce, hcount, List.pairwise_filter]
  refine and_congr_right fun _ => ⟨List.Pairwise.imp ?_, List.Pairwise.imp ?_⟩
  · intro earlier later h hscrubbed config hconnect
    exact h (by simp [hscrubbed, atHop, Event.hop]) (by simp [hconnect, atHop, Event.hop])
      hscrubbed config hconnect
  · exact fun {earlier later} h _ _ => h

theorem everySecretScrubbed_iff_atHop (trace : List Event) :
    EverySecretScrubbed trace ↔ ∀ hop, EverySecretScrubbed (trace.filter (atHop hop)) := by
  constructor
  · intro h hop buffer hcreated
    obtain ⟨hmem, hat⟩ := List.mem_filter.mp hcreated
    obtain rfl : buffer.hop = hop := by simpa [atHop, Event.hop] using hat
    exact scrubbedOnce_atHop.mpr (h buffer hmem)
  · intro h buffer hcreated
    refine scrubbedOnce_atHop.mp (h buffer.hop buffer ?_)
    exact List.mem_filter.mpr ⟨hcreated, by simp [atHop, Event.hop]⟩

/-- The hops behind one hop do their part between its configuration and its `connect`. -/
theorem everySecretScrubbed_frame {hop : ℕ} {first inner : List Event} (last : List Event)
    (hfirst : ∀ event ∈ first, event.hop = some hop)
    (hinner : ∀ event ∈ inner, event.hop ≠ some hop)
    (hlast : ∀ event ∈ last, ∀ k, event.hop = some k → k = hop) :
    EverySecretScrubbed (first ++ inner ++ last) ↔
      EverySecretScrubbed (first ++ last) ∧ EverySecretScrubbed inner := by
  have hown : inner.filter (atHop hop) = [] :=
    List.filter_eq_nil_iff.mpr fun event hevent => by simpa [atHop] using hinner event hevent
  have hother : ∀ k, k ≠ hop → (first ++ last).filter (atHop k) = [] := by
    intro k hk
    refine List.filter_eq_nil_iff.mpr fun event hevent => ?_
    rcases List.mem_append.mp hevent with h | h
    · simpa [atHop, hfirst event h] using Ne.symm hk
    · simpa [atHop] using fun hat => hk (hlast event h k hat)
  have hwhole : ∀ k, (first ++ inner ++ last).filter (atHop k) =
      if k = hop then (first ++ last).filter (atHop k) else inner.filter (atHop k) := by
    intro k
    split_ifs with hk
    · rw [List.filter_append, List.filter_append, List.filter_append, hk, hown, List.append_nil]
    · have hnil := hother k hk
      rw [List.filter_append, List.append_eq_nil_iff] at hnil
      rw [List.filter_append, List.filter_append, hnil.1, hnil.2, List.nil_append, List.append_nil]
  have hnone : EverySecretScrubbed [] := fun _ h => absurd h List.not_mem_nil
  rw [everySecretScrubbed_iff_atHop, everySecretScrubbed_iff_atHop (first ++ last),
    everySecretScrubbed_iff_atHop inner]
  constructor
  · intro h
    refine ⟨fun k => ?_, fun k => ?_⟩
    · by_cases hk : k = hop
      · simpa only [hwhole, if_pos hk] using h k
      · rw [hother k hk]
        exact hnone
    · by_cases hk : k = hop
      · rw [hk, hown]
        exact hnone
      · simpa only [hwhole, if_neg hk] using h k
  · rintro ⟨houter, hinside⟩ k
    rw [hwhole]
    split_ifs
    exacts [houter k, hinside k]

/-! ## One hop -/

theorem not_everySecretScrubbed_created {buffers : List SecretBuffer} (hne : buffers ≠ []) :
    ¬ EverySecretScrubbed (buffers.map .created) := by
  intro h
  obtain ⟨buffer, hbuffer⟩ := List.exists_mem_of_ne_nil buffers hne
  have hcount := (h buffer (List.mem_map_of_mem hbuffer)).1
  rw [List.count_eq_zero.mpr] at hcount
  · exact absurd hcount (by decide)
  · simp

/-- The buffers are wiped after the only `connect` of their hop. -/
theorem everySecretScrubbed_of_scrubBundle {buffers : List SecretBuffer} (hnodup : buffers.Nodup)
    (hop : ℕ) (config : ConnectConfig) (clients : List ℕ) :
    EverySecretScrubbed
      (buffers.map .created ++
        (.connect hop config :: clients.map .ended ++ scrubBundle buffers)) := by
  intro buffer hcreated
  have hmem : buffer ∈ buffers := by simpa [scrubBundle] using hcreated
  rw [← List.append_assoc]
  constructor
  · have hbefore : Event.scrubbed buffer ∉
        buffers.map Event.created ++ Event.connect hop config :: clients.map Event.ended := by simp
    have hscrubs : (scrubBundle buffers).Nodup :=
      (List.nodup_reverse.mpr hnodup).map fun _ _ h => Event.scrubbed.inj h
    rw [List.count_append, List.count_eq_zero.mpr hbefore,
      List.count_eq_one_of_mem hscrubs (List.mem_map_of_mem (List.mem_reverse.mpr hmem))]
  · rw [List.pairwise_append]
    refine ⟨List.pairwise_of_forall_mem_list ?_, List.pairwise_of_forall_mem_list ?_, ?_⟩
    · rintro earlier hearlier later - rfl
      simp at hearlier
    · rintro earlier - later hlater - config
      obtain ⟨other, -, rfl⟩ := List.mem_map.mp hlater
      exact nofun
    · rintro earlier hearlier later - rfl
      simp at hearlier

section Configs
variable {w : Answers} {hop : ℕ} {host : HopHost}

theorem fromString_of_isText (buffer : SecretBuffer) {value : SecretText} (h : value.isText) :
    ∃ s, fromString buffer value = ⟨[.created buffer], .ok s⟩ := by
  cases value with
  | text s => exact ⟨s, rfl⟩
  | missing => exact absurd h nofun
  | other truthy => exact absurd h nofun

theorem fromString_of_not_isText {buffer : SecretBuffer} {value : SecretText}
    (hpresent : value ≠ .missing) (h : value.isText = false) :
    fromString buffer value = ⟨[], .error (.secretNotText buffer)⟩ := by
  cases value with
  | missing => exact absurd rfl hpresent
  | text s => exact absurd h nofun
  | other truthy => rfl

/-- What `createConnectConfig` leaves behind. -/
inductive ConfigResult (w : Answers) (hop : ℕ) (host : HopHost) : Connecting ConfigBundle → Prop
  | refused (e : ConnectError) (hnot : ¬ Configured w hop host)
    (hstop : ¬ StopsHalfway w hop host) :
    ConfigResult w hop host ⟨[], .error e⟩
  | halfway (e : ConnectError) (hnot : ¬ Configured w hop host) (hstop : StopsHalfway w hop host) :
    ConfigResult w hop host ⟨[.created ⟨hop, .privateKey⟩], .error e⟩
  | created (bundle : ConfigBundle) (hconfigured : Configured w hop host)
    (hstop : ¬ StopsHalfway w hop host) (hnodup : bundle.cleanups.Nodup)
    (hhop : ∀ buffer ∈ bundle.cleanups, buffer.hop = hop)
    (hsecrets : bundle.cleanups ≠ [] ↔ HoldsSecrets host) :
    ConfigResult w hop host ⟨bundle.cleanups.map .created, .ok bundle⟩

theorem createConnectConfig_result (w : Answers) (hop : ℕ) (host : HopHost) :
    ConfigResult w hop host (createConnectConfig w hop host) := by
  rw [createConnectConfig]
  by_cases hkey : host.hostKeyPolicy = .requireTrusted ∧ trustedPublicKey host = none
  · rw [if_pos hkey]
    have htrust : ¬ TrustsKey host := fun h => h hkey.1 hkey.2
    exact .refused _ (fun h => htrust h.1) fun h => htrust h.1
  rw [if_neg hkey]
  have htrust : TrustsKey host := fun hpolicy hnone => hkey ⟨hpolicy, hnone⟩
  cases hmethod : host.authMethod with
  | none =>
    refine .created ⟨withoutSecrets w host, []⟩ ⟨htrust, by simp [hmethod]⟩ ?_ List.nodup_nil ?_ ?_
    · simp [StopsHalfway, hmethod]
    · simp
    · simp [HoldsSecrets, hmethod]
  | password =>
    have hstop : ¬ StopsHalfway w hop host := by simp [StopsHalfway, hmethod]
    cases htext : host.password.orEmpty.isText with
    | true =>
      obtain ⟨s, hs⟩ := fromString_of_isText ⟨hop, .password⟩ htext
      simp only [hs]
      refine .created ⟨_, [⟨hop, .password⟩]⟩ ⟨htrust, by simp [hmethod, htext]⟩ hstop
        (List.nodup_singleton _) ?_ ?_
      · simp
      · simp [HoldsSecrets, hmethod]
    | false =>
      rw [fromString_of_not_isText _ htext]
      · exact .refused _ (fun h => by simpa [hmethod, htext] using h.2) hstop
      · cases host.password <;> exact nofun
  | privateKey =>
    cases hfile : w.readFile hop with
    | none =>
      rw [readKeyFile, hfile]
      refine .refused _ (fun h => ?_) fun h => ?_
      · simpa [hmethod, hfile] using h.2
      · simpa [hfile] using h.2.2.1
    | some bytes =>
      have hread : readKeyFile w hop host.privateKeyPath =
          ⟨[.created ⟨hop, .privateKey⟩], .ok bytes⟩ := by
        rw [readKeyFile, hfile]
        rfl
      simp only [hread]
      cases htruthy : host.passphrase.truthy with
      | false =>
        refine .created ⟨_, [⟨hop, .privateKey⟩]⟩ ⟨htrust, by simp [hmethod, hfile, htruthy]⟩
          ?_ (List.nodup_singleton _) ?_ ?_
        · simp [StopsHalfway, htruthy]
        · simp
        · simp [HoldsSecrets, hmethod]
      | true =>
        cases htext : host.passphrase.isText with
        | true =>
          obtain ⟨s, hs⟩ := fromString_of_isText ⟨hop, .passphrase⟩ htext
          simp only [hs]
          refine .created ⟨_, [⟨hop, .privateKey⟩, ⟨hop, .passphrase⟩]⟩
            ⟨htrust, by simp [hmethod, hfile, htext]⟩ ?_ (by simp) ?_ ?_
          · simp [StopsHalfway, htext]
          · simp
          · simp [HoldsSecrets, hmethod]
        | false =>
          rw [fromString_of_not_isText _ htext]
          · refine .halfway _ (fun h => ?_) ⟨htrust, hmethod, by simp [hfile], htruthy, htext⟩
            simpa [hmethod, htruthy, htext] using h.2
          · rintro hmissing
            simp [hmissing, SecretText.truthy] at htruthy

theorem configured_iff_createConnectConfig :
    Configured w hop host ↔ (createConnectConfig w hop host).Succeeds := by
  generalize hresult : createConnectConfig w hop host = x
  have h := hresult ▸ createConnectConfig_result w hop host
  cases h with
  | refused e hnot hstop => exact iff_of_false hnot (by simp [Attempt.Succeeds])
  | halfway e hnot hstop => exact iff_of_false hnot (by simp [Attempt.Succeeds])
  | created bundle hconfigured => exact iff_of_true hconfigured ⟨bundle, rfl⟩

end Configs

section SetUps
variable {w : Answers} {hop : ℕ} {host : HopHost}

/-- What is written while the jump socket of a hop is opened. -/
def jumpTrace : Option (Connecting JumpConnection) → List Event
  | none => []
  | some jumpSocket => jumpSocket.trace

def JumpOpens : Option (Connecting JumpConnection) → Prop
  | none => True
  | some jumpSocket => jumpSocket.Succeeds

theorem setUp_of_error {jumpSocket : Option (Connecting JumpConnection)} {trace : List Event}
    {e : ConnectError} (h : createConnectConfig w hop host = ⟨trace, .error e⟩) :
    setUp w hop host jumpSocket = ⟨trace, .error e⟩ := by
  rw [setUp, h]
  rfl

theorem setUp_of_ok (jumpSocket : Option (Connecting JumpConnection)) {trace : List Event}
    {bundle : ConfigBundle} (h : createConnectConfig w hop host = ⟨trace, .ok bundle⟩) :
    (∃ s, JumpOpens jumpSocket ∧ s.cleanups = bundle.cleanups ∧
        setUp w hop host jumpSocket = ⟨trace ++ jumpTrace jumpSocket, .ok s⟩) ∨
      ∃ e, ¬ JumpOpens jumpSocket ∧
        setUp w hop host jumpSocket = ⟨trace ++ jumpTrace jumpSocket, .error e⟩ := by
  rw [setUp, h, Attempt.bind_of_ok rfl]
  cases jumpSocket with
  | none => exact .inl ⟨_, trivial, rfl, rfl⟩
  | some jumpSocket =>
    cases hopens : jumpSocket.outcome with
    | ok jump =>
      refine .inl ⟨⟨{ bundle.config with sock := some jump.socket }, some jump, bundle.cleanups⟩,
        ⟨jump, hopens⟩, rfl, ?_⟩
      simp only [Attempt.bind_of_ok hopens, jumpTrace, Attempt.pure_trace, Attempt.pure_outcome,
        List.append_nil]
    | error e =>
      refine .inr ⟨e, by simp [JumpOpens, Attempt.Succeeds, hopens], ?_⟩
      simp only [Attempt.bind_of_error hopens, jumpTrace]

/-- A hop that calls `connect` once it is set up, and scrubs its secrets after that. -/
theorem everySecretScrubbed_setUp {β : Type} {jumpSocket : Option (Connecting JumpConnection)}
    {body : SetUp → Connecting β}
    (hbody : ∀ s, ∃ clients : List ℕ,
      (body s).trace = .connect hop s.config :: clients.map .ended ++ scrubBundle s.cleanups)
    (hjump : ∀ event ∈ jumpTrace jumpSocket, event.hop ≠ some hop) :
    EverySecretScrubbed (setUp w hop host jumpSocket >>= body).trace ↔
      ¬ StopsHalfway w hop host ∧
        (Configured w hop host → (HoldsSecrets host → JumpOpens jumpSocket) ∧
          EverySecretScrubbed (jumpTrace jumpSocket)) := by
  generalize hresult : createConnectConfig w hop host = x
  have h := hresult ▸ createConnectConfig_result w hop host
  cases h with
  | refused e hnot hstop =>
    rw [setUp_of_error hresult, Attempt.bind_of_error rfl]
    exact iff_of_true (fun _ h => absurd h List.not_mem_nil) ⟨hstop, fun h => absurd h hnot⟩
  | halfway e hnot hstop =>
    rw [setUp_of_error hresult, Attempt.bind_of_error rfl]
    refine iff_of_false ?_ fun h => h.1 hstop
    exact not_everySecretScrubbed_created (List.cons_ne_nil ⟨hop, .privateKey⟩ [])
  | created bundle hconfigured hstop hnodup hhop hsecrets =>
    have hfirst : ∀ event ∈ bundle.cleanups.map Event.created, event.hop = some hop := by
      intro event hevent
      obtain ⟨buffer, hbuffer, rfl⟩ := List.mem_map.mp hevent
      exact congrArg some (hhop buffer hbuffer)
    rcases setUp_of_ok jumpSocket hresult with
      ⟨s, hopens, hcleanups, hsetUp⟩ | ⟨e, hopens, hsetUp⟩
    · obtain ⟨clients, htrace⟩ := hbody s
      have hlast : ∀ event ∈ (body s).trace, ∀ k, event.hop = some k → k = hop := by
        intro event hevent k hk
        rw [htrace, scrubBundle, hcleanups] at hevent
        simp only [List.mem_append, List.mem_cons, List.mem_map, List.mem_reverse] at hevent
        rcases hevent with (rfl | ⟨client, -, rfl⟩) | ⟨buffer, hbuffer, rfl⟩
        · exact (Option.some.inj hk).symm
        · exact absurd hk nofun
        · rw [← hhop buffer hbuffer]
          exact (Option.some.inj hk).symm
      rw [hsetUp, Attempt.bind_of_ok rfl, everySecretScrubbed_frame _ hfirst hjump hlast, htrace,
        hcleanups]
      have hown := everySecretScrubbed_of_scrubBundle hnodup hop s.config clients
      exact ⟨fun h => ⟨hstop, fun _ => ⟨fun _ => hopens, h.2⟩⟩,
        fun h => ⟨hown, (h.2 hconfigured).2⟩⟩
    · rw [hsetUp, Attempt.bind_of_error rfl]
      have hframe := everySecretScrubbed_frame [] hfirst hjump nofun
      rw [List.append_nil, List.append_nil] at hframe
      rw [hframe]
      constructor
      · rintro ⟨hown, hinner⟩
        refine ⟨hstop, fun _ => ⟨fun hholds => ?_, hinner⟩⟩
        exact absurd hown (not_everySecretScrubbed_created (hsecrets.mpr hholds))
      · rintro ⟨-, h⟩
        obtain ⟨hwaits, hinner⟩ := h hconfigured
        have hnone : bundle.cleanups = [] :=
          not_not.mp fun hne => hopens (hwaits (hsecrets.mp hne))
        rw [hnone]
        exact ⟨fun _ h => absurd h List.not_mem_nil, hinner⟩

theorem succeeds_setUp {jumpSocket : Option (Connecting JumpConnection)} :
    (setUp w hop host jumpSocket).Succeeds ↔ Configured w hop host ∧ JumpOpens jumpSocket := by
  rw [configured_iff_createConnectConfig]
  cases hconfig : createConnectConfig w hop host with
  | mk trace outcome =>
    cases outcome with
    | error e =>
      rw [setUp_of_error hconfig]
      simp [Attempt.Succeeds]
    | ok bundle =>
      rcases setUp_of_ok jumpSocket hconfig with
        ⟨s, hopens, -, hsetUp⟩ | ⟨e, hopens, hsetUp⟩
      · rw [hsetUp]
        exact iff_of_true ⟨s, rfl⟩ ⟨⟨bundle, rfl⟩, hopens⟩
      · rw [hsetUp]
        exact iff_of_false (by simp [Attempt.Succeeds]) fun h => hopens h.2

theorem waitForSshReady_trace (w : Answers) (hop : ℕ) (config : ConnectConfig)
    (jumpClient : Option ℕ) :
    ∃ clients : List ℕ,
      (waitForSshReady w hop config jumpClient).trace =
        .connect hop config :: clients.map .ended := by
  cases hanswer : w.handshake hop with
  | ready => exact ⟨[], by simp [waitForSshReady, hanswer, Attempt.emit, Attempt.bind_of_ok]⟩
  | throws | error =>
    refine ⟨jumpClient.toList, ?_⟩
    simp [waitForSshReady, hanswer, Attempt.emit, Attempt.bind_of_ok,
      Attempt.onError_trace_of_error]

theorem succeeds_waitForSshReady (config : ConnectConfig) (jumpClient : Option ℕ) :
    (waitForSshReady w hop config jumpClient).Succeeds ↔ w.handshake hop = .ready := by
  cases hanswer : w.handshake hop <;>
    simp [waitForSshReady, hanswer, Attempt.Succeeds, Attempt.emit, Attempt.bind_of_ok]

theorem succeeds_connectHop {jumpSocket : Option (Connecting JumpConnection)} :
    (connectHop w hop host jumpSocket).Succeeds ↔
      Configured w hop host ∧ JumpOpens jumpSocket ∧ w.handshake hop = .ready := by
  rw [connectHop, Attempt.succeeds_bind, ← and_assoc, ← succeeds_setUp]
  simp only [Attempt.succeeds_finallyDo, Attempt.succeeds_mapError, succeeds_waitForSshReady]
  exact exists_and_right

theorem succeeds_openJumpSocket {connectJumpHost : Connecting ℕ} :
    (openJumpSocket w hop connectJumpHost).Succeeds ↔
      connectJumpHost.Succeeds ∧ w.forwardOut hop := by
  have hforward : (forwardOut w hop).Succeeds ↔ w.forwardOut hop := by
    rw [forwardOut]
    split_ifs with h <;> simp [Attempt.Succeeds, h]
  rw [openJumpSocket, Attempt.succeeds_bind]
  have hrest : ∀ jumpClient : ℕ,
      ((forwardOut w hop).onError [.ended jumpClient] >>= fun socket =>
        pure (f := Connecting) (⟨jumpClient, socket⟩ : JumpConnection)).Succeeds ↔
      w.forwardOut hop := by
    intro jumpClient
    rw [Attempt.succeeds_bind, Attempt.onError_outcome, ← hforward]
    exact exists_congr fun socket => and_iff_left ⟨_, rfl⟩
  simp only [hrest]
  exact exists_and_right

theorem setUp_cleanups {jumpSocket : Option (Connecting JumpConnection)} {s : SetUp}
    (h : (setUp w hop host jumpSocket).outcome = .ok s) :
    ∀ buffer ∈ s.cleanups, buffer.hop = hop := by
  generalize hresult : createConnectConfig w hop host = x
  have hconfig := hresult ▸ createConnectConfig_result w hop host
  cases hconfig with
  | refused | halfway =>
    rw [setUp_of_error hresult] at h
    cases h
  | created bundle _ _ _ hhop =>
    rcases setUp_of_ok jumpSocket hresult with
      ⟨t, -, hcleanups, hsetUp⟩ | ⟨e, -, hsetUp⟩
    · rw [hsetUp] at h
      obtain rfl := Except.ok.inj h
      exact hcleanups ▸ hhop
    · rw [hsetUp] at h
      cases h

/-- The event is about no hop before this one. -/
def FromHop (hop : ℕ) (event : Event) : Prop := ∀ k, event.hop = some k → hop ≤ k

theorem FromHop.of_hop {event : Event} (h : event.hop = some hop) : FromHop hop event := by
  intro k hk
  exact (Option.some.inj (h.symm.trans hk)).le

theorem FromHop.ended (client : ℕ) : FromHop hop (.ended client) := nofun

theorem createConnectConfig_writes :
    (createConnectConfig w hop host).Writes (FromHop hop) := by
  have hconfig := createConnectConfig_result w hop host
  revert hconfig
  generalize createConnectConfig w hop host = x
  intro hconfig event hevent
  cases hconfig with
  | refused => exact absurd hevent List.not_mem_nil
  | halfway =>
    obtain rfl := List.mem_singleton.mp hevent
    exact .of_hop rfl
  | created bundle _ _ _ hhop =>
    obtain ⟨buffer, hbuffer, rfl⟩ := List.mem_map.mp hevent
    exact .of_hop (congrArg some (hhop buffer hbuffer))

/-- A hop and its jump socket touch hops from this one on. -/
theorem connectHop_writes {jumpSocket : Option (Connecting JumpConnection)}
    (hjump : ∀ event ∈ jumpTrace jumpSocket, FromHop hop event) :
    (connectHop w hop host jumpSocket).Writes (FromHop hop) := by
  have hsetUp : (setUp w hop host jumpSocket).Writes (FromHop hop) := by
    refine createConnectConfig_writes.bind fun bundle _ => ?_
    cases jumpSocket with
    | none => exact .of_trace_eq_nil rfl
    | some jumpSocket => exact Attempt.Writes.bind hjump fun jump _ => .of_trace_eq_nil rfl
  refine hsetUp.bind fun s hs => Attempt.Writes.finallyDo ?_ ?_
  · intro event hevent
    obtain ⟨clients, htrace⟩ := waitForSshReady_trace w hop s.config
      (s.jump.map (·.jumpClient))
    rw [Attempt.mapError_trace, htrace] at hevent
    rcases List.mem_cons.mp hevent with rfl | hended
    · exact .of_hop rfl
    · obtain ⟨client, -, rfl⟩ := List.mem_map.mp hended
      exact .ended client
  · intro event hevent
    obtain ⟨buffer, hbuffer, rfl⟩ := List.mem_map.mp hevent
    exact .of_hop (congrArg some (setUp_cleanups hs buffer (List.mem_reverse.mp hbuffer)))

theorem openJumpSocket_trace (w : Answers) (hop : ℕ) (connectJumpHost : Connecting ℕ) :
    ∃ clients : List ℕ, (openJumpSocket w hop connectJumpHost).trace =
      connectJumpHost.trace ++ clients.map .ended := by
  cases hjump : connectJumpHost.outcome with
  | error e => exact ⟨[], by rw [openJumpSocket, Attempt.bind_of_error hjump]; simp⟩
  | ok jumpClient =>
    rw [openJumpSocket, Attempt.bind_of_ok hjump]
    cases hforward : w.forwardOut hop with
    | true =>
      refine ⟨[], ?_⟩
      simp [forwardOut, hforward, Attempt.onError, Attempt.bind_of_ok]
    | false =>
      refine ⟨[jumpClient], ?_⟩
      simp [forwardOut, hforward, Attempt.onError, Attempt.bind_of_error]

theorem openJumpSocket_writes {connectJumpHost : Connecting ℕ}
    (h : connectJumpHost.Writes (FromHop (hop + 1))) :
    (openJumpSocket w hop connectJumpHost).Writes (FromHop (hop + 1)) := by
  obtain ⟨clients, htrace⟩ := openJumpSocket_trace w hop connectJumpHost
  rw [Attempt.Writes, htrace, List.forall_mem_append]
  refine ⟨h, fun event hevent => ?_⟩
  obtain ⟨client, -, rfl⟩ := List.mem_map.mp hevent
  exact .ended client

theorem everySecretScrubbed_openJumpSocket {connectJumpHost : Connecting ℕ} :
    EverySecretScrubbed (openJumpSocket w hop connectJumpHost).trace ↔
      EverySecretScrubbed connectJumpHost.trace := by
  obtain ⟨clients, htrace⟩ := openJumpSocket_trace w hop connectJumpHost
  have hended : ∀ k, (clients.map Event.ended).filter (atHop k) = [] := by
    intro k
    simp [atHop, Event.hop]
  rw [htrace, everySecretScrubbed_iff_atHop,
    everySecretScrubbed_iff_atHop connectJumpHost.trace]
  simp only [List.filter_append, hended, List.append_nil]

end SetUps

section Chains
variable {w : Answers}

theorem connectClient_succeeds {hop : ℕ} {host : ConnectHost} :
    (connectClient w hop host).Succeeds ↔ Reachable w hop host := by
  induction host generalizing hop with
  | direct host =>
    rw [connectClient, succeeds_connectHop, Reachable]
    simp [JumpOpens]
  | via host jumpHost ih =>
    rw [connectClient, succeeds_connectHop, Reachable]
    simp [JumpOpens, succeeds_openJumpSocket, ih, and_assoc]

/-- Only this hop and the hops behind it are touched. -/
theorem connectClient_writes {hop : ℕ} {host : ConnectHost} :
    (connectClient w hop host).Writes (FromHop hop) := by
  induction host generalizing hop with
  | direct host => exact connectHop_writes nofun
  | via host jumpHost ih =>
    refine connectHop_writes fun event hevent k hk => ?_
    exact (Nat.le_succ hop).trans (openJumpSocket_writes ih event hevent k hk)

theorem everySecretScrubbed_connectHop {hop : ℕ} {host : HopHost}
    {jumpSocket : Option (Connecting JumpConnection)}
    (hjump : ∀ event ∈ jumpTrace jumpSocket, event.hop ≠ some hop) :
    EverySecretScrubbed (connectHop w hop host jumpSocket).trace ↔
      ¬ StopsHalfway w hop host ∧
        (Configured w hop host → (HoldsSecrets host → JumpOpens jumpSocket) ∧
          EverySecretScrubbed (jumpTrace jumpSocket)) := by
  refine everySecretScrubbed_setUp (fun s => ?_) hjump
  obtain ⟨clients, htrace⟩ := waitForSshReady_trace w hop s.config
    (s.jump.map (·.jumpClient))
  exact ⟨clients, by rw [Attempt.finallyDo_trace, Attempt.mapError_trace, htrace]⟩

theorem openJumpSocket_behind {hop : ℕ} {jumpHost : ConnectHost} :
    ∀ event ∈ jumpTrace (some (openJumpSocket w hop (connectClient w (hop + 1) jumpHost))),
      event.hop ≠ some hop := by
  intro event hevent hhop
  have hle := openJumpSocket_writes connectClient_writes event hevent hop hhop
  omega

theorem jumpTrace_none {hop : ℕ} : ∀ event ∈ jumpTrace none, event.hop ≠ some hop :=
  fun _ h => absurd h List.not_mem_nil

theorem everySecretScrubbed_connectClient {hop : ℕ} {host : ConnectHost} :
    EverySecretScrubbed (connectClient w hop host).trace ↔ NoSecretsWaiting w hop host := by
  induction host generalizing hop with
  | direct host =>
    rw [connectClient, everySecretScrubbed_connectHop jumpTrace_none, NoSecretsWaiting]
    refine and_iff_left fun _ => ⟨fun _ => trivial, fun _ h => absurd h List.not_mem_nil⟩
  | via host jumpHost ih =>
    rw [connectClient, everySecretScrubbed_connectHop openJumpSocket_behind, NoSecretsWaiting]
    simp only [JumpOpens, jumpTrace, succeeds_openJumpSocket, connectClient_succeeds,
      everySecretScrubbed_openJumpSocket, ih]

theorem everySecretScrubbed_createSshSession {host : ConnectHost} :
    EverySecretScrubbed (createSshSession w host).trace ↔ NoSecretsWaiting w 0 host := by
  have hbody : ∀ s : SetUp, ∃ clients : List ℕ,
      ((connectSession w 0 s.config).finallyDo (scrubBundle s.cleanups) >>= fun _ =>
        pure (f := Connecting) s.jump).trace =
      .connect 0 s.config :: clients.map .ended ++ scrubBundle s.cleanups := by
    intro s
    refine ⟨[], ?_⟩
    by_cases hthrows : w.handshake 0 = .throws
    · rw [Attempt.bind_of_error (e := .ssh 0)]
      · simp [connectSession, hthrows, Attempt.emit, Attempt.bind_of_ok]
      · simp [connectSession, hthrows, Attempt.emit, Attempt.bind_of_ok]
    · rw [Attempt.bind_of_ok (a := ())]
      · simp [connectSession, hthrows, Attempt.emit, Attempt.bind_of_ok]
      · simp [connectSession, hthrows, Attempt.emit, Attempt.bind_of_ok]
  cases host with
  | direct host =>
    rw [createSshSession, sessionJumpSocket, everySecretScrubbed_setUp hbody jumpTrace_none,
      NoSecretsWaiting]
    refine and_iff_left fun _ => ⟨fun _ => trivial, fun _ h => absurd h List.not_mem_nil⟩
  | via host jumpHost =>
    rw [createSshSession, sessionJumpSocket, everySecretScrubbed_setUp hbody openJumpSocket_behind,
      NoSecretsWaiting]
    simp only [JumpOpens, jumpTrace, succeeds_openJumpSocket,
      connectClient_succeeds, everySecretScrubbed_openJumpSocket, everySecretScrubbed_connectClient]
    rfl

/-- The secrets of every hop are scrubbed, however the connection ends, if and only if no hop
fails behind one that holds secrets already. -/
theorem secrets_scrubbed_iff_noSecretsWaiting (w : Answers) (host : ConnectHost) :
    (EverySecretScrubbed (connectClient w 0 host).trace ↔ NoSecretsWaiting w 0 host) ∧
      (EverySecretScrubbed (createSshSession w host).trace ↔ NoSecretsWaiting w 0 host) :=
  ⟨everySecretScrubbed_connectClient, everySecretScrubbed_createSshSession⟩

def passwordHop (hostname : JsString) : HopHost where
  hostname := hostname
  port := 22
  username := js "ops"
  agentForwarding := false
  authMethod := .password
  hostKeyPolicy := .allowUnknown
  knownHostPublicKey := none
  password := .text (js "secret")
  privateKeyPath := []
  passphrase := .missing

/-- The password of the target stays when the handshake with its jump host fails. -/
theorem target_password_stays :
    let w : Answers := ⟨none, fun _ => none, fun _ => true, fun _ => .error false⟩
    let host := ConnectHost.via (passwordHop (js "db")) (.direct (passwordHop (js "bastion")))
    ¬ EverySecretScrubbed (connectClient w 0 host).trace ∧
      ¬ EverySecretScrubbed (createSshSession w host).trace := by
  intro w host
  constructor
  · intro h
    have hcount := (h ⟨0, .password⟩ (by decide)).1
    exact absurd hcount (by decide)
  · intro h
    have hcount := (h ⟨0, .password⟩ (by decide)).1
    exact absurd hcount (by decide)

end Chains

end NodeConnect
