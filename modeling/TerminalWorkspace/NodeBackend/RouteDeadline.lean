import TerminalWorkspace.NodeBackend.RouteTeardown

/-! Which clients of a route are torn down when the deadline fires. -/
namespace NodeRoute
open JsText Runs
open NodeDeadline (DeadlineState)

def newClients (acts : List Act) : List ℕ :=
  acts.filterMap fun
    | .newClient client => some client
    | _ => none

def registrations (acts : List Act) : List Resource :=
  acts.filterMap fun
    | .onTimeout resource => some resource
    | _ => none

theorem newClients_append (first second : List Act) :
    newClients (first ++ second) = newClients first ++ newClients second :=
  List.filterMap_append

theorem registrations_append (first second : List Act) :
    registrations (first ++ second) = registrations first ++ registrations second :=
  List.filterMap_append

section Acts
variable (host : BackendHost) (callback : List CallbackStep)

theorem newClients_connectClient (client : ℕ) :
    newClients (connectClient client host) = List.range' client (host.jumps + 1) := by
  induction host generalizing client with
  | direct hostname port => rfl
  | via hostname port jumpHost ih =>
    simp only [connectClient, openJumpSocket, newClients_append, ih, BackendHost.jumps]
    simp [newClients, List.range'_succ]

theorem registrations_connectClient (client : ℕ) :
    registrations (connectClient client host) = [] := by
  induction host generalizing client with
  | direct hostname port => rfl
  | via hostname port jumpHost ih =>
    simp only [connectClient, openJumpSocket, registrations_append, ih]
    rfl

/-- The client that `client` ends when it goes down: each but the last has a jump client. -/
def jumpClientOf (jumps client : ℕ) : Option ℕ := if client < jumps then some (client + 1) else none

theorem sshReady_connectClient {client : ℕ} {on : ℕ} {jumpClient : Option ℕ}
    (h : .await (.sshReady on jumpClient) ∈ connectClient client host) :
    jumpClient = jumpClientOf (client + host.jumps) on := by
  induction host generalizing client with
  | direct hostname port =>
    obtain ⟨rfl, rfl⟩ : on = client ∧ jumpClient = none := by simpa [connectClient] using h
    simp [BackendHost.jumps, jumpClientOf]
  | via hostname port jumpHost ih =>
    simp only [connectClient, openJumpSocket, List.mem_append, List.mem_cons, List.not_mem_nil,
      or_false, reduceCtorEq, false_or, Act.await.injEq, Await.sshReady.injEq] at h
    rcases h with h | ⟨rfl, rfl⟩
    · rw [ih h, BackendHost.jumps, Nat.add_right_comm, Nat.add_assoc]
    · simp [BackendHost.jumps, jumpClientOf]

theorem newClients_useChannel : newClients (useChannel callback) = [] := by
  have hcallback : newClients (callback.map CallbackStep.act) = [] := by
    refine List.filterMap_eq_nil_iff.mpr fun act hact => ?_
    obtain ⟨callbackStep, -, rfl⟩ := List.mem_map.mp hact
    cases callbackStep <;> rfl
  rw [useChannel, newClients_append, hcallback]
  rfl

theorem client_useChannel {client : ℕ}
    (h : .client client ∈ registrations (useChannel callback)) : client = 0 := by
  have hcallback : ∀ resource ∈ registrations (callback.map CallbackStep.act),
      resource ≠ .client client := by
    intro resource hresource
    obtain ⟨act, hact, hsome⟩ := List.mem_filterMap.mp hresource
    obtain ⟨callbackStep, -, rfl⟩ := List.mem_map.mp hact
    cases callbackStep with
    | await => cases hsome
    | onTimeout label =>
      cases hsome
      nofun
  rw [useChannel, registrations_append, List.mem_append] at h
  rcases h with h | h
  · simpa [registrations] using h
  · exact absurd rfl (hcallback _ h)

theorem not_sshReady_useChannel {client : ℕ} {jumpClient : Option ℕ} :
    .await (.sshReady client jumpClient) ∉ useChannel callback := by
  intro h
  rcases List.mem_append.mp h with h | h
  · simp at h
  · obtain ⟨callbackStep, -, hact⟩ := List.mem_map.mp h
    cases callbackStep <;> cases hact

end Acts

section Along

/-- Where an active operation stands among its acts, and what it has done so far. -/
structure Along (jumps : ℕ) (acts : List Act) (o : Operation) (done : List Act) : Prop where
  acts : done ++ o.pending = acts
  waits : ∃ on rest, o.pending = .await on :: rest
  created : o.created = newClients done
  cleanups : o.cleanups = registrations done
  destroyed : o.destroyed = []
  listeners : ∀ listener ∈ o.listeners, listener.2 = jumpClientOf jumps listener.1
  ended : ∀ client, client ∈ o.ended ↔ ∃ down ∈ o.down, jumpClientOf jumps down = some client

/-- While the deadline has not ended it, an operation stands somewhere among its acts. -/
def OnTheWay (jumps : ℕ) (acts : List Act) (o : Operation) : Prop :=
  o.state = .active → ∃ done, Along jumps acts o done

/-- Each client that comes to be ready has the jump client of its place. -/
def Linked (jumps : ℕ) (acts : List Act) : Prop :=
  ∀ client jumpClient, .await (.sshReady client jumpClient) ∈ acts →
    jumpClient = jumpClientOf jumps client

variable {jumps : ℕ} {acts : List Act}

theorem advance_spec (rest : List Act) (o : Operation) (hactive : o.state = .active) :
    (advance rest o).state ≠ .active ∨
      ∃ performed on later, rest = performed ++ .await on :: later ∧
        advance rest o =
          { o with
            pending := .await on :: later
            created := o.created ++ newClients performed
            cleanups := o.cleanups ++ registrations performed } := by
  induction rest generalizing o with
  | nil => exact .inl (by simp [advance, settle, endClients, hactive])
  | cons act rest ih =>
    cases act with
    | await on => exact .inr ⟨[], on, rest, rfl, by simp [advance, newClients, registrations]⟩
    | newClient client =>
      rw [advance]
      refine (ih { o with created := o.created ++ [client] } hactive).imp_right ?_
      rintro ⟨performed, on, later, rfl, hadvance⟩
      refine ⟨.newClient client :: performed, on, later, rfl, hadvance.trans ?_⟩
      simp [newClients, registrations]
    | onTimeout resource =>
      have hregister : onTimeout o resource = { o with cleanups := o.cleanups ++ [resource] } := by
        simp only [onTimeout, hactive]
      rw [advance, hregister]
      refine (ih { o with cleanups := o.cleanups ++ [resource] } hactive).imp_right ?_
      rintro ⟨performed, on, later, rfl, hadvance⟩
      refine ⟨.onTimeout resource :: performed, on, later, rfl, hadvance.trans ?_⟩
      simp [newClients, registrations]

theorem onTheWay_start (jumps : ℕ) (acts : List Act) : OnTheWay jumps acts (start acts) := by
  intro hactive
  rcases advance_spec acts initial rfl with hended | ⟨performed, on, later, hacts, hadvance⟩
  · exact absurd hactive hended
  · refine ⟨performed, ?_⟩
    rw [start, hadvance]
    refine ⟨hacts.symm, ⟨on, later, rfl⟩, List.nil_append _, List.nil_append _, rfl, nofun, ?_⟩
    simp [initial]

theorem OnTheWay.of_ended {o : Operation} (h : o.state ≠ .active) : OnTheWay jumps acts o :=
  fun hactive => absurd hactive h

theorem settle_state (o : Operation) : (settle o).state ≠ .active := by
  by_cases hactive : o.state = .active
  · simp [settle, hactive]
  · simp [settle, hactive]

/-- What has arrived is listened to. -/
theorem arrive_eq (o : Operation) (on : Await) :
    ∃ listeners, arrive o on = { o with listeners := o.listeners ++ listeners } ∧
      ∀ listener ∈ listeners, on = .sshReady listener.1 listener.2 := by
  cases on with
  | sshReady client jumpClient => exact ⟨[(client, jumpClient)], rfl, by simp⟩
  | _ => exact ⟨[], by simp [arrive], nofun⟩

theorem Along.resume {done rest : List Act} {o : Operation} {on : Await}
    (h : Along jumps acts o done) (hlinked : Linked jumps acts) (hactive : o.state = .active)
    (hpending : o.pending = .await on :: rest) :
    OnTheWay jumps acts (advance rest (arrive o on)) := by
  obtain ⟨listeners, harrive, hlisteners⟩ := arrive_eq o on
  have hacts : done ++ .await on :: rest = acts := hpending ▸ h.acts
  rw [harrive]
  rcases advance_spec rest { o with listeners := o.listeners ++ listeners } hactive with
    hended | ⟨performed, next, later, rfl, hadvance⟩
  · exact .of_ended hended
  · intro _
    refine ⟨done ++ .await on :: performed, ?_⟩
    rw [hadvance]
    refine ⟨?_, ⟨next, later, rfl⟩, ?_, ?_, h.destroyed, ?_, h.ended⟩
    · rw [List.append_assoc]
      exact hacts
    · rw [newClients_append, h.created]
      rfl
    · rw [registrations_append, h.cleanups]
      rfl
    · intro listener hlistener
      rcases List.mem_append.mp hlistener with hlistener | hlistener
      · exact h.listeners listener hlistener
      · refine hlinked _ _ ?_
        rw [← hlisteners listener hlistener, ← hacts]
        exact List.mem_append_right _ List.mem_cons_self

theorem Along.clientDown {done : List Act} {o : Operation} (h : Along jumps acts o done)
    {client : ℕ} (hclient : client ∈ o.listeners.map (·.1)) :
    Along jumps acts
      { endClients o (jumpClientsOf o client) with down := o.down ++ [client] } done := by
  refine { h with ended := fun other => ?_ }
  have hjump : other ∈ jumpClientsOf o client ↔ jumpClientOf jumps client = some other := by
    simp only [jumpClientsOf, List.mem_flatMap, List.mem_filter, Option.mem_toList, beq_iff_eq]
    constructor
    · rintro ⟨listener, ⟨hmem, rfl⟩, hother⟩
      rw [← h.listeners listener hmem]
      exact hother
    · intro hother
      obtain ⟨listener, hmem, rfl⟩ := List.mem_map.mp hclient
      exact ⟨listener, ⟨hmem, rfl⟩, (h.listeners listener hmem).trans hother⟩
  simp only [endClients, List.mem_append, hjump, h.ended, List.mem_singleton]
  constructor
  · rintro (⟨down, hdown, hother⟩ | hother)
    · exact ⟨down, .inl hdown, hother⟩
    · exact ⟨client, .inr rfl, hother⟩
  · rintro ⟨down, hdown | rfl, hother⟩
    · exact .inl ⟨down, hdown, hother⟩
    · exact .inr hother

/-- An operation that is not active any more does not become so again. -/
theorem advance_state {o : Operation} (h : o.state ≠ .active) (rest : List Act) :
    (advance rest o).state ≠ .active := by
  induction rest generalizing o with
  | nil => exact settle_state _
  | cons act rest ih =>
    cases act with
    | await on => exact h
    | newClient client => exact ih (o := { o with created := o.created ++ [client] }) h
    | onTimeout resource =>
      refine ih (o := onTimeout o resource) ?_
      unfold onTimeout
      split <;> exact h

theorem step_state {o : Operation} (h : o.state ≠ .active) (event : OperationEvent) :
    (step o event).state ≠ .active := by
  cases event with
  | resume =>
    simp only [step]
    split
    · rename_i on rest _
      obtain ⟨listeners, harrive, -⟩ := arrive_eq o on
      rw [harrive]
      exact advance_state (o := { o with listeners := o.listeners ++ listeners }) h rest
    · exact h
  | fail =>
    simp only [step]
    split
    · exact settle_state _
    · exact h
  | clientDown client =>
    simp only [step]
    split_ifs <;> exact h
  | deadline =>
    simp only [step, if_neg h]
    exact h

theorem OnTheWay.step (hlinked : Linked jumps acts) {o : Operation} (h : OnTheWay jumps acts o)
    (event : OperationEvent) : OnTheWay jumps acts (step o event) := by
  by_cases hactive : o.state = .active
  · obtain ⟨done, halong⟩ := h hactive
    obtain ⟨on, rest, hpending⟩ := halong.waits
    cases event with
    | resume =>
      simp only [NodeRoute.step, hpending]
      exact halong.resume hlinked hactive hpending
    | fail =>
      simp only [NodeRoute.step, hpending]
      exact .of_ended (settle_state _)
    | clientDown client =>
      simp only [NodeRoute.step]
      split_ifs with hclient
      · exact fun _ => ⟨done, halong.clientDown hclient⟩
      · exact h
    | deadline =>
      simp only [NodeRoute.step, if_pos hactive]
      exact .of_ended nofun
  · exact .of_ended (step_state hactive event)

end Along

section Deadline

/-- The deadline, where it can fire, tears down every client. -/
def TearsDown (o : Operation) : Prop := o.state = .active → TornDown (step o .deadline)

/-- The target's client is registered, and for each jump client the client that tunnels through
it has gone down. -/
def RouteReleased (host : BackendHost) (o : Operation) : Prop :=
  o.state = .active →
    .client 0 ∈ o.cleanups ∧ ∀ client < host.jumps, client ∈ o.down

theorem jumpClientOf_eq_some {jumps client jumpClient : ℕ} :
    jumpClientOf jumps client = some jumpClient ↔ client < jumps ∧ jumpClient = client + 1 := by
  unfold jumpClientOf
  split_ifs with hlt
  · simp [hlt, eq_comm]
  · simp [hlt]

theorem newClient_connectClient (client : ℕ) (host : BackendHost) :
    ∃ rest, connectClient client host = .newClient client :: rest := by
  cases host <;> exact ⟨_, rfl⟩

/-- An operation that has registered the target's client has created all the others. -/
theorem created_of_registered {host : BackendHost} {callback : List CallbackStep}
    {done rest : List Act} (hacts : done ++ rest = connectClient 0 host ++ useChannel callback)
    (hregistered : .client 0 ∈ registrations done) : ∀ client ≤ host.jumps,
      client ∈ newClients done := by
  intro client hclient
  have hconnect : connectClient 0 host <+: done := by
    rcases List.prefix_or_prefix_of_prefix (List.prefix_append done rest)
      (hacts ▸ List.prefix_append (connectClient 0 host) _) with ⟨more, hmore⟩ | hprefix
    · have hnone := registrations_connectClient host 0
      rw [← hmore, registrations_append, List.append_eq_nil_iff] at hnone
      rw [hnone.1] at hregistered
      cases hregistered
    · exact hprefix
  obtain ⟨more, rfl⟩ := hconnect
  rw [newClients_append, newClients_connectClient, List.mem_append, List.mem_range'_1]
  exact .inl ⟨Nat.zero_le _, by omega⟩

/-- The clients of a route, in the state in which its deadline fires. -/
theorem Along.tornDown_iff {host : BackendHost} {callback : List CallbackStep} {o : Operation}
    {done : List Act} (hactive : o.state = .active)
    (h : Along host.jumps (connectClient 0 host ++ useChannel callback) o done) :
    TornDown (step o .deadline) ↔
      .client 0 ∈ o.cleanups ∧ ∀ client < host.jumps, client ∈ o.down := by
  have hfired : step o .deadline =
      { o with state := .timedOut, destroyed := o.destroyed ++ o.cleanups.reverse } :=
    if_pos hactive
  have htorn (client : ℕ) :
      (client ∈ o.ended ∨ .client client ∈ o.destroyed ++ o.cleanups.reverse) ↔
        (∃ down ∈ o.down, down < host.jumps ∧ client = down + 1) ∨
          .client client ∈ o.cleanups := by
    simp only [h.ended, h.destroyed, List.nil_append, List.mem_reverse, jumpClientOf_eq_some]
  have honly (client : ℕ) (hclient : .client client ∈ o.cleanups) : client = 0 := by
    refine client_useChannel callback ?_
    have hall : .client client ∈ registrations (done ++ o.pending) := by
      rw [registrations_append, ← h.cleanups]
      exact List.mem_append_left _ hclient
    rw [h.acts, registrations_append, registrations_connectClient] at hall
    exact hall
  rw [hfired]
  change (∀ client ∈ o.created, _) ↔ _
  constructor
  · intro hall
    have htarget : 0 ∈ o.created := by
      obtain ⟨rest, hrest⟩ := newClient_connectClient 0 host
      obtain ⟨on, later, hpending⟩ := h.waits
      have hacts := h.acts
      rw [hrest, hpending] at hacts
      rw [h.created]
      cases done with
      | nil => cases hacts
      | cons act done =>
        obtain ⟨rfl, -⟩ := List.cons.inj hacts
        exact List.mem_cons_self
    have hregistered : .client 0 ∈ o.cleanups := by
      rcases (htorn 0).mp (hall 0 htarget) with ⟨down, -, -, hzero⟩ | hregistered
      · exact absurd hzero (Nat.succ_ne_zero down).symm
      · exact hregistered
    refine ⟨hregistered, fun client hclient => ?_⟩
    have hcreated : client + 1 ∈ o.created := by
      rw [h.created]
      exact created_of_registered h.acts (h.cleanups ▸ hregistered) (client + 1) hclient
    rcases (htorn (client + 1)).mp (hall _ hcreated) with ⟨down, hdown, -, hnext⟩ | hclient'
    · exact Nat.succ_injective hnext ▸ hdown
    · exact absurd (honly _ hclient') (Nat.succ_ne_zero client)
  · rintro ⟨hregistered, hdown⟩ client hclient
    refine (htorn client).mpr ?_
    cases client with
    | zero => exact .inr hregistered
    | succ client =>
      have hcreated : client + 1 ∈ newClients (done ++ o.pending) := by
        rw [newClients_append, ← h.created]
        exact List.mem_append_left _ hclient
      rw [h.acts, newClients_append, newClients_useChannel, List.append_nil,
        newClients_connectClient, List.mem_range'_1] at hcreated
      have hlt : client < host.jumps := by omega
      exact .inl ⟨client, hdown client hlt, hlt, rfl⟩

theorem linked_acts (host : BackendHost) (callback : List CallbackStep) :
    Linked host.jumps (connectClient 0 host ++ useChannel callback) := by
  intro client jumpClient hmem
  rcases List.mem_append.mp hmem with hmem | hmem
  · rw [sshReady_connectClient host hmem, Nat.zero_add]
  · exact absurd hmem (not_sshReady_useChannel callback)

theorem tearsDown_iff (host : BackendHost) (callback : List CallbackStep)
    (events : List OperationEvent) :
    let o := run step (start (connectClient 0 host ++ useChannel callback)) events
    TearsDown o ↔ RouteReleased host o := by
  intro o
  have hway : OnTheWay host.jumps (connectClient 0 host ++ useChannel callback) o :=
    run_invariant_of_step (fun _ event ho => ho.step (linked_acts host callback) event)
      (onTheWay_start _ _) events
  refine forall_congr' fun hactive => ?_
  obtain ⟨done, halong⟩ := hway hactive
  exact halong.tornDown_iff hactive

/-- At every point of a remote command and of an SFTP operation, the deadline tears down every
client of the route exactly when the target's client is connected and no jump client is held
any more by the client that tunnels through it. -/
theorem deadline_tearsDown_iff (host : BackendHost) (callback : List CallbackStep)
    (events : List OperationEvent) :
    (TearsDown (run step (start (runRemoteCommand host)) events) ↔
        RouteReleased host (run step (start (runRemoteCommand host)) events)) ∧
      (TearsDown (run step (start (withSftp host callback)) events) ↔
        RouteReleased host (run step (start (withSftp host callback)) events)) :=
  ⟨tearsDown_iff host [.await] events, tearsDown_iff host callback events⟩

/-- The jump host is connected, and its `forwardOut` is never answered. -/
theorem not_every_route_tornDown :
    ¬ ∀ (host : BackendHost) (events : List OperationEvent),
      TearsDown (run step (start (runRemoteCommand host)) events) := by
  intro h
  have htorn := h (.via (js "target") 22 (.direct (js "jump") 22)) [.resume, .resume, .resume]
  revert htorn
  unfold TearsDown
  decide +kernel

end Deadline
end NodeRoute
