import TerminalWorkspace.NodeBackend.Forwards

/-! Which remote forward an incoming connection is led to. Every remote forward has a listener of
its own on the session's client, and each of them accepts or rejects the connection; the first
of them decides, whichever forward the connection is for. -/
namespace NodeForwards
open Runs

section Delivery

/-- The destination of a forwarded connection, as the SSH server names it. -/
structure Details where
  destIP : String
  destPort : ℕ
  deriving DecidableEq, Repr

/-- A listener rejects, or accepts and connects to the local target of its forward. -/
inductive Verdict where
  | accepted (f : ℕ) (localHost : String) (localPort : ℕ)
  | rejected
  | unanswered
  deriving DecidableEq, Repr

def Forward.onConnection (forward : Forward) (f : ℕ) (details : Details) : Verdict :=
  if details.destIP ≠ forward.remoteHost ∨ details.destPort ≠ forward.remotePort then .rejected
  else .accepted f forward.localHost forward.localPort

variable (b : Backend) (sessionId : ℕ) (details : Details)

/-- The listeners of a session's client, in the order of registration. -/
def Backend.clientListeners : List ℕ :=
  b.listeners.filter fun f => b.sessionOf f = some sessionId

/-- The event reaches every listener and the first call decides. Whether the library rejects a
connection for which there is no listener is left open. -/
def Backend.deliver (rejectsUnheard : Bool) : Verdict :=
  match b.clientListeners sessionId with
  | [] => if rejectsUnheard then .rejected else .unanswered
  | f :: _ =>
    ((b.objects[f]?).map fun forward => forward.onConnection f details).getD .unanswered

def Forward.Has (forward : Forward) : Prop :=
  forward.remoteHost = details.destIP ∧ forward.remotePort = details.destPort

instance (forward : Forward) : Decidable (forward.Has details) :=
  inferInstanceAs (Decidable (_ ∧ _))

/-- A registered remote forward of the session with the destination. -/
def Backend.Addressed (f : ℕ) (forward : Forward) : Prop :=
  f ∈ b.forwards ∧ b.objects[f]? = some forward ∧ forward.direction = .remotePorts ∧
    forward.sessionId = sessionId ∧ forward.Has details

/-- The only forward with the destination accepts, and where none has it the connection is
rejected. -/
def Backend.Routed (rejectsUnheard : Bool) : Prop :=
  (∀ f forward, b.Addressed sessionId details f forward →
    (∀ g other, b.Addressed sessionId details g other → g = f) →
      b.deliver sessionId details rejectsUnheard = .accepted f forward.localHost forward.localPort) ∧
  ((∀ f forward, ¬b.Addressed sessionId details f forward) →
    b.deliver sessionId details rejectsUnheard = .rejected)

/-- Of the session's forwards that still have their listener, the one created first. -/
def Backend.Oldest (f : ℕ) : Prop :=
  f ∈ b.clientListeners sessionId ∧ ∀ g ∈ b.clientListeners sessionId, f ≤ g

/-- The forward with the oldest listener is the one that has the destination, or has it no more
than any registered forward. -/
def Backend.OldestAddressed (rejectsUnheard : Bool) : Prop :=
  (∀ f forward, b.Addressed sessionId details f forward →
    (∀ g other, b.Addressed sessionId details g other → g = f) → b.Oldest sessionId f) ∧
  ((∀ f forward, ¬b.Addressed sessionId details f forward) →
    (∀ f forward, b.Oldest sessionId f → b.objects[f]? = some forward → ¬forward.Has details) ∧
      (b.clientListeners sessionId = [] → rejectsUnheard = true))

end Delivery

section Order
variable {b : Backend}

/-- Listeners stand in the order in which their forwards were created. -/
structure Ordered (b : Backend) : Prop where
  increasing : b.listeners.Pairwise (· < ·)
  known : ∀ f ∈ b.listeners, f < b.objects.length

theorem ordered_initial : Ordered .initial := ⟨List.Pairwise.nil, by simp [Backend.initial]⟩

theorem Ordered.of_sublist (h : Ordered b) {next : Backend}
    (hlisteners : next.listeners.Sublist b.listeners)
    (hobjects : b.objects.length ≤ next.objects.length) : Ordered next :=
  ⟨h.increasing.sublist hlisteners,
    fun f hf => Nat.lt_of_lt_of_le (h.known f (hlisteners.subset hf)) hobjects⟩

/-- Closing only takes listeners away. -/
theorem closeLocalForward_listeners (b : Backend) (f : ℕ) (sweep : Option ℕ) :
    (b.closeLocalForward f sweep).listeners.Sublist b.listeners ∧
      (b.closeLocalForward f sweep).objects = b.objects := by
  unfold Backend.closeLocalForward
  split_ifs
  · exact ⟨List.filter_sublist, rfl⟩
  · exact ⟨List.Sublist.refl _, rfl⟩
  · exact ⟨List.Sublist.refl _, rfl⟩
  · exact ⟨List.Sublist.refl _, rfl⟩

theorem closeForwardsForSession_listeners (b : Backend) (sessionId : ℕ) (purpose : Purpose) :
    (b.closeForwardsForSession sessionId purpose).listeners.Sublist b.listeners ∧
      (b.closeForwardsForSession sessionId purpose).objects = b.objects := by
  have hfold : ∀ (ids : List ℕ) (sweep : Option ℕ) (b : Backend),
      (ids.foldl (fun closed f => closed.closeLocalForward f sweep) b).listeners.Sublist
          b.listeners ∧
        (ids.foldl (fun closed f => closed.closeLocalForward f sweep) b).objects = b.objects := by
    intro ids sweep
    induction ids with
    | nil => exact fun b => ⟨List.Sublist.refl _, rfl⟩
    | cons f ids ih =>
      intro b
      obtain ⟨hhead, hobjects⟩ := closeLocalForward_listeners b f sweep
      obtain ⟨htail, hobjects'⟩ := ih (b.closeLocalForward f sweep)
      exact ⟨htail.trans hhead, hobjects'.trans hobjects⟩
  exact hfold _ _ b

theorem Ordered.closeForwardsForSession (h : Ordered b) (sessionId : ℕ) (purpose : Purpose) :
    Ordered (b.closeForwardsForSession sessionId purpose) := by
  obtain ⟨hlisteners, hobjects⟩ := closeForwardsForSession_listeners b sessionId purpose
  exact h.of_sublist hlisteners (Nat.le_of_eq (congrArg List.length hobjects.symm))

theorem Ordered.register (h : Ordered b) (f : ℕ) (bound : Forward → Forward) :
    Ordered (b.register f bound) :=
  h.of_sublist (List.Sublist.refl _) (by simp [Backend.register])

theorem Ordered.createRemoteForward (h : Ordered b) (request : ForwardRequest) :
    Ordered (b.createRemoteForward request) := by
  unfold Backend.createRemoteForward
  split_ifs
  · refine ⟨List.pairwise_append.mpr ⟨h.increasing, List.pairwise_singleton _ _, ?_⟩, ?_⟩
    · intro f hf g hg
      rw [List.mem_singleton.mp hg]
      exact h.known f hf
    · intro f hf
      rw [List.length_append, List.length_singleton]
      rcases List.mem_append.mp hf with hf | hf
      · exact Nat.lt_succ_of_lt (h.known f hf)
      · rw [List.mem_singleton.mp hf]
        exact Nat.lt_succ_self _
  · exact h

theorem Ordered.step (h : Ordered b) (action : Action) : Ordered (step b action) := by
  have hsame : ∀ next : Backend, next.listeners = b.listeners → next.objects = b.objects →
      Ordered next := fun next hlisteners hobjects =>
    h.of_sublist (by rw [hlisteners]) (Nat.le_of_eq (congrArg List.length hobjects.symm))
  cases action with
  | createSession => exact hsame _ rfl rfl
  | createLocal request =>
    simp only [NodeForwards.step, Backend.createLocalForward]
    split_ifs
    · exact h.of_sublist (List.Sublist.refl _) (by simp)
    · exact h
  | createRemote request => exact h.createRemoteForward request
  | listened f boundPort =>
    simp only [NodeForwards.step, Backend.listened]
    split_ifs
    · exact (h.register f _).of_sublist (List.Sublist.refl _) (Nat.le_refl _)
    · exact h
  | forwardedIn f boundPort =>
    simp only [NodeForwards.step, Backend.forwardedIn]
    split_ifs
    · exact h.register f _
    · exact h
  | creationFailed f =>
    simp only [NodeForwards.step, Backend.creationFailed]
    split_ifs
    · exact h.of_sublist List.filter_sublist (Nat.le_refl _)
    · exact h
  | deleteForward f =>
    obtain ⟨hlisteners, hobjects⟩ := closeLocalForward_listeners b f none
    exact h.of_sublist hlisteners (Nat.le_of_eq (congrArg List.length hobjects.symm))
  | deleteSession sessionId =>
    simp only [NodeForwards.step, Backend.deleteSession]
    split_ifs
    · exact h.closeForwardsForSession sessionId _
    · exact h
  | streamClosed sessionId =>
    simp only [NodeForwards.step, Backend.streamClosed]
    split_ifs
    · exact h.closeForwardsForSession sessionId _
    · exact h
  | clientClosed sessionId =>
    simp only [NodeForwards.step, Backend.clientClosed]
    split_ifs
    · exact h.closeForwardsForSession sessionId _
    · exact h
  | connect f =>
    simp only [NodeForwards.step, Backend.connect]
    split_ifs
    · exact hsame _ rfl rfl
    · exact h
  | disconnect f => exact hsame _ rfl rfl
  | drained f =>
    simp only [NodeForwards.step, Backend.drained]
    split_ifs
    · exact hsame _ rfl rfl
    · exact h
  | unforwarded closing succeeded =>
    simp only [NodeForwards.step, Backend.unforwarded]
    split_ifs
    · exact hsame _ rfl rfl
    · exact hsame _ rfl rfl
    · exact h
  | finish k =>
    simp only [NodeForwards.step, Backend.finish]
    split
    · split_ifs
      · exact h
      · exact hsame _ rfl rfl
      · exact hsame _ rfl rfl
    · exact h

end Order

section Routing

theorem ordered_run (actions : List Action) : Ordered (run step .initial actions) :=
  run_invariant_of_step (fun _ action h => h.step action) ordered_initial actions

variable {b : Backend} {sessionId : ℕ} {f : ℕ}

/-- The first listener is the oldest. -/
theorem oldest_iff (h : Ordered b) :
    b.Oldest sessionId f ↔ (b.clientListeners sessionId).head? = some f := by
  have hsorted : (b.clientListeners sessionId).Pairwise (· < ·) := h.increasing.filter _
  unfold Backend.Oldest
  cases hlisteners : b.clientListeners sessionId with
  | nil => simp
  | cons first rest =>
    rw [hlisteners] at hsorted
    have hafter : ∀ g ∈ rest, first < g := fun g => List.rel_of_pairwise_cons hsorted
    simp only [List.head?_cons, Option.some.injEq]
    constructor
    · rintro ⟨hmem, hleast⟩
      rcases List.mem_cons.mp hmem with rfl | hmem
      · rfl
      · exact absurd (hafter f hmem) (Nat.not_lt.mpr (hleast first List.mem_cons_self))
    · rintro rfl
      refine ⟨List.mem_cons_self, fun g hg => ?_⟩
      rcases List.mem_cons.mp hg with rfl | hg
      · exact Nat.le_refl _
      · exact Nat.le_of_lt (hafter g hg)

variable {details : Details} {rejectsUnheard : Bool}

/-- The oldest listener decides. -/
theorem deliver_of_oldest (h : Ordered b) (holdest : b.Oldest sessionId f) {forward : Forward}
    (hobject : b.objects[f]? = some forward) :
    b.deliver sessionId details rejectsUnheard = forward.onConnection f details := by
  have hhead := (oldest_iff h).mp holdest
  unfold Backend.deliver
  cases hlisteners : b.clientListeners sessionId with
  | nil =>
    rw [hlisteners] at hhead
    cases hhead
  | cons first rest =>
    rw [hlisteners] at hhead
    obtain rfl := Option.some.inj hhead
    simp only [hobject, Option.map_some, Option.getD_some]

theorem onConnection_of_has {forward : Forward} (h : forward.Has details) :
    forward.onConnection f details = .accepted f forward.localHost forward.localPort := by
  rw [Forward.onConnection, if_neg (by simp [h.1, h.2])]

theorem onConnection_eq_rejected_iff {forward : Forward} :
    forward.onConnection f details = .rejected ↔ ¬forward.Has details := by
  unfold Forward.onConnection Forward.Has
  split_ifs with hother
  · simp only [true_iff]
    rintro ⟨hhost, hport⟩
    simp [hhost, hport] at hother
  · simp only [false_iff, not_not]
    simpa [eq_comm] using hother

theorem eq_of_accepted {forward : Forward} {g : ℕ} {localHost : String} {localPort : ℕ}
    (h : forward.onConnection g details = .accepted f localHost localPort) : g = f := by
  unfold Forward.onConnection at h
  split_ifs at h
  exact (Verdict.accepted.inj h).1

theorem exists_oldest (h : Ordered b) (hsome : b.clientListeners sessionId ≠ []) :
    ∃ f forward, b.Oldest sessionId f ∧ b.objects[f]? = some forward := by
  obtain ⟨f, hf⟩ := Option.isSome_iff_exists.mp (List.isSome_head?.mpr hsome)
  have hlistener : f ∈ b.listeners :=
    List.mem_of_mem_filter (List.mem_of_head? hf)
  obtain ⟨forward, hforward⟩ : ∃ forward, b.objects[f]? = some forward :=
    ⟨_, List.getElem?_eq_getElem (h.known f hlistener)⟩
  exact ⟨f, forward, (oldest_iff h).mpr hf, hforward⟩

/-- In every state that a run reaches, connections are led to their forwards just when the
oldest listener is the one that they are for. -/
theorem routed_iff (actions : List Action) (sessionId : ℕ) (details : Details)
    (rejectsUnheard : Bool) :
    (run step .initial actions).Routed sessionId details rejectsUnheard ↔
      (run step .initial actions).OldestAddressed sessionId details rejectsUnheard := by
  have h := ordered_run actions
  generalize run step .initial actions = b at h
  refine and_congr ?_ ?_
  · refine forall_congr' fun f => forall_congr' fun forward => forall_congr' fun haddressed =>
      imp_congr_right fun _ => ?_
    obtain ⟨-, hobject, -, -, hhas⟩ := haddressed
    constructor
    · intro hdeliver
      by_cases hnone : b.clientListeners sessionId = []
      · rw [Backend.deliver, hnone] at hdeliver
        cases rejectsUnheard <;> cases hdeliver
      · obtain ⟨g, other, holdest, hother⟩ := exists_oldest h hnone
        rw [deliver_of_oldest h holdest hother] at hdeliver
        rwa [eq_of_accepted hdeliver] at holdest
    · intro holdest
      rw [deliver_of_oldest h holdest hobject, onConnection_of_has hhas]
  · refine imp_congr_right fun _ => ?_
    constructor
    · intro hdeliver
      refine ⟨fun f forward holdest hobject => ?_, fun hnone => ?_⟩
      · rw [deliver_of_oldest h holdest hobject] at hdeliver
        exact onConnection_eq_rejected_iff.mp hdeliver
      · rw [Backend.deliver, hnone] at hdeliver
        cases rejectsUnheard with
        | true => rfl
        | false => cases hdeliver
    · rintro ⟨hlacks, hunheard⟩
      by_cases hnone : b.clientListeners sessionId = []
      · simp only [Backend.deliver, hnone, hunheard hnone, if_true]
      · obtain ⟨g, other, holdest, hother⟩ := exists_oldest h hnone
        rw [deliver_of_oldest h holdest hother]
        exact onConnection_eq_rejected_iff.mpr (hlacks g other holdest hother)

def webForward (remotePort : ℕ) : ForwardRequest where
  localHost := "127.0.0.1"
  localPort := 3000
  remoteHost := "0.0.0.0"
  remotePort := remotePort
  sessionId := 0

/-- A session with two remote forwards, both granted. -/
def twoForwards : List Action :=
  [.createSession, .createRemote (webForward 8080), .forwardedIn 0 none,
    .createRemote (webForward 9090), .forwardedIn 1 none]

/-- A connection for the second forward is rejected by the listener of the first. -/
theorem twoForwards_rejected :
    (run step .initial twoForwards).forwards = [0, 1] ∧
      (run step .initial twoForwards).deliver 0 ⟨"0.0.0.0", 9090⟩ true = .rejected ∧
      ¬(run step .initial twoForwards).Routed 0 ⟨"0.0.0.0", 9090⟩ true := by
  refine ⟨by decide, by decide, fun h => ?_⟩
  have hobjects : (run step .initial twoForwards).forwards = [0, 1] := by decide
  have haddressed : (run step .initial twoForwards).Addressed 0 ⟨"0.0.0.0", 9090⟩ 1
      (Backend.forwardOf .remotePorts (webForward 9090)) := by
    unfold Backend.Addressed
    decide
  have honly : ∀ g other, (run step .initial twoForwards).Addressed 0 ⟨"0.0.0.0", 9090⟩ g other →
      g = 1 := by
    rintro g other ⟨hmem, hobject, -, -, hhas⟩
    rw [hobjects] at hmem
    rcases List.mem_cons.mp hmem with rfl | hmem
    · have hfirst : (run step .initial twoForwards).objects[0]? =
          some (Backend.forwardOf .remotePorts (webForward 8080)) := by decide
      obtain rfl := Option.some.inj (hfirst.symm.trans hobject)
      exact absurd hhas (by decide)
    · exact List.mem_singleton.mp hmem
  exact absurd (h.1 1 _ haddressed honly) (by decide)

end Routing

end NodeForwards
