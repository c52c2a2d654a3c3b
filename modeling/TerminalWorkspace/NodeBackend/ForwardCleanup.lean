import TerminalWorkspace.Foundation.Indexed
import TerminalWorkspace.NodeBackend.Forwards

/-! Closing a session closes its forwards, and a delete of the session comes to its end: in every
run in which a forward is entered while nothing removes its session, a removal's own
`unforwardIn` does not fail on a forward that is still entered, and no connection is open
through the forwards of a session when it is deleted. -/
namespace NodeForwards
open Runs

section Contract

variable (b : Backend)

/-- No creation, closing, deletion or close event is under way. -/
def Backend.Quiescent : Prop :=
  b.creating = [] ∧ b.closings = [] ∧ ∀ sweep ∈ b.sweeps, sweep.finished = true

/-- Nothing is under way but the end of connections: every closing waits for one, and every
sweep for a closing. -/
def Backend.OnlyConnections : Prop :=
  b.creating = [] ∧ (∀ closing ∈ b.closings, closing.forwardId ∈ b.connections) ∧
    ∀ k sweep, b.sweeps[k]? = some sweep → sweep.finished = false →
      some k ∈ b.closings.map (·.sweep)

/-- No forward of a session that is gone is registered or listens, once nothing is under way. -/
def Backend.NothingLeft : Prop :=
  b.Quiescent → ∀ f sessionId, b.sessionOf f = some sessionId → sessionId ∉ b.sessions →
    f ∉ b.forwards ∧ f ∉ b.listening ∧ f ∉ b.listeners

/-- Every delete of a session has ended its client and removed it, once only connections are
open. -/
def Backend.DeletesComplete : Prop :=
  b.OnlyConnections → ∀ sweep ∈ b.sweeps, sweep.purpose = .sessionDelete →
    sweep.sessionId ∉ b.sessions ∧ sweep.sessionId ∈ b.endedClients

/-- A sweep of the session that removes it has not come to its end. -/
def Backend.Removing (sessionId : ℕ) : Prop :=
  ∃ sweep ∈ b.sweeps, sweep.sessionId = sessionId ∧ sweep.purpose ≠ .clientClose ∧
    sweep.finished = false

instance (sessionId : ℕ) : Decidable (b.Removing sessionId) :=
  inferInstanceAs (Decidable (∃ sweep ∈ b.sweeps, _))

/-- The session of a forward is in the map, and nothing is removing it. -/
def Backend.Undisturbed (f : ℕ) : Prop :=
  ∃ sessionId ∈ b.sessions, b.sessionOf f = some sessionId ∧ ¬b.Removing sessionId

instance (f : ℕ) : Decidable (b.Undisturbed f) :=
  inferInstanceAs (Decidable (∃ sessionId ∈ b.sessions, _))

/-- A closing belongs to a sweep that removes its session. -/
def Backend.OfRemoval (closing : Closing) : Prop :=
  ∃ k ∈ closing.sweep, ∃ sweep ∈ b.sweeps[k]?, sweep.purpose ≠ .clientClose

instance (closing : Closing) : Decidable (b.OfRemoval closing) :=
  inferInstanceAs (Decidable (∃ k ∈ closing.sweep, ∃ sweep ∈ b.sweeps[k]?, _))

/-- A forward is entered while nothing removes its session, a removal does not fail to close a
forward that is still entered, and a session is deleted with no connection open. -/
def Orderly (b : Backend) : Action → Prop
  | .listened f _ | .forwardedIn f _ => f ∈ b.creating → b.Undisturbed f
  | .unforwarded closing false => b.OfRemoval closing → closing.forwardId ∉ b.forwards
  | .deleteSession sessionId =>
    ∀ f ∈ b.forwards, b.sessionOf f = some sessionId → f ∉ b.connections
  | _ => True

instance (b : Backend) : (action : Action) → Decidable (Orderly b action)
  | .listened f _ | .forwardedIn f _ =>
    inferInstanceAs (Decidable (f ∈ b.creating → b.Undisturbed f))
  | .unforwarded closing false =>
    inferInstanceAs (Decidable (b.OfRemoval closing → closing.forwardId ∉ b.forwards))
  | .deleteSession sessionId =>
    inferInstanceAs (Decidable (∀ f ∈ b.forwards, b.sessionOf f = some sessionId →
      f ∉ b.connections))
  | .unforwarded _ true | .createSession | .createLocal _ | .createRemote _ | .creationFailed _
  | .deleteForward _ | .streamClosed _ | .clientClosed _ | .connect _ | .disconnect _
  | .drained _ | .finish _ => .isTrue trivial

end Contract

section Invariant

/-- Where every id of a forward can stand. -/
structure Placed (b : Backend) : Prop where
  creating : ∀ f ∈ b.creating, f < b.objects.length
  forwards : ∀ f ∈ b.forwards, f < b.objects.length ∧ f ∉ b.creating
  listening : ∀ f ∈ b.listening, f ∈ b.forwards ∧ b.isRemote f = false
  listeners : ∀ f ∈ b.listeners, (f ∈ b.creating ∨ f ∈ b.forwards) ∧ b.isRemote f = true
  closings : ∀ closing ∈ b.closings, closing.forwardId < b.objects.length ∧
    closing.forwardId ∉ b.creating ∧ closing.forwardId ∉ b.listening ∧
      closing.forwardId ∉ b.listeners

/-- What holds in every run of orderly steps. A removal that is under way has a closing for
every forward of its session that is still entered. -/
structure Sound (b : Backend) : Prop where
  placed : Placed b
  opened : ∀ sessionId ∈ b.sessions, sessionId < b.opened
  swept : ∀ sweep ∈ b.sweeps, sweep.sessionId < b.opened
  inMap : ∀ f ∈ b.forwards, ∃ sessionId ∈ b.sessions, b.sessionOf f = some sessionId
  covered : ∀ k sweep, b.sweeps[k]? = some sweep → sweep.finished = false →
    sweep.purpose ≠ .clientClose → ∀ f ∈ b.forwards, b.sessionOf f = some sweep.sessionId →
      ⟨f, some k⟩ ∈ b.closings
  numbered : ∀ closing ∈ b.closings, ∀ k ∈ closing.sweep, k < b.sweeps.length
  quiet : ∀ closing ∈ b.closings, ∀ k ∈ closing.sweep, ∀ sweep ∈ b.sweeps[k]?,
    sweep.purpose = .sessionDelete → closing.forwardId ∉ b.connections
  ended : ∀ sweep ∈ b.sweeps, sweep.purpose = .sessionDelete → sweep.finished = true →
    sweep.sessionId ∉ b.sessions ∧ sweep.sessionId ∈ b.endedClients

theorem sound_initial : Sound .initial := by
  constructor
  · constructor <;> simp [Backend.initial]
  all_goals simp [Backend.initial]

variable {b : Backend}

/-- Nothing is left of a session that is gone. -/
theorem Sound.nothingLeft (h : Sound b) : b.NothingLeft := by
  rintro ⟨hcreating, -, -⟩ f sessionId hsession hgone
  have hunregistered : f ∉ b.forwards := by
    intro hf
    obtain ⟨other, hother, hsame⟩ := h.inMap f hf
    rw [hsession] at hsame
    exact hgone (Option.some.inj hsame ▸ hother)
  refine ⟨hunregistered, fun hf => hunregistered (h.placed.listening f hf).1, fun hf => ?_⟩
  rcases (h.placed.listeners f hf).1 with hf | hf
  · rw [hcreating] at hf
    cases hf
  · exact hunregistered hf

/-- No delete waits for a connection. -/
theorem Sound.deletesComplete (h : Sound b) : b.DeletesComplete := by
  rintro ⟨-, hwaiting, hsweeps⟩ sweep hsweep hdelete
  refine h.ended sweep hsweep hdelete ?_
  by_contra hunfinished
  obtain ⟨k, hk⟩ := List.mem_iff_getElem?.mp hsweep
  obtain ⟨closing, hclosing, hsweepOf⟩ :=
    List.mem_map.mp (hsweeps k sweep hk (Bool.not_eq_true _ ▸ hunfinished))
  exact h.quiet closing hclosing k hsweepOf sweep hk hdelete (hwaiting closing hclosing)

end Invariant

section Closing
variable {b : Backend} {f : ℕ}

/-- Forwards that begin to close: they listen no longer, and each has a closing. -/
def Backend.withClosings (b : Backend) (closings : List Closing) : Backend :=
  { b with
    listening := b.listening.filter (· ∉ closings.map (·.forwardId))
    listeners := b.listeners.filter (· ∉ closings.map (·.forwardId))
    closings := b.closings ++ closings }

theorem withClosings_nil : b.withClosings [] = b := by simp [Backend.withClosings]

theorem withClosings_cons (closing : Closing) (closings : List Closing) :
    (b.withClosings [closing]).withClosings closings = b.withClosings (closing :: closings) := by
  have hfilter : ∀ ids : List ℕ,
      (ids.filter (· ∉ [closing].map (·.forwardId))).filter (· ∉ closings.map (·.forwardId)) =
        ids.filter (· ∉ (closing :: closings).map (·.forwardId)) := by
    intro ids
    rw [List.filter_filter]
    refine List.filter_congr fun g _ => ?_
    rw [Bool.eq_iff_iff]
    simp only [List.map_cons, List.map_nil, List.mem_cons, List.not_mem_nil, or_false, not_or,
      Bool.and_eq_true, decide_eq_true_eq]
    exact and_comm
  simp only [Backend.withClosings, hfilter, List.append_assoc, List.singleton_append]

theorem Placed.withClosings (h : Placed b) {closings : List Closing}
    (hentered : ∀ closing ∈ closings, closing.forwardId ∈ b.forwards) :
    Placed (b.withClosings closings) where
  creating := h.creating
  forwards := h.forwards
  listening f hf := h.listening f (List.mem_of_mem_filter hf)
  listeners f hf := h.listeners f (List.mem_of_mem_filter hf)
  closings := by
    intro closing hclosing
    rcases List.mem_append.mp hclosing with hold | hnew
    · obtain ⟨hlt, hcreating, hlistening, hlisteners⟩ := h.closings closing hold
      exact ⟨hlt, hcreating, fun hf => hlistening (List.mem_of_mem_filter hf),
        fun hf => hlisteners (List.mem_of_mem_filter hf)⟩
    · obtain ⟨hlt, hcreating⟩ := h.forwards _ (hentered closing hnew)
      have hid := List.mem_map_of_mem (f := Closing.forwardId) hnew
      exact ⟨hlt, hcreating, fun hf => of_decide_eq_true (List.mem_filter.mp hf).2 hid,
        fun hf => of_decide_eq_true (List.mem_filter.mp hf).2 hid⟩

/-- A close of an entered forward, whose session is in the map. -/
theorem closeLocalForward_eq (h : Placed b) (hf : f ∈ b.forwards)
    (hmap : ∃ sessionId ∈ b.sessions, b.sessionOf f = some sessionId) (sweep : Option ℕ) :
    b.closeLocalForward f sweep = b.withClosings [⟨f, sweep⟩] := by
  have hsession : b.sessionOf f ∈ b.sessions.map some := by
    obtain ⟨sessionId, hmem, hsession⟩ := hmap
    exact List.mem_map.mpr ⟨sessionId, hmem, hsession.symm⟩
  have hsame : ∀ {ids : List ℕ}, f ∉ ids → ids.filter (· ∉ [f]) = ids := fun hnot =>
    List.filter_eq_self.mpr fun g hg => by
      simpa using ne_of_mem_of_not_mem hg hnot
  have hwithout : ∀ ids : List ℕ, without f ids = ids.filter (· ∉ [f]) := fun ids =>
    List.filter_congr fun g _ => by simp
  unfold Backend.closeLocalForward Backend.withClosings
  rw [if_neg (not_not.mpr hf)]
  by_cases hremote : b.isRemote f = true
  · have hlistening : f ∉ b.listening := fun hmem => by
      simpa [hremote] using (h.listening f hmem).2
    rw [if_pos hremote, if_pos hsession, hwithout]
    simp only [List.map_cons, List.map_nil, hsame hlistening]
  · have hlisteners : f ∉ b.listeners := fun hmem => hremote (h.listeners f hmem).2
    rw [if_neg hremote, hwithout]
    simp only [List.map_cons, List.map_nil, hsame hlisteners]

/-- A sweep closes the forwards of its session. -/
theorem foldl_closeLocalForward (h : Placed b)
    (hmap : ∀ f ∈ b.forwards, ∃ sessionId ∈ b.sessions, b.sessionOf f = some sessionId)
    (sweep : Option ℕ) (ids : List ℕ) (hids : ∀ f ∈ ids, f ∈ b.forwards) :
    ids.foldl (fun closed f => closed.closeLocalForward f sweep) b =
      b.withClosings (ids.map fun f => ⟨f, sweep⟩) := by
  induction ids generalizing b with
  | nil => exact withClosings_nil.symm
  | cons f ids ih =>
    obtain ⟨hf, hids⟩ := List.forall_mem_cons.mp hids
    have hplaced : Placed (b.withClosings [⟨f, sweep⟩]) :=
      h.withClosings (List.forall_mem_singleton.mpr hf)
    rw [List.foldl_cons, closeLocalForward_eq h hf (hmap f hf) sweep, ih hplaced hmap hids,
      withClosings_cons]
    rfl

/-- Forwards begin to close, for the sweeps that begin with them. -/
theorem Sound.withClosings (h : Sound b) {closings : List Closing} {sweeps : List Sweep}
    (hentered : ∀ closing ∈ closings, closing.forwardId ∈ b.forwards)
    (hnumbered : ∀ closing ∈ closings, ∀ k ∈ closing.sweep,
      b.sweeps.length ≤ k ∧ k < (b.sweeps ++ sweeps).length)
    (hswept : ∀ sweep ∈ sweeps, sweep.sessionId < b.opened ∧ sweep.finished = false)
    (hcovered : ∀ k sweep, sweeps[k]? = some sweep → ∀ f ∈ b.forwards,
      b.sessionOf f = some sweep.sessionId → ⟨f, some (b.sweeps.length + k)⟩ ∈ closings)
    (hquiet : ∀ sweep ∈ sweeps, sweep.purpose = .sessionDelete →
      ∀ closing ∈ closings, closing.forwardId ∉ b.connections) :
    Sound { b.withClosings closings with sweeps := b.sweeps ++ sweeps } where
  placed :=
    have hplaced := h.placed.withClosings hentered
    ⟨hplaced.creating, hplaced.forwards, hplaced.listening, hplaced.listeners, hplaced.closings⟩
  opened := h.opened
  swept := by
    intro sweep hsweep
    rcases List.mem_append.mp hsweep with hold | hnew
    · exact h.swept sweep hold
    · exact (hswept sweep hnew).1
  inMap := h.inMap
  covered := by
    intro k sweep hsweep hunfinished hpurpose f hf hsession
    rcases Nat.lt_or_ge k b.sweeps.length with hlt | hge
    · rw [List.getElem?_append_left hlt] at hsweep
      exact List.mem_append_left _ (h.covered k sweep hsweep hunfinished hpurpose f hf hsession)
    · rw [List.getElem?_append_right hge] at hsweep
      have hnew := hcovered _ sweep hsweep f hf hsession
      rw [Nat.add_sub_cancel' hge] at hnew
      exact List.mem_append_right _ hnew
  numbered := by
    intro closing hclosing k hk
    rcases List.mem_append.mp hclosing with hold | hnew
    · exact Nat.lt_of_lt_of_le (h.numbered closing hold k hk) (by simp)
    · exact (hnumbered closing hnew k hk).2
  quiet := by
    intro closing hclosing k hk sweep hsweep hdelete
    rcases List.mem_append.mp hclosing with hold | hnew
    · have hlt := h.numbered closing hold k hk
      have hsweep : (b.sweeps ++ sweeps)[k]? = some sweep := hsweep
      rw [List.getElem?_append_left hlt] at hsweep
      exact h.quiet closing hold k hk sweep hsweep hdelete
    · have hge := (hnumbered closing hnew k hk).1
      have hsweep : (b.sweeps ++ sweeps)[k]? = some sweep := hsweep
      rw [List.getElem?_append_right hge] at hsweep
      exact hquiet sweep (List.mem_of_getElem? hsweep) hdelete closing hnew
  ended := by
    intro sweep hsweep hdelete hfinished
    rcases List.mem_append.mp hsweep with hold | hnew
    · exact h.ended sweep hold hdelete hfinished
    · rw [(hswept sweep hnew).2] at hfinished
      cases hfinished

theorem Sound.deleteForward (h : Sound b) (f : ℕ) : Sound (b.closeLocalForward f none) := by
  by_cases hf : f ∈ b.forwards
  · have hclosed : b.closeLocalForward f none =
        { b.withClosings [⟨f, none⟩] with sweeps := b.sweeps ++ [] } := by
      rw [closeLocalForward_eq h.placed hf (h.inMap f hf), List.append_nil]
      rfl
    rw [hclosed]
    refine h.withClosings (List.forall_mem_singleton.mpr hf) ?_ ?_ ?_ ?_
    · rintro closing hclosing k hk
      rw [List.mem_singleton.mp hclosing] at hk
      cases hk
    · simp
    · simp
    · simp
  · rwa [Backend.closeLocalForward, if_pos hf]

theorem Sound.closeForwardsForSession (h : Sound b) {sessionId : ℕ} {purpose : Purpose}
    (hopened : sessionId < b.opened)
    (hquiet : purpose = .sessionDelete → ∀ f ∈ b.forwards, b.sessionOf f = some sessionId →
      f ∉ b.connections) :
    Sound (b.closeForwardsForSession sessionId purpose) := by
  have hids : ∀ f ∈ b.forwards.filter fun f => b.sessionOf f = some sessionId,
      f ∈ b.forwards ∧ b.sessionOf f = some sessionId := fun f hf => by
    simpa using List.mem_filter.mp hf
  unfold Backend.closeForwardsForSession
  dsimp only
  rw [foldl_closeLocalForward h.placed h.inMap _ _ fun f hf => (hids f hf).1]
  refine h.withClosings ?_ ?_ ?_ ?_ ?_
  · intro closing hclosing
    obtain ⟨f, hf, rfl⟩ := List.mem_map.mp hclosing
    exact (hids f hf).1
  · intro closing hclosing k hk
    obtain ⟨f, -, rfl⟩ := List.mem_map.mp hclosing
    obtain rfl := Option.some.inj hk
    simp
  · simpa using hopened
  · intro k sweep hsweep f hf hsession
    obtain ⟨rfl, rfl⟩ : k = 0 ∧ sweep = ⟨sessionId, purpose, false⟩ := by
      cases k with
      | zero => exact ⟨rfl, (Option.some.inj hsweep).symm⟩
      | succ k => cases hsweep
    exact List.mem_map.mpr ⟨f, List.mem_filter.mpr ⟨hf, by simpa using hsession⟩, rfl⟩
  · intro sweep hsweep hdelete closing hclosing
    obtain rfl := List.mem_singleton.mp hsweep
    obtain ⟨f, hf, rfl⟩ := List.mem_map.mp hclosing
    exact hquiet hdelete f (hids f hf).1 (hids f hf).2

end Closing

section Steps
variable {b : Backend} {f : ℕ}

theorem Sound.createSshSession (h : Sound b) : Sound b.createSshSession where
  placed := ⟨h.placed.creating, h.placed.forwards, h.placed.listening, h.placed.listeners,
    h.placed.closings⟩
  opened := by
    intro sessionId hmem
    rcases List.mem_append.mp hmem with hold | hnew
    · exact Nat.lt_succ_of_lt (h.opened sessionId hold)
    · rw [List.mem_singleton.mp hnew]
      exact Nat.lt_succ_self _
  swept sweep hsweep := Nat.lt_succ_of_lt (h.swept sweep hsweep)
  inMap := by
    intro f hf
    obtain ⟨sessionId, hmem, hsession⟩ := h.inMap f hf
    exact ⟨sessionId, List.mem_append_left _ hmem, hsession⟩
  covered := h.covered
  numbered := h.numbered
  quiet := h.quiet
  ended := by
    intro sweep hsweep hdelete hfinished
    obtain ⟨hgone, hended⟩ := h.ended sweep hsweep hdelete hfinished
    refine ⟨fun hmem => ?_, hended⟩
    rcases List.mem_append.mp hmem with hold | hnew
    · exact hgone hold
    · exact absurd (h.swept sweep hsweep) (by simp [List.mem_singleton.mp hnew])

/-- A forward begins to be created, with a listener or without one. -/
theorem Sound.create (h : Sound b) (forward : Forward) {listeners : List ℕ}
    (hlisteners : ∀ f ∈ listeners, f ∈ b.listeners ∨
      f = b.objects.length ∧ forward.direction = .remotePorts) :
    Sound { b with
      objects := b.objects ++ [forward]
      creating := b.objects.length :: b.creating
      listeners := listeners } := by
  have hnew : ∀ f ∈ b.forwards, f ≠ b.objects.length := fun f hf =>
    Nat.ne_of_lt (h.placed.forwards f hf).1
  have hsession : ∀ f ∈ b.forwards, Backend.sessionOf { b with
      objects := b.objects ++ [forward]
      creating := b.objects.length :: b.creating
      listeners := listeners } f = b.sessionOf f := fun f hf =>
    sessionOf_concat forward (h.placed.forwards f hf).1
  refine ⟨⟨?_, ?_, ?_, ?_, ?_⟩, h.opened, h.swept, ?_, ?_, h.numbered, h.quiet, h.ended⟩
  · intro f hf
    rw [List.length_append, List.length_singleton]
    rcases List.mem_cons.mp hf with rfl | hf
    · exact Nat.lt_succ_self _
    · exact Nat.lt_succ_of_lt (h.placed.creating f hf)
  · intro f hf
    obtain ⟨hlt, hcreating⟩ := h.placed.forwards f hf
    rw [List.length_append, List.length_singleton]
    exact ⟨Nat.lt_succ_of_lt hlt, List.not_mem_cons_of_ne_of_not_mem (hnew f hf) hcreating⟩
  · intro f hf
    obtain ⟨hforwards, hkind⟩ := h.placed.listening f hf
    exact ⟨hforwards, (isRemote_concat forward (h.placed.forwards f hforwards).1).trans hkind⟩
  · intro f hf
    rcases hlisteners f hf with hold | ⟨rfl, hdirection⟩
    · obtain ⟨hplace, hkind⟩ := h.placed.listeners f hold
      have hlt : f < b.objects.length :=
        hplace.elim (h.placed.creating f) fun hf => (h.placed.forwards f hf).1
      exact ⟨hplace.imp_left (List.mem_cons_of_mem _),
        (isRemote_concat forward hlt).trans hkind⟩
    · exact ⟨.inl List.mem_cons_self, by simp [Backend.isRemote, hdirection]⟩
  · intro closing hclosing
    obtain ⟨hlt, hcreating, hlistening, hclosed⟩ := h.placed.closings closing hclosing
    have hne : closing.forwardId ≠ b.objects.length := Nat.ne_of_lt hlt
    rw [List.length_append, List.length_singleton]
    refine ⟨Nat.lt_succ_of_lt hlt, List.not_mem_cons_of_ne_of_not_mem hne hcreating, hlistening,
      fun hmem => ?_⟩
    rcases hlisteners _ hmem with hold | ⟨heq, -⟩
    · exact hclosed hold
    · exact hne heq
  · intro f hf
    rw [hsession f hf]
    exact h.inMap f hf
  · intro k sweep hsweep hunfinished hpurpose f hf
    rw [hsession f hf]
    exact h.covered k sweep hsweep hunfinished hpurpose f hf

/-- A forward is entered while nothing removes its session. -/
theorem Sound.register (h : Sound b) (hf : f ∈ b.creating) (hundisturbed : b.Undisturbed f)
    (bound : Forward → Forward)
    (hbound : ∀ forward, (bound forward).sessionId = forward.sessionId ∧
      (bound forward).direction = forward.direction)
    {listening : List ℕ} (hlistening : ∀ g ∈ listening, g ∈ b.listening ∨
      g = f ∧ b.isRemote f = false) :
    Sound { b.register f bound with listening := listening } := by
  obtain ⟨sessionId, hmem, hsessionId, hremoving⟩ := hundisturbed
  have hsession : ∀ g, Backend.sessionOf { b.register f bound with listening := listening } g =
      b.sessionOf g := fun g => sessionOf_modify f fun forward => (hbound forward).1
  have hkind : ∀ g, Backend.isRemote { b.register f bound with listening := listening } g =
      b.isRemote g := fun g => isRemote_modify f fun forward => (hbound forward).2
  have hlength : ({ b.register f bound with listening := listening } : Backend).objects.length =
      b.objects.length := List.length_modify _ _ _
  refine ⟨⟨?_, ?_, ?_, ?_, ?_⟩, h.opened, h.swept, ?_, ?_, h.numbered, h.quiet, h.ended⟩
  · intro g hg
    rw [hlength]
    exact h.placed.creating g (mem_without.mp hg).1
  · intro g hg
    rw [hlength]
    rcases List.mem_append.mp hg with hold | hnew
    · obtain ⟨hlt, hcreating⟩ := h.placed.forwards g hold
      exact ⟨hlt, fun hg => hcreating (mem_without.mp hg).1⟩
    · rw [List.mem_singleton.mp hnew]
      exact ⟨h.placed.creating f hf, fun hg => (mem_without.mp hg).2 rfl⟩
  · intro g hg
    rw [hkind]
    rcases hlistening g hg with hold | ⟨rfl, hlocal⟩
    · obtain ⟨hforwards, hlocal⟩ := h.placed.listening g hold
      exact ⟨List.mem_append_left _ hforwards, hlocal⟩
    · exact ⟨List.mem_append_right _ (List.mem_singleton_self g), hlocal⟩
  · intro g hg
    rw [hkind]
    obtain ⟨hplace, hremote⟩ := h.placed.listeners g hg
    refine ⟨?_, hremote⟩
    rcases hplace with hcreating | hforwards
    · by_cases hgf : g = f
      · rw [hgf]
        exact .inr (List.mem_append_right _ (List.mem_singleton_self f))
      · exact .inl (mem_without.mpr ⟨hcreating, hgf⟩)
    · exact .inr (List.mem_append_left _ hforwards)
  · intro closing hclosing
    rw [hlength]
    obtain ⟨hlt, hcreating, hclosed, hunheard⟩ := h.placed.closings closing hclosing
    refine ⟨hlt, fun hg => hcreating (mem_without.mp hg).1, fun hg => ?_, hunheard⟩
    rcases hlistening _ hg with hold | ⟨heq, -⟩
    · exact hclosed hold
    · exact hcreating (heq ▸ hf)
  · intro g hg
    rw [hsession]
    rcases List.mem_append.mp hg with hold | hnew
    · exact h.inMap g hold
    · rw [List.mem_singleton.mp hnew]
      exact ⟨sessionId, hmem, hsessionId⟩
  · intro k sweep hsweep hunfinished hpurpose g hg
    rw [hsession]
    intro hsame
    rcases List.mem_append.mp hg with hold | hnew
    · exact h.covered k sweep hsweep hunfinished hpurpose g hold hsame
    · rw [List.mem_singleton.mp hnew, hsessionId] at hsame
      exact absurd ⟨sweep, List.mem_of_getElem? hsweep, (Option.some.inj hsame).symm, hpurpose,
        hunfinished⟩ hremoving

theorem Sound.creationFailed (h : Sound b) (f : ℕ) :
    Sound { b with creating := without f b.creating, listeners := without f b.listeners } := by
  refine ⟨⟨?_, ?_, h.placed.listening, ?_, ?_⟩, h.opened, h.swept, h.inMap, h.covered,
    h.numbered, h.quiet, h.ended⟩
  · exact fun g hg => h.placed.creating g (mem_without.mp hg).1
  · intro g hg
    obtain ⟨hlt, hcreating⟩ := h.placed.forwards g hg
    exact ⟨hlt, fun hg => hcreating (mem_without.mp hg).1⟩
  · intro g hg
    obtain ⟨hlistener, hne⟩ := mem_without.mp hg
    obtain ⟨hplace, hremote⟩ := h.placed.listeners g hlistener
    exact ⟨hplace.imp_left fun hcreating => mem_without.mpr ⟨hcreating, hne⟩, hremote⟩
  · intro closing hclosing
    obtain ⟨hlt, hcreating, hclosed, hunheard⟩ := h.placed.closings closing hclosing
    exact ⟨hlt, fun hg => hcreating (mem_without.mp hg).1, hclosed,
      fun hg => hunheard (mem_without.mp hg).1⟩

/-- A closing comes to its end, with the forward or without it. -/
theorem Sound.closed (h : Sound b) {closings : List Closing} {forwards : List ℕ}
    (hclosings : ∀ closing ∈ closings, closing ∈ b.closings)
    (hforwards : ∀ g ∈ forwards, g ∈ b.forwards)
    (hgone : ∀ g ∈ b.forwards, g ∉ forwards → ∃ closing ∈ b.closings, closing.forwardId = g)
    (hcovered : ∀ k sweep, b.sweeps[k]? = some sweep → sweep.purpose ≠ .clientClose →
      ∀ g ∈ forwards, ⟨g, some k⟩ ∈ b.closings → ⟨g, some k⟩ ∈ closings) :
    Sound { b with closings := closings, forwards := forwards } := by
  refine ⟨⟨h.placed.creating, fun g hg => h.placed.forwards g (hforwards g hg), ?_, ?_,
    fun closing hclosing => h.placed.closings closing (hclosings closing hclosing)⟩, h.opened,
    h.swept, fun g hg => h.inMap g (hforwards g hg), ?_, ?_, ?_, h.ended⟩
  · intro g hg
    obtain ⟨hentered, hlocal⟩ := h.placed.listening g hg
    refine ⟨?_, hlocal⟩
    by_contra hnot
    obtain ⟨closing, hclosing, rfl⟩ := hgone g hentered hnot
    exact (h.placed.closings closing hclosing).2.2.1 hg
  · intro g hg
    obtain ⟨hplace, hremote⟩ := h.placed.listeners g hg
    refine ⟨hplace.imp_right fun hentered => ?_, hremote⟩
    by_contra hnot
    obtain ⟨closing, hclosing, rfl⟩ := hgone g hentered hnot
    exact (h.placed.closings closing hclosing).2.2.2 hg
  · intro k sweep hsweep hunfinished hpurpose g hg hsession
    exact hcovered k sweep hsweep hpurpose g hg
      (h.covered k sweep hsweep hunfinished hpurpose g (hforwards g hg) hsession)
  · exact fun closing hclosing => h.numbered closing (hclosings closing hclosing)
  · exact fun closing hclosing => h.quiet closing (hclosings closing hclosing)

theorem Sound.drained (h : Sound b) (f : ℕ) : Sound (b.drained f) := by
  unfold Backend.drained
  split_ifs with hclose
  · obtain ⟨closing, hclosing, rfl⟩ := List.mem_map.mp hclose.2.1
    refine h.closed (fun other => List.mem_of_mem_filter) (fun g hg => (mem_without.mp hg).1) ?_ ?_
    · intro g hg hnot
      by_contra hother
      refine hnot (mem_without.mpr ⟨hg, fun heq => hother ⟨closing, hclosing, heq.symm⟩⟩)
    · intro k sweep _ _ g hg hcover
      exact List.mem_filter.mpr ⟨hcover, by simpa using (mem_without.mp hg).2⟩
  · exact h

theorem Sound.unforwarded (h : Sound b) (closing : Closing) (succeeded : Bool)
    (hremoval : succeeded = false → b.OfRemoval closing → closing.forwardId ∉ b.forwards) :
    Sound (b.unforwarded closing succeeded) := by
  unfold Backend.unforwarded
  split_ifs with hclose hsucceeded
  · refine h.closed (fun other => List.mem_of_mem_erase) (fun g hg => (mem_without.mp hg).1) ?_ ?_
    · intro g hg hnot
      by_contra hother
      exact hnot (mem_without.mpr ⟨hg, fun heq => hother ⟨closing, hclose.1, heq.symm⟩⟩)
    · intro k sweep _ _ g hg hcover
      refine (List.mem_erase_of_ne fun heq => ?_).mpr hcover
      exact (mem_without.mp hg).2 (congrArg Closing.forwardId heq)
  · refine h.closed (fun other => List.mem_of_mem_erase) (fun g hg => hg) ?_ ?_
    · exact fun g hg hnot => absurd hg hnot
    · intro k sweep hsweep hpurpose g hg hcover
      refine (List.mem_erase_of_ne fun heq => ?_).mpr hcover
      have hof : b.OfRemoval closing := ⟨k, by rw [← heq]; rfl, sweep, hsweep, hpurpose⟩
      have hgone := hremoval (Bool.not_eq_true _ ▸ hsucceeded) hof
      rw [← heq] at hgone
      exact hgone hg
  · exact h

/-- The caller of a sweep goes on, and may remove the session, of which no forward is entered. -/
theorem Sound.finished (h : Sound b) {k sessionId : ℕ} {purpose : Purpose}
    (hsweep : b.sweeps[k]? = some ⟨sessionId, purpose, false⟩) {sessions endedClients : List ℕ}
    (hsessions : ∀ other ∈ sessions, other ∈ b.sessions)
    (hended : ∀ other ∈ b.endedClients, other ∈ endedClients)
    (hkept : ∀ f ∈ b.forwards, ∀ other ∈ b.sessions, b.sessionOf f = some other →
      other ∈ sessions)
    (hremoved : purpose = .sessionDelete → sessionId ∉ sessions ∧ sessionId ∈ endedClients) :
    Sound { b with
      sweeps := b.sweeps.set k ⟨sessionId, purpose, true⟩
      sessions := sessions
      endedClients := endedClients } := by
  have hmem := List.mem_of_getElem? hsweep
  refine ⟨⟨h.placed.creating, h.placed.forwards, h.placed.listening, h.placed.listeners,
    h.placed.closings⟩, fun other hother => h.opened other (hsessions other hother), ?_, ?_, ?_,
    ?_, ?_, ?_⟩
  · intro sweep hset
    rcases List.mem_or_eq_of_mem_set hset with hold | rfl
    · exact h.swept sweep hold
    · exact h.swept ⟨sessionId, purpose, false⟩ hmem
  · intro f hf
    obtain ⟨other, hother, hsession⟩ := h.inMap f hf
    exact ⟨other, hkept f hf other hother hsession, hsession⟩
  · intro j sweep hset hunfinished hpurpose f hf hsession
    rcases Indexed.getElem?_set_some hset with ⟨-, rfl, -⟩ | ⟨-, hold⟩
    · cases hunfinished
    · exact h.covered j sweep hold hunfinished hpurpose f hf hsession
  · intro closing hclosing j hj
    rw [List.length_set]
    exact h.numbered closing hclosing j hj
  · intro closing hclosing j hj sweep hset hdelete
    rcases Indexed.getElem?_set_some hset with ⟨rfl, rfl, -⟩ | ⟨-, hold⟩
    · exact h.quiet closing hclosing j hj _ hsweep hdelete
    · exact h.quiet closing hclosing j hj sweep hold hdelete
  · intro sweep hset hdelete hfinished
    rcases List.mem_or_eq_of_mem_set hset with hold | rfl
    · obtain ⟨hgone, hclient⟩ := h.ended sweep hold hdelete hfinished
      exact ⟨fun hback => hgone (hsessions _ hback), hended _ hclient⟩
    · exact hremoved hdelete

theorem Sound.finish (h : Sound b) (k : ℕ) : Sound (b.finish k) := by
  unfold Backend.finish
  split
  · next sessionId purpose hsweep =>
    split_ifs with hwaiting hpurpose
    · exact h
    · exact h.finished hsweep (fun _ hother => hother) (fun _ hother => hother)
        (fun _ _ _ hother _ => hother) (fun hdelete => by rw [hpurpose] at hdelete; cases hdelete)
    · refine h.finished hsweep (fun other hother => (mem_without.mp hother).1)
        (fun other hother => List.mem_cons_of_mem _ hother) ?_
        fun _ => ⟨fun hmem => (mem_without.mp hmem).2 rfl, List.mem_cons_self⟩
      intro f hf other hother hsession
      refine mem_without.mpr ⟨hother, ?_⟩
      rintro rfl
      -- the sweep has a closing for every forward of its session, and none is left
      exact hwaiting (List.mem_map_of_mem (h.covered k _ hsweep rfl hpurpose f hf hsession))
  · exact h

theorem Placed.connections (h : Placed b) (connections : List ℕ) :
    Placed { b with connections := connections } :=
  ⟨h.creating, h.forwards, h.listening, h.listeners, h.closings⟩

theorem Sound.connect (h : Sound b) (f : ℕ) : Sound (b.connect f) := by
  unfold Backend.connect
  split_ifs with hlistening
  · refine ⟨h.placed.connections _, h.opened, h.swept, h.inMap, h.covered, h.numbered, ?_,
      h.ended⟩
    intro closing hclosing k hk sweep hsweep hdelete
    refine List.not_mem_cons_of_ne_of_not_mem (fun heq => ?_)
      (h.quiet closing hclosing k hk sweep hsweep hdelete)
    exact (h.placed.closings closing hclosing).2.2.1 (heq ▸ hlistening)
  · exact h

theorem Sound.disconnect (h : Sound b) (f : ℕ) : Sound (b.disconnect f) :=
  ⟨h.placed.connections _, h.opened, h.swept, h.inMap, h.covered, h.numbered,
    fun closing hclosing k hk sweep hsweep hdelete hmem =>
      h.quiet closing hclosing k hk sweep hsweep hdelete (List.mem_of_mem_erase hmem), h.ended⟩

theorem Sound.step (h : Sound b) {action : Action} (horderly : Orderly b action) :
    Sound (step b action) := by
  cases action with
  | createSession => exact h.createSshSession
  | createLocal request =>
    simp only [NodeForwards.step, Backend.createLocalForward]
    split_ifs
    · exact h.create _ fun f hf => .inl hf
    · exact h
  | createRemote request =>
    simp only [NodeForwards.step, Backend.createRemoteForward]
    split_ifs
    · refine h.create _ fun f hf => ?_
      rcases List.mem_append.mp hf with hold | hnew
      · exact .inl hold
      · exact .inr ⟨List.mem_singleton.mp hnew, rfl⟩
    · exact h
  | listened f boundPort =>
    simp only [NodeForwards.step, Backend.listened]
    split_ifs with hlistened
    · refine h.register hlistened.1 (horderly hlistened.1) (Backend.boundLocally boundPort)
        (fun _ => ⟨rfl, rfl⟩) fun g hg => ?_
      rcases List.mem_append.mp hg with hold | hnew
      · exact .inl hold
      · exact .inr ⟨List.mem_singleton.mp hnew, hlistened.2⟩
    · exact h
  | forwardedIn f boundPort =>
    simp only [NodeForwards.step, Backend.forwardedIn]
    split_ifs with hgranted
    · exact h.register hgranted.1 (horderly hgranted.1) (Backend.boundRemotely boundPort)
        (fun _ => ⟨rfl, rfl⟩) fun g hg => .inl hg
    · exact h
  | creationFailed f =>
    simp only [NodeForwards.step, Backend.creationFailed]
    split_ifs
    · exact h.creationFailed f
    · exact h
  | deleteForward f => exact h.deleteForward f
  | deleteSession sessionId =>
    simp only [NodeForwards.step, Backend.deleteSession]
    split_ifs with hmem
    · exact h.closeForwardsForSession (h.opened sessionId hmem) fun _ => horderly
    · exact h
  | streamClosed sessionId =>
    simp only [NodeForwards.step, Backend.streamClosed]
    split_ifs with hopened
    · exact h.closeForwardsForSession hopened nofun
    · exact h
  | clientClosed sessionId =>
    simp only [NodeForwards.step, Backend.clientClosed]
    split_ifs with hopened
    · exact h.closeForwardsForSession hopened nofun
    · exact h
  | connect f => exact h.connect f
  | disconnect f => exact h.disconnect f
  | drained f => exact h.drained f
  | unforwarded closing succeeded =>
    refine h.unforwarded closing succeeded fun hfailed => ?_
    subst hfailed
    exact horderly
  | finish k => exact h.finish k

end Steps

section Cleanup

/-- In every run of orderly steps a session that is gone leaves no forward, and a delete of a
session waits for no connection. -/
theorem forwards_cleanedUp_run (actions : List Action) (horderly : Allowed step Orderly .initial actions) :
    (run step .initial actions).NothingLeft ∧ (run step .initial actions).DeletesComplete := by
  have hsound : Sound (run step .initial actions) :=
    run_invariant (fun b action h horderly => h.step horderly) sound_initial horderly
  exact ⟨hsound.nothingLeft, hsound.deletesComplete⟩

def serviceForward : ForwardRequest where
  localHost := "127.0.0.1"
  localPort := 8080
  remoteHost := "10.0.0.5"
  remotePort := 80
  sessionId := 0

/-- A session with a local and a remote forward, which are created before it is deleted. -/
def deletedInOrder : List Action :=
  [.createSession, .createLocal serviceForward, .listened 0 (some 8080), .connect 0,
    .createRemote serviceForward, .forwardedIn 1 none, .disconnect 0, .deleteSession 0, .drained 0,
    .unforwarded ⟨1, some 0⟩ true, .finish 0]

theorem forwards_cleanedUp_run_deletedInOrder :
    (run step .initial deletedInOrder).NothingLeft ∧
      (run step .initial deletedInOrder).DeletesComplete :=
  forwards_cleanedUp_run deletedInOrder (by decide)

/-- The session is deleted before the server of its forward listens. -/
def listenedLate : List Action :=
  [.createSession, .createLocal serviceForward, .deleteSession 0, .finish 0,
    .listened 0 (some 8080)]

/-- The session is deleted with a connection open through its forward. -/
def deletedWhileConnected : List Action :=
  [.createSession, .createLocal serviceForward, .listened 0 (some 8080), .connect 0,
    .deleteSession 0]

/-- The first run leaves a forward that listens for a session that is gone, and the second a
delete that waits for a connection to end. -/
theorem not_cleanedUp :
    ¬(run step .initial listenedLate).NothingLeft ∧
      ¬(run step .initial deletedWhileConnected).DeletesComplete := by
  constructor
  · intro h
    have hquiescent : (run step .initial listenedLate).Quiescent := by
      unfold Backend.Quiescent
      decide
    exact absurd (h hquiescent 0 0 (by decide) (by decide)).1 (by decide)
  · intro h
    have hconnections : (run step .initial deletedWhileConnected).OnlyConnections := by
      refine ⟨by decide, by decide, fun k sweep hsweep _ => ?_⟩
      have hlength : k < 1 := (List.getElem?_eq_some_iff.mp hsweep).1
      obtain rfl : k = 0 := by omega
      decide
    exact absurd (h hconnections ⟨0, .sessionDelete, false⟩ (by decide) rfl) (by decide)

end Cleanup

end NodeForwards
