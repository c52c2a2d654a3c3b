import TerminalWorkspace.Foundation.Indexed
import TerminalWorkspace.NativeForwards.Creation

/-! When the registry of forwards tells the truth: in every run in which a forward is entered
before its reaper has run and before its session is swept, and a control session that fails
leaves no process behind. -/
namespace NativeForwards
open Runs OrderedMap Indexed

namespace World
variable (w : World)

/-- No creation, process end, deletion or closing is under way. -/
def Quiescent : Prop :=
  (∀ creation ∈ w.creations, creation.stage = .answered ∧
    (creation.reaperWaiting → creation.running) ∧ (creation.signalled → ¬ creation.running)) ∧
  w.closings = [] ∧ w.kills = []

/-- The session a forward belongs to, if its process runs and the session is registered. -/
def liveSession (forwardId : ℕ) : Option String :=
  (w.creations[forwardId]?).bind fun creation =>
    if creation.running ∧ creation.payload.sessionId ∈ w.sessions then
      some creation.payload.sessionId
    else none

/-- The registry holds exactly the forwards whose process runs and whose session is
registered, each under its session. -/
def Consistent : Prop :=
  ∀ forwardId, (w.forwards.get? forwardId).map (·.sessionId) = w.liveSession forwardId

/-- The session is registered and nothing is closing it. -/
def Undisturbed (sessionId : String) : Prop :=
  sessionId ∈ w.sessions ∧ ∀ closing ∈ w.closings, closing.sessionId ≠ sessionId

/-- A sweep of the session has yet to collect the ids of its forwards. -/
def AwaitsListing (sessionId : String) : Prop :=
  ∃ closing ∈ w.closings, closing.sessionId = sessionId ∧ closing.sweep = .listing

/-- A sweep of the session will come to this forward. -/
def Covered (forwardId : ℕ) (sessionId : String) : Prop :=
  ∃ closing ∈ w.closings, closing.sessionId = sessionId ∧
    (closing.sweep = .listing ∨ ∃ ids, closing.sweep = .removing ids ∧ forwardId ∈ ids)

instance : Decidable w.Quiescent := inferInstanceAs (Decidable (_ ∧ _))

instance (sessionId : String) : Decidable (w.Undisturbed sessionId) :=
  inferInstanceAs (Decidable (_ ∧ _))

instance (sessionId : String) : Decidable (w.AwaitsListing sessionId) :=
  inferInstanceAs (Decidable (∃ closing ∈ w.closings, _))

end World

/-- An insertion comes before the reaper's removal, and before the session's sweep has
collected its ids; a control session that fails leaves no process running. -/
def InTime (w : World) : Action → Prop
  | .insert f =>
    match w.creations[f]? with
    | some ⟨payload, .inserting _, _, _, reaperWaiting⟩ =>
      reaperWaiting = true ∧
        (w.AwaitsListing payload.sessionId ∨ w.Undisturbed payload.sessionId)
    | _ => True
  | .controlFailed _ leftRunning => leftRunning = false
  | _ => True

instance (w : World) (action : Action) : Decidable (InTime w action) := by
  unfold InTime
  repeat' split
  all_goals infer_instance

def Stage.record? : Stage → Option PortForwardRecord
  | .recorded record => some record
  | .inserting record => some record
  | _ => none

/-- What holds in every state of a run whose insertions are in time. -/
structure Sound (w : World) : Prop where
  entry : ∀ (f : ℕ) record, w.forwards.get? f = some record → ∃ creation,
    w.creations[f]? = some creation ∧ creation.stage = .answered ∧
      creation.reaperWaiting = true ∧ record.sessionId = creation.payload.sessionId
  record : ∀ (f : ℕ) creation record, w.creations[f]? = some creation →
    creation.stage.record? = some record → record.sessionId = creation.payload.sessionId
  tracked : ∀ (f : ℕ) creation, w.creations[f]? = some creation → creation.stage = .answered →
    creation.running = true →
      (w.forwards.get? f).isSome ∨ f ∈ w.kills ∨ creation.signalled = true
  swept : ∀ (f : ℕ) record, w.forwards.get? f = some record →
    w.Covered f record.sessionId ∨ w.Undisturbed record.sessionId

theorem sound_initial : Sound .initial where
  entry _ _ h := nomatch h
  record _ _ _ h := nomatch h
  tracked _ _ h := nomatch h
  swept _ _ h := nomatch h

/-- With nothing under way the invariant is the consistency of the registry. -/
theorem Sound.consistent {w : World} (h : Sound w) (hquiescent : w.Quiescent) :
    w.Consistent := by
  obtain ⟨hcreations, hclosings, hkills⟩ := hquiescent
  intro f
  cases hget : w.forwards.get? f with
  | some record =>
    obtain ⟨creation, hcreation, -, hwaiting, hsession⟩ := h.entry f record hget
    have hrunning := (hcreations creation (List.mem_of_getElem? hcreation)).2.1 hwaiting
    have hregistered : record.sessionId ∈ w.sessions := by
      rcases h.swept f record hget with ⟨closing, hmem, -⟩ | hundisturbed
      · rw [hclosings] at hmem
        cases hmem
      · exact hundisturbed.1
    rw [hsession] at hregistered
    simp [World.liveSession, hcreation, hrunning, hregistered, hsession]
  | none =>
    cases hcreation : w.creations[f]? with
    | none => simp [World.liveSession, hcreation]
    | some creation =>
      obtain ⟨hanswered, -, hsignalled⟩ :=
        hcreations creation (List.mem_of_getElem? hcreation)
      have hstopped : creation.running = false := by
        by_contra hrunning
        rw [Bool.not_eq_false] at hrunning
        rcases h.tracked f creation hcreation hanswered hrunning with hentry | hkill | hsignal
        · rw [hget] at hentry
          cases hentry
        · rw [hkills] at hkill
          cases hkill
        · exact hsignalled hsignal hrunning
      simp [World.liveSession, hcreation, hstopped]

/-- A change of one creation that leaves the registries alone. -/
theorem Sound.setCreation {w : World} (h : Sound w) {f : ℕ} {creation next : Creation}
    (hcreation : w.creations[f]? = some creation) (hpayload : next.payload = creation.payload)
    (hentry : creation.stage = .answered → creation.reaperWaiting = true →
      next.stage = .answered ∧ next.reaperWaiting = true)
    (hrecord : ∀ record, next.stage.record? = some record →
      record.sessionId = creation.payload.sessionId)
    (htracked : next.stage = .answered → next.running = true →
      (w.forwards.get? f).isSome ∨ f ∈ w.kills ∨ next.signalled = true) :
    Sound (w.setCreation f next) := by
  constructor
  · intro g record hget
    obtain ⟨old, hold, hanswered, hwaiting, hsession⟩ := h.entry g record hget
    by_cases hg : f = g
    · subst hg
      obtain rfl : creation = old := Option.some_inj.mp (hcreation.symm.trans hold)
      obtain ⟨hanswered', hwaiting'⟩ := hentry hanswered hwaiting
      exact ⟨next, getElem?_set_self_of_some hold next, hanswered', hwaiting',
        hsession.trans (by rw [hpayload])⟩
    · exact ⟨old, (List.getElem?_set_ne hg).trans hold, hanswered, hwaiting, hsession⟩
  · intro g old record hold hrec
    rcases getElem?_set_some hold with ⟨rfl, rfl, -⟩ | ⟨-, hold⟩
    · rw [hpayload]
      exact hrecord record hrec
    · exact h.record g old record hold hrec
  · intro g old hold hanswered hrunning
    rcases getElem?_set_some hold with ⟨rfl, rfl, -⟩ | ⟨-, hold⟩
    · exact htracked hanswered hrunning
    · exact h.tracked g old hold hanswered hrunning
  · exact h.swept

/-- Taking a forward out of the registry leaves its process to be killed. -/
theorem Sound.takeNativeForward {w : World} (h : Sound w) (f : ℕ) :
    Sound (w.takeNativeForward f) := by
  cases hget : w.forwards.get? f with
  | none => simpa only [World.takeNativeForward, hget] using h
  | some record =>
    simp only [World.takeNativeForward, hget]
    have hother : ∀ {g : ℕ} {record}, (w.forwards.erase f).get? g = some record →
        w.forwards.get? g = some record := by
      intro g record hg
      rw [get?_erase] at hg
      split_ifs at hg
      exact hg
    constructor
    · exact fun g record hg => h.entry g record (hother hg)
    · exact h.record
    · intro g creation hcreation hanswered hrunning
      simp only [get?_erase, List.mem_cons]
      by_cases hg : g = f
      · exact .inr (.inl (.inl hg))
      · rw [if_neg hg]
        rcases h.tracked g creation hcreation hanswered hrunning with hentry | hkill | hsignal
        · exact .inl hentry
        · exact .inr (.inl (.inr hkill))
        · exact .inr (.inr hsignal)
    · exact fun g record hg => h.swept g record (hother hg)

/-- A change of the closings and the registered sessions after which every forward that was
to be swept, or was undisturbed, still is. -/
theorem Sound.withClosings {w : World} (h : Sound w) (sessions : List String)
    (closings : List Closing)
    (hswept : ∀ f record, w.forwards.get? f = some record →
      w.Covered f record.sessionId ∨ w.Undisturbed record.sessionId →
      { w with sessions := sessions, closings := closings }.Covered f record.sessionId ∨
        { w with sessions := sessions, closings := closings }.Undisturbed record.sessionId) :
    Sound { w with sessions := sessions, closings := closings } where
  entry := h.entry
  record := h.record
  tracked := h.tracked
  swept f record hget := hswept f record hget (h.swept f record hget)

/-- A creation's own thread, its process and its reaper keep what the registry relies on. -/
theorem Sound.thread {w : World} (h : Sound w) {f : ℕ} {creation : Creation}
    (hcreation : w.creations[f]? = some creation) (action : Action)
    (hkill : ∀ g, action ≠ .kill g) (hfailed : ∀ g, action ≠ .controlFailed g true) :
    Sound (w.setCreation f (creation.step f action)) := by
  have hrecord := h.record f creation
  have htracked := h.tracked f creation hcreation
  -- an action that does not fit the stage changes nothing
  have hrefused : Sound (w.setCreation f creation) :=
    h.setCreation hcreation rfl (fun h₁ h₂ => ⟨h₁, h₂⟩) (fun record => hrecord record hcreation)
      htracked
  obtain ⟨payload, stage, running, signalled, reaperWaiting⟩ := creation
  cases action with
  | controlOpened g =>
    simp only [Creation.step]
    split_ifs with hstage
    · subst hstage
      exact h.setCreation hcreation rfl nofun nofun nofun
    · exact hrefused
  | controlFailed g leftRunning =>
    have hleft : leftRunning = false := Bool.eq_false_iff.mpr fun hleft => hfailed g (hleft ▸ rfl)
    subst hleft
    simp only [Creation.step]
    split_ifs with hstage
    · subst hstage
      exact h.setCreation hcreation rfl nofun nofun nofun
    · exact hrefused
  | commandAnswered g output =>
    simp only [Creation.step]
    split_ifs with hstage
    · subst hstage
      have hshape : World.afterForwardCommand f payload output = .discarding ∨
          ∃ port, World.afterForwardCommand f payload output =
            .recorded (World.forwardRecord f payload port) := by
        cases output with
        | error message => exact .inl rfl
        | ok output =>
          simp only [World.afterForwardCommand]
          split_ifs
          · split
            · exact .inr ⟨_, rfl⟩
            · exact .inl rfl
          · exact .inr ⟨_, rfl⟩
      rcases hshape with hshape | ⟨port, hshape⟩ <;> rw [hshape]
      · exact h.setCreation hcreation rfl nofun nofun nofun
      · refine h.setCreation hcreation rfl nofun (fun record hrec => ?_) nofun
        obtain rfl := Option.some_inj.mp hrec
        rfl
    · exact hrefused
  | discard g =>
    simp only [Creation.step]
    split_ifs with hstage
    · subst hstage
      exact h.setCreation hcreation rfl nofun nofun nofun
    · exact hrefused
  | spawnReaper g =>
    cases stage with
    | recorded record =>
      exact h.setCreation hcreation rfl nofun (fun _ => hrecord _ hcreation) nofun
    | _ => exact hrefused
  | exit g =>
    exact h.setCreation hcreation rfl (fun h₁ h₂ => ⟨h₁, h₂⟩)
      (fun record => hrecord record hcreation) nofun
  | kill g => exact absurd rfl (hkill g)
  | _ => exact hrefused

/-- An insertion in time. -/
theorem Sound.insert {w : World} (h : Sound w) {f : ℕ} {payload : CreateForwardPayload}
    {record : PortForwardRecord} {running signalled : Bool}
    (hcreation : w.creations[f]? = some ⟨payload, .inserting record, running, signalled, true⟩)
    (hswept : w.AwaitsListing payload.sessionId ∨ w.Undisturbed payload.sessionId) :
    Sound ((w.setCreation f ⟨payload, .answered, running, signalled, true⟩).insertNativeForward
      f record) := by
  have hsession : record.sessionId = payload.sessionId := h.record f _ record hcreation rfl
  constructor
  · intro g other hget
    simp only [World.insertNativeForward, World.setCreation, get?_set] at hget ⊢
    split_ifs at hget with hg
    · subst hg
      obtain rfl := Option.some_inj.mp hget
      exact ⟨_, getElem?_set_self_of_some hcreation _, rfl, rfl, hsession⟩
    · obtain ⟨old, hold, hrest⟩ := h.entry g other hget
      exact ⟨old, (List.getElem?_set_ne (Ne.symm hg)).trans hold, hrest⟩
  · intro g old other hold hrec
    rcases getElem?_set_some hold with ⟨rfl, rfl, -⟩ | ⟨-, hold⟩
    · cases hrec
    · exact h.record g old other hold hrec
  · intro g old hold hanswered hrunning
    simp only [World.insertNativeForward, World.setCreation, get?_set]
    rcases getElem?_set_some hold with ⟨rfl, rfl, -⟩ | ⟨hg, hold⟩
    · exact .inl (by rw [if_pos rfl]; rfl)
    · rw [if_neg hg]
      exact h.tracked g old hold hanswered hrunning
  · intro g other hget
    simp only [World.insertNativeForward, World.setCreation, get?_set] at hget
    split_ifs at hget with hg
    · obtain rfl := Option.some_inj.mp hget
      rw [hsession]
      rcases hswept with ⟨closing, hmem, hclosing, hlisting⟩ | hundisturbed
      · exact .inl ⟨closing, hmem, hclosing, .inl hlisting⟩
      · exact .inr hundisturbed
    · exact h.swept g other hget

/-- The reaper of a forward whose process has ended. -/
theorem Sound.reap {w : World} (h : Sound w) {f : ℕ} {creation : Creation}
    (hcreation : w.creations[f]? = some creation) (hstopped : creation.running = false) :
    Sound { w.setCreation f { creation with reaperWaiting := false } with
      forwards := w.forwards.erase f } := by
  have hother : ∀ {g : ℕ} {record}, (w.forwards.erase f).get? g = some record →
      g ≠ f ∧ w.forwards.get? g = some record := by
    intro g record hg
    rw [get?_erase] at hg
    split_ifs at hg with hgf
    exact ⟨hgf, hg⟩
  constructor
  · intro g record hget
    obtain ⟨hg, hget⟩ := hother hget
    obtain ⟨old, hold, hrest⟩ := h.entry g record hget
    exact ⟨old, (List.getElem?_set_ne (Ne.symm hg)).trans hold, hrest⟩
  · intro g old record hold hrec
    rcases getElem?_set_some hold with ⟨rfl, rfl, -⟩ | ⟨-, hold⟩
    · exact h.record g creation record hcreation hrec
    · exact h.record g old record hold hrec
  · intro g old hold hanswered hrunning
    rcases getElem?_set_some hold with ⟨rfl, rfl, -⟩ | ⟨hg, hold⟩
    · rw [hstopped] at hrunning
      cases hrunning
    · simp only [get?_erase, if_neg hg]
      exact h.tracked g old hold hanswered hrunning
  · exact fun g record hget => h.swept g record (hother hget).2

/-- A signalled process is no longer in `kills`. -/
theorem Sound.kill {w : World} (h : Sound w) {f : ℕ} {creation : Creation}
    (hcreation : w.creations[f]? = some creation) :
    Sound { w.setCreation f { creation with signalled := true } with
      kills := w.kills.erase f } := by
  have hset : Sound (w.setCreation f { creation with signalled := true }) :=
    h.setCreation hcreation rfl (fun h₁ h₂ => ⟨h₁, h₂⟩)
      (fun record => h.record f creation record hcreation) (fun _ _ => .inr (.inr rfl))
  constructor
  · exact hset.entry
  · exact hset.record
  · intro g old hold hanswered hrunning
    rcases hset.tracked g old hold hanswered hrunning with hentry | hkill | hsignal
    · exact .inl hentry
    · by_cases hg : g = f
      · subst hg
        have hself := getElem?_set_self_of_some hcreation { creation with signalled := true }
        obtain rfl := Option.some_inj.mp (hself.symm.trans hold)
        exact .inr (.inr rfl)
      · exact .inr (.inl ((List.mem_erase_of_ne hg).mpr hkill))
    · exact .inr (.inr hsignal)
  · exact hset.swept

/-- A closing that begins covers the forwards of its session. -/
theorem Sound.beginClosing {w : World} (h : Sound w) (sessions : List String) (sessionId : String)
    (closedBy : ClosedBy)
    (hsessions : ∀ other ∈ w.sessions, other ≠ sessionId → other ∈ sessions) :
    Sound ({ w with sessions := sessions }.beginClosing sessionId closedBy) := by
  apply h.withClosings
  intro f record _ hswept
  by_cases hsession : record.sessionId = sessionId
  · refine .inl ⟨⟨sessionId, closedBy, .listing⟩, ?_, hsession.symm, .inl rfl⟩
    exact List.mem_append_right _ List.mem_cons_self
  · rcases hswept with ⟨closing, hmem, hrest⟩ | ⟨hregistered, hclosings⟩
    · exact .inl ⟨closing, List.mem_append_left _ hmem, hrest⟩
    · refine .inr ⟨hsessions _ hregistered hsession, fun closing hmem => ?_⟩
      rcases List.mem_append.mp hmem with hmem | hmem
      · exact hclosings closing hmem
      · obtain rfl := List.mem_singleton.mp hmem
        exact Ne.symm hsession

/-- A closing takes a step after which it still covers what is entered for its session. -/
theorem Sound.setClosing {w : World} (h : Sound w) {c : ℕ} {closing : Closing}
    (hclosing : w.closings[c]? = some closing) (sweep : Sweep)
    (hcovers : ∀ f record, w.forwards.get? f = some record →
      record.sessionId = closing.sessionId →
      (closing.sweep = .listing ∨ ∃ ids, closing.sweep = .removing ids ∧ f ∈ ids) →
      ∃ ids, sweep = .removing ids ∧ f ∈ ids) :
    Sound { w with
      closings := w.closings.set c ⟨closing.sessionId, closing.closedBy, sweep⟩ } := by
  have hlength := (List.getElem?_eq_some_iff.mp hclosing).1
  apply h.withClosings w.sessions
  intro f record hget hswept
  rcases hswept with ⟨other, hmem, hother, hsweep⟩ | ⟨hregistered, hclosings⟩
  · rcases mem_set_of_mem hclosing ⟨closing.sessionId, closing.closedBy, sweep⟩ hmem with
      rfl | hmem
    · exact .inl ⟨_, List.mem_set hlength _, hother,
        .inr (hcovers f record hget hother.symm hsweep)⟩
    · exact .inl ⟨other, hmem, hother, hsweep⟩
  · refine .inr ⟨hregistered, fun other hmem => ?_⟩
    rcases List.mem_or_eq_of_mem_set hmem with hmem | rfl
    · exact hclosings other hmem
    · exact hclosings closing (List.mem_of_getElem? hclosing)

theorem Sound.list {w : World} (h : Sound w) {c : ℕ} {sessionId : String} {closedBy : ClosedBy}
    (hclosing : w.closings[c]? = some ⟨sessionId, closedBy, .listing⟩) :
    Sound { w with closings :=
      w.closings.set c ⟨sessionId, closedBy, .removing (w.forwardIds sessionId)⟩ } := by
  apply h.setClosing hclosing
  intro f record hget hsession _
  refine ⟨_, rfl, List.mem_map.mpr ⟨(f, record), List.mem_filter.mpr ⟨get?_mem hget, ?_⟩, rfl⟩⟩
  exact decide_eq_true hsession

theorem Sound.removeNext {w : World} (h : Sound w) {c f : ℕ} {sessionId : String}
    {closedBy : ClosedBy} {rest : List ℕ}
    (hclosing : w.closings[c]? = some ⟨sessionId, closedBy, .removing (f :: rest)⟩) :
    Sound ({ w with closings := w.closings.set c ⟨sessionId, closedBy, .removing rest⟩
      }.takeNativeForward f) := by
  have htaken : (w.takeNativeForward f).closings = w.closings := by
    simp only [World.takeNativeForward]
    split <;> rfl
  have hgone : (w.takeNativeForward f).forwards.get? f = none := by
    simp only [World.takeNativeForward]
    split
    · assumption
    · exact (get?_erase _ _ _).trans (if_pos rfl)
  have hset := (h.takeNativeForward f).setClosing (htaken ▸ hclosing) (.removing rest)
    fun g record hget _ hsweep => by
      rcases hsweep with hlisting | ⟨ids, hids, hmem⟩
      · cases hlisting
      · obtain rfl := Sweep.removing.inj hids
        rcases List.mem_cons.mp hmem with rfl | hrest
        · rw [hgone] at hget
          cases hget
        · exact ⟨rest, rfl, hrest⟩
  rw [htaken] at hset
  convert hset using 1
  simp only [World.takeNativeForward]
  split <;> rfl

/-- A closing ends when it has nothing left to remove. -/
theorem Sound.finish {w : World} (h : Sound w) {c : ℕ} {sessionId : String} {closedBy : ClosedBy}
    (hclosing : w.closings[c]? = some ⟨sessionId, closedBy, .removing []⟩)
    (sessions : List String)
    (hsessions : ∀ other ∈ w.sessions, other ≠ sessionId → other ∈ sessions) :
    Sound { w with sessions := sessions, closings := w.closings.eraseIdx c } := by
  apply h.withClosings
  intro f record _ hswept
  rcases hswept with ⟨other, hmem, hother, hsweep⟩ | ⟨hregistered, hclosings⟩
  · rcases mem_eraseIdx_of_mem hclosing hmem with rfl | hmem
    · rcases hsweep with hlisting | ⟨ids, hids, hf⟩
      · cases hlisting
      · obtain rfl := Sweep.removing.inj hids
        cases hf
    · exact .inl ⟨other, hmem, hother, hsweep⟩
  · have hne := hclosings _ (List.mem_of_getElem? hclosing)
    exact .inr ⟨hsessions _ hregistered (Ne.symm hne),
      fun other hmem => hclosings other (List.mem_of_mem_eraseIdx hmem)⟩

theorem Sound.create {w : World} (h : Sound w) (payload : CreateForwardPayload) :
    Sound (w.createNativeForward payload) := by
  simp only [World.createNativeForward]
  split
  · exact h
  · split_ifs
    · constructor
      · intro f record hget
        obtain ⟨creation, hcreation, hrest⟩ := h.entry f record hget
        exact ⟨creation, getElem?_concat_of_some hcreation, hrest⟩
      · intro f creation record hcreation hrec
        rcases getElem?_concat_some hcreation with hold | ⟨-, rfl⟩
        · exact h.record f creation record hold hrec
        · cases hrec
      · intro f creation hcreation hanswered hrunning
        rcases getElem?_concat_some hcreation with hold | ⟨-, rfl⟩
        · exact h.tracked f creation hold hanswered hrunning
        · cases hanswered
      · exact h.swept
    · exact h

/-- Every step in time keeps the invariant. -/
theorem Sound.step {w : World} (h : Sound w) {action : Action} (htime : InTime w action) :
    Sound (step w action) := by
  cases action with
  | openSession sessionId =>
    refine h.withClosings (sessionId :: w.sessions) w.closings fun f record _ hswept => ?_
    exact hswept.imp id fun hu => ⟨List.mem_cons_of_mem _ hu.1, hu.2⟩
  | create payload => exact h.create payload
  | controlOpened f | commandAnswered f output | discard f | spawnReaper f | exit f =>
    simp only [NativeForwards.step]
    split
    · exact h
    · next hcreation => exact h.thread hcreation _ nofun nofun
  | controlFailed f leftRunning =>
    obtain rfl : leftRunning = false := htime
    simp only [NativeForwards.step]
    split
    · exact h
    · next hcreation => exact h.thread hcreation _ nofun nofun
  | insert f =>
    simp only [NativeForwards.step]
    split
    · next hcreation =>
      simp only [InTime, hcreation] at htime
      obtain ⟨rfl, hswept⟩ := htime
      exact h.insert hcreation hswept
    · exact h
  | reap f =>
    simp only [NativeForwards.step]
    split
    · exact h
    · next hcreation =>
      split_ifs with hreap
      · exact h.reap hcreation (Bool.eq_false_iff.mpr hreap.2)
      · exact h
  | delete f => exact h.takeNativeForward f
  | kill f =>
    simp only [NativeForwards.step]
    split
    · exact h
    · next hcreation =>
      split_ifs
      · exact h.kill hcreation
      · exact h
  | closeSession sessionId =>
    simp only [NativeForwards.step]
    split_ifs
    · exact h.beginClosing _ sessionId .command fun other hmem hne =>
        List.mem_filter.mpr ⟨hmem, decide_eq_true hne⟩
    · exact h
  | endWorker sessionId =>
    exact h.beginClosing w.sessions sessionId .worker fun other hmem _ => hmem
  | list c =>
    simp only [NativeForwards.step]
    split
    · next hclosing => exact h.list hclosing
    · exact h
  | removeNext c =>
    simp only [NativeForwards.step]
    split
    · next hclosing => exact h.removeNext hclosing
    · exact h
  | finish c =>
    simp only [NativeForwards.step]
    split
    · next sessionId closedBy hclosing =>
      apply h.finish hclosing
      intro other hmem hne
      cases closedBy with
      | command => exact hmem
      | worker => exact List.mem_filter.mpr ⟨hmem, decide_eq_true hne⟩
    · exact h

/-- In a run whose insertions are in time the registry is consistent whenever nothing is under
way. -/
theorem consistent_run (actions : List Action)
    (htime : Allowed step InTime .initial actions)
    (hquiescent : (run step .initial actions).Quiescent) :
    (run step .initial actions).Consistent :=
  (run_invariant (fun _ _ hsound hstep => hsound.step hstep) sound_initial htime).consistent
    hquiescent

def samplePayload : CreateForwardPayload where
  direction := "local"
  localHost := "127.0.0.1"
  localPort := 8080
  remoteHost := "10.0.0.5"
  remotePort := 80
  sessionId := "native-1"

/-- A forward is created, and its session is closed once it is entered. -/
def closedForward : List Action :=
  [.openSession "native-1", .create samplePayload, .controlOpened 0, .commandAnswered 0 (.ok ""),
    .spawnReaper 0, .insert 0, .closeSession "native-1", .list 0, .removeNext 0, .finish 0,
    .kill 0, .exit 0, .reap 0]

theorem consistent_run_closedForward : (run step .initial closedForward).Consistent :=
  consistent_run closedForward (by decide +kernel) (by decide +kernel)

/-- The process ends and the reaper runs before the forward is entered. -/
def reapedFirst : List Action :=
  [.openSession "native-1", .create samplePayload, .controlOpened 0, .commandAnswered 0 (.ok ""),
    .spawnReaper 0, .exit 0, .reap 0, .insert 0]

/-- The session is closed, and swept, before the forward is entered. -/
def sweptFirst : List Action :=
  [.openSession "native-1", .create samplePayload, .controlOpened 0, .commandAnswered 0 (.ok ""),
    .spawnReaper 0, .closeSession "native-1", .list 0, .finish 0, .insert 0]

/-- The first run leaves an entry for a dead process, the second a process that outlives its
session. -/
theorem not_consistent_of_late_insertion :
    ((run step .initial reapedFirst).Quiescent ∧ ¬ (run step .initial reapedFirst).Consistent) ∧
      ((run step .initial sweptFirst).Quiescent ∧ ¬ (run step .initial sweptFirst).Consistent) :=
  ⟨⟨by decide +kernel, fun h => absurd (h 0) (by decide +kernel)⟩,
    ⟨by decide +kernel, fun h => absurd (h 0) (by decide +kernel)⟩⟩

end NativeForwards
