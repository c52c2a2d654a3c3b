import Mathlib.Data.List.Basic
import TerminalWorkspace.Foundation.Runs

/-! Input that a worker writes to its session: all of it, with a deadline on the time in which
the session takes nothing. -/
namespace SessionWorker
open EndedRuns

def nativeSessionPollIntervalMs : ℕ := 10

inductive ErrorKind where
  | wouldBlock
  | interrupted
  | other (name : String)
  deriving DecidableEq, Repr

structure IoError where
  kind : ErrorKind
  text : String
  deriving DecidableEq, Repr

/-- A writer and the clock beside it. A write answers how many bytes it took, of those it was
given; instants and durations are in nanoseconds. -/
structure WriterClock (σ : Type*) where
  write : σ → (buffer : List UInt8) → Except IoError (Fin (buffer.length + 1)) × σ
  flush : σ → Except IoError Unit × σ
  now : σ → ℕ × σ
  sleep : ℕ → σ → σ

inductive WriteEvent where
  | write (buffer : List UInt8) (answer : Except IoError ℕ)
  | flush (answer : Except IoError Unit)
  | now (reading : ℕ)
  | sleep
  deriving DecidableEq

inductive WritePhase where
  | writing
  | flushing (flushStart : ℕ)
  | returned (result : Except String Unit)
  deriving DecidableEq

/-- A call between two rounds of its loops, with all it has done so far. -/
structure WriteCall (σ : Type*) where
  world : σ
  written : ℕ
  lastProgress : ℕ
  phase : WritePhase
  log : List WriteEvent

def asMillis (duration : ℕ) : ℕ := duration / 1000000

def timedOutWriting (idleDeadline : ℕ) : String :=
  "Timed out writing to the SSH session: no progress for " ++ toString (asMillis idleDeadline) ++
    "ms; the remote stopped accepting input."

def timedOutFlushing (idleDeadline : ℕ) : String :=
  "Timed out flushing the SSH session after " ++ toString (asMillis idleDeadline) ++
    "ms; the remote stopped accepting input."

section Call
variable {σ : Type*} (c : WriterClock σ) (input : List UInt8) (idleDeadline : ℕ)

def WriteCall.start (world : σ) : WriteCall σ :=
  let now := c.now world
  { world := now.2, written := 0, lastProgress := now.1, phase := .writing, log := [.now now.1] }

/-- What both loops do when an attempt would block. -/
def WriteCall.retry (s : WriteCall σ) (attempt : WriteEvent) (since : ℕ) (timedOut : String)
    (world : σ) : WriteCall σ :=
  let now := c.now world
  if idleDeadline ≤ now.1 - since then
    { s with
      world := now.2
      phase := .returned (.error timedOut)
      log := s.log ++ [attempt, .now now.1] }
  else
    { s with
      world := c.sleep nativeSessionPollIntervalMs now.2
      log := s.log ++ [attempt, .now now.1, .sleep] }

/-- One round of `while written < input.len()`, or what follows it. -/
def WriteCall.writeRound (s : WriteCall σ) : WriteCall σ :=
  if s.written < input.length then
    let buffer := input.drop s.written
    let answer := c.write s.world buffer
    let attempt := WriteEvent.write buffer (answer.1.map Fin.val)
    match answer.1 with
    | .ok count =>
      if count.val = 0 then
        { s with
          world := answer.2
          phase := .returned (.error "SSH session is closed")
          log := s.log ++ [attempt] }
      else
        let now := c.now answer.2
        { s with
          world := now.2
          written := s.written + count
          lastProgress := now.1
          log := s.log ++ [attempt, .now now.1] }
    | .error error =>
      if error.kind = .wouldBlock then
        s.retry c idleDeadline attempt s.lastProgress (timedOutWriting idleDeadline) answer.2
      else
        { s with
          world := answer.2
          phase := .returned (.error error.text)
          log := s.log ++ [attempt] }
  else
    let now := c.now s.world
    { s with world := now.2, phase := .flushing now.1, log := s.log ++ [.now now.1] }

/-- One round of the loop around `writer.flush()`. -/
def WriteCall.flushRound (s : WriteCall σ) (flushStart : ℕ) : WriteCall σ :=
  let answer := c.flush s.world
  match answer.1 with
  | .ok () =>
    { s with
      world := answer.2
      phase := .returned (.ok ())
      log := s.log ++ [.flush answer.1] }
  | .error error =>
    if error.kind = .wouldBlock then
      s.retry c idleDeadline (.flush answer.1) flushStart (timedOutFlushing idleDeadline) answer.2
    else
      { s with
        world := answer.2
        phase := .returned (.error error.text)
        log := s.log ++ [.flush answer.1] }

def WriteCall.step (s : WriteCall σ) : WriteCall σ :=
  match s.phase with
  | .writing => s.writeRound c input idleDeadline
  | .flushing flushStart => s.flushRound c idleDeadline flushStart
  | .returned _ => s

/-- The call after as many rounds. -/
def writeAllWithDeadline (world : σ) (rounds : ℕ) : WriteCall σ :=
  (WriteCall.step c input idleDeadline)^[rounds] (.start c world)

end Call

/-! ## What was written -/

/-- The bytes the writer took, in the order in which it took them. -/
def accepted (log : List WriteEvent) : List UInt8 :=
  log.flatMap fun event =>
    match event with
    | .write buffer (.ok count) => buffer.take count
    | _ => []

/-- The reading to count from, and whether the next reading takes its place. -/
def note (since : ℕ × Bool) : WriteEvent → ℕ × Bool
  | .write _ (.ok count) => (since.1, since.2 || count != 0)
  | .now reading => if since.2 then (reading, false) else since
  | _ => since

/-- The first reading after the last byte the writer took, or the first of all. -/
def idleSince (log : List WriteEvent) : ℕ := (log.foldl note (0, true)).1

/-- An event by which the writer takes nothing. -/
def WriteEvent.Quiet (event : WriteEvent) : Prop :=
  ∀ buffer count, event = .write buffer (.ok count) → count = 0

theorem accepted_append (log events : List WriteEvent) :
    accepted (log ++ events) = accepted log ++ accepted events := List.flatMap_append

theorem accepted_quiet {events : List WriteEvent} (h : ∀ event ∈ events, event.Quiet) :
    accepted events = [] := by
  refine List.flatMap_eq_nil_iff.mpr fun event hevent => ?_
  rcases event with ⟨buffer, _ | count⟩ | _ | _ | _
  · rfl
  · rw [h _ hevent buffer count rfl]
    rfl
  · rfl
  · rfl
  · rfl

theorem note_quiet {events : List WriteEvent} (h : ∀ event ∈ events, event.Quiet) (since : ℕ) :
    events.foldl note (since, false) = (since, false) := by
  induction events with
  | nil => rfl
  | cons event events ih =>
    have hone : note (since, false) event = (since, false) := by
      rcases event with ⟨buffer, _ | count⟩ | _ | _ | _
      · rfl
      · rw [h _ List.mem_cons_self buffer count rfl]
        rfl
      · rfl
      · rfl
      · rfl
    rw [List.foldl_cons, hone, ih fun other hother => h other (List.mem_cons_of_mem _ hother)]

section Rounds
variable {σ : Type*} {c : WriterClock σ} {input : List UInt8} {idleDeadline : ℕ}

/-- All that a round can do. -/
inductive Round (input : List UInt8) (s : WriteCall σ) : WriteCall σ → Prop
  | took (world : σ) (count reading : ℕ) (hphase : s.phase = .writing) (hpos : 0 < count)
      (hle : s.written + count ≤ input.length) :
      Round input s
        { s with
          world := world
          written := s.written + count
          lastProgress := reading
          log := s.log ++ [.write (input.drop s.written) (.ok count), .now reading] }
  | stayed : Round input s s
  | waited (world : σ) (events : List WriteEvent) (hphase : ∀ result, s.phase ≠ .returned result)
      (hquiet : ∀ event ∈ events, event.Quiet) :
      Round input s { s with world := world, log := s.log ++ events }
  | failed (world : σ) (text : String) (events : List WriteEvent)
      (hquiet : ∀ event ∈ events, event.Quiet) :
      Round input s
        { s with world := world, phase := .returned (.error text), log := s.log ++ events }
  | full (world : σ) (reading : ℕ) (hphase : s.phase = .writing)
      (hfull : input.length ≤ s.written) :
      Round input s
        { s with world := world, phase := .flushing reading, log := s.log ++ [.now reading] }
  | flushed (world : σ) (flushStart : ℕ) (hphase : s.phase = .flushing flushStart) :
      Round input s
        { s with world := world, phase := .returned (.ok ()), log := s.log ++ [.flush (.ok ())] }

theorem round_retry {attempt : WriteEvent} (h : attempt.Quiet) {s : WriteCall σ}
    (hphase : ∀ result, s.phase ≠ .returned result) (since : ℕ) (timedOut : String) (world : σ) :
    Round input s (s.retry c idleDeadline attempt since timedOut world) := by
  unfold WriteCall.retry
  dsimp only
  split_ifs
  · exact .failed _ _ _ (by simpa [WriteEvent.Quiet] using h)
  · exact .waited _ _ hphase (by simpa [WriteEvent.Quiet] using h)

theorem round_writeRound {s : WriteCall σ} (hphase : s.phase = .writing) :
    Round input s (s.writeRound c input idleDeadline) := by
  unfold WriteCall.writeRound
  split_ifs with hlt
  · cases hanswer : (c.write s.world (input.drop s.written)).1 with
    | ok count =>
      have hcount := Nat.lt_succ_iff.mp count.isLt
      have hlength : (input.drop s.written).length = input.length - s.written := List.length_drop
      simp only [hanswer]
      split_ifs with hzero
      · refine .failed _ _ _ ?_
        simp [WriteEvent.Quiet, Except.map, hzero]
      · exact .took _ _ _ hphase (Nat.pos_of_ne_zero hzero) (by omega)
    | error error =>
      have hquiet : ∀ buffer, (WriteEvent.write buffer (.error error)).Quiet := by
        simp [WriteEvent.Quiet]
      simp only [hanswer, Except.map]
      split_ifs
      · exact round_retry (hquiet _) (by simp [hphase]) _ _ _
      · exact .failed _ _ _ (List.forall_mem_singleton.mpr (hquiet _))
  · exact .full _ _ hphase (Nat.not_lt.mp hlt)

theorem round_flushRound {s : WriteCall σ} {flushStart : ℕ} (hphase : s.phase = .flushing flushStart) :
    Round input s (s.flushRound c idleDeadline flushStart) := by
  have hquiet : ∀ answer, (WriteEvent.flush answer).Quiet := by simp [WriteEvent.Quiet]
  unfold WriteCall.flushRound
  cases hanswer : (c.flush s.world).1 with
  | ok _ =>
    simp only [hanswer]
    exact .flushed _ flushStart hphase
  | error error =>
    simp only [hanswer]
    split_ifs
    · exact round_retry (hquiet _) (by simp [hphase]) _ _ _
    · exact .failed _ _ _ (List.forall_mem_singleton.mpr (hquiet _))

theorem round_step (s : WriteCall σ) : Round input s (s.step c input idleDeadline) := by
  unfold WriteCall.step
  split
  · exact round_writeRound ‹_›
  · exact round_flushRound ‹_›
  · exact .stayed

/-- What is written, counted from and complete in every state of a call. -/
structure Writes (input : List UInt8) (s : WriteCall σ) : Prop where
  written_le : s.written ≤ input.length
  accepted_eq : accepted s.log = input.take s.written
  since : s.log.foldl note (0, true) = (s.lastProgress, false)
  complete : ∀ flushStart, s.phase = .flushing flushStart → s.written = input.length
  flushed : s.phase = .returned (.ok ()) →
    s.written = input.length ∧ s.log.getLast? = some (.flush (.ok ()))

theorem writes_start (world : σ) : Writes input (WriteCall.start c world) where
  written_le := Nat.zero_le _
  accepted_eq := rfl
  since := rfl
  complete := nofun
  flushed := nofun

theorem writes_round {s s' : WriteCall σ} (h : Writes input s) (hround : Round input s s') :
    Writes input s' := by
  cases hround with
  | took world count reading hphase hpos hle =>
    have htake : accepted [.write (input.drop s.written) (.ok count), .now reading] =
        (input.drop s.written).take count := List.append_nil _
    refine ⟨hle, ?_, ?_, by simp [hphase], by simp [hphase]⟩
    · rw [accepted_append, h.accepted_eq, htake, List.take_add]
    · have hne : (count != 0) = true := bne_iff_ne.mpr (Nat.ne_of_gt hpos)
      simp [h.since, note, hne]
  | stayed => exact h
  | waited world events hphase hquiet =>
    refine ⟨h.written_le, ?_, ?_, h.complete, fun hreturned => absurd hreturned (hphase _)⟩
    · rw [accepted_append, accepted_quiet hquiet, List.append_nil, h.accepted_eq]
    · rw [List.foldl_append, h.since, note_quiet hquiet]
  | failed world text events hquiet =>
    refine ⟨h.written_le, ?_, ?_, nofun, nofun⟩
    · rw [accepted_append, accepted_quiet hquiet, List.append_nil, h.accepted_eq]
    · rw [List.foldl_append, h.since, note_quiet hquiet]
  | full world reading hphase hfull =>
    refine ⟨h.written_le, ?_, ?_, fun _ _ => Nat.le_antisymm h.written_le hfull, nofun⟩
    · rw [accepted_append, h.accepted_eq]
      exact List.append_nil _
    · rw [List.foldl_append, h.since]
      rfl
  | flushed world flushStart hphase =>
    refine ⟨h.written_le, ?_, ?_, nofun, fun _ => ⟨h.complete _ hphase, by simp⟩⟩
    · rw [accepted_append, h.accepted_eq]
      exact List.append_nil _
    · rw [List.foldl_append, h.since]
      rfl

theorem writes_writeAllWithDeadline (world : σ) (rounds : ℕ) :
    Writes input (writeAllWithDeadline c input idleDeadline world rounds) :=
  inv_iterate (fun s h => writes_round h (round_step s)) (writes_start world) rounds

end Rounds

/-! ## Waiting

A call ends wherever the clock goes on while the writer does not. -/

variable {σ : Type*} {c : WriterClock σ} {input : List UInt8} {idleDeadline : ℕ}

def WouldBlock {β : Type*} (answer : Except IoError β) : Prop :=
  ∃ error, answer = .error error ∧ error.kind = .wouldBlock

section Waiting
variable {β : Type*} (c : WriterClock σ) (attempt : σ → Except IoError β × σ)

/-- An attempt, a look at the clock and a pause. -/
def WriterClock.wait (world : σ) : σ :=
  c.sleep nativeSessionPollIntervalMs (c.now (attempt world).2).2

/-- If no attempt from here on will do, the clock gets to `limit` in one of them. -/
def WriterClock.Passes (limit : ℕ) (world : σ) : Prop :=
  (∀ k, WouldBlock (attempt ((c.wait attempt)^[k] world)).1) →
    ∃ k, limit ≤ (c.now (attempt ((c.wait attempt)^[k] world)).2).1

/-- The same for the attempts a call makes next, counted from its last progress. -/
def WriteCall.ClockPasses (input : List UInt8) (idleDeadline : ℕ) (s : WriteCall σ) : Prop :=
  match s.phase with
  | .writing => s.written < input.length →
      c.Passes (c.write · (input.drop s.written)) (s.lastProgress + idleDeadline) s.world
  | .flushing flushStart => c.Passes c.flush (flushStart + idleDeadline) s.world
  | .returned _ => True

variable (event : Except IoError β → WriteEvent)

def WriteCall.waitRound (s : WriteCall σ) : WriteCall σ :=
  { s with
    world := c.wait attempt s.world
    log := s.log ++ [event (attempt s.world).1, .now (c.now (attempt s.world).2).1, .sleep] }

/-- Waiting leaves the writer and the clock where they are and nothing else. -/
structure Kept (s s' : WriteCall σ) : Prop where
  written : s'.written = s.written
  lastProgress : s'.lastProgress = s.lastProgress
  phase : s'.phase = s.phase

theorem kept_waitRound (s : WriteCall σ) (k : ℕ) :
    Kept s ((WriteCall.waitRound c attempt event)^[k] s) ∧
      ((WriteCall.waitRound c attempt event)^[k] s).world = (c.wait attempt)^[k] s.world := by
  induction k with
  | zero => exact ⟨⟨rfl, rfl, rfl⟩, rfl⟩
  | succ k ih =>
    rw [Function.iterate_succ_apply', Function.iterate_succ_apply', ← ih.2]
    exact ⟨⟨ih.1.written, ih.1.lastProgress, ih.1.phase⟩, rfl⟩

variable {c attempt}

/-- Where the clock passes the deadline, one of the attempts ends the call or does not block. -/
theorem exists_attempt {s : WriteCall σ} {since : ℕ} {timedOut : String}
    (hround : ∀ s', Kept s s' → WouldBlock (attempt s'.world).1 →
      s'.step c input idleDeadline = s'.retry c idleDeadline (event (attempt s'.world).1) since
        timedOut (attempt s'.world).2)
    (hpasses : c.Passes attempt (since + idleDeadline) s.world) :
    ∃ k, (∃ result, ((WriteCall.step c input idleDeadline)^[k + 1] s).phase = .returned result) ∨
      Kept s ((WriteCall.step c input idleDeadline)^[k] s) ∧
        ¬ WouldBlock (attempt ((WriteCall.step c input idleDeadline)^[k] s).world).1 := by
  let Waits (s' : WriteCall σ) : Prop := Kept s s' ∧ WouldBlock (attempt s'.world).1 ∧
    ¬ idleDeadline ≤ (c.now (attempt s'.world).2).1 - since
  have hwait : ∀ s', Waits s' →
      s'.step c input idleDeadline = WriteCall.waitRound c attempt event s' := by
    rintro s' ⟨hkept, hblock, hearly⟩
    rw [hround s' hkept hblock, WriteCall.retry, if_neg hearly]
    rfl
  rcases exists_first_not hwait s with hall | ⟨k, hsame, hnot⟩
  · have hworld := fun k => (kept_waitRound c attempt event s k).2
    obtain ⟨k, hk⟩ := hpasses fun k => hworld k ▸ (hall k).2.1
    refine absurd ?_ (hall k).2.2
    rw [hworld k]
    omega
  · refine ⟨k, ?_⟩
    obtain ⟨hkept, hworld⟩ := kept_waitRound c attempt event s k
    rw [Function.iterate_succ_apply', hsame]
    by_cases hblock : WouldBlock (attempt ((WriteCall.waitRound c attempt event)^[k] s).world).1
    · refine .inl ⟨.error timedOut, ?_⟩
      have hlate := not_not.mp fun h => hnot ⟨hkept, hblock, h⟩
      rw [hround _ hkept hblock, WriteCall.retry, if_pos hlate]
    · exact .inr ⟨hkept, hblock⟩

end Waiting

/-! ## The rounds of the two loops -/

theorem writeRound_wouldBlock {s : WriteCall σ} (hlt : s.written < input.length)
    (hblock : WouldBlock (c.write s.world (input.drop s.written)).1) :
    s.writeRound c input idleDeadline =
      s.retry c idleDeadline
        (.write (input.drop s.written) ((c.write s.world (input.drop s.written)).1.map Fin.val))
        s.lastProgress (timedOutWriting idleDeadline)
        (c.write s.world (input.drop s.written)).2 := by
  obtain ⟨error, hanswer, hkind⟩ := hblock
  unfold WriteCall.writeRound
  rw [if_pos hlt]
  simp only [hanswer, hkind, if_true]

theorem writeRound_took {s : WriteCall σ} (hlt : s.written < input.length)
    {count : Fin ((input.drop s.written).length + 1)}
    (hanswer : (c.write s.world (input.drop s.written)).1 = .ok count) (hpos : 0 < count.val) :
    (s.writeRound c input idleDeadline).lastProgress =
      (c.now (c.write s.world (input.drop s.written)).2).1 := by
  unfold WriteCall.writeRound
  rw [if_pos hlt]
  simp only [hanswer, if_neg (Nat.ne_of_gt hpos)]

theorem writeRound_answers {s : WriteCall σ} (hlt : s.written < input.length)
    (hblock : ¬ WouldBlock (c.write s.world (input.drop s.written)).1) :
    (∃ result, (s.writeRound c input idleDeadline).phase = .returned result) ∨
      s.written < (s.writeRound c input idleDeadline).written ∧
        (s.writeRound c input idleDeadline).phase = s.phase := by
  unfold WriteCall.writeRound
  rw [if_pos hlt]
  cases hanswer : (c.write s.world (input.drop s.written)).1 with
  | ok count =>
    simp only [hanswer]
    split_ifs with hzero
    · exact .inl ⟨_, rfl⟩
    · exact .inr ⟨Nat.lt_add_of_pos_right (Nat.pos_of_ne_zero hzero), rfl⟩
  | error error =>
    have hkind : error.kind ≠ .wouldBlock := fun h => hblock ⟨error, hanswer, h⟩
    simp only [hanswer, if_neg hkind]
    exact .inl ⟨_, rfl⟩

theorem flushRound_wouldBlock {s : WriteCall σ} (flushStart : ℕ)
    (hblock : WouldBlock (c.flush s.world).1) :
    s.flushRound c idleDeadline flushStart =
      s.retry c idleDeadline (.flush (c.flush s.world).1) flushStart
        (timedOutFlushing idleDeadline) (c.flush s.world).2 := by
  obtain ⟨error, hanswer, hkind⟩ := hblock
  unfold WriteCall.flushRound
  simp only [hanswer, hkind, if_true]

theorem flushRound_answers {s : WriteCall σ} (flushStart : ℕ)
    (hblock : ¬ WouldBlock (c.flush s.world).1) :
    ∃ result, (s.flushRound c idleDeadline flushStart).phase = .returned result := by
  unfold WriteCall.flushRound
  cases hanswer : (c.flush s.world).1 with
  | ok _ => exact ⟨.ok (), by simp only [hanswer]⟩
  | error error =>
    have hkind : error.kind ≠ .wouldBlock := fun h => hblock ⟨error, hanswer, h⟩
    exact ⟨.error error.text, by simp only [hanswer, if_neg hkind]⟩

/-! ## The call -/

/-- What is left before the next loop. -/
def WriteCall.remaining (input : List UInt8) (s : WriteCall σ) : ℕ :=
  match s.phase with
  | .writing => input.length - s.written + 1
  | _ => 0

theorem exists_progress_writing {s : WriteCall σ} (hphase : s.phase = .writing)
    (hclock : s.ClockPasses c input idleDeadline) :
    ∃ n, (∃ result, ((WriteCall.step c input idleDeadline)^[n] s).phase = .returned result) ∨
      ((WriteCall.step c input idleDeadline)^[n] s).remaining input < s.remaining input := by
  have hstep : ∀ s' : WriteCall σ, s'.phase = .writing →
      s'.step c input idleDeadline = s'.writeRound c input idleDeadline := by
    intro s' hs'
    rw [WriteCall.step, hs']
  by_cases hlt : s.written < input.length
  · have hpasses : c.Passes (c.write · (input.drop s.written))
        (s.lastProgress + idleDeadline) s.world := by
      rw [WriteCall.ClockPasses, hphase] at hclock
      exact hclock hlt
    have hround : ∀ s', Kept s s' → WouldBlock (c.write s'.world (input.drop s.written)).1 →
        s'.step c input idleDeadline = s'.retry c idleDeadline
          (.write (input.drop s.written)
            ((c.write s'.world (input.drop s.written)).1.map Fin.val))
          s.lastProgress (timedOutWriting idleDeadline)
          (c.write s'.world (input.drop s.written)).2 := by
      intro s' hkept hblock
      rw [hstep s' (hkept.phase.trans hphase), ← hkept.written, ← hkept.lastProgress]
      rw [← hkept.written] at hlt hblock
      exact writeRound_wouldBlock hlt hblock
    obtain ⟨k, hk | ⟨hkept, hblock⟩⟩ := exists_attempt
      (fun answer => .write (input.drop s.written) (answer.map Fin.val)) hround hpasses
    · exact ⟨k + 1, .inl hk⟩
    · refine ⟨k + 1, ?_⟩
      have hnow := hkept.phase.trans hphase
      rw [← hkept.written] at hlt hblock
      rw [Function.iterate_succ_apply', hstep _ hnow]
      refine (writeRound_answers hlt hblock).imp_right ?_
      rintro ⟨hmore, hsame⟩
      rw [WriteCall.remaining, hsame, hnow, WriteCall.remaining, hphase]
      have hwritten := hkept.written
      dsimp only
      omega
  · refine ⟨1, .inr ?_⟩
    rw [Function.iterate_one, hstep s hphase, WriteCall.writeRound, if_neg hlt,
      WriteCall.remaining, WriteCall.remaining, hphase]
    exact Nat.succ_pos _

theorem exists_progress_flushing {s : WriteCall σ} {flushStart : ℕ}
    (hphase : s.phase = .flushing flushStart) (hclock : s.ClockPasses c input idleDeadline) :
    ∃ n result, ((WriteCall.step c input idleDeadline)^[n] s).phase = .returned result := by
  have hstep : ∀ s' : WriteCall σ, Kept s s' →
      s'.step c input idleDeadline = s'.flushRound c idleDeadline flushStart := by
    intro s' hkept
    rw [WriteCall.step, hkept.phase, hphase]
  have hpasses : c.Passes c.flush (flushStart + idleDeadline) s.world := by
    rw [WriteCall.ClockPasses, hphase] at hclock
    exact hclock
  obtain ⟨k, hk | ⟨hkept, hblock⟩⟩ := exists_attempt .flush
    (fun s' hkept hblock => (hstep s' hkept).trans (flushRound_wouldBlock flushStart hblock))
    hpasses
  · exact ⟨k + 1, hk⟩
  · refine ⟨k + 1, ?_⟩
    rw [Function.iterate_succ_apply', hstep _ hkept]
    exact flushRound_answers flushStart hblock

theorem exists_returned (world : σ)
    (hclock : ∀ n, (writeAllWithDeadline c input idleDeadline world n).ClockPasses c input
      idleDeadline) :
    ∃ n result, (writeAllWithDeadline c input idleDeadline world n).phase = .returned result := by
  refine exists_ended (fun s => ∃ n, writeAllWithDeadline c input idleDeadline world n = s)
    (fun s => ∃ result, s.phase = .returned result) (WriteCall.remaining input) ?_ ?_ ⟨0, rfl⟩
  · rintro _ ⟨n, rfl⟩
    exact ⟨n + 1, Function.iterate_succ_apply' _ _ _⟩
  · rintro _ ⟨n, rfl⟩ hopen
    cases hphase : (writeAllWithDeadline c input idleDeadline world n).phase with
    | writing => exact exists_progress_writing hphase (hclock n)
    | flushing flushStart =>
      obtain ⟨m, hm⟩ := exists_progress_flushing hphase (hclock n)
      exact ⟨m, .inl hm⟩
    | returned result => exact absurd ⟨result, hphase⟩ hopen

theorem writeAllWithDeadline_succ (world : σ) (n : ℕ) :
    writeAllWithDeadline c input idleDeadline world (n + 1) =
      (writeAllWithDeadline c input idleDeadline world n).step c input idleDeadline :=
  Function.iterate_succ_apply' _ _ _

/-- The writer takes a prefix of the input; only all of it, flushed, is success; a write that
would block ends the call just when the deadline has passed since the last byte taken; and the
call returns if the clock passes the deadline wherever the writer stops. -/
theorem writeAllWithDeadline_writes (c : WriterClock σ) (input : List UInt8) (idleDeadline : ℕ)
    (world : σ) :
    let call := writeAllWithDeadline c input idleDeadline world
    let answer := fun n => c.write (call n).world (input.drop (call n).written)
    (∀ n, accepted (call n).log <+: input) ∧
      (∀ n, (call n).phase = .returned (.ok ()) →
        accepted (call n).log = input ∧ (call n).log.getLast? = some (.flush (.ok ()))) ∧
      (∀ n count, (call n).phase = .writing → (call n).written < input.length →
        (answer n).1 = .ok count → 0 < count.val →
          idleSince (call (n + 1)).log = (c.now (answer n).2).1) ∧
      (∀ n, (call n).phase = .writing → (call n).written < input.length →
        WouldBlock (answer n).1 →
          (call (n + 1)).phase =
            if idleDeadline ≤ (c.now (answer n).2).1 - idleSince (call n).log then
              .returned (.error (timedOutWriting idleDeadline))
            else .writing) ∧
      ((∀ n, (call n).ClockPasses c input idleDeadline) →
        ∃ n result, (call n).phase = .returned result) := by
  intro call answer
  have hwrites : ∀ n, Writes input (call n) := writes_writeAllWithDeadline world
  have hsince : ∀ n, idleSince (call n).log = (call n).lastProgress := fun n =>
    congrArg Prod.fst (hwrites n).since
  have hstep : ∀ n, (call n).phase = .writing →
      call (n + 1) = (call n).writeRound c input idleDeadline := by
    intro n hphase
    change writeAllWithDeadline c input idleDeadline world (n + 1) = _
    rw [writeAllWithDeadline_succ, WriteCall.step, hphase]
  refine ⟨fun n => ?_, fun n hphase => ?_, fun n count hphase hlt hanswer hpos => ?_,
    fun n hphase hlt hblock => ?_, exists_returned world⟩
  · rw [(hwrites n).accepted_eq]
    exact List.take_prefix _ _
  · obtain ⟨hwritten, hlast⟩ := (hwrites n).flushed hphase
    rw [(hwrites n).accepted_eq, hwritten, List.take_length]
    exact ⟨rfl, hlast⟩
  · rw [hsince, hstep n hphase]
    exact writeRound_took hlt hanswer hpos
  · rw [hsince, hstep n hphase, writeRound_wouldBlock hlt hblock, WriteCall.retry]
    split_ifs
    · rfl
    · exact hphase

/-- A writer that never takes anything, beside a clock that goes on with every reading. -/
def stalledWriter : WriterClock ℕ where
  write world _ := (.error ⟨.wouldBlock, "full"⟩, world)
  flush world := (.error ⟨.wouldBlock, "full"⟩, world)
  now world := (world, world + 1)
  sleep _ world := world

theorem passes_of_ticking {β : Type*} {attempt : ℕ → Except IoError β × ℕ}
    (h : ∀ world, (attempt world).2 = world) (limit world : ℕ) :
    stalledWriter.Passes attempt limit world := by
  have hticks : ∀ k, (stalledWriter.wait attempt)^[k] world = world + k := by
    intro k
    induction k with
    | zero => rfl
    | succ k ih =>
      rw [Function.iterate_succ_apply', ih]
      exact congrArg (· + 1) (h _)
  refine fun _ => ⟨limit, ?_⟩
  rw [hticks, h]
  exact Nat.le_add_left _ _

theorem writeAllWithDeadline_writes_stalled :
    ∃ n result, (writeAllWithDeadline stalledWriter [0x6C, 0x73] 3 0 n).phase =
      .returned result := by
  refine (writeAllWithDeadline_writes stalledWriter [0x6C, 0x73] 3 0).2.2.2.2 fun n => ?_
  unfold WriteCall.ClockPasses
  split
  · exact fun _ => passes_of_ticking (fun _ => rfl) _ _
  · exact passes_of_ticking (fun _ => rfl) _ _
  · trivial

end SessionWorker
