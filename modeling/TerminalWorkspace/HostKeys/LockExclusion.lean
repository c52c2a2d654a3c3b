import TerminalWorkspace.Foundation.Indexed
import TerminalWorkspace.HostKeys.NodeLock

/-! When the lockfile excludes: in every run in which the removal of a stale lock finds the
file that was judged. -/
namespace NodeLock
open HostKeys JsText Runs Indexed

namespace World
variable (w : World)

/-- The call is between a successful acquire and its release. -/
def Holds (c : ℕ) : Prop := ∃ (call : Call) (i : ℕ), w.calls[c]? = some call ∧ call.phase.lock? = some i

def HeldAt (i : ℕ) : Prop :=
  ∃ (c : ℕ) (call : Call), w.calls[c]? = some call ∧ call.phase.lock? = some i

/-- At most one call has the lock. -/
def Exclusive : Prop := ∀ c c', w.Holds c → w.Holds c' → c = c'

def recordCount (pattern : JsString) : ℕ := w.pins.countP fun pin => pin.pattern = pattern

end World

/-- The verdict a call has come to. -/
def Phase.verdict? : Phase → Option Verdict
  | .releasing _ (.ok verdict) => some verdict
  | .answered (.ok verdict) => some verdict
  | _ => none

/-- Never two records for the host, and one as soon as a call for it has its verdict. -/
def World.RecordedOnce (w : World) (pattern : JsString) : Prop :=
  w.recordCount pattern ≤ 1 ∧
    ∀ call ∈ w.calls, call.pin.pattern = pattern → call.phase.verdict?.isSome →
      w.recordCount pattern = 1

/-- Every live holder releases within `LOCK_STALE_MS` of creating its lock. -/
def Prompt (w : World) : Action → Prop
  | .tick elapsed => ∀ call ∈ w.calls, ∀ i ∈ call.phase.lock?, ∀ file ∈ w.inodes[i]?,
      w.now + elapsed ≤ file.created + lockStaleMs
  | _ => True

/-- The removal of a stale lock finds the file that was judged, or none. -/
def RemovesJudged (w : World) : Action → Prop
  | .remove c true =>
    match w.calls[c]? with
    | some ⟨_, _, _, .removing i⟩ => ∀ j ∈ w.lockPath, j = i
    | _ => True
  | _ => True

instance (w : World) (action : Action) : Decidable (Prompt w action) := by
  unfold Prompt
  split <;> infer_instance

instance (w : World) (action : Action) : Decidable (RemovesJudged w action) := by
  unfold RemovesJudged
  repeat' split
  all_goals infer_instance

/-- What a call knows of the lock it looks at. A lock that nobody has may be anything. -/
def PhaseSound (w : World) : Phase → Prop
  | .opened i => i < w.inodes.length
  | .statted i _ mtime => i < w.inodes.length ∧
      ∀ file, w.inodes[i]? = some file → w.HeldAt i → file.created ≤ mtime
  | .read i holder age => i < w.inodes.length ∧
      ∀ file, w.inodes[i]? = some file → w.HeldAt i →
        (lockStaleMs < age → age ≤ w.now - file.created) ∧
          ∀ pid, holder = some pid → file.holder = some pid
  | .removing i => i < w.inodes.length ∧ ¬ w.HeldAt i
  | _ => True

/-- A call that has the lock: the path still names it, and its process is alive. -/
structure HolderSound (w : World) (call : Call) (i : ℕ) (file : Inode) : Prop where
  path : w.lockPath = some i
  inode : w.inodes[i]? = some file
  alive : w.isProcessAlive call.pid = true
  holder : file.holder = none ∨ file.holder = some call.pid
  written : file.created ≤ file.mtime
  started : file.created ≤ w.now
  prompt : w.now ≤ file.created + lockStaleMs

/-- What holds in every state of a run that removes only what was judged. -/
structure Sound (w : World) : Prop where
  holder : ∀ (c : ℕ) call i, w.calls[c]? = some call → call.phase.lock? = some i →
    ∃ file, HolderSound w call i file
  alone : ∀ (c c' : ℕ) call call', w.calls[c]? = some call → w.calls[c']? = some call' →
    call.phase.lock?.isSome → call'.phase.lock?.isSome → c = c'
  phase : ∀ (c : ℕ) call, w.calls[c]? = some call → PhaseSound w call.phase
  path : ∀ i, w.lockPath = some i → i < w.inodes.length
  process : ∀ call ∈ w.calls, call.phase = .dead ∨ w.isProcessAlive call.pid = true

theorem Sound.exclusive {w : World} (h : Sound w) : w.Exclusive := by
  rintro c c' ⟨call, i, hcall, hlock⟩ ⟨call', i', hcall', hlock'⟩
  exact h.alone c c' call call' hcall hcall' (hlock ▸ rfl) (hlock' ▸ rfl)

theorem sound_initial (now : ℤ) (leftover : Option Inode) (pins : List Pin) :
    Sound (.initial now leftover pins) where
  holder _ _ _ h := nomatch h
  alone _ _ _ _ h := nomatch h
  phase _ _ h := nomatch h
  path i h := by
    cases leftover with
    | none => cases h
    | some file =>
      obtain rfl := Option.some_inj.mp h
      exact Nat.one_pos
  process _ h := nomatch h

/-- Time passes and files change, while no file that was there comes to be held. -/
structure Later (w w' : World) : Prop where
  length : w.inodes.length ≤ w'.inodes.length
  now : w.now ≤ w'.now
  held : ∀ i, i < w.inodes.length → w'.HeldAt i → w.HeldAt i
  file : ∀ (i : ℕ) file', i < w.inodes.length → w'.inodes[i]? = some file' →
    ∃ file, w.inodes[i]? = some file ∧ file'.created = file.created ∧
      ∀ pid, file.holder = some pid → file'.holder = some pid

theorem PhaseSound.later {w w' : World} {phase : Phase} (h : PhaseSound w phase)
    (hlater : Later w w') : PhaseSound w' phase := by
  cases phase with
  | opened i => exact Nat.lt_of_lt_of_le h hlater.length
  | statted i regular mtime =>
    obtain ⟨hlt, hcreated⟩ := h
    refine ⟨Nat.lt_of_lt_of_le hlt hlater.length, fun file' hfile' hheld => ?_⟩
    obtain ⟨file, hfile, heq, -⟩ := hlater.file i file' hlt hfile'
    exact heq ▸ hcreated file hfile (hlater.held i hlt hheld)
  | read i holder age =>
    obtain ⟨hlt, hread⟩ := h
    refine ⟨Nat.lt_of_lt_of_le hlt hlater.length, fun file' hfile' hheld => ?_⟩
    obtain ⟨file, hfile, heq, hkept⟩ := hlater.file i file' hlt hfile'
    obtain ⟨hage, hholder⟩ := hread file hfile (hlater.held i hlt hheld)
    have hnow := hlater.now
    refine ⟨fun hstale => ?_, fun pid hpid => hkept pid (hholder pid hpid)⟩
    have := hage hstale
    omega
  | removing i =>
    exact ⟨Nat.lt_of_lt_of_le h.1 hlater.length, fun hheld => h.2 (hlater.held i h.1 hheld)⟩
  | _ => trivial

/-- A lock that is judged stale belongs to no call. -/
theorem Sound.stale {w : World} (h : Sound w) {i : ℕ} {holder : Option ℤ} {age : ℤ}
    (hread : PhaseSound w (.read i holder age)) (hstale : w.isStale holder age = true) :
    ¬ w.HeldAt i := by
  rintro ⟨c, call, hcall, hlock⟩
  obtain ⟨file, hfile⟩ := h.holder c call i hcall hlock
  obtain ⟨hage, hholder⟩ := hread.2 file hfile.inode ⟨c, call, hcall, hlock⟩
  rcases (Bool.or_eq_true _ _).mp hstale with hold | hgone
  · have hold := of_decide_eq_true hold
    have := hage hold
    have := hfile.prompt
    omega
  · cases holder with
    | none => cases hgone
    | some pid =>
      have hdead : w.isProcessAlive pid = false := by simpa using hgone
      have hpid := hholder pid rfl
      rcases hfile.holder with hnone | hsome
      · rw [hnone] at hpid
        cases hpid
      · obtain rfl := Option.some_inj.mp (hsome.symm.trans hpid)
        rw [hfile.alive] at hdead
        cases hdead

theorem setPhase_some {w : World} {c j : ℕ} {phase : Phase} {call : Call}
    (h : (w.setPhase c phase).calls[j]? = some call) : ∃ old, w.calls[j]? = some old ∧
      call = if c = j then { old with phase := phase } else old := by
  rw [World.setPhase, List.getElem?_modify] at h
  obtain ⟨old, hold, rfl⟩ := Option.map_eq_some_iff.mp h
  refine ⟨old, hold, ?_⟩
  split_ifs <;> rfl

/-- A call goes on without taking a lock; it may give up the one it has. -/
theorem Sound.setPhase {w : World} (h : Sound w) {c : ℕ} {call : Call} {phase : Phase}
    (hcall : w.calls[c]? = some call) (hlock : phase.lock? = call.phase.lock? ∨ phase.lock? = none)
    (hphase : PhaseSound w phase) (hdead : call.phase ≠ .dead) : Sound (w.setPhase c phase) := by
  have hkept : ∀ {j : ℕ} {next : Call} {i : ℕ}, (w.setPhase c phase).calls[j]? = some next →
      next.phase.lock? = some i → ∃ old, w.calls[j]? = some old ∧ old.pid = next.pid ∧
        old.phase.lock? = some i := by
    intro j next i hnext hi
    obtain ⟨old, hold, rfl⟩ := setPhase_some hnext
    refine ⟨old, hold, ?_⟩
    split_ifs at hi ⊢ with hj
    · subst hj
      obtain rfl := Option.some_inj.mp (hcall.symm.trans hold)
      rcases hlock with hlock | hlock
      · exact ⟨rfl, hlock.symm.trans hi⟩
      · rw [hlock] at hi
        cases hi
    · exact ⟨rfl, hi⟩
  have hlater : Later w (w.setPhase c phase) := by
    refine ⟨le_rfl, le_rfl, ?_, fun i file _ hfile => ⟨file, hfile, rfl, fun _ h => h⟩⟩
    rintro i - ⟨j, next, hnext, hi⟩
    obtain ⟨old, hold, -, hi⟩ := hkept hnext hi
    exact ⟨j, old, hold, hi⟩
  constructor
  · intro j next i hnext hi
    obtain ⟨old, hold, hpid, hi⟩ := hkept hnext hi
    obtain ⟨file, hfile⟩ := h.holder j old i hold hi
    exact ⟨file, ⟨hfile.path, hfile.inode, hpid ▸ hfile.alive, hpid ▸ hfile.holder,
      hfile.written, hfile.started, hfile.prompt⟩⟩
  · intro j j' next next' hnext hnext' hi hi'
    obtain ⟨i, hi⟩ := Option.isSome_iff_exists.mp hi
    obtain ⟨i', hi'⟩ := Option.isSome_iff_exists.mp hi'
    obtain ⟨old, hold, -, hi⟩ := hkept hnext hi
    obtain ⟨old', hold', -, hi'⟩ := hkept hnext' hi'
    exact h.alone j j' old old' hold hold' (hi ▸ rfl) (hi' ▸ rfl)
  · intro j next hnext
    obtain ⟨old, hold, rfl⟩ := setPhase_some hnext
    split_ifs
    · exact hphase.later hlater
    · exact (h.phase j old hold).later hlater
  · exact h.path
  · intro next hnext
    obtain ⟨j, hj⟩ := List.mem_iff_getElem?.mp hnext
    obtain ⟨old, hold, rfl⟩ := setPhase_some hj
    have hprocess := h.process old (List.mem_of_getElem? hold)
    split_ifs with hcj
    · subst hcj
      obtain rfl := Option.some_inj.mp (hcall.symm.trans hold)
      exact .inr (hprocess.resolve_left hdead)
    · exact hprocess

/-- The file at the path is removed while no call has the lock. -/
theorem Sound.clearPath {w : World} (h : Sound w)
    (hfree : ∀ (c : ℕ) call, w.calls[c]? = some call → call.phase.lock? = none) :
    Sound { w with lockPath := none } where
  holder c call i hcall hi := by
    rw [hfree c call hcall] at hi
    cases hi
  alone := h.alone
  phase c call hcall := (h.phase c call hcall).later
    ⟨le_rfl, le_rfl, fun _ _ hheld => hheld, fun _ file _ hfile => ⟨file, hfile, rfl, fun _ h => h⟩⟩
  path _ hi := nomatch hi
  process := h.process

/-- The clock, the processes and the calls that start change no file. -/
theorem Later.of_inodes {w w' : World} (hinodes : w'.inodes = w.inodes) (hnow : w.now ≤ w'.now)
    (hheld : ∀ i, w'.HeldAt i → w.HeldAt i) : Later w w' where
  length := by rw [hinodes]
  now := hnow
  held i _ := hheld i
  file i file' _ hfile := ⟨file', hinodes ▸ hfile, rfl, fun _ h => h⟩

theorem Sound.tick {w : World} (h : Sound w) {elapsed : ℕ} (hprompt : Prompt w (.tick elapsed)) :
    Sound { w with now := w.now + elapsed } where
  holder c call i hcall hi := by
    obtain ⟨file, hfile⟩ := h.holder c call i hcall hi
    have hstarted := hfile.started
    exact ⟨file, hfile.path, hfile.inode, hfile.alive, hfile.holder, hfile.written,
      by simp only; omega, hprompt call (List.mem_of_getElem? hcall) i hi file hfile.inode⟩
  alone := h.alone
  phase c call hcall := (h.phase c call hcall).later
    (.of_inodes rfl (by simp only; omega) fun _ hheld => hheld)
  path := h.path
  process := h.process

theorem Sound.spawn {w : World} (h : Sound w) (pid : ℤ) :
    Sound { w with alive := pid :: w.alive } := by
  have halive : ∀ other, w.isProcessAlive other = true →
      { w with alive := pid :: w.alive }.isProcessAlive other = true := by
    intro other hother
    simp only [World.isProcessAlive, Bool.and_eq_true, decide_eq_true_eq] at hother ⊢
    exact ⟨hother.1, List.mem_cons_of_mem _ hother.2⟩
  constructor
  · intro c call i hcall hi
    obtain ⟨file, hfile⟩ := h.holder c call i hcall hi
    exact ⟨file, hfile.path, hfile.inode, halive _ hfile.alive, hfile.holder, hfile.written,
      hfile.started, hfile.prompt⟩
  · exact h.alone
  · exact fun c call hcall => (h.phase c call hcall).later
      (.of_inodes rfl le_rfl fun _ hheld => hheld)
  · exact h.path
  · exact fun call hcall => (h.process call hcall).imp id (halive _)

/-- The calls of a process end with it. -/
theorem Sound.die {w : World} (h : Sound w) (pid : ℤ) : Sound (NodeLock.step w (.die pid)) := by
  have hkept : ∀ {c : ℕ} {next : Call}, (NodeLock.step w (.die pid)).calls[c]? = some next →
      ∃ call, w.calls[c]? = some call ∧ (next.phase = .dead ∨ next = call ∧ call.pid ≠ pid) := by
    intro c next hnext
    rw [NodeLock.step, List.getElem?_map] at hnext
    obtain ⟨call, hcall, rfl⟩ := Option.map_eq_some_iff.mp hnext
    refine ⟨call, hcall, ?_⟩
    split_ifs with hpid
    · exact .inl rfl
    · exact .inr ⟨rfl, hpid⟩
  have hholds : ∀ {c : ℕ} {next : Call} {i : ℕ},
      (NodeLock.step w (.die pid)).calls[c]? = some next → next.phase.lock? = some i →
        w.calls[c]? = some next ∧ next.pid ≠ pid := by
    intro c next i hnext hi
    obtain ⟨call, hcall, hdead | ⟨rfl, hpid⟩⟩ := hkept hnext
    · rw [hdead] at hi
      cases hi
    · exact ⟨hcall, hpid⟩
  have halive : ∀ other, other ≠ pid → w.isProcessAlive other = true →
      (NodeLock.step w (.die pid)).isProcessAlive other = true := by
    intro other hne hother
    simp only [World.isProcessAlive, NodeLock.step, Bool.and_eq_true, decide_eq_true_eq] at hother ⊢
    exact ⟨hother.1, decide_eq_true (List.mem_filter.mpr ⟨hother.2, decide_eq_true hne⟩)⟩
  constructor
  · intro c next i hnext hi
    obtain ⟨hcall, hpid⟩ := hholds hnext hi
    obtain ⟨file, hfile⟩ := h.holder c next i hcall hi
    exact ⟨file, hfile.path, hfile.inode, halive _ hpid hfile.alive, hfile.holder, hfile.written,
      hfile.started, hfile.prompt⟩
  · intro c c' next next' hnext hnext' hi hi'
    obtain ⟨i, hi⟩ := Option.isSome_iff_exists.mp hi
    obtain ⟨i', hi'⟩ := Option.isSome_iff_exists.mp hi'
    exact h.alone c c' next next' (hholds hnext hi).1 (hholds hnext' hi').1 (hi ▸ rfl) (hi' ▸ rfl)
  · intro c next hnext
    obtain ⟨call, hcall, hdead | ⟨rfl, -⟩⟩ := hkept hnext
    · rw [hdead]
      trivial
    · refine (h.phase c next hcall).later (.of_inodes rfl le_rfl ?_)
      rintro i ⟨c', next', hnext', hi⟩
      exact ⟨c', next', (hholds hnext' hi).1, hi⟩
  · exact h.path
  · intro next hnext
    obtain ⟨c, hc⟩ := List.mem_iff_getElem?.mp hnext
    obtain ⟨call, hcall, hdead | ⟨rfl, hpid⟩⟩ := hkept hc
    · exact .inl hdead
    · exact (h.process next (List.mem_of_getElem? hcall)).imp id (halive _ hpid)

theorem Sound.start {w : World} (h : Sound w) {call : Call} (hphase : call.phase = .trying)
    (halive : w.isProcessAlive call.pid = true) : Sound { w with calls := w.calls ++ [call] } := by
  have hholds : ∀ {c : ℕ} {next : Call}, (w.calls ++ [call])[c]? = some next →
      next.phase.lock?.isSome → w.calls[c]? = some next := by
    intro c next hnext hi
    rcases getElem?_concat_some hnext with hold | ⟨-, rfl⟩
    · exact hold
    · rw [hphase] at hi
      cases hi
  constructor
  · intro c next i hnext hi
    obtain ⟨file, hfile⟩ := h.holder c next i (hholds hnext (hi ▸ rfl)) hi
    exact ⟨file, hfile.path, hfile.inode, hfile.alive, hfile.holder, hfile.written,
      hfile.started, hfile.prompt⟩
  · exact fun c c' next next' hnext hnext' hi hi' =>
      h.alone c c' next next' (hholds hnext hi) (hholds hnext' hi') hi hi'
  · intro c next hnext
    rcases getElem?_concat_some hnext with hold | ⟨-, rfl⟩
    · refine (h.phase c next hold).later (.of_inodes rfl le_rfl ?_)
      rintro i ⟨c', next', hnext', hi⟩
      exact ⟨c', next', hholds hnext' (hi ▸ rfl), hi⟩
    · rw [hphase]
      trivial
  · exact h.path
  · intro next hnext
    rcases List.mem_append.mp hnext with hold | hnew
    · exact h.process next hold
    · obtain rfl := List.mem_singleton.mp hnew
      exact .inr halive

/-- The exclusive create finds no file, so no other call has the lock. -/
theorem Sound.createLock {w : World} (h : Sound w) {c : ℕ} {call : Call}
    (hcall : w.calls[c]? = some call) (hphase : call.phase = .trying) (hpath : w.lockPath = none) :
    Sound { w.setPhase c (.created w.inodes.length) with
      inodes := w.inodes ++ [⟨true, none, w.now, w.now⟩]
      lockPath := some w.inodes.length } := by
  have hfree : ∀ (j : ℕ) other, w.calls[j]? = some other → other.phase.lock? = none := by
    intro j other hother
    cases hlock : other.phase.lock? with
    | none => rfl
    | some i =>
      obtain ⟨file, hfile⟩ := h.holder j other i hother hlock
      have hpath' := hfile.path
      rw [hpath] at hpath'
      cases hpath'
  have hnew : ∀ {j : ℕ} {next : Call},
      (w.setPhase c (.created w.inodes.length)).calls[j]? = some next → next.phase.lock?.isSome →
        j = c ∧ next = { call with phase := .created w.inodes.length } := by
    intro j next hnext hi
    obtain ⟨old, hold, rfl⟩ := setPhase_some hnext
    split_ifs at hi ⊢ with hj
    · subst hj
      obtain rfl := Option.some_inj.mp (hcall.symm.trans hold)
      exact ⟨rfl, rfl⟩
    · rw [hfree j old hold] at hi
      cases hi
  have halive := (h.process call (List.mem_of_getElem? hcall)).resolve_left (by simp [hphase])
  constructor
  · intro j next i hnext hi
    obtain ⟨-, rfl⟩ := hnew hnext (hi ▸ rfl)
    obtain rfl := Option.some_inj.mp hi
    refine ⟨⟨true, none, w.now, w.now⟩, rfl, ?_, halive, .inl rfl, le_rfl, le_rfl, ?_⟩
    · exact List.getElem?_concat_length
    · simp only [lockStaleMs, World.setPhase]
      omega
  · intro j j' next next' hnext hnext' hi hi'
    exact (hnew hnext hi).1.trans (hnew hnext' hi').1.symm
  · intro j next hnext
    obtain ⟨old, hold, rfl⟩ := setPhase_some hnext
    split_ifs
    · trivial
    · refine (h.phase j old hold).later ⟨?_, le_rfl, ?_, ?_⟩
      · simp only [List.length_append]
        omega
      · rintro i hi ⟨j', next', hnext', hlock⟩
        obtain ⟨-, rfl⟩ := hnew hnext' (hlock ▸ rfl)
        obtain rfl := Option.some_inj.mp hlock
        exact absurd hi (lt_irrefl _)
      · intro i file hi hfile
        exact ⟨file, (List.getElem?_append_left hi).symm.trans hfile, rfl, fun _ h => h⟩
  · intro i hi
    obtain rfl := Option.some_inj.mp hi
    simp
  · intro next hnext
    obtain ⟨j, hj⟩ := List.mem_iff_getElem?.mp hnext
    obtain ⟨old, hold, rfl⟩ := setPhase_some hj
    split_ifs with hcj
    · subst hcj
      obtain rfl := Option.some_inj.mp (hcall.symm.trans hold)
      exact .inr halive
    · exact h.process old (List.mem_of_getElem? hold)

/-- The process id goes into the file the call has created. -/
theorem Sound.writePid {w : World} (h : Sound w) {c : ℕ} {call : Call} {i : ℕ}
    (hcall : w.calls[c]? = some call) (hphase : call.phase = .created i) :
    Sound { w.setPhase c (.held i) with
      inodes := w.inodes.modify i fun file =>
        { file with holder := some call.pid, mtime := w.now } } := by
  have hi : call.phase.lock? = some i := hphase ▸ rfl
  obtain ⟨file, hfile⟩ := h.holder c call i hcall hi
  have hbase : Sound (w.setPhase c (.held i)) :=
    h.setPhase hcall (.inl hi.symm) trivial (by simp [hphase])
  have honly : ∀ {j : ℕ} {next : Call}, (w.setPhase c (.held i)).calls[j]? = some next →
      next.phase.lock?.isSome → next = { call with phase := .held i } := by
    intro j next hnext hlock
    have hj := hbase.alone j c next _ hnext
      (by rw [World.setPhase, List.getElem?_modify_eq, hcall]; rfl) hlock rfl
    subst hj
    obtain ⟨old, hold, rfl⟩ := setPhase_some hnext
    obtain rfl := Option.some_inj.mp (hcall.symm.trans hold)
    rw [if_pos rfl]
  constructor
  · intro j next k hnext hk
    obtain rfl := honly hnext (hk ▸ rfl)
    obtain rfl := Option.some_inj.mp hk
    refine ⟨{ file with holder := some call.pid, mtime := w.now }, hfile.path, ?_, hfile.alive,
      .inr rfl, hfile.started, hfile.started, hfile.prompt⟩
    rw [List.getElem?_modify_eq, hfile.inode]
    rfl
  · exact hbase.alone
  · intro j next hnext
    refine (hbase.phase j next hnext).later ⟨?_, le_rfl, fun _ _ hheld => hheld, ?_⟩
    · simp [World.setPhase]
    · intro k file' _ hfile'
      rw [List.getElem?_modify] at hfile'
      obtain ⟨old, hold, rfl⟩ := Option.map_eq_some_iff.mp hfile'
      refine ⟨old, hold, ?_⟩
      split_ifs with hk
      · subst hk
        obtain rfl := Option.some_inj.mp (hfile.inode.symm.trans hold)
        refine ⟨rfl, fun pid hpid => ?_⟩
        rcases hfile.holder with hnone | hsome
        · rw [hnone] at hpid
          cases hpid
        · exact hsome ▸ hpid
      · exact ⟨rfl, fun _ h => h⟩
  · intro k hk
    rw [List.length_modify]
    exact hbase.path k hk
  · exact hbase.process

/-- After a release no call has the lock. -/
theorem Sound.release {w : World} (h : Sound w) {c : ℕ} {call : Call} {i : ℕ} {phase : Phase}
    (hcall : w.calls[c]? = some call) (hi : call.phase.lock? = some i)
    (hphase : phase.lock? = none) (hsound : PhaseSound w phase) :
    Sound { w.setPhase c phase with lockPath := none } := by
  have hdead : call.phase ≠ .dead := fun hdead => by
    rw [hdead] at hi
    cases hi
  refine (h.setPhase hcall (.inr hphase) hsound hdead).clearPath fun j next hnext => ?_
  obtain ⟨old, hold, rfl⟩ := setPhase_some hnext
  split_ifs with hj
  · exact hphase
  · by_contra hlock
    have hsome := Option.isSome_iff_ne_none.mpr hlock
    exact hj (h.alone c j call old hcall hold (hi ▸ rfl) hsome)

/-- The removal of the judged file, or of none, leaves the lock of every holder alone. -/
theorem Sound.remove {w : World} (h : Sound w) {c : ℕ} {call : Call} {i : ℕ}
    (hcall : w.calls[c]? = some call) (hphase : call.phase = .removing i)
    (hjudged : ∀ j ∈ w.lockPath, j = i) :
    Sound { w.setPhase c .trying with lockPath := none } := by
  have hfree : ¬ w.HeldAt i := by
    have hsound := h.phase c call hcall
    rw [hphase] at hsound
    exact hsound.2
  have hset : Sound (w.setPhase c .trying) :=
    h.setPhase hcall (.inr rfl) trivial (by simp [hphase])
  refine hset.clearPath fun j next hnext => ?_
  obtain ⟨old, hold, rfl⟩ := setPhase_some hnext
  split_ifs
  · rfl
  · cases hlock : old.phase.lock? with
    | none => rfl
    | some k =>
      obtain ⟨file, hfile⟩ := h.holder j old k hold hlock
      obtain rfl := hjudged k hfile.path
      exact absurd ⟨j, old, hold, hlock⟩ hfree

theorem Sound.step {w : World} (h : Sound w) {action : Action} (hprompt : Prompt w action)
    (hjudged : RemovesJudged w action) : Sound (step w action) := by
  cases action with
  | tick elapsed => exact h.tick hprompt
  | spawn pid =>
    simp only [NodeLock.step]
    split_ifs
    · exact h.spawn pid
    · exact h
  | die pid => exact h.die pid
  | start pid pin =>
    simp only [NodeLock.step]
    split_ifs with halive
    · exact h.start rfl halive
    · exact h
  | create c ok =>
    simp only [NodeLock.step]
    split
    · next hcall =>
      simp only [World.createLock]
      split_ifs
      · split
        · exact h.setPhase hcall (.inr rfl) trivial (by simp)
        · next hpath => exact h.createLock hcall rfl hpath
      · exact h.setPhase hcall (.inr rfl) trivial (by simp)
    · exact h
  | writePid c ok =>
    simp only [NodeLock.step]
    split
    · next hcall =>
      simp only [World.writePid]
      split_ifs
      · exact h.writePid hcall rfl
      · exact h.setPhase hcall (.inr rfl) trivial (by simp)
    · exact h
  | openLock c ok =>
    simp only [NodeLock.step]
    split
    · next hcall =>
      split
      · next hpath =>
        split_ifs
        · exact h.setPhase hcall (.inr rfl) (h.path _ hpath) (by simp)
        · exact h.setPhase hcall (.inr rfl) trivial (by simp)
      · exact h.setPhase hcall (.inr rfl) trivial (by simp)
    · exact h
  | stat c =>
    simp only [NodeLock.step]
    split
    · next inode hcall =>
      split
      · next file hfile =>
        refine h.setPhase hcall (.inr rfl) ⟨h.phase _ _ hcall, ?_⟩ (by simp)
        rintro other hother ⟨j, call, hj, hlock⟩
        obtain rfl := Option.some_inj.mp (hfile.symm.trans hother)
        obtain ⟨held, hheld⟩ := h.holder j call inode hj hlock
        obtain rfl := Option.some_inj.mp (hfile.symm.trans hheld.inode)
        exact hheld.written
      · exact h
    · exact h
  | readLock c =>
    simp only [NodeLock.step]
    split
    · next inode regular mtime hcall =>
      obtain ⟨hlt, hcreated⟩ := h.phase _ _ hcall
      split
      · next file hfile =>
        split_ifs
        · refine h.setPhase hcall (.inr rfl) ⟨hlt, fun other hother hheld => ?_⟩ (by simp)
          obtain rfl := Option.some_inj.mp (hfile.symm.trans hother)
          have := hcreated file hfile hheld
          exact ⟨fun _ => by omega, fun pid hpid => hpid⟩
        · refine h.setPhase hcall (.inr rfl) ⟨hlt, fun other hother hheld => ?_⟩ (by simp)
          exact ⟨fun hstale => absurd hstale (by decide), (by simp)⟩
      · exact h
    · exact h
  | judge c =>
    simp only [NodeLock.step]
    split
    · next hcall =>
      have hread := h.phase _ _ hcall
      split_ifs with hstale
      · exact h.setPhase hcall (.inr rfl) ⟨hread.1, h.stale hread hstale⟩ (by simp)
      · exact h.setPhase hcall (.inr rfl) trivial (by simp)
    · exact h
  | remove c ok =>
    simp only [NodeLock.step]
    split
    · next hcall =>
      split_ifs with hok
      · subst hok
        simp only [RemovesJudged, hcall] at hjudged
        exact h.remove hcall rfl hjudged
      · exact h.setPhase hcall (.inr rfl) trivial (by simp)
    · exact h
  | retry c =>
    simp only [NodeLock.step]
    split
    · next hcall =>
      split_ifs
      · exact h.setPhase hcall (.inr rfl) trivial (by simp)
      · exact h.setPhase hcall (.inr rfl) trivial (by simp)
    · exact h
  | load c ok =>
    simp only [NodeLock.step]
    split
    · next hcall =>
      simp only [World.load]
      split_ifs
      · split
        · exact h.setPhase hcall (.inl rfl) trivial (by simp)
        · exact h.setPhase hcall (.inl rfl) trivial (by simp)
      · exact h.setPhase hcall (.inl rfl) trivial (by simp)
    · exact h
  | append c outcome =>
    simp only [NodeLock.step]
    split
    · next inode hcall =>
      have hstay : ∀ result, Sound (w.setPhase c (.releasing inode result)) := fun result =>
        h.setPhase hcall (.inl rfl) trivial (by simp)
      have hpins : ∀ result pins damaged,
          Sound { w.setPhase c (.releasing inode result) with pins := pins, damaged := damaged } :=
        fun result pins damaged =>
          let hs := hstay result
          ⟨fun j next i hnext hi => by
              obtain ⟨file, hfile⟩ := hs.holder j next i hnext hi
              exact ⟨file, hfile.path, hfile.inode, hfile.alive, hfile.holder, hfile.written,
                hfile.started, hfile.prompt⟩,
            hs.alone,
            fun j next hnext => (hs.phase j next hnext).later
              (.of_inodes rfl le_rfl fun _ hheld => hheld),
            hs.path, hs.process⟩
      cases outcome with
      | whole => exact hpins (.ok .pinned) _ w.damaged
      | shortened key => exact hpins (.error .partialWrite) _ w.damaged
      | damaged => exact hpins (.error .partialWrite) w.pins true
      | failed => exact hstay _
    · exact h
  | release c ok =>
    simp only [NodeLock.step]
    split
    · next hcall =>
      split_ifs
      · exact h.release hcall rfl rfl trivial
      · exact h.setPhase hcall (.inr rfl) trivial (by simp)
    · exact h

/-- What holds of the records of a host that had none at the start. -/
structure Recorded (w : World) (pattern : JsString) : Prop where
  once : w.recordCount pattern ≤ 1
  unknown : ∀ (c : ℕ) call i, w.calls[c]? = some call → call.phase = .unknownHost i →
    call.pin.pattern = pattern → w.recordCount pattern = 0
  verdict : ∀ call ∈ w.calls, call.pin.pattern = pattern → call.phase.verdict?.isSome →
    w.recordCount pattern = 1

theorem Recorded.recordedOnce {w : World} {pattern : JsString} (h : Recorded w pattern) :
    w.RecordedOnce pattern := ⟨h.once, h.verdict⟩

theorem recorded_initial (now : ℤ) (leftover : Option Inode) {pins : List Pin}
    {pattern : JsString} (hpins : ∀ pin ∈ pins, pin.pattern ≠ pattern) :
    Recorded (.initial now leftover pins) pattern where
  once := by
    rw [World.recordCount, List.countP_eq_zero.mpr]
    · exact Nat.zero_le 1
    · exact fun pin hpin => by simpa using hpins pin hpin
  unknown _ _ _ h := nomatch h
  verdict _ h := nomatch h

theorem Recorded.congr {w w' : World} {pattern : JsString} (h : Recorded w pattern)
    (hcalls : w'.calls = w.calls) (hpins : w'.pins = w.pins) : Recorded w' pattern := by
  have hcount : w'.recordCount pattern = w.recordCount pattern := by
    rw [World.recordCount, World.recordCount, hpins]
  constructor
  · exact hcount ▸ h.once
  · rw [hcalls, hcount]
    exact h.unknown
  · rw [hcalls, hcount]
    exact h.verdict

/-- A call goes on; what its new phase says of the records has to be true. -/
theorem Recorded.setPhase {w : World} {pattern : JsString} (h : Recorded w pattern) {c : ℕ}
    {call : Call} (hcall : w.calls[c]? = some call) {phase : Phase}
    (hunknown : ∀ i, phase = .unknownHost i → call.pin.pattern = pattern →
      w.recordCount pattern = 0)
    (hverdict : phase.verdict?.isSome → call.pin.pattern = pattern → w.recordCount pattern = 1) :
    Recorded (w.setPhase c phase) pattern := by
  constructor
  · exact h.once
  · intro j next i hnext hphase hpattern
    obtain ⟨old, hold, rfl⟩ := setPhase_some hnext
    split_ifs at hphase hpattern with hj
    · subst hj
      obtain rfl := Option.some_inj.mp (hcall.symm.trans hold)
      exact hunknown i hphase hpattern
    · exact h.unknown j old i hold hphase hpattern
  · intro next hnext hpattern hsome
    obtain ⟨j, hj⟩ := List.mem_iff_getElem?.mp hnext
    obtain ⟨old, hold, rfl⟩ := setPhase_some hj
    split_ifs at hpattern hsome with hcj
    · subst hcj
      obtain rfl := Option.some_inj.mp (hcall.symm.trans hold)
      exact hverdict hsome hpattern
    · exact h.verdict old (List.mem_of_getElem? hold) hpattern hsome

/-- A phase that says nothing of the records. -/
theorem Recorded.setPhase_quiet {w : World} {pattern : JsString} (h : Recorded w pattern) {c : ℕ}
    {call : Call} (hcall : w.calls[c]? = some call) {phase : Phase}
    (hunknown : ∀ i, phase ≠ .unknownHost i) (hverdict : phase.verdict? = none) :
    Recorded (w.setPhase c phase) pattern :=
  h.setPhase hcall (fun i hi => absurd hi (hunknown i)) fun hsome => by
    rw [hverdict] at hsome
    cases hsome

/-- The one call that has the lock appends its record. -/
theorem Recorded.append {w : World} {pattern : JsString} (h : Recorded w pattern) (hsound : Sound w)
    {c : ℕ} {call : Call} {inode : ℕ} (hcall : w.calls[c]? = some call)
    (hphase : call.phase = .unknownHost inode) (result : Except StoreError Verdict) {pin : Pin}
    (hpin : pin.pattern = call.pin.pattern) :
    Recorded { w.setPhase c (.releasing inode result) with pins := w.pins ++ [pin] } pattern := by
  have honly : ∀ {j : ℕ} {next : Call} {i : ℕ},
      (w.setPhase c (.releasing inode result)).calls[j]? = some next →
        next.phase ≠ .unknownHost i := by
    intro j next i hnext hunknown
    obtain ⟨old, hold, rfl⟩ := setPhase_some hnext
    split_ifs at hunknown with hj
    exact hj (hsound.alone c j call old hcall hold (hphase ▸ rfl) (hunknown ▸ rfl))
  by_cases hpattern : pin.pattern = pattern
  · have hzero := h.unknown c call inode hcall hphase (hpin ▸ hpattern)
    have hone : (w.pins ++ [pin]).countP (fun pin => pin.pattern = pattern) = 1 := by
      rw [List.countP_append]
      simpa [World.recordCount, hpattern] using hzero
    exact ⟨hone.le, fun j next i hnext hunknown => absurd hunknown (honly hnext),
      fun _ _ _ _ => hone⟩
  · have hsame : (w.pins ++ [pin]).countP (fun pin => pin.pattern = pattern) =
        w.recordCount pattern := by
      rw [List.countP_append]
      simp [World.recordCount, hpattern]
    have hset : Recorded (w.setPhase c (.releasing inode result)) pattern :=
      h.setPhase hcall nofun fun _ hcallPattern => absurd (hpin.trans hcallPattern) hpattern
    exact ⟨hsame.trans_le h.once, fun j next i hnext hunknown => absurd hunknown (honly hnext),
      fun next hnext hnextPattern hsome => hsame.trans (hset.verdict next hnext hnextPattern hsome)⟩

theorem recordFor_none {w : World} {pattern : JsString} (h : w.recordFor pattern = none) :
    w.recordCount pattern = 0 := by
  rw [World.recordFor, List.find?_eq_none] at h
  exact List.countP_eq_zero.mpr fun pin hpin => h pin (List.mem_reverse.mpr hpin)

theorem recordFor_some {w : World} {pattern : JsString} {pin : Pin}
    (h : w.recordFor pattern = some pin) : 0 < w.recordCount pattern :=
  List.countP_pos_iff.mpr ⟨pin, List.mem_reverse.mp (List.mem_of_find?_eq_some h), by
    simpa using List.find?_some h⟩

theorem Recorded.step {w : World} {pattern : JsString} (h : Recorded w pattern) (hsound : Sound w)
    (action : Action) : Recorded (step w action) pattern := by
  cases action with
  | tick elapsed => exact h.congr rfl rfl
  | spawn pid =>
    simp only [NodeLock.step]
    split_ifs
    · exact h.congr rfl rfl
    · exact h
  | die pid =>
    constructor
    · exact h.once
    · intro c next i hnext hphase hpattern
      simp only [NodeLock.step, List.getElem?_map] at hnext
      obtain ⟨call, hcall, rfl⟩ := Option.map_eq_some_iff.mp hnext
      split_ifs at hphase hpattern
      exact h.unknown c call i hcall hphase hpattern
    · intro next hnext hpattern hsome
      obtain ⟨call, hcall, rfl⟩ := List.mem_map.mp hnext
      split_ifs at hpattern hsome
      · cases hsome
      · exact h.verdict call hcall hpattern hsome
  | start pid pin =>
    simp only [NodeLock.step]
    split_ifs
    · constructor
      · exact h.once
      · intro c next i hnext hphase hpattern
        rcases getElem?_concat_some hnext with hold | ⟨-, rfl⟩
        · exact h.unknown c next i hold hphase hpattern
        · cases hphase
      · intro next hnext hpattern hsome
        rcases List.mem_append.mp hnext with hold | hnew
        · exact h.verdict next hold hpattern hsome
        · obtain rfl := List.mem_singleton.mp hnew
          cases hsome
    · exact h
  | create c ok =>
    simp only [NodeLock.step]
    split
    · next hcall =>
      simp only [World.createLock]
      split_ifs
      · split
        · exact h.setPhase_quiet hcall (by simp) rfl
        · have hset : Recorded (w.setPhase c (.created w.inodes.length)) pattern :=
            h.setPhase_quiet hcall (by simp) rfl
          exact hset.congr rfl rfl
      · exact h.setPhase_quiet hcall (by simp) rfl
    · exact h
  | writePid c ok =>
    simp only [NodeLock.step]
    split
    · next inode hcall =>
      simp only [World.writePid]
      split_ifs
      · have hset : Recorded (w.setPhase c (.held inode)) pattern :=
          h.setPhase_quiet hcall (by simp) rfl
        exact hset.congr rfl rfl
      · exact h.setPhase_quiet hcall (by simp) rfl
    · exact h
  | openLock c ok =>
    simp only [NodeLock.step]
    split
    · next hcall =>
      split
      · split_ifs
        · exact h.setPhase_quiet hcall (by simp) rfl
        · exact h.setPhase_quiet hcall (by simp) rfl
      · exact h.setPhase_quiet hcall (by simp) rfl
    · exact h
  | stat c =>
    simp only [NodeLock.step]
    split
    · next hcall =>
      split
      · exact h.setPhase_quiet hcall (by simp) rfl
      · exact h
    · exact h
  | readLock c =>
    simp only [NodeLock.step]
    split
    · next hcall =>
      split
      · split_ifs
        · exact h.setPhase_quiet hcall (by simp) rfl
        · exact h.setPhase_quiet hcall (by simp) rfl
      · exact h
    · exact h
  | judge c =>
    simp only [NodeLock.step]
    split
    · next hcall =>
      split_ifs
      · exact h.setPhase_quiet hcall (by simp) rfl
      · exact h.setPhase_quiet hcall (by simp) rfl
    · exact h
  | remove c ok =>
    simp only [NodeLock.step]
    split
    · next hcall =>
      split_ifs
      · have hset : Recorded (w.setPhase c .trying) pattern := h.setPhase_quiet hcall (by simp) rfl
        exact hset.congr rfl rfl
      · exact h.setPhase_quiet hcall (by simp) rfl
    · exact h
  | retry c =>
    simp only [NodeLock.step]
    split
    · next hcall =>
      split_ifs
      · exact h.setPhase_quiet hcall (by simp) rfl
      · exact h.setPhase_quiet hcall (by simp) rfl
    · exact h
  | load c ok =>
    simp only [NodeLock.step]
    split
    · next pin inode hcall =>
      simp only [World.load]
      split_ifs
      · split
        · next existing hrecord =>
          refine h.setPhase hcall (by simp) fun _ hpattern => ?_
          have hpos := recordFor_some hrecord
          have honce := h.once
          rw [hpattern] at hpos
          omega
        · next hrecord =>
          refine h.setPhase hcall (fun _ _ hpattern => ?_) (by rintro ⟨⟩)
          exact hpattern ▸ recordFor_none hrecord
      · exact h.setPhase_quiet hcall (by simp) rfl
    · exact h
  | append c outcome =>
    simp only [NodeLock.step]
    split
    · next inode hcall =>
      cases outcome with
      | whole => exact h.append hsound hcall rfl _ rfl
      | shortened key => exact h.append hsound hcall rfl _ rfl
      | damaged =>
        have hset : Recorded (w.setPhase c (.releasing inode (.error .partialWrite))) pattern :=
          h.setPhase_quiet hcall (by simp) rfl
        exact hset.congr rfl rfl
      | failed => exact h.setPhase_quiet hcall (by simp) rfl
    · exact h
  | release c ok =>
    simp only [NodeLock.step]
    split
    · next inode result hcall =>
      split_ifs
      · have hset : Recorded (w.setPhase c (.answered result)) pattern := by
          refine h.setPhase hcall (by simp) fun hsome hpattern => ?_
          refine h.verdict _ (List.mem_of_getElem? hcall) hpattern ?_
          cases result with
          | error e => cases hsome
          | ok verdict => rfl
        exact hset.congr rfl rfl
      · exact h.setPhase_quiet hcall (by simp) rfl
    · exact h

/-- In a run whose live holders release in time and whose removals find the judged file, at
most one call has the lock, and a host unknown at the start is recorded once. -/
theorem exclusive_run (now : ℤ) (leftover : Option Inode) (pins : List Pin) (actions : List Action)
    (hrun : Allowed step (fun w action => Prompt w action ∧ RemovesJudged w action)
      (.initial now leftover pins) actions) :
    (run step (.initial now leftover pins) actions).Exclusive ∧
      ∀ pattern, (∀ pin ∈ pins, pin.pattern ≠ pattern) →
        (run step (.initial now leftover pins) actions).RecordedOnce pattern := by
  have hsound : Sound (run step (.initial now leftover pins) actions) :=
    run_invariant (fun w action h hallowed => h.step hallowed.1 hallowed.2)
      (sound_initial now leftover pins) hrun
  refine ⟨hsound.exclusive, fun pattern hpins => ?_⟩
  have hstep (w : World) (action : Action) (h : Sound w ∧ Recorded w pattern)
      (hallowed : Prompt w action ∧ RemovesJudged w action) :
      Sound (step w action) ∧ Recorded (step w action) pattern :=
    ⟨h.1.step hallowed.1 hallowed.2, h.2.step h.1 action⟩
  have hinit : Sound (.initial now leftover pins) ∧ Recorded (.initial now leftover pins) pattern :=
    ⟨sound_initial now leftover pins, recorded_initial now leftover hpins⟩
  exact (run_invariant hstep hinit hrun).2.recordedOnce

def samplePin (key : String) : Pin := ⟨js "example.org", js "ssh-ed25519", js key⟩

/-- The process 11 takes the lock and dies with it; 12 and 13 find it and judge it stale. -/
def deadHolder : List Action :=
  [.spawn 11, .spawn 12, .spawn 13, .start 11 (samplePin "AAA1"), .create 0 true, .writePid 0 true,
    .die 11, .start 12 (samplePin "AAA1"), .start 13 (samplePin "AAA2"), .create 1 true,
    .create 2 true, .openLock 1 true, .openLock 2 true, .stat 1, .stat 2, .readLock 1, .readLock 2,
    .judge 1, .judge 2]

/-- One of them takes the lock over while the other waits its turn. -/
def takenOver : List Action :=
  deadHolder ++ [.remove 1 true, .remove 2 true, .create 1 true, .create 2 true, .writePid 1 true,
    .load 1 true, .append 1 .whole, .release 1 true, .create 2 true]

theorem exclusive_run_takenOver :
    (run step (.initial 0 none []) takenOver).Exclusive ∧
      ∀ pattern, (∀ pin ∈ ([] : List Pin), pin.pattern ≠ pattern) →
        (run step (.initial 0 none []) takenOver).RecordedOnce pattern :=
  exclusive_run 0 none [] takenOver (by decide +kernel)

/-- The second removal takes away the lock that the first remover has made since. -/
def removedTwice : List Action :=
  deadHolder ++ [.remove 1 true, .create 1 true, .writePid 1 true, .remove 2 true, .create 2 true,
    .writePid 2 true]

def recordedTwice : List Action :=
  removedTwice ++ [.load 1 true, .load 2 true, .append 1 .whole, .append 2 .whole]

/-- Two live processes have the lock, and both record their key for the host. -/
theorem not_exclusive_of_stale_removal :
    Allowed step Prompt (.initial 0 none []) recordedTwice ∧
      ¬ (run step (.initial 0 none []) removedTwice).Exclusive ∧
      ¬ (run step (.initial 0 none []) recordedTwice).RecordedOnce (js "example.org") := by
  refine ⟨by decide +kernel, fun h => ?_, fun h => absurd h.1 (by decide +kernel)⟩
  have h₁ : (run step (.initial 0 none []) removedTwice).Holds 1 :=
    ⟨⟨12, 5000, samplePin "AAA1", .held 1⟩, 1, by decide +kernel, rfl⟩
  have h₂ : (run step (.initial 0 none []) removedTwice).Holds 2 :=
    ⟨⟨13, 5000, samplePin "AAA2", .held 2⟩, 2, by decide +kernel, rfl⟩
  exact absurd (h 1 2 h₁ h₂) (by decide)

end NodeLock
