import Mathlib.Logic.Function.Basic
import TerminalWorkspace.Persistence.DeletionStorage

/-! Transactions of overlapping calls. A call whose `BEGIN` finds a transaction open gives up,
so at most one is open at a time and its statements are the only ones that run. -/
namespace Persistence
open Inventory Transactions

/-- How many statements of its transaction the connection has run for a call. -/
def CallState.executed : CallState → ℕ
  | .awaiting position none => position
  | .awaiting position (some true) => position + 1
  | _ => 0

section Calls
variable (values : List VaultDeletionMap) (w : StorageWorld)

/-- The call's transaction is open. -/
def InTransaction (call : ℕ) : Prop :=
  0 < (w.calls call).executed ∧ (w.calls call).executed < (statementsOf values call).length

/-- The connection will run nothing more for the call. -/
def Finished (call : ℕ) : Prop :=
  (∃ succeeded, w.calls call = .settled succeeded) ∨ w.calls call = .awaiting 0 (some false) ∨
    ∃ position, w.calls call = .awaiting position (some true) ∧
      (statementsOf values call)[position + 1]? = none

/-- The calls, and the statements that wait for the connection. -/
structure Queued : Prop where
  issued_le : w.issued ≤ values.length
  unissued_iff : ∀ call, w.calls call = .unissued ↔ w.issued ≤ call
  queued : ∀ entry ∈ w.queue, ∃ position, w.calls entry.1 = .awaiting position none ∧
    (statementsOf values entry.1)[position]? = some entry.2
  outstanding : ∀ call position, w.calls call = .awaiting position none →
    ∃ entry ∈ w.queue, entry.1 = call
  once : (w.queue.map Prod.fst).Nodup
  beginsInOrder : w.queue.Pairwise fun first second =>
    first.2 = .beginTransaction → second.2 = .beginTransaction → first.1 < second.1
  fifo : ∀ first second, first < second → w.calls first = .loading →
    w.calls second = .loading ∨ w.calls second = .unissued

/-- At most one transaction is open, and what it has written is in the table. -/
structure Exclusive : Prop where
  refusedAtBegin : ∀ call position, w.calls call = .awaiting position (some false) → position = 0
  noRollback : ∀ call reply, w.calls call ≠ .rollingBack reply
  closed : w.connection.saved = none → ∀ call, ¬ InTransaction values w call
  unique : ∀ first second, InTransaction values w first → InTransaction values w second →
    first = second
  content : ∀ call, InTransaction values w call → 2 ≤ (w.calls call).executed →
    w.connection.table =
      OrderedMap.ofList ((deletionRows (valueOf values call)).take ((w.calls call).executed - 2))

/-- What a step can do while no call has to roll back. -/
inductive StorageEffect : StorageAction → StorageWorld → Prop where
  | same (a : StorageAction) : StorageEffect a w
  | load : StorageEffect .load { w with loaded := true }
  | issue (room : w.issued < values.length) :
      StorageEffect .setItem { w.put w.issued .loading with issued := w.issued + 1 }
  | begin (call : ℕ) (loading : w.calls call = .loading)
      (first : ∀ earlier < call, w.calls earlier ≠ .loading) :
      StorageEffect (.resume call) (w.send call (.awaiting 0 none) .beginTransaction)
  | next (call position : ℕ) (statement : DeletionStatement)
      (replied : w.calls call = .awaiting position (some true))
      (statement_eq : (statementsOf values call)[position + 1]? = some statement) :
      StorageEffect (.resume call) (w.send call (.awaiting (position + 1) none) statement)
  | finish (call position : ℕ) (replied : w.calls call = .awaiting position (some true))
      (last : (statementsOf values call)[position + 1]? = none) :
      StorageEffect (.resume call)
        { w.put call (.settled true) with localStorage := some (valueOf values call) }
  | giveUp (call : ℕ) (refused : w.calls call = .awaiting 0 (some false)) :
      StorageEffect (.resume call) (w.put call (.settled false))
  | execute (call position : ℕ) (statement : DeletionStatement)
      (queue : List (ℕ × DeletionStatement)) (head : w.queue = (call, statement) :: queue)
      (sent : w.calls call = .awaiting position none)
      (statement_eq : (statementsOf values call)[position]? = some statement) :
      StorageEffect .execute { w.put call (.awaiting position
          (some (Transactions.execute DeletionChange.apply w.connection statement).2)) with
        queue := queue
        connection := (Transactions.execute DeletionChange.apply w.connection statement).1 }

variable {values w}

theorem step_effect (hqueued : Queued values w) (hexclusive : Exclusive values w)
    (a : StorageAction) : StorageEffect values w a (step values w a) := by
  cases a with
  | setItem =>
    simp only [step, setItem]
    split
    · rename_i hroom
      exact .issue hroom
    · exact .same _
  | load => exact .load
  | execute =>
    simp only [step, executeNext]
    split
    · exact .same _
    · rename_i call statement queue hqueue
      obtain ⟨position, hcall, hstatement⟩ := hqueued.queued (call, statement) (by simp [hqueue])
      dsimp only at hcall hstatement ⊢
      rw [hcall]
      exact .execute call position statement queue hqueue hcall hstatement
  | resume call =>
    simp only [step, resume]
    split
    · rename_i hloading
      split
      · rename_i hguard
        exact .begin call hloading hguard.2
      · exact .same _
    · rename_i position hreplied
      split
      · rename_i statement hstatement
        exact .next call position statement hreplied hstatement
      · rename_i hlast
        exact .finish call position hreplied hlast
    · rename_i position hrefused
      have hzero := hexclusive.refusedAtBegin call position hrefused
      subst hzero
      exact .giveUp call hrefused
    · rename_i reply hrolling
      exact absurd hrolling (hexclusive.noRollback call _)
    · exact .same _

end Calls

section Put
variable {w : StorageWorld} {call other : ℕ} {state : CallState}

@[simp] theorem put_calls_self : (w.put call state).calls call = state :=
  Function.update_self ..

theorem put_calls_of_ne (h : other ≠ call) : (w.put call state).calls other = w.calls other :=
  Function.update_of_ne h ..

theorem put_calls (other : ℕ) :
    (w.put call state).calls other = if other = call then state else w.calls other :=
  Function.update_apply ..

@[simp] theorem send_calls {statement : DeletionStatement} (other : ℕ) :
    (w.send call state statement).calls other = if other = call then state else w.calls other :=
  put_calls other

@[simp] theorem send_queue {statement : DeletionStatement} :
    (w.send call state statement).queue = w.queue ++ [(call, statement)] := rfl

end Put

section Queue
variable {values : List VaultDeletionMap} {w : StorageWorld} {a : StorageAction}

/-- A call whose state shows no statement on its way has none in the queue. -/
theorem Queued.not_mem_queue (h : Queued values w) {call : ℕ}
    (hcall : ∀ position, w.calls call ≠ .awaiting position none) :
    ∀ entry ∈ w.queue, entry.1 ≠ call := by
  intro entry hentry heq
  obtain ⟨position, hposition, -⟩ := h.queued entry hentry
  exact hcall position (heq ▸ hposition)

/-- A call that has been issued and waits for no reply sends its next statement. -/
theorem Queued.send (h : Queued values w) {call position : ℕ} {statement : DeletionStatement}
    (hissued : w.calls call ≠ .unissued) (hidle : ∀ position, w.calls call ≠ .awaiting position none)
    (hstatement : (statementsOf values call)[position]? = some statement)
    (hbegin : statement = .beginTransaction →
      ∀ entry ∈ w.queue, entry.2 = .beginTransaction → entry.1 < call)
    (hfirst : ∀ earlier < call, w.calls earlier ≠ .loading) :
    Queued values (w.send call (.awaiting position none) statement) := by
  have hqueue := h.not_mem_queue hidle
  refine ⟨h.issued_le, ?_, ?_, ?_, ?_, ?_, ?_⟩
  · intro other
    rw [send_calls]
    split
    · rename_i heq
      rw [heq]
      have hlt : ¬ w.issued ≤ call := fun hle => hissued ((h.unissued_iff call).mpr hle)
      exact ⟨nofun, fun hle => absurd hle hlt⟩
    · exact h.unissued_iff other
  · intro entry hentry
    rw [send_queue, List.mem_append, List.mem_singleton] at hentry
    rw [send_calls]
    rcases hentry with hentry | rfl
    · rw [if_neg (hqueue entry hentry)]
      exact h.queued entry hentry
    · exact ⟨position, if_pos rfl, hstatement⟩
  · intro other position' hother
    rw [send_calls] at hother
    rw [send_queue]
    split at hother
    · rename_i heq
      exact ⟨(call, statement), by simp, heq.symm⟩
    · obtain ⟨entry, hentry, heq⟩ := h.outstanding other position' hother
      exact ⟨entry, List.mem_append_left _ hentry, heq⟩
  · rw [send_queue, List.map_append, List.nodup_append]
    refine ⟨h.once, List.nodup_singleton _, ?_⟩
    intro sender hsender other hother heq
    obtain ⟨entry, hentry, rfl⟩ := List.mem_map.mp hsender
    rw [List.map_singleton, List.mem_singleton] at hother
    exact hqueue entry hentry (heq.trans hother)
  · rw [send_queue, List.pairwise_append]
    refine ⟨h.beginsInOrder, List.pairwise_singleton _ _, ?_⟩
    intro entry hentry last hlast hfirst' hlast'
    rw [List.mem_singleton] at hlast
    subst hlast
    exact hbegin hlast' entry hentry hfirst'
  · intro first second hlt hloading
    rw [send_calls] at hloading ⊢
    split at hloading
    · exact nomatch hloading
    · split
      · rename_i heq
        exact absurd hloading (hfirst first (heq ▸ hlt))
      · exact h.fifo first second hlt hloading

/-- A call that is done with the connection settles, and nothing else changes. -/
theorem Queued.settle (h : Queued values w) {call : ℕ} {succeeded : Bool}
    (hissued : w.calls call ≠ .unissued) (hidle : ∀ position, w.calls call ≠ .awaiting position none)
    (hstarted : w.calls call ≠ .loading) : Queued values (w.put call (.settled succeeded)) := by
  have hqueue := h.not_mem_queue hidle
  refine ⟨h.issued_le, ?_, ?_, ?_, h.once, h.beginsInOrder, ?_⟩
  · intro other
    rw [put_calls]
    split
    · rename_i heq
      rw [heq]
      have hlt : ¬ w.issued ≤ call := fun hle => hissued ((h.unissued_iff call).mpr hle)
      exact ⟨nofun, fun hle => absurd hle hlt⟩
    · exact h.unissued_iff other
  · intro entry hentry
    rw [put_calls_of_ne (hqueue entry hentry)]
    exact h.queued entry hentry
  · intro other position hother
    rw [put_calls] at hother
    split at hother
    · exact nomatch hother
    · exact h.outstanding other position hother
  · intro first second hlt hloading
    rw [put_calls] at hloading ⊢
    split at hloading
    · exact nomatch hloading
    · split
      · rename_i heq
        rcases h.fifo first second hlt hloading with hsecond | hsecond
        · exact absurd (heq ▸ hsecond) hstarted
        · exact absurd (heq ▸ hsecond) hissued
      · exact h.fifo first second hlt hloading

/-- The connection replies to the statement that was issued first. -/
theorem Queued.reply (h : Queued values w) {call position : ℕ} {statement : DeletionStatement}
    {queue : List (ℕ × DeletionStatement)} (hhead : w.queue = (call, statement) :: queue)
    (hsent : w.calls call = .awaiting position none) (succeeded : Bool) :
    Queued values
      { w.put call (.awaiting position (some succeeded)) with queue := queue } := by
  have honce := h.once
  rw [hhead, List.map_cons, List.nodup_cons] at honce
  have hne : ∀ entry ∈ queue, entry.1 ≠ call := by
    intro entry hentry heq
    have hmem : entry.1 ∈ queue.map Prod.fst := List.mem_map_of_mem hentry
    exact honce.1 (heq ▸ hmem)
  have hcalls : ∀ other, (w.put call (.awaiting position (some succeeded))).calls other =
      if other = call then .awaiting position (some succeeded) else w.calls other := put_calls
  refine ⟨h.issued_le, ?_, ?_, ?_, honce.2, ?_, ?_⟩
  · intro other
    show (w.put call _).calls other = _ ↔ _
    rw [hcalls]
    split
    · rename_i heq
      have hunissued := h.unissued_iff call
      rw [hsent] at hunissued
      rw [heq]
      exact ⟨nofun, fun hle => nomatch hunissued.mpr hle⟩
    · exact h.unissued_iff other
  · intro entry hentry
    obtain ⟨position', hposition, hstatement⟩ := h.queued entry (by rw [hhead]; simp [hentry])
    exact ⟨position', (put_calls_of_ne (hne entry hentry)).trans hposition, hstatement⟩
  · intro other position' hother
    have hother : (w.put call _).calls other = .awaiting position' none := hother
    rw [hcalls] at hother
    split at hother
    · exact nomatch hother
    · rename_i hother'
      obtain ⟨entry, hentry, heq⟩ := h.outstanding other position' hother
      rw [hhead] at hentry
      rcases List.mem_cons.mp hentry with rfl | hentry
      · exact absurd heq.symm hother'
      · exact ⟨entry, hentry, heq⟩
  · have horder := h.beginsInOrder
    rw [hhead, List.pairwise_cons] at horder
    exact horder.2
  · intro first second hlt hloading
    have hloading : (w.put call _).calls first = .loading := hloading
    show (w.put call _).calls second = .loading ∨ (w.put call _).calls second = .unissued
    rw [hcalls] at hloading ⊢
    split at hloading
    · exact nomatch hloading
    · split
      · rename_i heq
        rcases h.fifo first second hlt hloading with hsecond | hsecond
        · rw [heq, hsent] at hsecond
          exact nomatch hsecond
        · rw [heq, hsent] at hsecond
          exact nomatch hsecond
      · exact h.fifo first second hlt hloading

theorem Queued.step (h : Queued values w) (hexclusive : Exclusive values w) :
    Queued values (step values w a) := by
  have heffect := step_effect h hexclusive a
  generalize Persistence.step values w a = w' at heffect
  cases heffect with
  | same => exact h
  | load =>
    exact ⟨h.issued_le, h.unissued_iff, h.queued, h.outstanding, h.once, h.beginsInOrder, h.fifo⟩
  | issue room =>
    have hnew : w.calls w.issued = .unissued := (h.unissued_iff _).mpr (Nat.le_refl _)
    have hcalls : ∀ call, (w.put w.issued .loading).calls call =
        if call = w.issued then .loading else w.calls call := put_calls
    refine ⟨room, ?_, ?_, ?_, h.once, h.beginsInOrder, ?_⟩
    · intro call
      show (w.put w.issued .loading).calls call = .unissued ↔ w.issued + 1 ≤ call
      rw [hcalls]
      split
      · rename_i heq
        exact ⟨nofun, fun hle => by omega⟩
      · rename_i hne
        rw [h.unissued_iff]
        omega
    · intro entry hentry
      obtain ⟨position, hposition, hstatement⟩ := h.queued entry hentry
      have hne : entry.1 ≠ w.issued := by
        intro heq
        rw [heq, hnew] at hposition
        exact nomatch hposition
      exact ⟨position, (put_calls_of_ne hne).trans hposition, hstatement⟩
    · intro call position hcall
      have hcall : (w.put w.issued .loading).calls call = .awaiting position none := hcall
      rw [hcalls] at hcall
      split at hcall
      · exact nomatch hcall
      · exact h.outstanding call position hcall
    · intro first second hlt hloading
      have hloading : (w.put w.issued .loading).calls first = .loading := hloading
      show (w.put w.issued .loading).calls second = .loading ∨
        (w.put w.issued .loading).calls second = .unissued
      rw [hcalls] at hloading ⊢
      split
      · exact .inl rfl
      · split at hloading
        · rename_i heq
          exact .inr ((h.unissued_iff second).mpr (by omega))
        · exact h.fifo first second hlt hloading
  | begin call loading first =>
    apply h.send
    · rw [loading]
      exact nofun
    · intro position
      rw [loading]
      exact nofun
    · rfl
    · intro _ entry hentry _
      obtain ⟨position, hposition, -⟩ := h.queued entry hentry
      rcases Nat.lt_trichotomy entry.1 call with hlt | heq | hgt
      · exact hlt
      · rw [heq, loading] at hposition
        exact nomatch hposition
      · rcases h.fifo call entry.1 hgt loading with hentry | hentry
        · rw [hentry] at hposition
          exact nomatch hposition
        · rw [hentry] at hposition
          exact nomatch hposition
    · exact first
  | next call position statement replied statement_eq =>
    apply h.send
    · rw [replied]
      exact nofun
    · intro position
      rw [replied]
      exact nofun
    · exact statement_eq
    · intro hbegin
      subst hbegin
      rcases setNativeDeletionItem_getElem? _ statement_eq with ⟨hp, -⟩ | ⟨-, hs⟩ |
        ⟨_, _, -, -, hs⟩ | ⟨-, hs⟩
      · exact nomatch hp
      · exact nomatch hs
      · exact nomatch hs
      · exact nomatch hs
    · intro earlier hlt hloading
      rcases h.fifo earlier call hlt hloading with hcall | hcall
      · rw [replied] at hcall
        exact nomatch hcall
      · rw [replied] at hcall
        exact nomatch hcall
  | finish call position replied last =>
    have hsettled : Queued values (w.put call (.settled true)) := by
      apply h.settle
      · rw [replied]
        exact nofun
      · intro position
        rw [replied]
        exact nofun
      · rw [replied]
        exact nofun
    exact ⟨hsettled.issued_le, hsettled.unissued_iff, hsettled.queued, hsettled.outstanding,
      hsettled.once, hsettled.beginsInOrder, hsettled.fifo⟩
  | giveUp call refused =>
    apply h.settle
    · rw [refused]
      exact nofun
    · intro position
      rw [refused]
      exact nofun
    · rw [refused]
      exact nofun
  | execute call position statement queue head sent statement_eq =>
    have hreplied := h.reply head sent (Transactions.execute DeletionChange.apply w.connection statement).2
    exact ⟨hreplied.issued_le, hreplied.unissued_iff, hreplied.queued, hreplied.outstanding,
      hreplied.once, hreplied.beginsInOrder, hreplied.fifo⟩

end Queue

section Transaction
variable {values : List VaultDeletionMap} {w w' : StorageWorld} {a : StorageAction}

theorem executed_lt (h : Queued values w) {call position : ℕ}
    (hcall : w.calls call = .awaiting position none) :
    position < (statementsOf values call).length := by
  obtain ⟨entry, hentry, rfl⟩ := h.outstanding call position hcall
  obtain ⟨position', hposition, hstatement⟩ := h.queued entry hentry
  rw [hcall] at hposition
  obtain ⟨rfl⟩ : position = position' := (CallState.awaiting.inj hposition).1
  exact (List.getElem?_eq_some_iff.mp hstatement).1

/-- The invariant depends on the calls and the connection only, and on a call only by what
was executed for it, as long as it is neither refused late nor rolling back. -/
theorem Exclusive.congr (h : Exclusive values w)
    (hconnection : w'.connection = w.connection)
    (hexecuted : ∀ call, InTransaction values w' call →
      InTransaction values w call ∧ (w'.calls call).executed = (w.calls call).executed)
    (hrefused : ∀ call position, w'.calls call = .awaiting position (some false) →
      w.calls call = .awaiting position (some false))
    (hrolling : ∀ call reply, w'.calls call = .rollingBack reply →
      w.calls call = .rollingBack reply) : Exclusive values w' where
  refusedAtBegin call position hcall := h.refusedAtBegin call position (hrefused call position hcall)
  noRollback call reply hcall := h.noRollback call reply (hrolling call reply hcall)
  closed hsaved call hcall := h.closed (hconnection ▸ hsaved) call (hexecuted call hcall).1
  unique first second hfirst hsecond :=
    h.unique first second (hexecuted first hfirst).1 (hexecuted second hsecond).1
  content call hcall hwritten := by
    obtain ⟨hopen, heq⟩ := hexecuted call hcall
    rw [heq] at hwritten ⊢
    rw [hconnection]
    exact h.content call hopen hwritten

/-- A call that goes on without the connection. -/
theorem Exclusive.put (h : Exclusive values w) {call : ℕ} {state : CallState}
    (hconnection : w'.connection = w.connection)
    (hcalls : ∀ other, w'.calls other = if other = call then state else w.calls other)
    (hexecuted : state.executed = (w.calls call).executed ∨ state.executed = 0)
    (hrefused : ∀ position, state ≠ .awaiting position (some false))
    (hrolling : ∀ reply, state ≠ .rollingBack reply) : Exclusive values w' := by
  apply h.congr hconnection
  · intro other hother
    unfold InTransaction at hother ⊢
    rw [hcalls] at hother ⊢
    split at hother
    · rename_i heq
      rw [if_pos heq]
      subst heq
      rcases hexecuted with heq | hzero
      · rw [← heq]
        exact ⟨hother, rfl⟩
      · exact absurd hother.1 (by omega)
    · rename_i hne
      rw [if_neg hne]
      exact ⟨hother, rfl⟩
  · intro other position hother
    rw [hcalls] at hother
    split at hother
    · exact absurd hother (hrefused position)
    · exact hother
  · intro other reply hother
    rw [hcalls] at hother
    split at hother
    · exact absurd hother (hrolling reply)
    · exact hother

/-- The state after the connection has run the head of the queue. -/
def executedWorld (w : StorageWorld) (call position : ℕ) (statement : DeletionStatement)
    (queue : List (ℕ × DeletionStatement)) : StorageWorld :=
  { w.put call (.awaiting position
      (some (Transactions.execute DeletionChange.apply w.connection statement).2)) with
    queue := queue
    connection := (Transactions.execute DeletionChange.apply w.connection statement).1 }

variable {call position : ℕ} {statement : DeletionStatement}
  {queue : List (ℕ × DeletionStatement)}

theorem executedWorld_calls (other : ℕ) :
    (executedWorld w call position statement queue).calls other =
      if other = call then .awaiting position
        (some (Transactions.execute DeletionChange.apply w.connection statement).2)
      else w.calls other := put_calls other

/-- A statement after `BEGIN` runs in the call's own transaction. -/
theorem inTransaction_of_sent (h : Queued values w) (hsent : w.calls call = .awaiting position none)
    (hpos : 0 < position) : InTransaction values w call := by
  unfold InTransaction
  rw [hsent]
  exact ⟨hpos, executed_lt h hsent⟩

/-- How the connection answers a statement of a call. -/
inductive Answer (values : List VaultDeletionMap) (w : StorageWorld) (call position : ℕ)
    (statement : DeletionStatement) : Prop where
  | opened (atBegin : position = 0) (closed : w.connection.saved = none)
      (result : Transactions.execute DeletionChange.apply w.connection statement =
        ({ w.connection with saved := some w.connection.table }, true))
  | refused (atBegin : position = 0) (busy : w.connection.saved ≠ none)
      (result : Transactions.execute DeletionChange.apply w.connection statement =
        (w.connection, false))
  | wrote (change : DeletionChange) (started : 0 < position)
      (before : position + 1 < (statementsOf values call).length)
      (result : Transactions.execute DeletionChange.apply w.connection statement =
        ({ w.connection with table := change.apply w.connection.table }, true))
      (content : OrderedMap.ofList ((deletionRows (valueOf values call)).take (position + 1 - 2)) =
        change.apply (if 2 ≤ position then
          OrderedMap.ofList ((deletionRows (valueOf values call)).take (position - 2))
          else w.connection.table))
  | committed (started : 0 < position) (last : position + 1 = (statementsOf values call).length)
      (result : Transactions.execute DeletionChange.apply w.connection statement =
        ({ w.connection with saved := none }, true))

/-- A statement is refused only if it is a `BEGIN` and a transaction is open. -/
theorem execute_answer (hqueued : Queued values w) (h : Exclusive values w)
    (hsent : w.calls call = .awaiting position none)
    (hstatement : (statementsOf values call)[position]? = some statement) :
    Answer values w call position statement := by
  have hlength := length_setNativeDeletionItem (valueOf values call)
  have hopen : 0 < position → w.connection.saved ≠ none := fun hpos hclosed =>
    h.closed hclosed call (inTransaction_of_sent hqueued hsent hpos)
  rcases setNativeDeletionItem_getElem? _ hstatement with ⟨rfl, rfl⟩ | ⟨rfl, rfl⟩ |
    ⟨k, row, rfl, hrow, rfl⟩ | ⟨rfl, rfl⟩
  · by_cases hclosed : w.connection.saved = none
    · exact .opened rfl hclosed (execute_begin_of_closed _ hclosed)
    · exact .refused rfl hclosed (execute_begin_of_open _ hclosed)
  · refine .wrote .deleteAll Nat.one_pos ?_ rfl rfl
    rw [statementsOf, hlength]
    omega
  · have hk : k < (deletionRows (valueOf values call)).length :=
      (List.getElem?_eq_some_iff.mp hrow).1
    refine .wrote (.upsert row.1 row.2) (Nat.succ_pos _) ?_ rfl ?_
    · rw [statementsOf, hlength]
      omega
    · rw [if_pos (Nat.le_add_left 2 k), Nat.add_sub_cancel, show k + 2 + 1 - 2 = k + 1 from rfl,
        List.take_add_one, hrow, OrderedMap.ofList, OrderedMap.setAll_append]
      rfl
  · refine .committed (Nat.succ_pos _) ?_ (execute_commit_of_open _ (hopen (Nat.succ_pos _)))
    rw [statementsOf, hlength]

theorem Exclusive.execute (h : Exclusive values w) (hqueued : Queued values w)
    (hsent : w.calls call = .awaiting position none)
    (hstatement : (statementsOf values call)[position]? = some statement) :
    Exclusive values (executedWorld w call position statement queue) := by
  have hother : ∀ other, other ≠ call →
      (executedWorld w call position statement queue).calls other = w.calls other :=
    fun other hne => (executedWorld_calls other).trans (if_neg hne)
  have hopen : ∀ other, other ≠ call →
      InTransaction values (executedWorld w call position statement queue) other →
      InTransaction values w other := by
    intro other hne hin
    unfold InTransaction at hin ⊢
    rwa [hother other hne] at hin
  have hrolling : ∀ other reply,
      (executedWorld w call position statement queue).calls other ≠ .rollingBack reply := by
    intro other reply hcall
    rw [executedWorld_calls] at hcall
    split at hcall
    · exact nomatch hcall
    · exact h.noRollback other reply hcall
  have hrefused : (Transactions.execute DeletionChange.apply w.connection statement).2 = false →
      position = 0 := by
    intro hfalse
    cases execute_answer hqueued h hsent hstatement with
    | opened atBegin => exact atBegin
    | refused atBegin => exact atBegin
    | wrote _ _ _ result =>
      rw [result] at hfalse
      exact nomatch hfalse
    | committed _ _ result =>
      rw [result] at hfalse
      exact nomatch hfalse
  have hbegin : ∀ other position',
      (executedWorld w call position statement queue).calls other =
        .awaiting position' (some false) → position' = 0 := by
    intro other position' hcall
    rw [executedWorld_calls] at hcall
    split at hcall
    · obtain ⟨rfl, hfalse⟩ := CallState.awaiting.inj hcall
      exact hrefused (Option.some.inj hfalse)
    · exact h.refusedAtBegin other position' hcall
  have hcallState : (executedWorld w call position statement queue).calls call = .awaiting position
      (some (Transactions.execute DeletionChange.apply w.connection statement).2) :=
    (executedWorld_calls call).trans (if_pos rfl)
  cases execute_answer hqueued h hsent hstatement with
  | opened atBegin hclosed heq =>
    subst atBegin
    have honly : ∀ other, InTransaction values (executedWorld w call 0 statement queue) other →
        other = call := by
      intro other hin
      by_contra hne
      exact h.closed hclosed other (hopen other hne hin)
    refine ⟨hbegin, hrolling, ?_, ?_, ?_⟩
    · intro hsaved
      have hsaved : (Transactions.execute DeletionChange.apply w.connection statement).1.saved =
        none := hsaved
      rw [heq] at hsaved
      exact nomatch hsaved
    · intro first second hfirst hsecond
      rw [honly first hfirst, honly second hsecond]
    · intro other hin hwritten
      rw [honly other hin, hcallState, heq] at hwritten
      exact absurd hwritten (Nat.not_succ_le_self 1)
  | refused atBegin _ heq =>
    subst atBegin
    have hnot : ¬ InTransaction values (executedWorld w call 0 statement queue) call := by
      unfold InTransaction
      rw [hcallState, heq]
      exact fun hin => Nat.lt_irrefl 0 hin.1
    have hconnection : (executedWorld w call 0 statement queue).connection = w.connection :=
      congrArg Prod.fst heq
    have hold : ∀ other, InTransaction values (executedWorld w call 0 statement queue) other →
        other ≠ call ∧ InTransaction values w other := by
      intro other hin
      have hne : other ≠ call := fun heq => hnot (heq ▸ hin)
      exact ⟨hne, hopen other hne hin⟩
    refine ⟨hbegin, hrolling, ?_, ?_, ?_⟩
    · intro hsaved other hin
      exact h.closed (hconnection ▸ hsaved) other (hold other hin).2
    · intro first second hfirst hsecond
      exact h.unique first second (hold first hfirst).2 (hold second hsecond).2
    · intro other hin hwritten
      rw [hother other (hold other hin).1] at hwritten ⊢
      rw [hconnection]
      exact h.content other (hold other hin).2 hwritten
  | wrote change hpos _ heq htable =>
    have hin := inTransaction_of_sent hqueued hsent hpos
    have honly : ∀ other,
        InTransaction values (executedWorld w call position statement queue) other →
        other = call := by
      intro other hother'
      by_contra hne
      exact hne (h.unique other call (hopen other hne hother') hin)
    have hconnection : (executedWorld w call position statement queue).connection =
        { w.connection with table := change.apply w.connection.table } := congrArg Prod.fst heq
    refine ⟨hbegin, hrolling, ?_, ?_, ?_⟩
    · intro hsaved
      rw [hconnection] at hsaved
      exact absurd hin (h.closed hsaved call)
    · intro first second hfirst hsecond
      rw [honly first hfirst, honly second hsecond]
    · intro other hother' _
      rw [honly other hother', hcallState, heq, hconnection]
      show change.apply w.connection.table =
        OrderedMap.ofList ((deletionRows (valueOf values call)).take (position + 1 - 2))
      rw [htable]
      split
      · rename_i htwo
        have hcontent := h.content call hin (by rw [hsent]; exact htwo)
        rw [hsent] at hcontent
        rw [hcontent]
        rfl
      · rfl
  | committed hpos hlast heq =>
    have hin := inTransaction_of_sent hqueued hsent hpos
    have hnone : ∀ other,
        ¬ InTransaction values (executedWorld w call position statement queue) other := by
      intro other hother'
      by_cases hne : other = call
      · unfold InTransaction at hother'
        rw [hne, hcallState, heq] at hother'
        have hlt : position + 1 < (statementsOf values call).length := hother'.2
        omega
      · exact hne (h.unique other call (hopen other hne hother') hin)
    exact ⟨hbegin, hrolling, fun _ other => hnone other,
      fun first _ hfirst _ => absurd hfirst (hnone first),
      fun other hother' _ => absurd hother' (hnone other)⟩

theorem Exclusive.step (h : Exclusive values w) (hqueued : Queued values w) :
    Exclusive values (step values w a) := by
  have heffect := step_effect hqueued h a
  generalize Persistence.step values w a = w' at heffect
  cases heffect with
  | same => exact h
  | load => exact ⟨h.refusedAtBegin, h.noRollback, h.closed, h.unique, h.content⟩
  | issue room =>
    exact h.put rfl (fun other => put_calls other) (.inr rfl) (fun _ => nofun) fun _ => nofun
  | begin call loading first =>
    exact h.put rfl (fun other => put_calls other) (.inr rfl) (fun _ => nofun) fun _ => nofun
  | next call position statement replied statement_eq =>
    refine h.put rfl (fun other => put_calls other) (.inl ?_) (fun _ => nofun) fun _ => nofun
    rw [replied]
    rfl
  | finish call position replied last =>
    exact h.put rfl (fun other => put_calls other) (.inr rfl) (fun _ => nofun) fun _ => nofun
  | giveUp call refused =>
    exact h.put rfl (fun other => put_calls other) (.inr rfl) (fun _ => nofun) fun _ => nofun
  | execute call position statement queue head sent statement_eq =>
    exact h.execute hqueued sent statement_eq

end Transaction

end Persistence
