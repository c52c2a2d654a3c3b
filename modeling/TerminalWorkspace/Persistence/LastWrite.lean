import TerminalWorkspace.Persistence.OneTransaction

/-! The last value passed to the tombstone storage. It survives as long as its own call is
not one that gives up and no slower call copies its value after it. -/
namespace Persistence
open JsText Inventory Transactions Runs

section LastCall
variable (values : List VaultDeletionMap) (w : StorageWorld)

/-- The call that is passed the last value. -/
def lastCall : ℕ := values.length - 1

/-- The `BEGIN` of the last call meets no open transaction, and no other call copies its value
after the last call has. -/
def LeavesLastCall : StorageAction → Prop
  | .execute =>
    match w.queue with
    | (call, .beginTransaction) :: _ => call = lastCall values → w.connection.saved = none
    | _ => True
  | .resume call =>
    match w.calls call with
    | .awaiting position (some true) =>
      (statementsOf values call)[position + 1]? = none → call ≠ lastCall values →
        w.calls (lastCall values) ≠ .settled true
    | _ => True
  | _ => True

instance (a : StorageAction) : Decidable (LeavesLastCall values w a) := by
  unfold LeavesLastCall
  split <;> try split
  all_goals infer_instance

/-- How far the last call has come, and that no other call can undo it. -/
structure LastHeld : Prop where
  alone : 0 < (w.calls (lastCall values)).executed ∨ w.calls (lastCall values) = .settled true →
    ∀ call < lastCall values, Finished values w call
  notRefused : ∀ position, w.calls (lastCall values) ≠ .awaiting position (some false)
  notGivenUp : w.calls (lastCall values) ≠ .settled false
  committed : (statementsOf values (lastCall values)).length ≤
        (w.calls (lastCall values)).executed ∨
      w.calls (lastCall values) = .settled true →
    w.connection.table = OrderedMap.ofList (deletionRows (valueOf values (lastCall values)))
  copied : w.calls (lastCall values) = .settled true →
    w.localStorage = some (valueOf values (lastCall values))

variable {values w}

theorem Finished.of_calls_eq {w' : StorageWorld} {call : ℕ} (h : Finished values w call)
    (hcalls : w'.calls call = w.calls call) : Finished values w' call := by
  unfold Finished at h ⊢
  rwa [hcalls]

theorem Finished.not_sent {call position : ℕ} (h : Finished values w call) :
    w.calls call ≠ .awaiting position none := by
  rintro hcall
  rcases h with ⟨succeeded, h⟩ | h | ⟨_, h, -⟩
  · rw [hcall] at h
    exact nomatch h
  · rw [hcall] at h
    exact nomatch h
  · rw [hcall] at h
    exact nomatch h

theorem Finished.not_loading {call : ℕ} (h : Finished values w call) :
    w.calls call ≠ .loading := by
  rintro hcall
  rcases h with ⟨succeeded, h⟩ | h | ⟨_, h, -⟩
  · rw [hcall] at h
    exact nomatch h
  · rw [hcall] at h
    exact nomatch h
  · rw [hcall] at h
    exact nomatch h

/-- Once the last call has its transaction, every earlier call is finished. -/
theorem finished_of_last_begins (hqueued : Queued values w) (h : Exclusive values w)
    {queue : List (ℕ × DeletionStatement)}
    (hhead : w.queue = (lastCall values, .beginTransaction) :: queue)
    (hsent : w.calls (lastCall values) = .awaiting 0 none)
    (hclosed : w.connection.saved = none) :
    ∀ call < lastCall values, Finished values w call := by
  intro call hlt
  have hopen : ¬ InTransaction values w call := h.closed hclosed call
  unfold InTransaction at hopen
  cases hcall : w.calls call with
  | unissued =>
    have hissued : w.issued ≤ call := (hqueued.unissued_iff call).mp hcall
    have hlast := (hqueued.unissued_iff (lastCall values)).mpr (by omega)
    rw [hsent] at hlast
    exact nomatch hlast
  | loading =>
    rcases hqueued.fifo call _ hlt hcall with hlast | hlast
    · rw [hsent] at hlast
      exact nomatch hlast
    · rw [hsent] at hlast
      exact nomatch hlast
  | awaiting position reply =>
    rw [hcall] at hopen
    cases reply with
    | none =>
      have hposition := executed_lt hqueued hcall
      obtain rfl : position = 0 := by
        by_contra hne
        exact hopen ⟨Nat.pos_of_ne_zero hne, hposition⟩
      -- its `BEGIN` would wait behind that of a later call
      obtain ⟨entry, hentry, rfl⟩ := hqueued.outstanding call 0 hcall
      obtain ⟨position', hposition', hstatement⟩ := hqueued.queued entry hentry
      obtain ⟨rfl⟩ : 0 = position' := (CallState.awaiting.inj (hcall.symm.trans hposition')).1
      have hbegin : entry.2 = .beginTransaction := (Option.some.inj hstatement).symm
      rw [hhead] at hentry
      rcases List.mem_cons.mp hentry with rfl | hentry
      · exact absurd hlt (Nat.lt_irrefl _)
      · have horder := hqueued.beginsInOrder
        rw [hhead, List.pairwise_cons] at horder
        exact absurd (horder.1 entry hentry rfl hbegin) (Nat.lt_asymm hlt)
    | some succeeded =>
      cases succeeded with
      | false =>
        have hzero := h.refusedAtBegin call position hcall
        subst hzero
        exact .inr (.inl hcall)
      | true =>
        refine .inr (.inr ⟨position, hcall, List.getElem?_eq_none ?_⟩)
        by_contra hlt'
        exact hopen ⟨Nat.succ_pos _, by simpa [CallState.executed] using hlt'⟩
  | rollingBack reply => exact absurd hcall (h.noRollback call reply)
  | settled succeeded => exact .inl ⟨succeeded, hcall⟩

/-- A step of another call that leaves the connection alone. -/
theorem LastHeld.of_other (h : LastHeld values w) {w' : StorageWorld} {call : ℕ}
    (hne : call ≠ lastCall values) (hconnection : w'.connection = w.connection)
    (hcalls : ∀ other, other ≠ call → w'.calls other = w.calls other)
    (hfinished : Finished values w call → Finished values w' call)
    (hcopy : w.calls (lastCall values) = .settled true → w'.localStorage = w.localStorage) :
    LastHeld values w' := by
  have hlast := hcalls _ (Ne.symm hne)
  refine ⟨?_, ?_, ?_, ?_, ?_⟩
  · intro hbegun other hlt
    rw [hlast] at hbegun
    have hother := h.alone hbegun other hlt
    by_cases heq : other = call
    · subst heq
      exact hfinished hother
    · exact hother.of_calls_eq (hcalls other heq)
  · rw [hlast]
    exact h.notRefused
  · rw [hlast]
    exact h.notGivenUp
  · rw [hlast, hconnection]
    exact h.committed
  · intro hsettled
    rw [hlast] at hsettled
    rw [hcopy hsettled]
    exact h.copied hsettled

variable (values) in
theorem statementsOf_pos (call : ℕ) : 0 < (statementsOf values call).length := by
  rw [statementsOf, length_setNativeDeletionItem]
  exact Nat.succ_pos _

/-- A last call that has not begun its transaction has nothing to keep. -/
theorem LastHeld.of_not_begun {w' : StorageWorld}
    (hexecuted : (w'.calls (lastCall values)).executed = 0)
    (hsettled : ∀ succeeded, w'.calls (lastCall values) ≠ .settled succeeded)
    (hrefused : ∀ position, w'.calls (lastCall values) ≠ .awaiting position (some false)) :
    LastHeld values w' := by
  refine ⟨?_, hrefused, hsettled false, ?_, fun h => absurd h (hsettled true)⟩
  · rintro (hpos | h)
    · omega
    · exact absurd h (hsettled true)
  · rintro (hle | h)
    · have := statementsOf_pos values (lastCall values)
      omega
    · exact absurd h (hsettled true)

/-- A statement of the last call has succeeded, and every earlier call is finished. -/
theorem LastHeld.of_succeeded {w' : StorageWorld} {position : ℕ}
    (hself : w'.calls (lastCall values) = .awaiting position (some true))
    (halone : ∀ call < lastCall values, Finished values w' call)
    (hcommitted : (statementsOf values (lastCall values)).length ≤ position + 1 →
      w'.connection.table = OrderedMap.ofList (deletionRows (valueOf values (lastCall values)))) :
    LastHeld values w' := by
  refine ⟨fun _ => halone, ?_, ?_, ?_, ?_⟩
  · intro position
    rw [hself]
    exact nofun
  · rw [hself]
    exact nofun
  · rw [hself]
    rintro (hle | heq)
    · exact hcommitted hle
    · exact nomatch heq
  · rw [hself]
    exact nofun

/-- The last call goes on and its transaction stays where it is. -/
theorem LastHeld.of_last (h : LastHeld values w) {w' : StorageWorld}
    (hconnection : w'.connection = w.connection)
    (hcalls : ∀ other, other ≠ lastCall values → w'.calls other = w.calls other)
    (hbegun : 0 < (w.calls (lastCall values)).executed)
    (hcommitted : (statementsOf values (lastCall values)).length ≤
        (w'.calls (lastCall values)).executed ∨ w'.calls (lastCall values) = .settled true →
      (statementsOf values (lastCall values)).length ≤ (w.calls (lastCall values)).executed)
    (hrefused : ∀ position, w'.calls (lastCall values) ≠ .awaiting position (some false))
    (hgivenUp : w'.calls (lastCall values) ≠ .settled false)
    (hcopied : w'.calls (lastCall values) = .settled true →
      w'.localStorage = some (valueOf values (lastCall values))) : LastHeld values w' := by
  refine ⟨?_, hrefused, hgivenUp, ?_, hcopied⟩
  · intro _ other hlt
    exact (h.alone (.inl hbegun) other hlt).of_calls_eq (hcalls other (Nat.ne_of_lt hlt))
  · intro hdone
    rw [hconnection]
    exact h.committed (.inl (hcommitted hdone))

/-- Once the last call has begun its transaction, no other call reaches the connection. -/
theorem LastHeld.sent_eq (h : LastHeld values w) (hqueued : Queued values w) {call position : ℕ}
    (hbegun : 0 < (w.calls (lastCall values)).executed ∨
      w.calls (lastCall values) = .settled true)
    (hsent : w.calls call = .awaiting position none) : call = lastCall values := by
  have hissued : ¬ w.issued ≤ call := by
    intro hle
    rw [(hqueued.unissued_iff call).mpr hle] at hsent
    exact nomatch hsent
  have hle := hqueued.issued_le
  rcases Nat.lt_trichotomy call (lastCall values) with hlt | heq | hgt
  · exact absurd hsent (h.alone hbegun call hlt).not_sent
  · exact heq
  · unfold lastCall at hgt
    omega

theorem LastHeld.execute (h : LastHeld values w) (hqueued : Queued values w)
    (hexclusive : Exclusive values w) {call position : ℕ} {statement : DeletionStatement}
    {queue : List (ℕ × DeletionStatement)} (hhead : w.queue = (call, statement) :: queue)
    (hsent : w.calls call = .awaiting position none)
    (hstatement : (statementsOf values call)[position]? = some statement)
    (hallowed : LeavesLastCall values w .execute) :
    LastHeld values (executedWorld w call position statement queue) := by
  have hother : ∀ other, other ≠ call →
      (executedWorld w call position statement queue).calls other = w.calls other :=
    fun other hne => (executedWorld_calls other).trans (if_neg hne)
  by_cases hlast : call = lastCall values
  · subst hlast
    have hself : (executedWorld w (lastCall values) position statement queue).calls
        (lastCall values) = .awaiting position
          (some (Transactions.execute DeletionChange.apply w.connection statement).2) :=
      (executedWorld_calls _).trans (if_pos rfl)
    have hkeep : ∀ call < lastCall values, Finished values w call →
        Finished values (executedWorld w (lastCall values) position statement queue) call :=
      fun call hlt hfinished => hfinished.of_calls_eq (hother call (Nat.ne_of_lt hlt))
    have hlength := length_setNativeDeletionItem (valueOf values (lastCall values))
    have hopened : w.connection.saved = none ∨ 0 < position := by
      rcases Nat.eq_zero_or_pos position with rfl | hpos
      · have hbegin : statement = .beginTransaction := (Option.some.inj hstatement).symm
        subst hbegin
        unfold LeavesLastCall at hallowed
        rw [hhead] at hallowed
        exact .inl (hallowed rfl)
      · exact .inr hpos
    have halone : ∀ call < lastCall values, Finished values w call := by
      rcases Nat.eq_zero_or_pos position with rfl | hpos
      · have hbegin : statement = .beginTransaction := (Option.some.inj hstatement).symm
        subst hbegin
        have hclosed := hopened.resolve_right (Nat.lt_irrefl 0)
        exact finished_of_last_begins hqueued hexclusive hhead hsent hclosed
      · exact h.alone (.inl (by rw [hsent]; exact hpos))
    cases execute_answer hqueued hexclusive hsent hstatement with
    | opened atBegin closed result =>
      subst atBegin
      rw [result] at hself
      refine .of_succeeded hself (fun call hlt => hkeep call hlt (halone call hlt)) fun hle => ?_
      rw [statementsOf, hlength] at hle
      omega
    | refused atBegin busy =>
      subst atBegin
      exact absurd (hopened.resolve_right (Nat.lt_irrefl 0)) busy
    | wrote change started before result =>
      rw [result] at hself
      exact .of_succeeded hself (fun call hlt => hkeep call hlt (halone call hlt)) fun hle =>
        absurd hle (Nat.not_le.mpr before)
    | committed started last result =>
      rw [result] at hself
      refine .of_succeeded hself (fun call hlt => hkeep call hlt (halone call hlt)) fun _ => ?_
      have hconnection : (executedWorld w (lastCall values) position statement queue).connection =
          { w.connection with saved := none } := congrArg Prod.fst result
      rw [hconnection]
      rw [statementsOf, hlength] at last
      have hcontent := hexclusive.content _ (inTransaction_of_sent hqueued hsent started)
      rw [hsent] at hcontent
      have hcontent := hcontent (show 2 ≤ position by omega)
      rw [hcontent]
      show OrderedMap.ofList (List.take (position - 2) _) = _
      rw [List.take_of_length_le (by omega)]
  · have hnot : ¬ (0 < (w.calls (lastCall values)).executed ∨
        w.calls (lastCall values) = .settled true) :=
      fun hbegun => hlast (h.sent_eq hqueued hbegun hsent)
    have hsame := hother _ (Ne.symm hlast)
    apply LastHeld.of_not_begun
    · rw [hsame]
      by_contra hne
      exact hnot (.inl (Nat.pos_of_ne_zero hne))
    · intro succeeded
      rw [hsame]
      cases succeeded with
      | false => exact h.notGivenUp
      | true => exact fun heq => hnot (.inr heq)
    · intro position
      rw [hsame]
      exact h.notRefused position

theorem LastHeld.step (h : LastHeld values w) (hqueued : Queued values w)
    (hexclusive : Exclusive values w) {a : StorageAction} (hallowed : LeavesLastCall values w a) :
    LastHeld values (step values w a) := by
  have heffect := step_effect hqueued hexclusive a
  generalize Persistence.step values w a = w' at heffect
  cases heffect with
  | same => exact h
  | load => exact ⟨h.alone, h.notRefused, h.notGivenUp, h.committed, h.copied⟩
  | issue room =>
    by_cases hlast : w.issued = lastCall values
    · have hself : (w.put w.issued .loading).calls (lastCall values) = .loading := by
        rw [hlast, put_calls_self]
      apply LastHeld.of_not_begun
      · exact congrArg CallState.executed hself
      · intro succeeded heq
        exact nomatch hself.symm.trans heq
      · intro position heq
        exact nomatch hself.symm.trans heq
    · refine h.of_other hlast rfl (fun other hne => put_calls_of_ne hne) ?_ fun _ => rfl
      have hnew : w.calls w.issued = .unissued := (hqueued.unissued_iff _).mpr (Nat.le_refl _)
      rintro (⟨succeeded, heq⟩ | heq | ⟨position, heq, -⟩)
      · exact nomatch hnew.symm.trans heq
      · exact nomatch hnew.symm.trans heq
      · exact nomatch hnew.symm.trans heq
  | begin call loading first =>
    by_cases hlast : call = lastCall values
    · subst hlast
      have hself : (w.send (lastCall values) (.awaiting 0 none) .beginTransaction).calls
          (lastCall values) = .awaiting 0 none := put_calls_self
      apply LastHeld.of_not_begun
      · exact congrArg CallState.executed hself
      · intro succeeded heq
        exact nomatch hself.symm.trans heq
      · intro position heq
        exact nomatch hself.symm.trans heq
    · refine h.of_other hlast rfl (fun other hne => put_calls_of_ne hne) ?_ fun _ => rfl
      exact fun hfinished => absurd loading hfinished.not_loading
  | next call position statement replied statement_eq =>
    by_cases hlast : call = lastCall values
    · subst hlast
      have hself : (w.send (lastCall values) (.awaiting (position + 1) none) statement).calls
          (lastCall values) = .awaiting (position + 1) none := put_calls_self
      refine h.of_last rfl (fun other hne => put_calls_of_ne hne) ?_ ?_ ?_ ?_ ?_
      · rw [replied]
        exact Nat.succ_pos _
      · rw [hself, replied]
        exact fun hdone => hdone.resolve_right nofun
      · intro position' heq
        exact nomatch hself.symm.trans heq
      · intro heq
        exact nomatch hself.symm.trans heq
      · intro heq
        exact nomatch hself.symm.trans heq
    · refine h.of_other hlast rfl (fun other hne => put_calls_of_ne hne) ?_ fun _ => rfl
      rintro (⟨succeeded, heq⟩ | heq | ⟨position', heq, hend⟩)
      · exact nomatch replied.symm.trans heq
      · exact nomatch replied.symm.trans heq
      · obtain ⟨rfl⟩ : position = position' := (CallState.awaiting.inj (replied.symm.trans heq)).1
        exact nomatch statement_eq.symm.trans hend
  | finish call position replied last =>
    by_cases hlast : call = lastCall values
    · subst hlast
      have hself : (w.put (lastCall values) (.settled true)).calls (lastCall values) =
          .settled true := put_calls_self
      refine h.of_last rfl (fun other hne => put_calls_of_ne hne) ?_ ?_ ?_ ?_ ?_
      · rw [replied]
        exact Nat.succ_pos _
      · intro _
        rw [replied]
        exact List.getElem?_eq_none_iff.mp last
      · intro position' heq
        exact nomatch hself.symm.trans heq
      · intro heq
        exact nomatch hself.symm.trans heq
      · exact fun _ => rfl
    · unfold LeavesLastCall at hallowed
      simp only [replied] at hallowed
      refine h.of_other hlast rfl (fun other hne => put_calls_of_ne hne) ?_ fun hsettled =>
        absurd hsettled (hallowed last hlast)
      exact fun _ => .inl ⟨true, put_calls_self⟩
  | giveUp call refused =>
    by_cases hlast : call = lastCall values
    · subst hlast
      exact absurd refused (h.notRefused 0)
    · refine h.of_other hlast rfl (fun other hne => put_calls_of_ne hne) ?_ fun _ => rfl
      exact fun _ => .inl ⟨false, put_calls_self⟩
  | execute call position statement queue head sent statement_eq =>
    exact h.execute hqueued hexclusive head sent statement_eq hallowed

end LastCall

section Run
variable (values : List VaultDeletionMap)

/-- Every value was passed, and every call is over. -/
def AllSettled (w : StorageWorld) : Prop :=
  ∀ call < values.length, ∃ succeeded, w.calls call = .settled succeeded

variable (table : DeletionTable) (localStorage : Option VaultDeletionMap)

theorem queued_initial : Queued values (.initial table localStorage) where
  issued_le := Nat.zero_le _
  unissued_iff _ := ⟨fun _ => Nat.zero_le _, fun _ => rfl⟩
  queued _ h := nomatch h
  outstanding _ _ h := nomatch h
  once := List.nodup_nil
  beginsInOrder := List.Pairwise.nil
  fifo _ _ _ h := nomatch h

theorem exclusive_initial : Exclusive values (.initial table localStorage) where
  refusedAtBegin _ _ h := nomatch h
  noRollback _ _ h := nomatch h
  closed _ _ h := absurd h.1 (Nat.lt_irrefl 0)
  unique _ _ h := absurd h.1 (Nat.lt_irrefl 0)
  content _ h := absurd h.1 (Nat.lt_irrefl 0)

/-- What every allowed step preserves. -/
structure LastSafe (w : StorageWorld) : Prop where
  queued : Queued values w
  exclusive : Exclusive values w
  held : LastHeld values w

theorem lastSafe_initial : LastSafe values (.initial table localStorage) where
  queued := queued_initial values table localStorage
  exclusive := exclusive_initial values table localStorage
  held := .of_not_begun rfl (fun _ => nofun) fun _ => nofun

variable {values} in
theorem LastSafe.step {w : StorageWorld} (h : LastSafe values w) {a : StorageAction}
    (hallowed : LeavesLastCall values w a) : LastSafe values (step values w a) where
  queued := h.queued.step h.exclusive
  exclusive := h.exclusive.step h.queued
  held := h.held.step h.queued h.exclusive hallowed

variable {values table localStorage}

theorem valueOf_lastCall {value : VaultDeletionMap} (h : values.getLast? = some value) :
    valueOf values (lastCall values) = value := by
  rw [List.getLast?_eq_getElem?] at h
  unfold valueOf lastCall
  rw [List.getD_eq_getElem?_getD, h]
  rfl

/-- In every run that leaves the last call alone, once all calls are over the table and the
local copy hold the last value passed, and only that. -/
theorem lastWrite_run {actions reached : List StorageAction}
    (hallowed : Allowed (step values) (LeavesLastCall values) (.initial table localStorage) actions)
    (hreached : reached <+: actions)
    (hsettled : AllSettled values (run (step values) (.initial table localStorage) reached))
    {value : VaultDeletionMap} (hvalue : values.getLast? = some value) :
    Holds (run (step values) (.initial table localStorage) reached).connection.table value ∧
      (run (step values) (.initial table localStorage) reached).localStorage = some value := by
  have hheld := (run_invariant (fun _ _ h ha => h.step ha)
    (lastSafe_initial values table localStorage) (hallowed.of_prefix hreached)).held
  have hne : values ≠ [] := by
    rintro rfl
    exact nomatch hvalue
  have hlt : lastCall values < values.length :=
    Nat.sub_lt (List.length_pos_of_ne_nil hne) Nat.one_pos
  obtain ⟨succeeded, hlast⟩ := hsettled _ hlt
  cases succeeded with
  | false => exact absurd hlast hheld.notGivenUp
  | true =>
    have htable := hheld.committed (.inr hlast)
    have hcopy := hheld.copied hlast
    rw [valueOf_lastCall hvalue] at htable hcopy
    exact ⟨htable ▸ holds_ofList_rows value, hcopy⟩

end Run

def tombstone (id : String) : VaultDeletionEntry := ⟨js id, js "2026-01-01T00:00:00.000Z"⟩

def oneTombstone : VaultDeletionMap := { emptyDeletionMap with hosts := [tombstone "a"] }

def twoTombstones : VaultDeletionMap :=
  { emptyDeletionMap with hosts := [tombstone "b", tombstone "a"] }

/-- The second value is passed when the first call is over. -/
def successiveCalls : List StorageAction :=
  [.setItem, .load, .resume 0, .execute, .resume 0, .execute, .resume 0, .execute, .resume 0,
    .execute, .resume 0, .setItem, .resume 1, .execute, .resume 1, .execute, .resume 1, .execute,
    .resume 1, .execute, .resume 1, .execute, .resume 1]

theorem lastWrite_successiveCalls :
    Holds (run (step [oneTombstone, twoTombstones]) (.initial .empty none)
        successiveCalls).connection.table twoTombstones ∧
      (run (step [oneTombstone, twoTombstones]) (.initial .empty none)
        successiveCalls).localStorage = some twoTombstones := by
  have hallowed : Allowed (step [oneTombstone, twoTombstones])
      (LeavesLastCall [oneTombstone, twoTombstones]) (.initial .empty none) successiveCalls := by
    decide +kernel
  apply lastWrite_run hallowed (List.prefix_refl _) ?_ rfl
  intro call hcall
  have hcall : call < 2 := hcall
  rcases (by omega : call = 0 ∨ call = 1) with rfl | rfl
  · exact ⟨true, by decide +kernel⟩
  · exact ⟨true, by decide +kernel⟩

/-- Two values passed one right after the other. -/
def overlappingCalls : List StorageAction :=
  [.setItem, .setItem, .load, .resume 0, .resume 1, .execute, .execute, .resume 0, .resume 1,
    .execute, .resume 0, .execute, .resume 0, .execute, .resume 0]

theorem not_every_last_write_held : ¬ ∀ (values : List VaultDeletionMap) (table : DeletionTable)
    (localStorage : Option VaultDeletionMap) (actions : List StorageAction),
    AllSettled values (run (step values) (.initial table localStorage) actions) →
    ∀ value, values.getLast? = some value →
      Holds (run (step values) (.initial table localStorage) actions).connection.table value ∧
        (run (step values) (.initial table localStorage) actions).localStorage = some value := by
  intro h
  have hsettled : AllSettled [oneTombstone, twoTombstones]
      (run (step [oneTombstone, twoTombstones]) (.initial .empty none) overlappingCalls) := by
    intro call hcall
    have hcall : call < 2 := hcall
    rcases (by omega : call = 0 ∨ call = 1) with rfl | rfl
    · exact ⟨true, by decide +kernel⟩
    · exact ⟨false, by decide +kernel⟩
  obtain ⟨-, hcopy⟩ := h _ _ _ _ hsettled twoTombstones rfl
  exact absurd hcopy (by decide +kernel)

end Persistence
