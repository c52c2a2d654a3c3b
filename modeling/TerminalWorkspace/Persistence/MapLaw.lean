import TerminalWorkspace.Foundation.Runs
import TerminalWorkspace.Persistence.DeletionCalls

/-! The storage adapters as maps, over every sequence of completed calls: what a read answers
is what the calls before it promise, as long as no removal leaves a legacy value behind. -/
namespace StorageAdapters
open JsText FallbackCopies Runs Transactions

section Calls
variable (isTauriRuntime : Bool) (readDeletions : DeletionReader) (a : Adapter) (s : Session)

theorem getItem_reads (hclosed : s.connection.saved = none) :
    ∃ answer s', (a.storage isTauriRuntime readDeletions).getItem s = (some answer, s') ∧
      ReadsTo isTauriRuntime readDeletions a s answer s' := by
  have hunread : Unread a s s := (⟨rfl, rfl⟩ : Same s s).unread a
  cases isTauriRuntime with
  | true =>
    cases a with
    | store name => exact (getNativeStoreItem_cases name readDeletions s hclosed).readsTo
    | deletions => exact (getNativeDeletionItem_cases readDeletions s hclosed).readsTo
    | migrating name => exact hunread.readsTo true readDeletions
  | false => cases a <;> exact hunread.readsTo false readDeletions

theorem setItem_cases (value : JsString) (hclosed : s.connection.saved = none) :
    ∃ s', ((a.storage isTauriRuntime readDeletions).setItem value s = (none, s') ∧ Same s s') ∨
      ((a.storage isTauriRuntime readDeletions).setItem value s = (some (), s') ∧
        Written isTauriRuntime readDeletions a value
          (storedAnswer isTauriRuntime s'.connection.table a) ∧
        Leaves a s.toWorld s'.toWorld ∧
        SetTo a.key (some value) s.localStorage s'.localStorage) := by
  have hset := setTo_set s.localStorage a.key value
  have hlocal : Leaves a s.toWorld { s.toWorld with localStorage := s.localStorage.set a.key value } :=
    ⟨fun _ _ => rfl, fun _ => rfl, rfl, fun _ hk => hset.of_ne hk⟩
  cases isTauriRuntime with
  | false => cases a <;> exact ⟨_, .inr ⟨rfl, rfl, hlocal, hset⟩⟩
  | true =>
    cases a with
    | store name =>
      obtain ⟨s', hrejected | ⟨hdone, hstored, hleaves, hset⟩⟩ := setNativeStoreItem_cases name value s
      · exact ⟨s', .inl hrejected⟩
      · refine ⟨s', .inr ⟨hdone, ?_, hleaves, hset⟩⟩
        simp [Written, storedAnswer, hstored]
    | deletions =>
      obtain ⟨s', ⟨hrejected, hsame⟩ | ⟨hdone, ⟨deletions, hparse, hconnection⟩, hstorage⟩⟩ :=
        setNativeDeletionItem_cases readDeletions value s hclosed
      · exact ⟨s', .inl ⟨bind_rejected hrejected, hsame⟩⟩
      · rw [← hstorage] at hset
        refine ⟨_, .inr ⟨bind_done hdone, ⟨deletions, hparse, ?_⟩, ?_, hstorage ▸ setTo_set _ _ _⟩⟩
        · change deletionsAnswer s'.connection.table.deletions = _
          rw [hconnection]
        · exact leaves_deletions hconnection fun _ hk => hstorage ▸ hset.of_ne hk
    | migrating name => exact ⟨_, .inr ⟨rfl, rfl, hlocal, hset⟩⟩

/-- The database calls that a removal makes. -/
def removalCalls (w : World) : Adapter → ℕ
  | .migrating _ => 0
  | _ => if isTauriRuntime then if w.loaded then 1 else 2 else 0

/-- A change of the database fails if one of its calls does. -/
theorem change_rejected_iff (change : Change) (x : Attempt Unit) (hx : ∀ s, (x s).1 = some ()) :
    ((do loadDatabase; executeSql (.write change); x : Attempt Unit) s).1 = none ↔
      ∃ n ∈ s.fault, n < if s.loaded then 1 else 2 := by
  obtain ⟨⟨loaded, connection, storage⟩, fault⟩ := s
  cases loaded <;> rcases fault with _ | _ | _ | n <;>
    simp [bind, loadDatabase, databaseCall, executeSql, execute, hx]

theorem removeItem_cases :
    ∃ s', ((a.storage isTauriRuntime readDeletions).removeItem s = (none, s') ∧ Same s s') ∨
      ((a.storage isTauriRuntime readDeletions).removeItem s = (some (), s') ∧
        storedAnswer isTauriRuntime s'.connection.table a = none ∧
        Leaves a s.toWorld s'.toWorld ∧
        SetTo a.key none s.localStorage s'.localStorage) := by
  have herase := setTo_erase s.localStorage a.key
  have hlocal : Leaves a s.toWorld { s.toWorld with localStorage := s.localStorage.erase a.key } :=
    ⟨fun _ _ => rfl, fun _ => rfl, rfl, fun _ hk => herase.of_ne hk⟩
  cases isTauriRuntime with
  | false => cases a <;> exact ⟨_, .inr ⟨rfl, rfl, hlocal, herase⟩⟩
  | true =>
    cases a with
    | store name =>
      obtain ⟨s', hrejected | ⟨hdone, hstored, hleaves, hset⟩⟩ := removeNativeStoreItem_cases name s
      · exact ⟨s', .inl hrejected⟩
      · refine ⟨s', .inr ⟨hdone, ?_, hleaves, hset⟩⟩
        simp [storedAnswer, hstored]
    | deletions =>
      obtain ⟨s', ⟨hrejected, hsame⟩ | ⟨hdone, hconnection, hstorage⟩⟩ :=
        change_cases (.deletions .deleteAll) (removeLocalStorageItem Adapter.deletions.key) s
      · exact ⟨s', .inl ⟨(congrFun (bind_assoc ..) s).trans hrejected, hsame⟩⟩
      · rw [← hstorage] at herase
        refine ⟨_, .inr ⟨(congrFun (bind_assoc ..) s).trans hdone, ?_, ?_, hstorage ▸ setTo_erase _ _⟩⟩
        · change deletionsAnswer s'.connection.table.deletions = _
          rw [hconnection]
          exact deletionsAnswer_eq_none fun _ _ => rfl
        · exact leaves_deletions hconnection fun _ hk => hstorage ▸ herase.of_ne hk
    | migrating name => exact ⟨_, .inr ⟨rfl, rfl, hlocal, herase⟩⟩

theorem removeItem_rejected_iff :
    ((a.storage isTauriRuntime readDeletions).removeItem s).1 = none ↔
      ∃ n ∈ s.fault, n < removalCalls isTauriRuntime s.toWorld a := by
  cases isTauriRuntime with
  | false => cases a <;> simp [removalCalls, Adapter.storage, createTermsnipStorage,
      createTermsnipDeletionStorage, createMigratingLocalStorage, removeLocalStorageItem]
  | true =>
    cases a with
    | store name => exact change_rejected_iff s _ _ fun s => rfl
    | deletions =>
      have hbind := congrFun (bind_assoc loadDatabase
        (fun _ => executeSql (.write (.deletions .deleteAll)))
        fun _ => removeLocalStorageItem Adapter.deletions.key) s
      refine Iff.trans ?_ (change_rejected_iff s (.deletions .deleteAll)
        (removeLocalStorageItem Adapter.deletions.key) fun s => rfl)
      exact iff_of_eq (congrArg (fun result => result.1 = none) hbind)
    | migrating name => simp [removalCalls, Adapter.storage, createMigratingLocalStorage,
        removeLocalStorageItem]

end Calls

section Settled
variable {isTauriRuntime : Bool} {readDeletions : DeletionReader} {a : Adapter} {w : World}

/-- A read settles, whichever database call fails. -/
theorem perform_getItem (hclosed : w.connection.saved = none) (fault : Option ℕ) :
    ∃ answer w', perform isTauriRuntime readDeletions w ⟨a, .getItem, fault⟩ = (.got answer, w') ∧
      Reads (medium isTauriRuntime readDeletions a) (copies isTauriRuntime w a) answer
        (copies isTauriRuntime w' a) ∧
      Leaves a w w' := by
  obtain ⟨answer, s', hread, hreads, hleaves⟩ :=
    getItem_reads isTauriRuntime readDeletions a ⟨w, fault⟩ hclosed
  exact ⟨answer, s'.toWorld, by simp only [perform, hread], hreads, hleaves⟩

theorem perform_setItem (hclosed : w.connection.saved = none) (value : JsString)
    (fault : Option ℕ) :
    ∃ w', (perform isTauriRuntime readDeletions w ⟨a, .setItem value, fault⟩ = (.rejected, w') ∧
        w'.connection = w.connection ∧ w'.localStorage = w.localStorage) ∨
      (perform isTauriRuntime readDeletions w ⟨a, .setItem value, fault⟩ = (.done, w') ∧
        Written isTauriRuntime readDeletions a value
          (storedAnswer isTauriRuntime w'.connection.table a) ∧
        Leaves a w w' ∧ SetTo a.key (some value) w.localStorage w'.localStorage) := by
  obtain ⟨s', ⟨hrejected, hsame⟩ | ⟨hdone, hwritten⟩⟩ :=
    setItem_cases isTauriRuntime readDeletions a ⟨w, fault⟩ value hclosed
  · exact ⟨s'.toWorld, .inl ⟨by simp only [perform, hrejected], hsame.connection,
      hsame.localStorage⟩⟩
  · exact ⟨s'.toWorld, .inr ⟨by simp only [perform, hdone], hwritten⟩⟩

theorem perform_removeItem (fault : Option ℕ) :
    ∃ w', (perform isTauriRuntime readDeletions w ⟨a, .removeItem, fault⟩ = (.rejected, w') ∧
        (∃ n ∈ fault, n < removalCalls isTauriRuntime w a) ∧
        w'.connection = w.connection ∧ w'.localStorage = w.localStorage) ∨
      (perform isTauriRuntime readDeletions w ⟨a, .removeItem, fault⟩ = (.done, w') ∧
        (∀ n ∈ fault, removalCalls isTauriRuntime w a ≤ n) ∧
        storedAnswer isTauriRuntime w'.connection.table a = none ∧
        Leaves a w w' ∧ SetTo a.key none w.localStorage w'.localStorage) := by
  have hiff := removeItem_rejected_iff isTauriRuntime readDeletions a ⟨w, fault⟩
  obtain ⟨s', ⟨hrejected, hsame⟩ | ⟨hdone, hremoved⟩⟩ :=
    removeItem_cases isTauriRuntime readDeletions a ⟨w, fault⟩
  · refine ⟨s'.toWorld, .inl ⟨by simp only [perform, hrejected], ?_, hsame.connection,
      hsame.localStorage⟩⟩
    exact hiff.mp (by rw [hrejected])
  · refine ⟨s'.toWorld, .inr ⟨by simp only [perform, hdone], fun n hn => ?_, hremoved⟩⟩
    refine Nat.le_of_not_lt fun hlt => ?_
    rw [hdone] at hiff
    exact nomatch hiff.mpr ⟨n, hn, hlt⟩

theorem loadDatabase_faultless (w : World) :
    loadDatabase ⟨w, none⟩ = (some (), ⟨{ w with loaded := true }, none⟩) := by
  obtain ⟨loaded, connection, storage⟩ := w
  cases loaded <;> rfl

theorem getLocalStorageItem_congr {w' : World} (hstorage : w'.localStorage = w.localStorage)
    (key : JsString) :
    (asText (getLocalStorageItem key) ⟨w', none⟩).1 =
      (asText (getLocalStorageItem key) ⟨w, none⟩).1 := by
  obtain ⟨_, hread', -⟩ := getLocalStorageItem_eq key ⟨w', none⟩
  obtain ⟨_, hread, -⟩ := getLocalStorageItem_eq key ⟨w, none⟩
  rw [asText_done hread', asText_done hread, hstorage]

/-- A read in which nothing fails answers from the database and localStorage alone. -/
theorem getItem_congr {w' : World} (hconnection : w'.connection = w.connection)
    (hstorage : w'.localStorage = w.localStorage) :
    ((a.storage isTauriRuntime readDeletions).getItem ⟨w', none⟩).1 =
      ((a.storage isTauriRuntime readDeletions).getItem ⟨w, none⟩).1 := by
  have hlocal := getLocalStorageItem_congr hstorage a.key
  have hload : loadDatabase ⟨w', none⟩ = loadDatabase ⟨w, none⟩ := by
    rw [loadDatabase_faultless, loadDatabase_faultless, hconnection, hstorage]
  cases isTauriRuntime with
  | false => cases a <;> exact hlocal
  | true =>
    cases a with
    | store name =>
      exact congrArg Prod.fst (tryOr_congr (bind_congr (bind_congr hload)))
    | deletions => exact congrArg Prod.fst (tryOr_congr (bind_congr hload))
    | migrating name => exact hlocal

theorem perform_getItem_congr {w' : World} (hconnection : w'.connection = w.connection)
    (hstorage : w'.localStorage = w.localStorage) :
    (perform isTauriRuntime readDeletions w' ⟨a, .getItem, none⟩).1 =
      (perform isTauriRuntime readDeletions w ⟨a, .getItem, none⟩).1 := by
  have hfst : ∀ w, (perform isTauriRuntime readDeletions w ⟨a, .getItem, none⟩).1 =
      (((a.storage isTauriRuntime readDeletions).getItem ⟨w, none⟩).1.elim .rejected .got) := by
    intro w
    rcases hread : (a.storage isTauriRuntime readDeletions).getItem ⟨w, none⟩ with ⟨_ | answer, s⟩ <;>
      simp [perform, hread]
  rw [hfst, hfst, getItem_congr hconnection hstorage]

end Settled

section Runs
variable (isTauriRuntime : Bool) (readDeletions : DeletionReader)

/-- The world, and what the calls so far promise of the next read of each adapter. -/
structure Observed where
  world : World
  expected : Adapter → Expectation JsString

def Observed.start (tables : Tables) (localStorage : OrderedMap JsString JsString) : Observed where
  world := World.initial tables localStorage
  expected _ := .unknown

def expectAfter (expected : Expectation JsString) : Request → Outcome → Expectation JsString
  | .setItem value, .done => .value value
  | .removeItem, .done => .removed
  | _, _ => expected

def observe (o : Observed) (call : Call) : Observed :=
  let result := perform isTauriRuntime readDeletions o.world call
  { world := result.2
    expected := Function.update o.expected call.adapter
      (expectAfter (o.expected call.adapter) call.request result.1) }

/-- Whichever database call fails, a read answers as expected; and a write that rejects does
not change what can be read. -/
structure MapLaw (o : Observed) : Prop where
  reads : ∀ a fault, ∃ answer,
    (perform isTauriRuntime readDeletions o.world ⟨a, .getItem, fault⟩).1 = .got answer ∧
      Meets (medium isTauriRuntime readDeletions a) (o.expected a) answer
  rejects : ∀ a value fault w',
    perform isTauriRuntime readDeletions o.world ⟨a, .setItem value, fault⟩ = (.rejected, w') →
      (perform isTauriRuntime readDeletions w' ⟨a, .getItem, none⟩).1 =
        (perform isTauriRuntime readDeletions o.world ⟨a, .getItem, none⟩).1

/-- A removal that no failing call stops finds no value under the legacy key, or one that is
no value for the adapter. -/
def InOrder (o : Observed) (call : Call) : Prop :=
  call.request = .removeItem →
    (∀ n ∈ call.fault, removalCalls isTauriRuntime o.world call.adapter ≤ n) →
      ∀ value ∈ (legacyStorageKeyFor call.adapter.key).bind o.world.localStorage.get?,
        Vacant readDeletions call.adapter (.text value)

/-- The copies bear out what the calls promise. -/
structure Promised (o : Observed) : Prop where
  closed : o.world.connection.saved = none
  supports : ∀ a, Supports (medium isTauriRuntime readDeletions a) (o.expected a)
    (copies isTauriRuntime o.world a)

variable {isTauriRuntime readDeletions} {o : Observed} {call : Call}

theorem Promised.update {a : Adapter} {e : Expectation JsString} {w : World}
    (h : Promised isTauriRuntime readDeletions o) (hleaves : Leaves a o.world w)
    (hown : Supports (medium isTauriRuntime readDeletions a) e (copies isTauriRuntime w a)) :
    Promised isTauriRuntime readDeletions ⟨w, Function.update o.expected a e⟩ where
  closed := hleaves.saved.trans h.closed
  supports b := by
    change Supports _ (Function.update o.expected a e b) (copies isTauriRuntime w b)
    by_cases hb : b = a
    · subst hb
      rw [Function.update_self]
      exact hown
    · rw [Function.update_of_ne hb, hleaves.copies (Ne.symm hb)]
      exact h.supports b

/-- A call that was rejected. -/
theorem Promised.unchanged {a : Adapter} {w : World} (h : Promised isTauriRuntime readDeletions o)
    (hconnection : w.connection = o.world.connection)
    (hstorage : w.localStorage = o.world.localStorage) :
    Promised isTauriRuntime readDeletions
      ⟨w, Function.update o.expected a (o.expected a)⟩ := by
  have hcopies : copies isTauriRuntime w a = copies isTauriRuntime o.world a := by
    rw [copies, hconnection, hstorage]
    rfl
  refine h.update ⟨fun _ _ => ?_, fun _ => ?_, ?_, fun _ _ => ?_⟩ (hcopies ▸ h.supports a)
  · rw [hconnection]
  · rw [hconnection]
  · rw [hconnection]
  · rw [hstorage]

theorem Promised.mapLaw (h : Promised isTauriRuntime readDeletions o) :
    MapLaw isTauriRuntime readDeletions o where
  reads a fault := by
    obtain ⟨answer, w', hread, hreads, -⟩ := perform_getItem h.closed fault
    exact ⟨answer, by rw [hread], ((h.supports a).reads hreads).1⟩
  rejects a value fault w' hrejected := by
    obtain ⟨w, ⟨hperform, hconnection, hstorage⟩ | ⟨hperform, -⟩⟩ :=
      perform_setItem h.closed value fault
    · obtain rfl : w = w' := congrArg Prod.snd (hperform.symm.trans hrejected)
      exact perform_getItem_congr hconnection hstorage
    · exact nomatch congrArg Prod.fst (hperform.symm.trans hrejected)

theorem Promised.observe (h : Promised isTauriRuntime readDeletions o)
    (hcall : InOrder isTauriRuntime readDeletions o call) :
    Promised isTauriRuntime readDeletions (observe isTauriRuntime readDeletions o call) := by
  obtain ⟨a, request, fault⟩ := call
  cases request with
  | getItem =>
    obtain ⟨answer, w', hread, hreads, hleaves⟩ := perform_getItem h.closed fault
    rw [StorageAdapters.observe, hread]
    exact h.update hleaves ((h.supports a).reads hreads).2
  | setItem value =>
    obtain ⟨w', ⟨hrejected, hconnection, hstorage⟩ | ⟨hdone, hwritten, hleaves, hset⟩⟩ :=
      perform_setItem h.closed value fault
    · rw [StorageAdapters.observe, hrejected]
      exact h.unchanged hconnection hstorage
    · rw [StorageAdapters.observe, hdone]
      refine h.update hleaves ?_
      rw [copies_setTo isTauriRuntime o.world w' hset]
      exact supports_written hwritten
  | removeItem =>
    obtain ⟨w', ⟨hrejected, -, hconnection, hstorage⟩ |
        ⟨hdone, hundisturbed, hstored, hleaves, hset⟩⟩ := perform_removeItem fault
    · rw [StorageAdapters.observe, hrejected]
      exact h.unchanged hconnection hstorage
    · rw [StorageAdapters.observe, hdone]
      refine h.update hleaves ?_
      rw [copies_setTo isTauriRuntime o.world w' hset, hstored]
      exact supports_removed (hcall rfl hundisturbed)

/-- A removal that leaves a legacy value behind is followed by a read that brings it back. -/
theorem Promised.inOrder_of_mapLaw (h : Promised isTauriRuntime readDeletions o)
    (hlaw : MapLaw isTauriRuntime readDeletions
      (StorageAdapters.observe isTauriRuntime readDeletions o call)) :
    InOrder isTauriRuntime readDeletions o call := by
  obtain ⟨a, request, fault⟩ := call
  rintro rfl hundisturbed value hvalue
  obtain ⟨w', ⟨-, ⟨n, hn, hlt⟩, -⟩ | ⟨hdone, -, hstored, hleaves, hset⟩⟩ := perform_removeItem fault
  · exact absurd (hundisturbed n hn) (Nat.not_le_of_lt hlt)
  · rw [StorageAdapters.observe, hdone] at hlaw
    obtain ⟨answer, hgot, hmeets⟩ := hlaw.reads a none
    obtain ⟨answer', w'', hread, hreads, -⟩ := @perform_getItem isTauriRuntime readDeletions a w'
      (hleaves.saved.trans h.closed) none
    have hfallback : (copies isTauriRuntime w' a).fallback = some value := by
      rw [copies_setTo isTauriRuntime o.world w' hset]
      exact hvalue
    obtain rfl : answer' = some (.text value) := hreads.eq_text hstored hfallback
    obtain rfl : some (.text value) = answer :=
      Outcome.got.inj ((congrArg Prod.fst hread).symm.trans hgot)
    change Meets _ (Function.update o.expected a .removed a) _ at hmeets
    rw [Function.update_self] at hmeets
    exact hmeets _ rfl

theorem mapLaw_iff (isTauriRuntime : Bool) (readDeletions : DeletionReader) (tables : Tables)
    (localStorage : OrderedMap JsString JsString) (calls : List Call) :
    (∀ first, first <+: calls → MapLaw isTauriRuntime readDeletions
        (run (observe isTauriRuntime readDeletions) (Observed.start tables localStorage) first)) ↔
      Allowed (observe isTauriRuntime readDeletions) (InOrder isTauriRuntime readDeletions)
        (Observed.start tables localStorage) calls := by
  have hstart : Promised isTauriRuntime readDeletions (Observed.start tables localStorage) :=
    ⟨rfl, fun _ => trivial⟩
  have hsteps : Allowed (observe isTauriRuntime readDeletions)
      (fun o call => MapLaw isTauriRuntime readDeletions
        (observe isTauriRuntime readDeletions o call)) (Observed.start tables localStorage) calls ↔
      _ := allowed_iff
  rw [forall_run_iff, and_iff_right hstart.mapLaw, ← hsteps]
  refine allowed_congr (fun o call h => ⟨h.inOrder_of_mapLaw, fun hcall => ?_⟩)
    (fun o call h hcall => h.observe hcall) hstart
  exact (h.observe hcall).mapLaw

/-- An inventory of hosts is written and removed again over one that was kept under the legacy
key. -/
def removedHosts : Observed :=
  run (observe true fun _ => none)
    (Observed.start ⟨fun _ => none, OrderedMap.empty⟩
      (OrderedMap.ofList [(js "termsnip-hosts", js "legacy")]))
    [⟨.store .hosts, .setItem (js "written"), none⟩, ⟨.store .hosts, .removeItem, none⟩]

theorem legacy_hosts_return :
    removedHosts.expected (.store .hosts) = .removed ∧
      (perform true (fun _ => none) removedHosts.world ⟨.store .hosts, .getItem, none⟩).1 =
        .got (some (.text (js "legacy"))) ∧
      ¬ MapLaw true (fun _ => none) removedHosts := by
  have hremoved : removedHosts.expected (.store .hosts) = .removed := by decide +kernel
  have hread : (perform true (fun _ => none) removedHosts.world ⟨.store .hosts, .getItem, none⟩).1 =
      .got (some (.text (js "legacy"))) := by decide +kernel
  refine ⟨hremoved, hread, fun hlaw => ?_⟩
  obtain ⟨answer, hgot, hmeets⟩ := hlaw.reads (.store .hosts) none
  obtain rfl := Outcome.got.inj (hread.symm.trans hgot)
  rw [hremoved] at hmeets
  exact nomatch (hmeets _ rfl).1

end Runs

end StorageAdapters
