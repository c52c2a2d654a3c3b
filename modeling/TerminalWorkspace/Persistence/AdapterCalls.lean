import TerminalWorkspace.Persistence.AdapterCopies

/-! What one call of a storage adapter does to the database and to localStorage. -/
namespace StorageAdapters
open JsText Inventory Transactions FallbackCopies
open Persistence (DeletionTable deletionRows)

section Settling
variable {α β : Type} {x handler : Attempt α} {f : α → Attempt β} {s s' : Session} {a : α}

theorem bind_done (h : x s = (some a, s')) : (x >>= f) s = f a s' := by
  simp only [bind, h]

theorem bind_rejected (h : x s = (none, s')) : (x >>= f) s = (none, s') := by
  simp only [bind, h]

theorem bind_congr {y : Attempt α} (h : x s = y s') : (x >>= f) s = (y >>= f) s' := by
  simp only [bind, h]

theorem bind_assoc {γ : Type} (x : Attempt α) (f : α → Attempt β) (g : β → Attempt γ) :
    (x >>= f >>= g) = x >>= fun a => f a >>= g := by
  funext s
  rcases h : x s with ⟨_ | a, s'⟩
  · rw [bind_rejected (bind_rejected h), bind_rejected h]
  · rw [bind_done h]
    exact bind_congr (bind_done h)

theorem tryOr_done (h : x s = (some a, s')) : tryOr x handler s = (some a, s') := by
  rw [tryOr, h]

theorem tryOr_rejected (h : x s = (none, s')) : tryOr x handler s = handler s' := by
  rw [tryOr, h]

theorem tryOr_congr (h : x s = x s') : tryOr x handler s = tryOr x handler s' := by
  rw [tryOr, h]
  rfl

theorem asText_done {y : Attempt (Option JsString)} {value : Option JsString}
    (h : y s = (some value, s')) : asText y s = (some (value.map .text), s') := bind_done h

theorem asText_rejected {y : Attempt (Option JsString)} (h : y s = (none, s')) :
    asText y s = (none, s') := bind_rejected h

end Settling

section Database
variable {α : Type} {s s' : Session}

/-- Neither the database nor localStorage has changed. -/
structure Same (s s' : Session) : Prop where
  connection : s'.connection = s.connection
  localStorage : s'.localStorage = s.localStorage

theorem Same.trans {s'' : Session} (h : Same s s') (h' : Same s' s'') : Same s s'' :=
  ⟨h'.connection.trans h.connection, h'.localStorage.trans h.localStorage⟩

/-- A database call fails, after which none will, or does its work. -/
theorem databaseCall_cases (f : Connection Tables → Connection Tables × Option α) (s : Session) :
    databaseCall f s = (none, { s with fault := none }) ∨
      ∃ fault, databaseCall f s =
        ((f s.connection).2, { s with connection := (f s.connection).1, fault := fault }) := by
  obtain ⟨w, fault⟩ := s
  cases fault with
  | none => exact .inr ⟨none, rfl⟩
  | some n =>
    cases n with
    | zero => exact .inl rfl
    | succ n => exact .inr ⟨some n, rfl⟩

theorem loadDatabase_cases (s : Session) :
    ∃ s', Same s s' ∧ (loadDatabase s = (some (), s') ∨ loadDatabase s = (none, s')) := by
  by_cases hloaded : s.loaded
  · exact ⟨s, ⟨rfl, rfl⟩, .inl (by rw [loadDatabase, if_pos hloaded])⟩
  · rw [loadDatabase, if_neg hloaded]
    rcases databaseCall_cases (fun connection => (connection, some ())) s with
      hfault | ⟨fault, hdone⟩
    · exact ⟨{ s with fault := none }, ⟨rfl, rfl⟩, .inr (by rw [hfault])⟩
    · exact ⟨{ s with loaded := true, fault := fault }, ⟨rfl, rfl⟩, .inl (by rw [hdone])⟩

theorem select_cases (f : Tables → α) (s : Session) :
    ∃ s', Same s s' ∧ (select f s = (some (f s.connection.table), s') ∨ select f s = (none, s')) := by
  rcases databaseCall_cases (fun connection => (connection, some (f connection.table))) s with
    hfault | ⟨fault, hdone⟩
  · exact ⟨{ s with fault := none }, ⟨rfl, rfl⟩, .inr hfault⟩
  · exact ⟨{ s with fault := fault }, ⟨rfl, rfl⟩, .inl hdone⟩

/-- A statement that the database accepts. -/
theorem executeSql_cases (statement : Statement Change) {connection : Connection Tables}
    (h : execute Change.apply s.connection statement = (connection, true)) :
    executeSql statement s = (none, { s with fault := none }) ∨
      ∃ fault, executeSql statement s =
        (some (), { s with connection := connection, fault := fault }) := by
  rcases databaseCall_cases (fun connection =>
    ((execute Change.apply connection statement).1,
      if (execute Change.apply connection statement).2 then some () else none)) s with
      hfault | ⟨fault, hdone⟩
  · exact .inl hfault
  · refine .inr ⟨fault, hdone.trans ?_⟩
    rw [h]
    rfl

/-- A change outside of a transaction. -/
theorem executeSql_write_cases (change : Change) (s : Session) :
    ∃ s', (executeSql (.write change) s = (none, s') ∧ Same s s') ∨
      (executeSql (.write change) s = (some (), s') ∧
        s'.connection = { s.connection with table := change.apply s.connection.table } ∧
          s'.localStorage = s.localStorage) := by
  rcases executeSql_cases (s := s) (.write change) rfl with hfault | ⟨fault, hdone⟩
  · exact ⟨_, .inl ⟨hfault, rfl, rfl⟩⟩
  · exact ⟨_, .inr ⟨hdone, rfl, rfl⟩⟩

/-- The database is opened and changed, and something else follows. -/
theorem change_cases (change : Change) (x : Attempt Unit) (s : Session) :
    ∃ s', ((do loadDatabase; executeSql (.write change); x : Attempt Unit) s = (none, s') ∧
        Same s s') ∨
      ((do loadDatabase; executeSql (.write change); x : Attempt Unit) s = x s' ∧
        s'.connection = { s.connection with table := change.apply s.connection.table } ∧
          s'.localStorage = s.localStorage) := by
  obtain ⟨s₁, hsame, hload | hload⟩ := loadDatabase_cases s
  · obtain ⟨s₂, ⟨hwrite, hsame'⟩ | ⟨hwrite, hconnection, hstorage⟩⟩ :=
      executeSql_write_cases change s₁
    · refine ⟨s₂, .inl ⟨?_, hsame.trans hsame'⟩⟩
      rw [bind_done hload, bind_rejected hwrite]
    · refine ⟨s₂, .inr ⟨?_, ?_, hstorage.trans hsame.localStorage⟩⟩
      · rw [bind_done hload, bind_done hwrite]
      · rw [hconnection, hsame.connection]
  · exact ⟨s₁, .inl ⟨bind_rejected hload, hsame⟩⟩

end Database

section LocalStorage

/-- A read of localStorage carries a legacy value forward. -/
theorem getLocalStorageItem_eq (key : JsString) (s : Session) :
    ∃ storage, getLocalStorageItem key s =
        (some (fallbackOf s.localStorage key), { s with localStorage := storage }) ∧
      SetTo key (fallbackOf s.localStorage key) s.localStorage storage := by
  unfold getLocalStorageItem fallbackOf
  cases hcurrent : s.localStorage.get? key with
  | some current =>
    refine ⟨s.localStorage, rfl, fun k => ?_⟩
    split_ifs with hk
    · rw [hk, hcurrent]
      rfl
    · rfl
  | none =>
    cases hlegacy : (legacyStorageKeyFor key).bind s.localStorage.get? with
    | some legacyValue => exact ⟨_, rfl, setTo_set _ _ _⟩
    | none =>
      refine ⟨s.localStorage, rfl, fun k => ?_⟩
      split_ifs with hk
      · rw [hk, hcurrent]
        rfl
      · rfl

end LocalStorage

section Copies
variable {isTauriRuntime : Bool} {s s' : Session}

theorem Same.leaves (h : Same s s') (a : Adapter) : Leaves a s.toWorld s'.toWorld where
  stores _ _ := by rw [h.connection]
  deletions _ := by rw [h.connection]
  saved := by rw [h.connection]
  localStorage _ _ := by rw [h.localStorage]

theorem Same.copies (h : Same s s') (a : Adapter) :
    copies isTauriRuntime s'.toWorld a = copies isTauriRuntime s.toWorld a := by
  rw [StorageAdapters.copies, h.connection, h.localStorage]
  rfl

end Copies

section Reads
variable (isTauriRuntime : Bool) (readDeletions : DeletionReader) {a : Adapter} {s s' : Session}

/-- A read was given up: at most a legacy value has been carried forward. -/
structure Unread (a : Adapter) (s s' : Session) : Prop where
  connection : s'.connection = s.connection
  fallback : fallbackOf s'.localStorage a.key = fallbackOf s.localStorage a.key
  localStorage : ∀ k ≠ a.key, s'.localStorage.get? k = s.localStorage.get? k

theorem Same.unread (h : Same s s') (a : Adapter) : Unread a s s' where
  connection := h.connection
  fallback := by rw [h.localStorage]
  localStorage _ _ := by rw [h.localStorage]

theorem Unread.trans {s'' : Session} (h : Unread a s s') (h' : Unread a s' s'') : Unread a s s'' where
  connection := h'.connection.trans h.connection
  fallback := h'.fallback.trans h.fallback
  localStorage k hk := (h'.localStorage k hk).trans (h.localStorage k hk)

theorem unread_of_setTo (hconnection : s'.connection = s.connection)
    (h : SetTo a.key (fallbackOf s.localStorage a.key) s.localStorage s'.localStorage) :
    Unread a s s' where
  connection := hconnection
  fallback := by
    have hcopies := copies_setTo true s.toWorld s'.toWorld h
    exact (congrArg Copies.fallback hcopies).trans (copies true s.toWorld a).fallback_forward
  localStorage _ hk := h.of_ne hk

/-- What a read answers, and what it leaves behind. -/
structure ReadsTo (a : Adapter) (s : Session) (answer : Option Answer) (s' : Session) : Prop where
  reads : Reads (medium isTauriRuntime readDeletions a) (copies isTauriRuntime s.toWorld a) answer
    (copies isTauriRuntime s'.toWorld a)
  leaves : Leaves a s.toWorld s'.toWorld

/-- Reading localStorage alone. -/
theorem readsTo_fallback (hconnection : s'.connection = s.connection)
    (h : SetTo a.key (fallbackOf s.localStorage a.key) s.localStorage s'.localStorage) :
    ReadsTo isTauriRuntime readDeletions a s
      ((fallbackOf s.localStorage a.key).map .text) s' where
  reads := by
    rw [copies_setTo isTauriRuntime s.toWorld s'.toWorld h, hconnection]
    exact .fallback
  leaves :=
    { stores := fun _ _ => by rw [hconnection]
      deletions := fun _ => by rw [hconnection]
      saved := by rw [hconnection]
      localStorage := fun _ hk => h.of_ne hk }

theorem Same.readsTo {s'' : Session} {answer : Option Answer} (h : Same s s')
    (h' : ReadsTo isTauriRuntime readDeletions a s' answer s'') :
    ReadsTo isTauriRuntime readDeletions a s answer s'' where
  reads := h.copies a ▸ h'.reads
  leaves := (h.leaves a).trans h'.leaves

/-- The database answers. -/
theorem readsTo_stored {answer : Answer} (h : Same s s')
    (hstored : storedAnswer isTauriRuntime s.connection.table a = some answer) :
    ReadsTo isTauriRuntime readDeletions a s (some answer) s' where
  reads := by
    rw [h.copies a]
    exact .stored answer hstored
  leaves := h.leaves a

/-- A read that was given up goes on to localStorage. -/
theorem Unread.readsTo (h : Unread a s s') :
    ∃ answer s'', asText (getLocalStorageItem a.key) s' = (some answer, s'') ∧
      ReadsTo isTauriRuntime readDeletions a s answer s'' := by
  obtain ⟨storage, hread, hset⟩ := getLocalStorageItem_eq a.key s'
  refine ⟨_, _, asText_done hread, ?_⟩
  rw [h.fallback]
  refine readsTo_fallback isTauriRuntime readDeletions h.connection fun k => ?_
  rw [hset k, h.fallback]
  split_ifs with hk
  · rfl
  · exact h.localStorage k hk

/-- A native read settles as a read does, or is given up. -/
def ReadsOrNot (a : Adapter) (s : Session) (x : Attempt (Option Answer)) : Prop :=
  ∃ s', (x s = (none, s') ∧ Unread a s s') ∨
    ∃ answer, x s = (some answer, s') ∧ ReadsTo isTauriRuntime readDeletions a s answer s'

variable {isTauriRuntime readDeletions}

/-- With `catch` it always settles as a read. -/
theorem ReadsOrNot.readsTo {x : Attempt (Option Answer)}
    (h : ReadsOrNot isTauriRuntime readDeletions a s x) :
    ∃ answer s', tryOr x (asText (getLocalStorageItem a.key)) s = (some answer, s') ∧
      ReadsTo isTauriRuntime readDeletions a s answer s' := by
  obtain ⟨s', ⟨hrejected, hunread⟩ | ⟨answer, hdone, hreads⟩⟩ := h
  · obtain ⟨answer, s'', hread, hreads⟩ := hunread.readsTo isTauriRuntime readDeletions
    exact ⟨answer, s'', (tryOr_rejected hrejected).trans hread, hreads⟩
  · exact ⟨answer, s', tryOr_done hdone, hreads⟩

/-- What writing a value forward into the table comes to. -/
def WritesForward (readDeletions : DeletionReader) (a : Adapter) (write : JsString → Attempt Unit) :
    Prop :=
  ∀ value s, s.connection.saved = none →
    ∃ s', (write value s = (none, s') ∧ Same s s') ∨
      (write value s = (some (), s') ∧
        Written true readDeletions a value (storedAnswer true s'.connection.table a) ∧
          Leaves a s.toWorld s'.toWorld ∧
            (SetTo a.key (some value) s.localStorage s'.localStorage ∨
              s'.localStorage = s.localStorage))

/-- A read that finds nothing in the table takes the value in localStorage and writes it
forward. -/
theorem forward_cases {β : Type} (f : JsString → β) {write : JsString → Attempt Unit}
    (hwrite : WritesForward readDeletions a write) (hclosed : s.connection.saved = none)
    (hstored : storedAnswer true s.connection.table a = none) :
    ∃ s',
      ((do
        match ← getLocalStorageItem a.key with
        | some value =>
          write value
          pure (some (f value))
        | none => pure none : Attempt (Option β)) s = (none, s') ∧ Unread a s s') ∨
      ((do
        match ← getLocalStorageItem a.key with
        | some value =>
          write value
          pure (some (f value))
        | none => pure none : Attempt (Option β)) s =
          (some ((fallbackOf s.localStorage a.key).map f), s') ∧
        ReadsTo true readDeletions a s ((fallbackOf s.localStorage a.key).map .text) s') := by
  obtain ⟨storage, hread, hset⟩ := getLocalStorageItem_eq a.key s
  have hunread : Unread a s { s with localStorage := storage } := unread_of_setTo rfl hset
  cases hfallback : fallbackOf s.localStorage a.key with
  | none =>
    refine ⟨{ s with localStorage := storage }, .inr ⟨?_, ?_⟩⟩
    · rw [bind_done hread, hfallback]
      rfl
    · rw [← hfallback]
      exact readsTo_fallback true readDeletions rfl hset
  | some value =>
    rw [hfallback] at hset
    obtain ⟨s', ⟨hrejected, hsame⟩ | ⟨hdone, hwritten, hleaves, hstorage⟩⟩ :=
      hwrite value { s with localStorage := storage } hclosed
    · refine ⟨s', .inl ⟨?_, hunread.trans (hsame.unread a)⟩⟩
      rw [bind_done hread, hfallback]
      exact bind_rejected hrejected
    · have hcurrent : SetTo a.key (some value) s.localStorage s'.localStorage := by
        rcases hstorage with hagain | hkept
        · exact hset.trans hagain
        · rw [hkept]
          exact hset
      refine ⟨s', .inr ⟨?_, ?_, ?_⟩⟩
      · rw [bind_done hread, hfallback]
        exact bind_done hdone
      · rw [copies_setTo true s.toWorld s'.toWorld hcurrent]
        exact .copied value _ hstored hfallback hwritten
      · exact { hleaves with localStorage := fun _ hk => hcurrent.of_ne hk }

end Reads

section Stores
variable (name : PersistedStoreName)

/-- Only a change of the adapter's own table. -/
theorem leaves_store {s s' : Session} {payload : Option JsString}
    (hconnection : s'.connection = { s.connection with
      table := { s.connection.table with
        stores := Function.update s.connection.table.stores name payload } })
    {value : Option JsString}
    (hstorage : SetTo (Adapter.store name).key value s.localStorage s'.localStorage) :
    Leaves (.store name) s.toWorld s'.toWorld where
  stores other hne := by
    rw [hconnection]
    exact Function.update_of_ne (fun h => hne (congrArg Adapter.store h.symm)) _ _
  deletions _ := by rw [hconnection]
  saved := by rw [hconnection]
  localStorage _ hk := hstorage.of_ne hk

theorem setNativeStoreItem_cases (value : JsString) (s : Session) :
    ∃ s', (setNativeStoreItem name value s = (none, s') ∧ Same s s') ∨
      (setNativeStoreItem name value s = (some (), s') ∧
        s'.connection.table.stores name = some value ∧
          Leaves (.store name) s.toWorld s'.toWorld ∧
            SetTo (Adapter.store name).key (some value) s.localStorage s'.localStorage) := by
  obtain ⟨s', ⟨hrejected, hsame⟩ | ⟨hdone, hconnection, hstorage⟩⟩ :=
    change_cases (.putPayload name value) (setLocalStorageItem (Adapter.store name).key value) s
  · exact ⟨s', .inl ⟨hrejected, hsame⟩⟩
  · have hset : SetTo (Adapter.store name).key (some value) s.localStorage
        (s'.localStorage.set (Adapter.store name).key value) := hstorage ▸ setTo_set _ _ _
    refine ⟨_, .inr ⟨hdone, ?_, leaves_store name hconnection hset, hset⟩⟩
    change s'.connection.table.stores name = some value
    rw [hconnection]
    exact Function.update_self ..

theorem removeNativeStoreItem_cases (s : Session) :
    ∃ s', (removeNativeStoreItem name s = (none, s') ∧ Same s s') ∨
      (removeNativeStoreItem name s = (some (), s') ∧
        s'.connection.table.stores name = none ∧
          Leaves (.store name) s.toWorld s'.toWorld ∧
            SetTo (Adapter.store name).key none s.localStorage s'.localStorage) := by
  obtain ⟨s', ⟨hrejected, hsame⟩ | ⟨hdone, hconnection, hstorage⟩⟩ :=
    change_cases (.deletePayload name) (removeLocalStorageItem (Adapter.store name).key) s
  · exact ⟨s', .inl ⟨hrejected, hsame⟩⟩
  · have hset : SetTo (Adapter.store name).key none s.localStorage
        (s'.localStorage.erase (Adapter.store name).key) := hstorage ▸ setTo_erase _ _
    refine ⟨_, .inr ⟨hdone, ?_, leaves_store name hconnection hset, hset⟩⟩
    change s'.connection.table.stores name = none
    rw [hconnection]
    exact Function.update_self ..

theorem writesForward_setNativeStoreItem (readDeletions : DeletionReader) :
    WritesForward readDeletions (.store name) (setNativeStoreItem name) := by
  intro value s _
  obtain ⟨s', hrejected | ⟨hdone, hstored, hleaves, hset⟩⟩ := setNativeStoreItem_cases name value s
  · exact ⟨s', .inl hrejected⟩
  · refine ⟨s', .inr ⟨hdone, ?_, hleaves, .inl hset⟩⟩
    simp [Written, storedAnswer, hstored]

theorem getNativeStoreItem_cases (readDeletions : DeletionReader) (s : Session)
    (hclosed : s.connection.saved = none) :
    ReadsOrNot true readDeletions (.store name) s (asText (getNativeStoreItem name)) := by
  obtain ⟨s₁, hsame, hload | hload⟩ := loadDatabase_cases s
  · obtain ⟨s₂, hsame', hselect | hselect⟩ := select_cases (fun tables => tables.stores name) s₁
    · have hboth := hsame.trans hsame'
      rw [hsame.connection] at hselect
      cases hpayload : s.connection.table.stores name with
      | some payload =>
        have hread : getNativeStoreItem name s = (some (some payload), s₂) := by
          rw [getNativeStoreItem, bind_done hload, bind_done hselect, hpayload]
          rfl
        refine ⟨s₂, .inr ⟨some (.text payload), asText_done hread, ?_⟩⟩
        exact readsTo_stored true readDeletions hboth (by simp [storedAnswer, hpayload])
      | none =>
        have hstored : storedAnswer true s₂.connection.table (.store name) = none := by
          simp [storedAnswer, hboth.connection, hpayload]
        obtain ⟨s', ⟨hrejected, hunread⟩ | ⟨hdone, hreads⟩⟩ :=
          forward_cases (fun value => value) (writesForward_setNativeStoreItem name readDeletions)
            (hboth.connection ▸ hclosed) hstored
        · refine ⟨s', .inl ⟨asText_rejected ?_, (hboth.unread _).trans hunread⟩⟩
          rw [getNativeStoreItem, bind_done hload, bind_done hselect, hpayload]
          exact hrejected
        · refine ⟨s', .inr ⟨_, ?_, hboth.readsTo true readDeletions hreads⟩⟩
          rw [Option.map_id'] at hdone
          refine asText_done ?_
          rw [getNativeStoreItem, bind_done hload, bind_done hselect, hpayload]
          exact hdone
    · refine ⟨s₂, .inl ⟨asText_rejected ?_, (hsame.trans hsame').unread _⟩⟩
      rw [getNativeStoreItem, bind_done hload, bind_rejected hselect]
  · exact ⟨s₁, .inl ⟨asText_rejected (bind_rejected hload), hsame.unread _⟩⟩

end Stores

end StorageAdapters
