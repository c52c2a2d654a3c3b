import TerminalWorkspace.Persistence.AdapterCalls

/-! What one call of the tombstone adapter does. It writes its value in a transaction, which a
failed call rolls back. -/
namespace StorageAdapters
open JsText Inventory Transactions FallbackCopies
open Persistence (DeletionTable DeletionChange deletionRows)

section Transaction
variable {s : Session} {opened : Option Tables}

/-- What follows on a rejected statement cannot fail once more. -/
structure Interrupted (s s' : Session) : Prop where
  fault : s'.fault = none
  saved : s'.connection.saved = s.connection.saved
  localStorage : s'.localStorage = s.localStorage

theorem executeAll_cases (changes : List DeletionChange) (s : Session) :
    ∃ s', (executeAll (changes.map fun change => .write (.deletions change)) s = (none, s') ∧
        Interrupted s s') ∨
      (executeAll (changes.map fun change => .write (.deletions change)) s = (some (), s') ∧
        s'.connection.table = { s.connection.table with
          deletions := changes.foldl (fun table change => change.apply table)
            s.connection.table.deletions } ∧
        s'.connection.saved = s.connection.saved ∧ s'.localStorage = s.localStorage) := by
  induction changes generalizing s with
  | nil => exact ⟨s, .inr ⟨rfl, rfl, rfl, rfl⟩⟩
  | cons change changes ih =>
    rcases executeSql_cases (s := s) (.write (.deletions change)) rfl with
      hrejected | ⟨fault, hdone⟩
    · exact ⟨_, .inl ⟨bind_rejected hrejected, rfl, rfl, rfl⟩⟩
    · obtain ⟨s', ⟨hrest, hinterrupted⟩ | ⟨hrest, htable, hsaved, hstorage⟩⟩ := ih _
      · refine ⟨s', .inl ⟨(bind_done hdone).trans hrest, ?_⟩⟩
        exact ⟨hinterrupted.fault, hinterrupted.saved, hinterrupted.localStorage⟩
      · exact ⟨s', .inr ⟨(bind_done hdone).trans hrest, htable, hsaved, hstorage⟩⟩

/-- The rollback that follows on a rejected statement. -/
theorem rollback_rejects {tables : Tables} (hfault : s.fault = none)
    (hopen : s.connection.saved = some tables) :
    (do tryOr (executeSql .rollback) (pure ()); reject : Attempt Unit) s =
      (none, { s with connection := ⟨tables, none⟩ }) := by
  have hrollback : executeSql .rollback s = (some (), { s with connection := ⟨tables, none⟩ }) := by
    rw [executeSql, databaseCall, hfault]
    simp [execute, hopen]
  rw [bind_done (tryOr_done hrollback)]
  rfl

/-- The rows of a value, as changes of the table. -/
def replaceChanges (deletions : VaultDeletionMap) : List DeletionChange :=
  .deleteAll :: (deletionRows deletions).map fun row => .upsert row.1 row.2

theorem foldl_replaceChanges (deletions : VaultDeletionMap) (table : DeletionTable) :
    (replaceChanges deletions).foldl (fun table change => change.apply table) table =
      OrderedMap.ofList (deletionRows deletions) := by
  rw [replaceChanges, List.foldl_cons, List.foldl_map]
  rfl

theorem statements_eq (deletions : VaultDeletionMap) :
    .write (.deletions .deleteAll) ::
        (deletionRows deletions).map (fun row => .write (.deletions (.upsert row.1 row.2))) =
      (replaceChanges deletions).map fun change => Statement.write (Change.deletions change) := by
  simp [replaceChanges, Function.comp_def]

/-- An open transaction is committed or rolled back. -/
theorem replaceDeletions_cases (deletions : VaultDeletionMap) {tables : Tables} (s : Session)
    (hopen : s.connection.saved = some tables) :
    ∃ s', (replaceDeletions deletions s = (none, s') ∧ s'.connection = ⟨tables, none⟩ ∧
        s'.localStorage = s.localStorage) ∨
      (replaceDeletions deletions s = (some (), s') ∧
        s'.connection = ⟨{ s.connection.table with
          deletions := OrderedMap.ofList (deletionRows deletions) }, none⟩ ∧
        s'.localStorage = s.localStorage) := by
  unfold replaceDeletions
  rw [statements_eq]
  obtain ⟨s₁, ⟨hall, hinterrupted⟩ | ⟨hall, htable, hsaved, hstorage⟩⟩ :=
    executeAll_cases (replaceChanges deletions) s
  · refine ⟨{ s₁ with connection := ⟨tables, none⟩ }, .inl ⟨?_, rfl, hinterrupted.localStorage⟩⟩
    rw [tryOr_rejected (bind_rejected hall)]
    exact rollback_rejects hinterrupted.fault (hinterrupted.saved.trans hopen)
  · have hopen₁ : s₁.connection.saved = some tables := hsaved.trans hopen
    have hne : s₁.connection.saved ≠ none := by simp [hopen₁]
    rcases executeSql_cases .commit (execute_commit_of_open Change.apply hne) with
      hrejected | ⟨fault, hdone⟩
    · refine ⟨{ s₁ with connection := ⟨tables, none⟩, fault := none }, .inl ⟨?_, rfl, hstorage⟩⟩
      rw [tryOr_rejected ((bind_done hall).trans hrejected)]
      exact rollback_rejects rfl hopen₁
    · refine ⟨_, .inr ⟨tryOr_done ((bind_done hall).trans hdone), ?_, hstorage⟩⟩
      change Connection.mk s₁.connection.table none = _
      rw [htable, foldl_replaceChanges]

theorem setNativeDeletionItem_cases (readDeletions : DeletionReader) (value : JsString)
    (s : Session) (hclosed : s.connection.saved = none) :
    ∃ s', (setNativeDeletionItem readDeletions value s = (none, s') ∧ Same s s') ∨
      (setNativeDeletionItem readDeletions value s = (some (), s') ∧
        (∃ deletions ∈ parsePersistedDeletions readDeletions value,
          s'.connection = { s.connection with
            table := { s.connection.table with
              deletions := OrderedMap.ofList (deletionRows deletions) } }) ∧
        s'.localStorage = s.localStorage) := by
  obtain ⟨s₁, hsame, hload | hload⟩ := loadDatabase_cases s
  · unfold setNativeDeletionItem
    rw [bind_done hload]
    cases hparse : parsePersistedDeletions readDeletions value with
    | none => exact ⟨s₁, .inl ⟨rfl, hsame⟩⟩
    | some deletions =>
      have hclosed₁ : s₁.connection.saved = none := by rw [hsame.connection, hclosed]
      rcases executeSql_cases .beginTransaction
        (execute_begin_of_closed Change.apply hclosed₁) with hrejected | ⟨fault, hbegin⟩
      · exact ⟨_, .inl ⟨bind_rejected hrejected, hsame.trans ⟨rfl, rfl⟩⟩⟩
      · obtain ⟨s', ⟨htry, hconnection, hstorage⟩ | ⟨htry, hconnection, hstorage⟩⟩ :=
          replaceDeletions_cases deletions
            { s₁ with
              connection := { s₁.connection with saved := some s₁.connection.table }
              fault := fault } rfl
        · refine ⟨s', .inl ⟨(bind_done hbegin).trans htry, ?_, hstorage.trans hsame.localStorage⟩⟩
          rw [hconnection, ← hsame.connection, ← hclosed₁]
        · refine ⟨s', .inr ⟨(bind_done hbegin).trans htry, ⟨deletions, rfl, ?_⟩,
            hstorage.trans hsame.localStorage⟩⟩
          rw [hconnection, ← hsame.connection]
          exact congrArg (Connection.mk _) hclosed₁.symm
  · exact ⟨s₁, .inl ⟨bind_rejected hload, hsame⟩⟩

end Transaction

section Calls
variable {s s' : Session}

/-- Only a change of the table `deletions`. -/
theorem leaves_deletions {table : DeletionTable}
    (hconnection : s'.connection = { s.connection with
      table := { s.connection.table with deletions := table } })
    (hstorage : ∀ k ≠ Adapter.deletions.key, s'.localStorage.get? k = s.localStorage.get? k) :
    Leaves .deletions s.toWorld s'.toWorld where
  stores _ _ := by rw [hconnection]
  deletions hne := absurd rfl hne
  saved := by rw [hconnection]
  localStorage := hstorage

theorem writesForward_setNativeDeletionItem (readDeletions : DeletionReader) :
    WritesForward readDeletions .deletions (setNativeDeletionItem readDeletions) := by
  intro value s hclosed
  obtain ⟨s', hrejected | ⟨hdone, ⟨deletions, hparse, hconnection⟩, hstorage⟩⟩ :=
    setNativeDeletionItem_cases readDeletions value s hclosed
  · exact ⟨s', .inl hrejected⟩
  · refine ⟨s', .inr ⟨hdone, ⟨deletions, hparse, ?_⟩, ?_, .inr hstorage⟩⟩
    · rw [hconnection]
      rfl
    · exact leaves_deletions hconnection fun _ _ => by rw [hstorage]

theorem getNativeDeletionItem_cases (readDeletions : DeletionReader) (s : Session)
    (hclosed : s.connection.saved = none) :
    ReadsOrNot true readDeletions .deletions s
      (getNativeDeletionItem readDeletions Adapter.deletions.key) := by
  obtain ⟨s₁, hsame, hload | hload⟩ := loadDatabase_cases s
  · unfold getNativeDeletionItem ReadsOrNot
    rw [bind_done hload]
    obtain ⟨s₂, hsame', hselect | hselect⟩ :=
      select_cases (fun tables => byDeletedAt tables.deletions.entries) s₁
    · have hboth := hsame.trans hsame'
      rw [bind_done hselect, hsame.connection]
      by_cases hrows : byDeletedAt s.connection.table.deletions.entries = []
      · have hstored : storedAnswer true s₂.connection.table .deletions = none := by
          rw [hboth.connection]
          exact if_pos hrows
        rw [if_neg (not_not_intro hrows)]
        obtain ⟨s', ⟨hrejected, hunread⟩ | ⟨hdone, hreads⟩⟩ :=
          forward_cases Answer.text (writesForward_setNativeDeletionItem readDeletions)
            (hboth.connection ▸ hclosed) hstored
        · exact ⟨s', .inl ⟨hrejected, (hboth.unread _).trans hunread⟩⟩
        · exact ⟨s', .inr ⟨_, hdone, hboth.readsTo true readDeletions hreads⟩⟩
      · rw [if_pos hrows]
        exact ⟨s₂, .inr ⟨_, rfl, readsTo_stored true readDeletions hboth (if_neg hrows)⟩⟩
    · exact ⟨s₂, .inl ⟨bind_rejected hselect, (hsame.trans hsame').unread _⟩⟩
  · exact ⟨s₁, .inl ⟨bind_rejected hload, hsame.unread _⟩⟩

end Calls

end StorageAdapters
