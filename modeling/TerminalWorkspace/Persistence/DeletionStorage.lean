import TerminalWorkspace.Foundation.Runs
import TerminalWorkspace.Foundation.Transactions
import TerminalWorkspace.Inventory.Tombstones

/-! The tombstone storage of the desktop. Every `setItem` writes its value in a transaction
of its own, one awaited statement at a time, and no call waits for another. -/
namespace Persistence
open JsText Inventory Transactions

/-- `DELETION_KINDS`. -/
def deletionKinds : List VaultSyncEntityKind := [.hosts, .keys, .snippets, .knownHosts, .identities]

/-- The table `deletions`, whose primary key is the kind and the id. -/
abbrev DeletionTable := OrderedMap (VaultSyncEntityKind × JsString) JsString

inductive DeletionChange where
  | deleteAll
  | upsert (key : VaultSyncEntityKind × JsString) (deletedAt : JsString)
  deriving DecidableEq, Repr

def DeletionChange.apply : DeletionChange → DeletionTable → DeletionTable
  | .deleteAll, _ => OrderedMap.empty
  | .upsert key deletedAt, table => table.set key deletedAt

abbrev DeletionStatement := Statement DeletionChange

def deletionRows (deletions : VaultDeletionMap) :
    List ((VaultSyncEntityKind × JsString) × JsString) :=
  deletionKinds.flatMap fun kind =>
    (deletions.of kind).map fun entry => ((kind, entry.id), entry.deletedAt)

/-- The statements `setNativeDeletionItem` awaits one after the other. -/
def setNativeDeletionItem (deletions : VaultDeletionMap) : List DeletionStatement :=
  .beginTransaction :: .write .deleteAll ::
    ((deletionRows deletions).map (fun row => .write (.upsert row.1 row.2)) ++ [.commit])

/-- Where a call of `setItem` stands: it waits for the database, for the statement at some
position or for its rollback, each time with the reply once there is one, or it is over. -/
inductive CallState where
  | unissued
  | loading
  | awaiting (position : ℕ) (reply : Option Bool)
  | rollingBack (reply : Option Bool)
  | settled (succeeded : Bool)
  deriving DecidableEq, Repr

def CallState.reply (succeeded : Bool) : CallState → CallState
  | .awaiting position none => .awaiting position (some succeeded)
  | .rollingBack none => .rollingBack (some succeeded)
  | call => call

/-- The calls issued so far, the statements on their way to the connection, and the two
copies. The database itself opens without fault. -/
structure StorageWorld where
  issued : ℕ
  loaded : Bool
  calls : ℕ → CallState
  queue : List (ℕ × DeletionStatement)
  connection : Connection DeletionTable
  localStorage : Option VaultDeletionMap

/-- Before the first call, with whatever an earlier session left. -/
def StorageWorld.initial (table : DeletionTable) (localStorage : Option VaultDeletionMap) :
    StorageWorld where
  issued := 0
  loaded := false
  calls := fun _ => .unissued
  queue := []
  connection := ⟨table, none⟩
  localStorage := localStorage

inductive StorageAction where
  | setItem
  | load
  | execute
  | resume (call : ℕ)
  deriving DecidableEq, Repr

section Step
variable (values : List VaultDeletionMap) (w : StorageWorld) (call : ℕ)

/-- The value passed to the call. -/
def valueOf : VaultDeletionMap := values.getD call emptyDeletionMap

def statementsOf : List DeletionStatement := setNativeDeletionItem (valueOf values call)

def StorageWorld.put (state : CallState) : StorageWorld :=
  { w with calls := Function.update w.calls call state }

def StorageWorld.send (state : CallState) (statement : DeletionStatement) : StorageWorld :=
  { w.put call state with queue := w.queue ++ [(call, statement)] }

/-- The next value is passed to `setItem`. -/
def setItem : StorageWorld :=
  if w.issued < values.length then { w.put w.issued .loading with issued := w.issued + 1 } else w

/-- The connection runs the statement that was issued first. -/
def executeNext : StorageWorld :=
  match w.queue with
  | [] => w
  | (sender, statement) :: queue =>
    let result := execute DeletionChange.apply w.connection statement
    { w.put sender ((w.calls sender).reply result.2) with queue := queue, connection := result.1 }

/-- A call goes on with what it awaited. Those that wait for the database go on in the order
in which they were issued. -/
def resume : StorageWorld :=
  match w.calls call with
  | .loading =>
    if w.loaded ∧ ∀ earlier < call, w.calls earlier ≠ .loading then
      w.send call (.awaiting 0 none) .beginTransaction
    else w
  | .awaiting position (some true) =>
    match (statementsOf values call)[position + 1]? with
    | some statement => w.send call (.awaiting (position + 1) none) statement
    | none => { w.put call (.settled true) with localStorage := some (valueOf values call) }
  | .awaiting position (some false) =>
    -- only the statements after BEGIN are inside the `try`
    if position = 0 then w.put call (.settled false)
    else w.send call (.rollingBack none) .rollback
  | .rollingBack (some _) => w.put call (.settled false)
  | _ => w

def step : StorageAction → StorageWorld
  | .setItem => setItem values w
  | .load => { w with loaded := true }
  | .execute => executeNext w
  | .resume call => resume values w call

end Step

section Rows
variable (deletions : VaultDeletionMap)

/-- The statement at each position. -/
theorem setNativeDeletionItem_getElem? {position : ℕ} {statement : DeletionStatement}
    (h : (setNativeDeletionItem deletions)[position]? = some statement) :
    position = 0 ∧ statement = .beginTransaction ∨
      position = 1 ∧ statement = .write .deleteAll ∨
      (∃ k row, position = k + 2 ∧ (deletionRows deletions)[k]? = some row ∧
        statement = .write (.upsert row.1 row.2)) ∨
      position = (deletionRows deletions).length + 2 ∧ statement = .commit := by
  unfold setNativeDeletionItem at h
  rcases position with _ | _ | k
  · exact .inl ⟨rfl, (Option.some.inj h).symm⟩
  · exact .inr (.inl ⟨rfl, (Option.some.inj h).symm⟩)
  · simp only [List.getElem?_cons_succ] at h
    rcases Nat.lt_trichotomy k (deletionRows deletions).length with hk | hk | hk
    · rw [List.getElem?_append_left (by simpa using hk), List.getElem?_map] at h
      obtain ⟨row, hrow, rfl⟩ := Option.map_eq_some_iff.mp h
      exact .inr (.inr (.inl ⟨k, row, rfl, hrow, rfl⟩))
    · rw [List.getElem?_append_right (by simp [hk])] at h
      simp only [List.length_map, hk, Nat.sub_self, List.getElem?_cons_zero, Option.some.injEq] at h
      exact .inr (.inr (.inr ⟨by rw [hk], h.symm⟩))
    · rw [List.getElem?_eq_none (by simp; omega)] at h
      cases h

theorem length_setNativeDeletionItem :
    (setNativeDeletionItem deletions).length = (deletionRows deletions).length + 3 := by
  simp [setNativeDeletionItem]

/-- The rows of a value are its entries, and nothing else. -/
def Holds (table : DeletionTable) (deletions : VaultDeletionMap) : Prop :=
  ∀ kind id, table.get? (kind, id) =
    ((deletions.of kind).reverse.find? (·.id = id)).map VaultDeletionEntry.deletedAt

theorem holds_ofList_rows : Holds (OrderedMap.ofList (deletionRows deletions)) deletions := by
  intro kind id
  rw [OrderedMap.get?_ofList]
  have hother : ∀ other ≠ kind, ∀ entries : List VaultDeletionEntry,
      ((entries.map fun entry => ((other, entry.id), entry.deletedAt)).reverse.find?
        fun e => e.1 = (kind, id)) = none := by
    intro other hne entries
    rw [List.find?_eq_none]
    intro row hrow
    rw [List.mem_reverse] at hrow
    obtain ⟨entry, -, rfl⟩ := List.mem_map.mp hrow
    simp [hne]
  have hown : ∀ entries : List VaultDeletionEntry,
      ((entries.map fun entry => ((kind, entry.id), entry.deletedAt)).reverse.find?
        fun e => e.1 = (kind, id)).map Prod.snd =
        (entries.reverse.find? (·.id = id)).map VaultDeletionEntry.deletedAt := by
    intro entries
    rw [← List.map_reverse, List.find?_map]
    simp [Function.comp_def]
  unfold OrderedMap.lastFor deletionRows deletionKinds
  simp only [List.flatMap_cons, List.flatMap_nil, List.append_nil, List.reverse_append,
    List.find?_append]
  rw [← hown]
  cases kind <;> simp [hother]

end Rows
end Persistence
