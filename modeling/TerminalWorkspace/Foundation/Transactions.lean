/-! One connection to a database. Statements run one at a time; a transaction cannot be
opened inside another, and only an open one can be committed or rolled back. -/
namespace Transactions

inductive Statement (ω : Type) where
  | beginTransaction
  | write (change : ω)
  | commit
  | rollback
  deriving DecidableEq, Repr

/-- The content, and the content that a rollback restores while a transaction is open. -/
structure Connection (τ : Type) where
  table : τ
  saved : Option τ
  deriving DecidableEq, Repr

section Execute
variable {ω τ : Type} (apply : ω → τ → τ) (connection : Connection τ)

/-- Run a statement and report whether it succeeded. -/
def execute : Statement ω → Connection τ × Bool
  | .beginTransaction =>
    match connection.saved with
    | none => ({ connection with saved := some connection.table }, true)
    | some _ => (connection, false)
  | .write change => ({ connection with table := apply change connection.table }, true)
  | .commit =>
    match connection.saved with
    | none => (connection, false)
    | some _ => ({ connection with saved := none }, true)
  | .rollback =>
    match connection.saved with
    | none => (connection, false)
    | some table => (⟨table, none⟩, true)

variable {connection}

theorem execute_begin_of_closed (h : connection.saved = none) :
    execute apply connection .beginTransaction =
      ({ connection with saved := some connection.table }, true) := by
  unfold execute
  rw [h]

theorem execute_begin_of_open (h : connection.saved ≠ none) :
    execute apply connection .beginTransaction = (connection, false) := by
  obtain ⟨table, htable⟩ := Option.ne_none_iff_exists'.mp h
  unfold execute
  rw [htable]

theorem execute_commit_of_open (h : connection.saved ≠ none) :
    execute apply connection .commit = ({ connection with saved := none }, true) := by
  obtain ⟨table, htable⟩ := Option.ne_none_iff_exists'.mp h
  unfold execute
  rw [htable]

end Execute
end Transactions
