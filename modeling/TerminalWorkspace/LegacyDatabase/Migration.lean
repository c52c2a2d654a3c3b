import Mathlib.Data.List.TakeWhile
import TerminalWorkspace.Foundation.HardLinks
import TerminalWorkspace.Foundation.Runs

/-! The first launch under the new name: the database of the old name is copied to a file of the
process's own and gets the new name at one stroke, after the sidecars. -/
namespace LegacyDatabase
open HardLinks

/-! ## The files, by their names in the configuration directory -/

def TERMINAL_WORKSPACE_DATABASE_URL : List Char := "sqlite:terminalworkspace.db".toList

def LEGACY_DATABASE_URL : List Char := "sqlite:termsnip.db".toList

/-- The part of the URL after its first colon. -/
def databasePathForUrl (databaseUrl : List Char) : Option (List Char) :=
  match databaseUrl.dropWhile (· != ':') with
  | [] => none
  | _ :: path => some path

def sqliteDatabaseSidecarPath (databasePath suffix : List Char) : List Char :=
  databasePath ++ '-' :: suffix

def sqliteDatabaseMigrationTempPath (databasePath : List Char) (pid : ℕ) : List Char :=
  databasePath ++ (".legacy-migration-tmp-".toList ++ Nat.toDigits 10 pid)

inductive Suffix where
  | journal
  | wal
  | shm
  deriving DecidableEq, Repr

def Suffix.text : Suffix → List Char
  | .journal => "journal".toList
  | .wal => "wal".toList
  | .shm => "shm".toList

/-- In the order they are copied in. -/
def suffixes : List Suffix := [.journal, .wal, .shm]

/-- The files that a migration may touch. -/
inductive NewFile where
  | database
  | sidecar (suffix : Suffix)
  | temp (pid : ℕ)
  deriving DecidableEq, Repr

def NewFile.path (terminalWorkspacePath : List Char) : NewFile → List Char
  | .database => terminalWorkspacePath
  | .sidecar suffix => sqliteDatabaseSidecarPath terminalWorkspacePath suffix.text
  | .temp pid => sqliteDatabaseMigrationTempPath terminalWorkspacePath pid

example : databasePathForUrl TERMINAL_WORKSPACE_DATABASE_URL =
    some "terminalworkspace.db".toList := by decide

theorem mem_suffixes (suffix : Suffix) : suffix ∈ suffixes := by
  cases suffix <;> decide

/-- What stands after the name of the database. -/
def NewFile.ending : NewFile → List Char
  | .database => []
  | .sidecar suffix => '-' :: suffix.text
  | .temp pid => ".legacy-migration-tmp-".toList ++ Nat.toDigits 10 pid

theorem NewFile.path_eq (terminalWorkspacePath : List Char) (f : NewFile) :
    f.path terminalWorkspacePath = terminalWorkspacePath ++ f.ending := by
  cases f with
  | database => exact (List.append_nil _).symm
  | sidecar suffix => rfl
  | temp pid => rfl

/-- No two of the files have one name. -/
theorem NewFile.path_injective (terminalWorkspacePath : List Char) :
    Function.Injective (NewFile.path terminalWorkspacePath) := by
  intro f g h
  rw [path_eq, path_eq] at h
  have hending := List.append_cancel_left h
  cases f with
  | database => cases g <;> first | rfl | cases hending
  | sidecar s =>
    cases g with
    | database => cases hending
    | sidecar t =>
      have htext := List.tail_eq_of_cons_eq hending
      cases s <;> cases t <;> first | rfl | exact absurd htext (by decide)
    | temp pid => cases hending
  | temp pid =>
    cases g with
    | database => cases hending
    | sidecar t => cases hending
    | temp other =>
      have hdigits := List.append_cancel_left hending
      rw [← @Nat.ofDigitChars_ten_toDigits pid, hdigits, Nat.ofDigitChars_ten_toDigits]

/-- None of them is a file of the old name. -/
theorem NewFile.path_ne_legacy (f : NewFile) (rest : List Char) :
    f.path "terminalworkspace.db".toList ≠ "termsnip.db".toList ++ rest := by
  intro h
  rw [path_eq] at h
  have htake := congrArg (List.take 5) h
  rw [List.take_append_of_le_length (by decide), List.take_append_of_le_length (by decide)] at htake
  exact absurd htake (by decide)

/-! ## One attempt, operation by operation -/

/-- The files of the old name. -/
structure Legacy (δ : Type*) where
  main : Option δ
  sidecar : Suffix → Option δ

/-- What is copied; after a sidecar it is the turn of the later ones. -/
inductive Copy where
  | sidecar (suffix : Suffix) (later : List Suffix)
  | main
  deriving DecidableEq, Repr

def Copy.target (pid : ℕ) : Copy → NewFile
  | .sidecar suffix _ => .sidecar suffix
  | .main => .temp pid

def Copy.source {δ : Type*} (legacy : Legacy δ) : Copy → Option δ
  | .sidecar suffix _ => legacy.sidecar suffix
  | .main => legacy.main

inductive MigrationError where
  | inspectDatabase
  | inspectLegacy
  | inspectSidecar (suffix : Suffix)
  | removeSidecar (suffix : Suffix)
  | copy (file : NewFile)
  | sync (file : NewFile)
  | publish
  deriving DecidableEq, Repr

/-- The operation that `migrate_legacy_database` does next. After `done` the caller opens the
database, after `failed` the launch stops. -/
inductive Stage where
  | idle
  | inspectDatabase
  | inspectLegacy
  | inspectSidecar (suffix : Suffix) (later : List Suffix)
  | removeSidecar (suffix : Suffix) (later : List Suffix)
  | create (copy : Copy)
  | fill (copy : Copy) (file : ℕ)
  | sync (copy : Copy)
  | publish
  | discard
  | abandon
  | removeTemp
  | syncDirectory
  | done
  | failed (error : MigrationError)
  deriving DecidableEq, Repr

/-- The main file comes after all sidecars. -/
def afterSidecars : List Suffix → Stage
  | [] => .create .main
  | suffix :: later => .inspectSidecar suffix later

def Copy.next : Copy → Stage
  | .sidecar _ later => afterSidecars later
  | .main => .publish

section Attempt
variable {δ : Type*} (legacy : Legacy δ) (pid : ℕ) (store : Store NewFile δ)

def advance : Stage → Store NewFile δ × Stage
  | .inspectDatabase => (store, if store.has .database then .done else .inspectLegacy)
  | .inspectLegacy => (store, if legacy.main.isSome then afterSidecars suffixes else .done)
  | .inspectSidecar suffix later =>
    (store, if (legacy.sidecar suffix).isSome then .create (.sidecar suffix later)
      else .removeSidecar suffix later)
  | .removeSidecar suffix later => (store.remove (.sidecar suffix), afterSidecars later)
  | .create copy =>
    if (copy.source legacy).isSome then
      ((store.create pid (copy.target pid)).1, .fill copy (store.create pid (copy.target pid)).2)
    else (store, .failed (.copy (copy.target pid)))
  | .fill copy file =>
    match copy.source legacy with
    | some data => (store.fill pid file data, .sync copy)
    | none => (store, .failed (.copy (copy.target pid)))
  | .sync copy =>
    if store.has (copy.target pid) then (store.sync (copy.target pid), copy.next)
    else (store, .failed (.sync (copy.target pid)))
  | .publish =>
    if store.has (.temp pid) then
      if store.has .database then (store, .discard)
      else (store.link (.temp pid) .database, .removeTemp)
    else (store, .abandon)
  | .discard => (store.remove (.temp pid), .done)
  | .abandon => (store.remove (.temp pid), .failed .publish)
  | .removeTemp => (store.remove (.temp pid), .syncDirectory)
  | .syncDirectory => (store.syncDirectory, .done)
  | .idle => (store, .idle)
  | .done => (store, .done)
  | .failed error => (store, .failed error)

attribute [grind =] advance

/-- The operation reports an error. That of the temporary file's removal is not looked at, nor
that of the directory's sync. -/
def failing : Stage → Stage
  | .inspectDatabase => .failed .inspectDatabase
  | .inspectLegacy => .failed .inspectLegacy
  | .inspectSidecar suffix _ => .failed (.inspectSidecar suffix)
  | .removeSidecar suffix _ => .failed (.removeSidecar suffix)
  | .create copy => .failed (.copy (copy.target pid))
  | .fill copy _ => .failed (.copy (copy.target pid))
  | .sync copy => .failed (.sync (copy.target pid))
  | .publish => .abandon
  | .discard => .done
  | .abandon => .failed .publish
  | .removeTemp => .syncDirectory
  | .syncDirectory => .done
  | .idle => .idle
  | .done => .done
  | .failed error => .failed error

end Attempt

/-! ## Processes, crashes and power cuts -/

def Stage.active : Stage → Bool
  | .idle => false
  | .done => false
  | .failed _ => false
  | _ => true

structure World (δ : Type*) where
  legacy : Legacy δ
  store : Store NewFile δ
  stages : ℕ → Stage

/-- A power cut spares some of the data that is not synced and loses some changes of the
directory. -/
inductive Event (δ : Type*) where
  | start (pid : ℕ)
  | advance (pid : ℕ)
  | fail (pid : ℕ)
  | crash (pid : ℕ)
  | powerCut (spared : ℕ → Bool) (lost : ℕ)
  | legacyWrites (legacy : Legacy δ)

section System
variable {δ : Type*} (w : World δ)

def World.goes (pid : ℕ) (store : Store NewFile δ) (stage : Stage) : World δ :=
  { w with store := store, stages := Function.update w.stages pid stage }

def World.step : Event δ → World δ
  | .start pid => if (w.stages pid).active then w else w.goes pid w.store .inspectDatabase
  | .advance pid =>
    w.goes pid (LegacyDatabase.advance w.legacy pid w.store (w.stages pid)).1
      (LegacyDatabase.advance w.legacy pid w.store (w.stages pid)).2
  | .fail pid => w.goes pid w.store (failing pid (w.stages pid))
  | .crash pid => w.goes pid w.store .idle
  | .powerCut spared lost => { w with store := w.store.cut spared lost, stages := fun _ => .idle }
  | .legacyWrites legacy => { w with legacy := legacy }

attribute [grind =] World.step

/-- The old application, which writes its own files, runs only while nothing is migrated. -/
def LegacyKept (w : World δ) (event : Event δ) : Prop :=
  ∀ legacy, event = .legacyWrites legacy → ∀ pid, (w.stages pid).active = false

/-- One attempt begins when no other is under way. -/
def Alone (w : World δ) (event : Event δ) : Prop :=
  ∀ pid, event = .start pid → ∀ other, (w.stages other).active = false

/-- No database has the new name yet. Earlier attempts may have left sidecars and temporary files
with anything in them. -/
structure World.Fresh : Prop where
  idle : ∀ pid, w.stages pid = .idle
  absent : w.store.names .database = none
  durable : w.store.earlier = []
  numbered : w.store.Numbered
  distinct : ∀ f g i, w.store.names f = some i → w.store.names g = some i → f = g

variable {w} {pid other : ℕ} {stage : Stage} {store : Store NewFile δ}

@[simp] theorem store_goes : (w.goes pid store stage).store = store := rfl

@[simp] theorem legacy_goes : (w.goes pid store stage).legacy = w.legacy := rfl

@[simp] theorem stages_goes_self : (w.goes pid store stage).stages pid = stage :=
  Function.update_self _ _ _

@[simp] theorem stages_goes_of_ne (h : other ≠ pid) :
    (w.goes pid store stage).stages other = w.stages other := Function.update_of_ne h _ _

end System
end LegacyDatabase
