import TerminalWorkspace.Persistence.DeletionStorage

/-! The storage adapters of the stores. An adapter keeps its value in a table of the database,
with a copy in localStorage, or in localStorage alone; each falls back to the key that it had
before the keys were renamed. -/
namespace StorageAdapters
open JsText Inventory Transactions
open Persistence (DeletionTable DeletionChange deletionRows)

section Names

/-- The keys of `STORE_TABLES`. -/
inductive PersistedStoreName where
  | hosts
  | keys
  | knownHosts
  | identities
  | snippets
  | runbooks
  deriving DecidableEq, Repr

/-- The stores without a table. -/
inductive LocalStoreName where
  | app
  | sessions
  | transfers
  | vaultSyncTrust
  deriving DecidableEq, Repr

inductive Adapter where
  | store (name : PersistedStoreName)
  | deletions
  | migrating (name : LocalStoreName)
  deriving DecidableEq, Repr

def PersistedStoreName.name : PersistedStoreName → String
  | .hosts => "terminal-workspace-hosts"
  | .keys => "terminal-workspace-keys"
  | .knownHosts => "terminal-workspace-known-hosts"
  | .identities => "terminal-workspace-identities"
  | .snippets => "terminal-workspace-snippets"
  | .runbooks => "terminal-workspace-runbooks"

def LocalStoreName.name : LocalStoreName → String
  | .app => "terminal-workspace-app"
  | .sessions => "terminal-workspace-sessions"
  | .transfers => "terminal-workspace-transfers"
  | .vaultSyncTrust => "terminal-workspace-vault-sync-trust"

def Adapter.name : Adapter → String
  | .store s => s.name
  | .deletions => "terminal-workspace-vault-sync"
  | .migrating s => s.name

/-- The key of the copy in localStorage. -/
def Adapter.key (a : Adapter) : JsString := js a.name

def storagePrefix : JsString := js "terminal-workspace-"

def legacyStoragePrefix : JsString := js "termsnip-"

def legacyStorageKeyFor (name : JsString) : Option JsString :=
  if storagePrefix <+: name then some (legacyStoragePrefix ++ name.drop storagePrefix.length)
  else none

end Names

section World

/-- The payload in the row `state` of each store, and the table `deletions`. -/
structure Tables where
  stores : PersistedStoreName → Option JsString
  deletions : DeletionTable

inductive Change where
  | putPayload (name : PersistedStoreName) (payload : JsString)
  | deletePayload (name : PersistedStoreName)
  | deletions (change : DeletionChange)

def Change.apply : Change → Tables → Tables
  | .putPayload name payload, tables =>
    { tables with stores := Function.update tables.stores name (some payload) }
  | .deletePayload name, tables =>
    { tables with stores := Function.update tables.stores name none }
  | .deletions change, tables => { tables with deletions := change.apply tables.deletions }

structure World where
  loaded : Bool
  connection : Connection Tables
  localStorage : OrderedMap JsString JsString

/-- Whatever earlier versions and sessions left, with no transaction open. -/
def World.initial (tables : Tables) (localStorage : OrderedMap JsString JsString) : World where
  loaded := false
  connection := ⟨tables, none⟩
  localStorage := localStorage

/-- The world during a call, and how many database calls succeed before one fails. -/
structure Session extends World where
  fault : Option ℕ

/-- What a read answers: a text as it was written, or the text that is made of tombstones. -/
inductive Answer where
  | text (value : JsString)
  | serialized (deletions : VaultDeletionMap)
  deriving DecidableEq

end World

section Attempts

/-- An asynchronous function, which settles with a result or rejects. -/
def Attempt (α : Type) : Type := Session → Option α × Session

instance : Monad Attempt where
  pure a := fun s => (some a, s)
  bind x f := fun s =>
    match x s with
    | (some a, s') => f a s'
    | (none, s') => (none, s')

variable {α : Type}

def reject : Attempt α := fun s => (none, s)

/-- `try … catch`. -/
def tryOr (x handler : Attempt α) : Attempt α := fun s =>
  match x s with
  | (some a, s') => (some a, s')
  | (none, s') => handler s'

/-- A call that goes to the database, unless it is the one that fails. -/
def databaseCall (f : Connection Tables → Connection Tables × Option α) : Attempt α := fun s =>
  match s.fault with
  | some 0 => (none, { s with fault := none })
  | some (n + 1) =>
    ((f s.connection).2, { s with connection := (f s.connection).1, fault := some n })
  | none => ((f s.connection).2, { s with connection := (f s.connection).1 })

def loadDatabase : Attempt Unit := fun s =>
  if s.loaded then (some (), s)
  else
    match databaseCall (fun connection => (connection, some ())) s with
    | (some _, s') => (some (), { s' with loaded := true })
    | (none, s') => (none, s')

def select (f : Tables → α) : Attempt α :=
  databaseCall fun connection => (connection, some (f connection.table))

def executeSql (statement : Statement Change) : Attempt Unit :=
  databaseCall fun connection =>
    let result := execute Change.apply connection statement
    (result.1, if result.2 then some () else none)

def getLocalStorageItem (name : JsString) : Attempt (Option JsString) := fun s =>
  match s.localStorage.get? name with
  | some current => (some (some current), s)
  | none =>
    match (legacyStorageKeyFor name).bind s.localStorage.get? with
    | some legacyValue =>
      (some (some legacyValue), { s with localStorage := s.localStorage.set name legacyValue })
    | none => (some none, s)

def setLocalStorageItem (name value : JsString) : Attempt Unit := fun s =>
  (some (), { s with localStorage := s.localStorage.set name value })

def removeLocalStorageItem (name : JsString) : Attempt Unit := fun s =>
  (some (), { s with localStorage := s.localStorage.erase name })

end Attempts

section Stores
variable (name : PersistedStoreName)

def setNativeStoreItem (value : JsString) : Attempt Unit := do
  loadDatabase
  executeSql (.write (.putPayload name value))
  setLocalStorageItem (Adapter.store name).key value

def getNativeStoreItem : Attempt (Option JsString) := do
  loadDatabase
  match ← select fun tables => tables.stores name with
  | some payload => pure (some payload)
  | none =>
    match ← getLocalStorageItem (Adapter.store name).key with
    | some localPayload =>
      setNativeStoreItem name localPayload
      pure (some localPayload)
    | none => pure none

def removeNativeStoreItem : Attempt Unit := do
  loadDatabase
  executeSql (.write (.deletePayload name))
  removeLocalStorageItem (Adapter.store name).key

end Stores

section Deletions

/-- What `JSON.parse(value).state?.deletions` lists of each kind; nothing where that throws. -/
abbrev DeletionReader : Type :=
  JsString → Option (VaultSyncEntityKind → Option (List VaultDeletionEntry))

variable (readDeletions : DeletionReader)

/-- The kinds that the text does not list are empty. -/
def parsePersistedDeletions (value : JsString) : Option VaultDeletionMap :=
  (readDeletions value).map fun deletions =>
    { hosts := (deletions .hosts).getD []
      keys := (deletions .keys).getD []
      snippets := (deletions .snippets).getD []
      knownHosts := (deletions .knownHosts).getD []
      identities := (deletions .identities).getD [] }

abbrev DeletionRow : Type := (VaultSyncEntityKind × JsString) × JsString

def serializeDeletionRows (rows : List DeletionRow) : VaultDeletionMap :=
  rows.foldl (fun deletions row =>
    deletions.put row.1.1 (deletions.of row.1.1 ++ [⟨row.1.2, row.2⟩])) emptyDeletionMap

/-- `ORDER BY deleted_at DESC`, which compares bytes. -/
def byDeletedAt (rows : List DeletionRow) : List DeletionRow :=
  sortBy (fun left right => compareOfLessAndEq (utf8Bytes right.2) (utf8Bytes left.2)) rows

def executeAll : List (Statement Change) → Attempt Unit
  | [] => pure ()
  | statement :: rest => do
    executeSql statement
    executeAll rest

/-- What follows on `BEGIN IMMEDIATE TRANSACTION`. -/
def replaceDeletions (deletions : VaultDeletionMap) : Attempt Unit :=
  tryOr
    (do
      executeAll (.write (.deletions .deleteAll) ::
        (deletionRows deletions).map fun row => .write (.deletions (.upsert row.1 row.2)))
      executeSql .commit)
    (do
      tryOr (executeSql .rollback) (pure ())
      reject)

def setNativeDeletionItem (value : JsString) : Attempt Unit := do
  loadDatabase
  match parsePersistedDeletions readDeletions value with
  | none => reject
  | some deletions =>
    executeSql .beginTransaction
    replaceDeletions deletions

def getNativeDeletionItem (name : JsString) : Attempt (Option Answer) := do
  loadDatabase
  let rows ← select fun tables => byDeletedAt tables.deletions.entries
  if rows ≠ [] then pure (some (.serialized (serializeDeletionRows rows)))
  else
    match ← getLocalStorageItem name with
    | some localPayload =>
      setNativeDeletionItem readDeletions localPayload
      pure (some (.text localPayload))
    | none => pure none

def removeNativeDeletionItem : Attempt Unit := do
  loadDatabase
  executeSql (.write (.deletions .deleteAll))

end Deletions

section Adapters
variable (isTauriRuntime : Bool) (readDeletions : DeletionReader)

/-- What is stored as a text is answered as it is. -/
def asText (x : Attempt (Option JsString)) : Attempt (Option Answer) := do
  let value ← x
  pure (value.map .text)

structure StateStorage where
  getItem : Attempt (Option Answer)
  setItem : JsString → Attempt Unit
  removeItem : Attempt Unit

def createMigratingLocalStorage (key : JsString) : StateStorage where
  getItem := asText (getLocalStorageItem key)
  setItem value := setLocalStorageItem key value
  removeItem := removeLocalStorageItem key

def createTermsnipStorage (name : PersistedStoreName) : StateStorage where
  getItem :=
    if isTauriRuntime then
      tryOr (asText (getNativeStoreItem name))
        (asText (getLocalStorageItem (Adapter.store name).key))
    else asText (getLocalStorageItem (Adapter.store name).key)
  setItem value :=
    if isTauriRuntime then setNativeStoreItem name value
    else setLocalStorageItem (Adapter.store name).key value
  removeItem :=
    if isTauriRuntime then removeNativeStoreItem name
    else removeLocalStorageItem (Adapter.store name).key

def createTermsnipDeletionStorage (key : JsString) : StateStorage where
  getItem :=
    if isTauriRuntime then
      tryOr (getNativeDeletionItem readDeletions key) (asText (getLocalStorageItem key))
    else asText (getLocalStorageItem key)
  setItem value :=
    if isTauriRuntime then do
      setNativeDeletionItem readDeletions value
      setLocalStorageItem key value
    else setLocalStorageItem key value
  removeItem :=
    if isTauriRuntime then do
      removeNativeDeletionItem
      removeLocalStorageItem key
    else removeLocalStorageItem key

def Adapter.storage : Adapter → StateStorage
  | .store s => createTermsnipStorage isTauriRuntime s
  | .deletions => createTermsnipDeletionStorage isTauriRuntime readDeletions Adapter.deletions.key
  | .migrating s => createMigratingLocalStorage (Adapter.migrating s).key

inductive Request where
  | getItem
  | setItem (value : JsString)
  | removeItem
  deriving DecidableEq

/-- A call of an adapter, in which at most one database call fails. -/
structure Call where
  adapter : Adapter
  request : Request
  fault : Option ℕ
  deriving DecidableEq

inductive Outcome where
  | got (answer : Option Answer)
  | done
  | rejected
  deriving DecidableEq

/-- A call, from its start until it has settled. -/
def perform (w : World) (call : Call) : Outcome × World :=
  let storage := call.adapter.storage isTauriRuntime readDeletions
  match call.request with
  | .getItem =>
    match storage.getItem ⟨w, call.fault⟩ with
    | (some answer, s) => (.got answer, s.toWorld)
    | (none, s) => (.rejected, s.toWorld)
  | .setItem value =>
    match storage.setItem value ⟨w, call.fault⟩ with
    | (some _, s) => (.done, s.toWorld)
    | (none, s) => (.rejected, s.toWorld)
  | .removeItem =>
    match storage.removeItem ⟨w, call.fault⟩ with
    | (some _, s) => (.done, s.toWorld)
    | (none, s) => (.rejected, s.toWorld)

end Adapters

end StorageAdapters
