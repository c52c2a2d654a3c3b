import TerminalWorkspace.Inventory.Serialization

/-! The tombstones of a vault: one list of deletions for each kind of record, kept
for a bounded time and up to a bounded number. -/
namespace Inventory
open JsText

inductive VaultSyncEntityKind where
  | hosts
  | keys
  | snippets
  | knownHosts
  | identities
  deriving DecidableEq, Repr

structure VaultDeletionEntry where
  id : JsString
  deletedAt : JsString
  deriving DecidableEq, Repr

structure VaultDeletionMap where
  hosts : List VaultDeletionEntry
  keys : List VaultDeletionEntry
  snippets : List VaultDeletionEntry
  knownHosts : List VaultDeletionEntry
  identities : List VaultDeletionEntry
  deriving DecidableEq

def VaultDeletionMap.of (deletions : VaultDeletionMap) :
    VaultSyncEntityKind → List VaultDeletionEntry
  | .hosts => deletions.hosts
  | .keys => deletions.keys
  | .snippets => deletions.snippets
  | .knownHosts => deletions.knownHosts
  | .identities => deletions.identities

def VaultDeletionMap.put (deletions : VaultDeletionMap) (kind : VaultSyncEntityKind)
    (entries : List VaultDeletionEntry) : VaultDeletionMap :=
  match kind with
  | .hosts => { deletions with hosts := entries }
  | .keys => { deletions with keys := entries }
  | .snippets => { deletions with snippets := entries }
  | .knownHosts => { deletions with knownHosts := entries }
  | .identities => { deletions with identities := entries }

theorem of_put (deletions : VaultDeletionMap) (kind other : VaultSyncEntityKind)
    (entries : List VaultDeletionEntry) :
    (deletions.put kind entries).of other = if other = kind then entries else deletions.of other := by
  cases kind <;> cases other <;> rfl

def emptyDeletionMap : VaultDeletionMap := ⟨[], [], [], [], []⟩

/-- `VAULT_TOMBSTONE_RETENTION_DAYS` in milliseconds. -/
def tombstoneRetentionMs : ℤ := 90 * 24 * 60 * 60 * 1000

def tombstoneMaxEntriesPerKind : ℕ := 256

def sortDeletionEntries (p : Platform) (entries : List VaultDeletionEntry) :
    List VaultDeletionEntry :=
  sortBy (fun left right => p.localeCompare right.deletedAt left.deletedAt) entries

/-- Whether compaction looks at an entry at all. -/
def retained (p : Platform) (now : ℤ) (entry : VaultDeletionEntry) : Bool :=
  entry.id ≠ [] && entry.deletedAt ≠ [] &&
    match p.dateParse entry.deletedAt with
    | none => false
    | some deletedAtMs => now - tombstoneRetentionMs ≤ deletedAtMs

/-- Keep the entry unless one for its id is already as late. -/
def keepLatest (latestById : OrderedMap JsString VaultDeletionEntry) (entry : VaultDeletionEntry) :
    OrderedMap JsString VaultDeletionEntry :=
  match latestById.get? entry.id with
  | none => latestById.set entry.id entry
  | some existing =>
    if before existing.deletedAt entry.deletedAt then latestById.set entry.id entry
    else latestById

def latestEntries (entries : List VaultDeletionEntry) : OrderedMap JsString VaultDeletionEntry :=
  entries.foldl keepLatest OrderedMap.empty

def compactDeletionEntries (p : Platform) (entries : List VaultDeletionEntry) (now : ℤ) :
    List VaultDeletionEntry :=
  (sortDeletionEntries p (latestEntries (entries.filter (retained p now))).values).take
    tombstoneMaxEntriesPerKind

def compactDeletionMap (p : Platform) (deletions : VaultDeletionMap) (now : ℤ) : VaultDeletionMap :=
  { hosts := compactDeletionEntries p deletions.hosts now
    keys := compactDeletionEntries p deletions.keys now
    snippets := compactDeletionEntries p deletions.snippets now
    knownHosts := compactDeletionEntries p deletions.knownHosts now
    identities := compactDeletionEntries p deletions.identities now }

theorem compactDeletionMap_of (p : Platform) (deletions : VaultDeletionMap) (now : ℤ)
    (kind : VaultSyncEntityKind) :
    (compactDeletionMap p deletions now).of kind =
      compactDeletionEntries p (deletions.of kind) now := by
  cases kind <;> rfl

section Latest

theorem keepLatest_values {m : OrderedMap JsString VaultDeletionEntry}
    {entry e : VaultDeletionEntry} (h : e ∈ (keepLatest m entry).values) :
    e = entry ∨ e ∈ m.values := by
  unfold keepLatest at h
  split at h
  · exact OrderedMap.mem_values_set h
  · split_ifs at h
    · exact OrderedMap.mem_values_set h
    · exact .inr h

theorem foldl_keepLatest_values {entries : List VaultDeletionEntry}
    {m : OrderedMap JsString VaultDeletionEntry} {e : VaultDeletionEntry}
    (h : e ∈ (entries.foldl keepLatest m).values) : e ∈ entries ∨ e ∈ m.values := by
  induction entries generalizing m with
  | nil => exact .inr h
  | cons entry entries ih =>
    rcases ih h with he | he
    · exact .inl (List.mem_cons_of_mem _ he)
    · rcases keepLatest_values he with rfl | he
      · exact .inl List.mem_cons_self
      · exact .inr he

theorem latestEntries_values {entries : List VaultDeletionEntry} {e : VaultDeletionEntry}
    (h : e ∈ (latestEntries entries).values) : e ∈ entries := by
  simpa [OrderedMap.empty, OrderedMap.values] using foldl_keepLatest_values h

/-- Compaction invents no tombstone. -/
theorem compactDeletionEntries_subset {p : Platform} {entries : List VaultDeletionEntry} {now : ℤ} :
    compactDeletionEntries p entries now ⊆ entries := by
  intro e he
  have hsorted := List.mem_of_mem_take he
  rw [sortDeletionEntries, mem_sortBy] at hsorted
  exact List.mem_of_mem_filter (latestEntries_values hsorted)

end Latest

end Inventory
