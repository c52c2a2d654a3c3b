import TerminalWorkspace.LocalConfig.Apply
import TerminalWorkspace.Inventory.RecordText

/-! The export of the local vault, and what is read back from its JSON text. -/
namespace LocalConfig
open JsText Inventory

/-- `JSON.parse(JSON.stringify(value))`. A property that is undefined is not written; the
arrays and the environment of a record hold strings only. -/
def reparse : JsonValue → JsonValue
  | .object entries => .object (entries.filter fun e => e.2.kind ≠ .undefined)
  | value => value

/-- An optional property as it is read back. -/
def reparseOptional : Optional JsString → Optional JsString
  | .undefined => .absent
  | value => value

/-- A record whose JSON text has been parsed again. -/
class ParsedRecord (α : Type) [VaultRecord α] where
  parsed : α → α
  toJson_parsed : ∀ r : α, VaultRecord.toJson (parsed r) = reparse (VaultRecord.toJson r)

theorem optionalEntry_reparse (key : String) (value : Optional JsString) :
    optionalEntry key (reparseOptional value) =
      (optionalEntry key value).filter fun e => e.2.kind ≠ .undefined := by
  cases value <;> rfl

instance : ParsedRecord HostRecord where
  parsed host :=
    { host with
      jumpHostId := reparseOptional host.jumpHostId
      lastConnectedAt := reparseOptional host.lastConnectedAt
      identityId := reparseOptional host.identityId }
  toJson_parsed host := by
    simp only [VaultRecord.toJson, reparse, List.filter_append, optionalEntry_reparse]
    rfl

instance : ParsedRecord KeyRecord where
  parsed key := { key with publicKeyPath := reparseOptional key.publicKeyPath }
  toJson_parsed key := by
    simp only [VaultRecord.toJson, reparse, List.filter_append, optionalEntry_reparse]
    rfl

instance : ParsedRecord SnippetRecord where
  parsed snippet := { snippet with lastRunAt := reparseOptional snippet.lastRunAt }
  toJson_parsed snippet := by
    simp only [VaultRecord.toJson, reparse, List.filter_append, optionalEntry_reparse]
    rfl

instance : ParsedRecord KnownHostRecord where
  parsed knownHost := knownHost
  toJson_parsed _ := rfl

instance : ParsedRecord IdentityRecord where
  parsed identity := { identity with keyId := reparseOptional identity.keyId }
  toJson_parsed identity := by
    simp only [VaultRecord.toJson, reparse, List.filter_append, optionalEntry_reparse]
    rfl

/-- `buildLocalConfigBundle`, given the time and the identifier it takes. -/
def buildLocalConfigBundle (p : Platform) (state : LocalState) (exportedAt snapshotId : JsString)
    (now : ℤ) : LocalConfigBundle where
  app := js "terminal-workspace"
  version := 6
  exportedAt := exportedAt
  vault := some
    { schema := js "local-first-vault"
      vaultId := state.vaultId
      sourceDeviceId := state.deviceId
      snapshotId := snapshotId
      baseSnapshotId := state.lastAppliedSnapshotId }
  hosts := state.collections.hosts
  keys := state.collections.keys
  snippets := state.collections.snippets
  knownHosts := state.collections.knownHosts
  identities := some state.collections.identities
  deletions := some (compactDeletionMap p state.deletions now)

/-- A bundle that has been written to a file and read again. -/
def parsedBundle (bundle : LocalConfigBundle) : LocalConfigBundle :=
  { bundle with
    hosts := bundle.hosts.map ParsedRecord.parsed
    keys := bundle.keys.map ParsedRecord.parsed
    snippets := bundle.snippets.map ParsedRecord.parsed
    knownHosts := bundle.knownHosts.map ParsedRecord.parsed
    identities := bundle.identities.map (List.map ParsedRecord.parsed) }

end LocalConfig
