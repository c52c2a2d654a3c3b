import Mathlib.Data.List.Sort
import TerminalWorkspace.Inventory.Records

/-! Records as JSON values, and the serialisation that the import compares them by. -/
namespace Inventory
open JsText

inductive JsonValue where
  | undefined
  | bool (b : Bool)
  | number (n : ℤ)
  | string (s : JsString)
  | array (items : List JsonValue)
  | object (entries : List (JsString × JsonValue))

/-- A stable sort by a comparison that returns an ordering. A list whose neighbours are in
order is left as it is, whatever the comparison says of the others. -/
def sortBy {α : Type*} (compare : α → α → Ordering) (l : List α) : List α :=
  l.insertionSort fun a b => compare a b ≠ .gt

theorem sortBy_perm {α : Type*} (compare : α → α → Ordering) (l : List α) :
    (sortBy compare l).Perm l := List.perm_insertionSort _ _

@[simp] theorem mem_sortBy {α : Type*} {compare : α → α → Ordering} {l : List α} {a : α} :
    a ∈ sortBy compare l ↔ a ∈ l := (sortBy_perm compare l).mem_iff

/-- The four-digit escape of a code unit. -/
def unitEscape (unit : ℕ) : JsString :=
  let digits := Nat.toDigits 16 unit
  js "\\u" ++ ofText (List.replicate (4 - digits.length) '0' ++ digits)

def quotePoint : CodePoint → JsString
  | .surrogate unit => unitEscape (0xD800 + unit)
  | .scalar c =>
    if c = '"' then js "\\\""
    else if c = '\\' then js "\\\\"
    else if c.toNat = 0x08 then js "\\b"
    else if c.toNat = 0x0C then js "\\f"
    else if c = '\n' then js "\\n"
    else if c = '\r' then js "\\r"
    else if c = '\t' then js "\\t"
    else if c.toNat < 0x20 then unitEscape c.toNat
    else [.scalar c]

/-- `JSON.stringify` of a string. -/
def quote (s : JsString) : JsString := js "\"" ++ s.flatMap quotePoint ++ js "\""

def join (separator : JsString) (pieces : List JsString) : JsString :=
  separator.intercalate pieces

mutual

/-- Entries are serialised before they are sorted, which the order of the keys does not notice. -/
def stableSerialize (p : Platform) : JsonValue → JsString
  | .undefined => js "undefined"
  | .bool b => js (toString b)
  | .number n => js (toString n)
  | .string s => quote s
  | .array items => js "[" ++ join (js ",") (serializeItems p items) ++ js "]"
  | .object entries =>
    let sorted := sortBy (fun l r => p.localeCompare l.1 r.1) (serializeEntries p entries)
    js "\x7b" ++ join (js ",") (sorted.map fun e => quote e.1 ++ js ":" ++ e.2) ++ js "\x7d"

def serializeItems (p : Platform) : List JsonValue → List JsString
  | [] => []
  | item :: items => stableSerialize p item :: serializeItems p items

def serializeEntries (p : Platform) : List (JsString × JsonValue) → List (JsString × JsString)
  | [] => []
  | (key, value) :: entries => (key, stableSerialize p value) :: serializeEntries p entries

end

def stringArray (items : List JsString) : JsonValue := .array (items.map .string)

/-- The entry of an optional property: none at all when it is absent. -/
def optionalEntry (key : String) : Optional JsString → List (JsString × JsonValue)
  | .absent => []
  | .undefined => [(js key, .undefined)]
  | .value s => [(js key, .string s)]

/-- A record that a vault keeps: the import looks at its id, at the time of its last
change, and at its serialisation. -/
class VaultRecord (α : Type) where
  id : α → JsString
  updatedAt : α → JsString
  toJson : α → JsonValue

def HostAuthMethod.text : HostAuthMethod → String
  | .none => "none"
  | .password => "password"
  | .privateKey => "privateKey"

def HostProtocol.text : HostProtocol → String
  | .ssh => "ssh"
  | .localShell => "localShell"
  | .telnet => "telnet"
  | .serial => "serial"
  | .mosh => "mosh"

def HostKeyPolicy.text : HostKeyPolicy → String
  | .allowUnknown => "allowUnknown"
  | .requireTrusted => "requireTrusted"

def KeyAlgorithm.text : KeyAlgorithm → String
  | .ed25519 => "ED25519"
  | .ecdsa => "ECDSA"
  | .rsa => "RSA"
  | .unknown => "UNKNOWN"

def KeySource.text : KeySource → String
  | .imported => "imported"
  | .generated => "generated"

def IdentitySource.text : IdentitySource → String
  | .imported => "imported"
  | .derived => "derived"

instance : VaultRecord HostRecord where
  id host := host.id
  updatedAt host := host.updatedAt
  toJson host := .object <|
    [(js "id", .string host.id), (js "label", .string host.label),
      (js "protocol", .string (js host.protocol.text)), (js "hostname", .string host.hostname),
      (js "username", .string host.username), (js "port", .number host.port),
      (js "authMethod", .string (js host.authMethod.text)),
      (js "privateKeyPath", .string host.privateKeyPath), (js "group", .string host.group),
      (js "tags", stringArray host.tags), (js "note", .string host.note),
      (js "favorite", .bool host.favorite), (js "keyLabel", .string host.keyLabel),
      (js "hostKeyPolicy", .string (js host.hostKeyPolicy.text)),
      (js "agentForwarding", .bool host.agentForwarding),
      (js "environment", .object (host.environment.entries.map fun e => (e.1, .string e.2))),
      (js "sftpRoot", .string host.sftpRoot), (js "snippetCount", .number host.snippetCount),
      (js "forwardingCount", .number host.forwardingCount),
      (js "createdAt", .string host.createdAt), (js "updatedAt", .string host.updatedAt)] ++
    optionalEntry "jumpHostId" host.jumpHostId ++
    optionalEntry "lastConnectedAt" host.lastConnectedAt ++
    optionalEntry "identityId" host.identityId

instance : VaultRecord KeyRecord where
  id key := key.id
  updatedAt key := key.updatedAt
  toJson key := .object <|
    [(js "id", .string key.id), (js "label", .string key.label),
      (js "algorithm", .string (js key.algorithm.text)), (js "bits", .number key.bits),
      (js "fingerprint", .string key.fingerprint), (js "comment", .string key.comment),
      (js "privateKeyPath", .string key.privateKeyPath),
      (js "source", .string (js key.source.text)), (js "hasPassphrase", .bool key.hasPassphrase),
      (js "assignedHostIds", stringArray key.assignedHostIds),
      (js "createdAt", .string key.createdAt), (js "updatedAt", .string key.updatedAt)] ++
    optionalEntry "publicKeyPath" key.publicKeyPath

instance : VaultRecord SnippetRecord where
  id snippet := snippet.id
  updatedAt snippet := snippet.updatedAt
  toJson snippet := .object <|
    [(js "id", .string snippet.id), (js "title", .string snippet.title),
      (js "description", .string snippet.description), (js "command", .string snippet.command),
      (js "tags", stringArray snippet.tags),
      (js "targetHostIds", stringArray snippet.targetHostIds),
      (js "createdAt", .string snippet.createdAt), (js "updatedAt", .string snippet.updatedAt)] ++
    optionalEntry "lastRunAt" snippet.lastRunAt

instance : VaultRecord KnownHostRecord where
  id knownHost := knownHost.id
  updatedAt knownHost := knownHost.updatedAt
  toJson knownHost := .object
    [(js "id", .string knownHost.id), (js "hostname", .string knownHost.hostname),
      (js "port", .number knownHost.port), (js "algorithm", .string knownHost.algorithm),
      (js "publicKey", .string knownHost.publicKey),
      (js "fingerprint", .string knownHost.fingerprint),
      (js "trustedAt", .string knownHost.trustedAt), (js "updatedAt", .string knownHost.updatedAt)]

instance : VaultRecord IdentityRecord where
  id identity := identity.id
  updatedAt identity := identity.updatedAt
  toJson identity := .object <|
    [(js "id", .string identity.id), (js "label", .string identity.label),
      (js "username", .string identity.username),
      (js "authMethod", .string (js identity.authMethod.text)),
      (js "privateKeyPath", .string identity.privateKeyPath),
      (js "hasPassphrase", .bool identity.hasPassphrase), (js "comment", .string identity.comment),
      (js "source", .string (js identity.source.text)),
      (js "createdAt", .string identity.createdAt), (js "updatedAt", .string identity.updatedAt)] ++
    optionalEntry "keyId" identity.keyId

end Inventory
