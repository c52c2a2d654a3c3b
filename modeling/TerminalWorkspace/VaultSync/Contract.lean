import TerminalWorkspace.Foundation.JsDecimals
import TerminalWorkspace.LocalConfig.Apply

/-! The exchange contract of a vault: what the parsers accept as an envelope and as a trust
policy, the digest of an envelope, how it is to be imported, and whether it is trusted. -/
namespace VaultSync
open JsText JsNumbers Inventory LocalConfig

section Types

structure VaultSyncCountSummary where
  hosts : Number
  keys : Number
  snippets : Number
  knownHosts : Number

/-- The current schema, and the one it moved from. -/
inductive EnvelopeSchema where
  | terminalWorkspaceSync
  | termsnipVaultSync
  deriving DecidableEq, Repr

def EnvelopeSchema.text : EnvelopeSchema → JsString
  | .terminalWorkspaceSync => js "terminal-workspace-sync"
  | .termsnipVaultSync => js "termsnip-vault-sync"

/-- The version is always 1, and the payload a local configuration bundle. -/
structure VaultSyncEnvelopeHeader where
  schema : EnvelopeSchema
  vaultId : JsString
  sourceDeviceId : JsString
  snapshotId : JsString
  baseSnapshotId : Option JsString
  exportedAt : JsString
  recordCounts : VaultSyncCountSummary
  deletionCounts : VaultSyncCountSummary

def version : Number := Number.ofNat 1

def payloadKind : JsString := js "local-config-bundle"

inductive CipherAlgorithm where
  | aes256Gcm
  deriving DecidableEq, Repr

def CipherAlgorithm.text : CipherAlgorithm → JsString
  | .aes256Gcm => js "AES-256-GCM"

structure VaultSyncCipherPayload where
  algorithm : CipherAlgorithm
  keyId : JsString
  nonce : JsString
  ciphertext : JsString
  authTag : JsString

structure VaultSyncEnvelope where
  header : VaultSyncEnvelopeHeader
  cipher : VaultSyncCipherPayload
  digest : JsString

structure VaultSyncLocalContext where
  vaultId : JsString
  lastAppliedSnapshotId : Option JsString

structure VaultSyncEnvelopeAnalysis where
  strategy : ImportStrategy
  digestMatches : Bool
  header : VaultSyncEnvelopeHeader

structure VaultSyncTrustedKey where
  keyId : JsString
  algorithm : CipherAlgorithm
  validFrom : JsString
  rotateAfter : Option JsString
  retireAfter : Option JsString
  allowedVaultIds : Option (List JsString)
  replacementKeyIds : List JsString

structure VaultSyncTrustPolicy where
  allowUnknownKeys : Bool
  trustedKeys : List VaultSyncTrustedKey

inductive TrustStatus where
  | active
  | rotating
  | retired
  | notYetValid
  | unknown
  | vaultMismatch
  | algorithmMismatch
  deriving DecidableEq, Repr

structure VaultSyncTrustAnalysis where
  accepted : Bool
  status : TrustStatus
  matchedKeyId : Option JsString
  replacementKeyIds : List JsString
  reason : Option JsString

end Types

section Parsers

/-- A value of which nothing is known yet. -/
inductive Value where
  | undefined
  | null
  | bool (b : Bool)
  | number (n : Number)
  | string (s : JsString)
  | array (items : List Value)
  | object (entries : List (JsString × Value))

/-- `value[name]`; an array has none of the names that are asked for. -/
def Value.field (value : Value) (name : String) : Value :=
  match value with
  | .object entries => ((entries.find? fun e => e.1 = js name).map Prod.snd).getD .undefined
  | _ => .undefined

def Value.isRecord : Value → Bool
  | .array _ | .object _ => true
  | _ => false

def Value.number? : Value → Option Number
  | .number n => some n
  | _ => none

def Value.string? : Value → Option JsString
  | .string s => some s
  | _ => none

def Value.bool? : Value → Option Bool
  | .bool b => some b
  | _ => none

/-- A string, or `null` for none. -/
def Value.nullableString? : Value → Option (Option JsString)
  | .string s => some (some s)
  | .null => some none
  | _ => none

def isStringArray : Value → Option (List JsString)
  | .array items => items.mapM Value.string?
  | _ => none

def isVersion (value : Value) : Bool := (value.number?.map Number.text) = some version.text

def isCountSummary (value : Value) : Option VaultSyncCountSummary := do
  if !value.isRecord then none
  let hosts ← (value.field "hosts").number?
  let keys ← (value.field "keys").number?
  let snippets ← (value.field "snippets").number?
  let knownHosts ← (value.field "knownHosts").number?
  return { hosts, keys, snippets, knownHosts }

def isAlgorithm (value : Value) : Option CipherAlgorithm :=
  if value.string? = some CipherAlgorithm.aes256Gcm.text then some .aes256Gcm else none

def isCipherPayload (value : Value) : Option VaultSyncCipherPayload := do
  if !value.isRecord then none
  let algorithm ← isAlgorithm (value.field "algorithm")
  let keyId ← (value.field "keyId").string?
  let nonce ← (value.field "nonce").string?
  let ciphertext ← (value.field "ciphertext").string?
  let authTag ← (value.field "authTag").string?
  return { algorithm, keyId, nonce, ciphertext, authTag }

def isEnvelopeSchema (value : Value) : Option EnvelopeSchema :=
  if value.string? = some EnvelopeSchema.termsnipVaultSync.text then some .termsnipVaultSync
  else if value.string? = some EnvelopeSchema.terminalWorkspaceSync.text then
    some .terminalWorkspaceSync
  else none

def isEnvelopeHeader (value : Value) : Option VaultSyncEnvelopeHeader := do
  if !value.isRecord then none
  let schema ← isEnvelopeSchema (value.field "schema")
  if !isVersion (value.field "version") then none
  if (value.field "payloadKind").string? ≠ some payloadKind then none
  let vaultId ← (value.field "vaultId").string?
  let sourceDeviceId ← (value.field "sourceDeviceId").string?
  let snapshotId ← (value.field "snapshotId").string?
  let baseSnapshotId ← (value.field "baseSnapshotId").nullableString?
  let exportedAt ← (value.field "exportedAt").string?
  let recordCounts ← isCountSummary (value.field "recordCounts")
  let deletionCounts ← isCountSummary (value.field "deletionCounts")
  return { schema, vaultId, sourceDeviceId, snapshotId, baseSnapshotId, exportedAt, recordCounts,
           deletionCounts }

def isAllowedVaultIds : Value → Option (Option (List JsString))
  | .null => some none
  | value => (isStringArray value).map some

def isTrustedKey (value : Value) : Option VaultSyncTrustedKey := do
  if !value.isRecord then none
  let keyId ← (value.field "keyId").string?
  let algorithm ← isAlgorithm (value.field "algorithm")
  let validFrom ← (value.field "validFrom").string?
  let rotateAfter ← (value.field "rotateAfter").nullableString?
  let retireAfter ← (value.field "retireAfter").nullableString?
  let allowedVaultIds ← isAllowedVaultIds (value.field "allowedVaultIds")
  let replacementKeyIds ← isStringArray (value.field "replacementKeyIds")
  return { keyId, algorithm, validFrom, rotateAfter, retireAfter, allowedVaultIds,
           replacementKeyIds }

def envelopeInvalid : JsString := js "Vault sync envelope is invalid."

def digestInvalid : JsString := js "Vault sync envelope digest is invalid."

def policyInvalid : JsString := js "Vault sync trust policy is invalid."

def isDigest (value : Value) : Option JsString :=
  if value.isRecord && (value.field "algorithm").string? = some (js "SHA-256") then
    (value.field "value").string?
  else none

def parseVaultSyncEnvelope (value : Value) : Except JsString VaultSyncEnvelope :=
  if !value.isRecord then .error envelopeInvalid
  else
    match isEnvelopeHeader (value.field "header"), isCipherPayload (value.field "cipher") with
    | some header, some cipher =>
      match isDigest (value.field "digest") with
      | some digest => .ok { header, cipher, digest }
      | none => .error digestInvalid
    | _, _ => .error envelopeInvalid

def isPolicySchema (value : Value) : Bool :=
  value.string? = some (js "termsnip-vault-sync-trust") ||
    value.string? = some (js "terminal-workspace-sync-trust")

def isTrustedKeys : Value → Option (List VaultSyncTrustedKey)
  | .array items => items.mapM isTrustedKey
  | _ => none

def parseVaultSyncTrustPolicy (value : Value) : Except JsString VaultSyncTrustPolicy :=
  if !value.isRecord || !isPolicySchema (value.field "schema") ||
      !isVersion (value.field "version") then
    .error policyInvalid
  else
    match (value.field "allowUnknownKeys").bool?, isTrustedKeys (value.field "trustedKeys") with
    | some allowUnknownKeys, some trustedKeys => .ok { allowUnknownKeys, trustedKeys }
    | _, _ => .error policyInvalid

end Parsers

section Accepted

/-- An envelope as the value that it is parsed from. -/
def countsValue (counts : VaultSyncCountSummary) : Value :=
  .object [(js "hosts", .number counts.hosts), (js "keys", .number counts.keys),
    (js "snippets", .number counts.snippets), (js "knownHosts", .number counts.knownHosts)]

def nullableValue : Option JsString → Value
  | none => .null
  | some s => .string s

def headerValue (header : VaultSyncEnvelopeHeader) : Value :=
  .object [(js "schema", .string header.schema.text), (js "version", .number version),
    (js "payloadKind", .string payloadKind), (js "vaultId", .string header.vaultId),
    (js "sourceDeviceId", .string header.sourceDeviceId),
    (js "snapshotId", .string header.snapshotId),
    (js "baseSnapshotId", nullableValue header.baseSnapshotId),
    (js "exportedAt", .string header.exportedAt),
    (js "recordCounts", countsValue header.recordCounts),
    (js "deletionCounts", countsValue header.deletionCounts)]

def cipherValue (cipher : VaultSyncCipherPayload) : Value :=
  .object [(js "algorithm", .string cipher.algorithm.text), (js "keyId", .string cipher.keyId),
    (js "nonce", .string cipher.nonce), (js "ciphertext", .string cipher.ciphertext),
    (js "authTag", .string cipher.authTag)]

def envelopeValue (envelope : VaultSyncEnvelope) : Value :=
  .object [(js "header", headerValue envelope.header), (js "cipher", cipherValue envelope.cipher),
    (js "digest", .object [(js "algorithm", .string (js "SHA-256")),
      (js "value", .string envelope.digest)])]

theorem isCountSummary_value (counts : VaultSyncCountSummary) :
    isCountSummary (countsValue counts) = some counts := rfl

theorem isEnvelopeHeader_value (header : VaultSyncEnvelopeHeader) :
    isEnvelopeHeader (headerValue header) = some header := by
  obtain ⟨schema, vaultId, sourceDeviceId, snapshotId, baseSnapshotId, exportedAt, records,
    deletions⟩ := header
  cases schema <;> cases baseSnapshotId <;> rfl

theorem isCipherPayload_value (cipher : VaultSyncCipherPayload) :
    isCipherPayload (cipherValue cipher) = some cipher := by
  obtain ⟨algorithm, keyId, nonce, ciphertext, authTag⟩ := cipher
  cases algorithm
  rfl

/-- Every envelope is accepted as a value. -/
theorem parse_envelopeValue (envelope : VaultSyncEnvelope) :
    parseVaultSyncEnvelope (envelopeValue envelope) = .ok envelope := by
  have hheader : (envelopeValue envelope).field "header" = headerValue envelope.header := rfl
  have hcipher : (envelopeValue envelope).field "cipher" = cipherValue envelope.cipher := rfl
  have hdigest : isDigest ((envelopeValue envelope).field "digest") = some envelope.digest := rfl
  have hrecord : (envelopeValue envelope).isRecord = true := rfl
  simp only [parseVaultSyncEnvelope, hrecord, hheader, hcipher, hdigest, isEnvelopeHeader_value,
    isCipherPayload_value, Bool.not_true, Bool.false_eq_true, if_false]

def keyValue (key : VaultSyncTrustedKey) : Value :=
  .object [(js "keyId", .string key.keyId), (js "algorithm", .string key.algorithm.text),
    (js "validFrom", .string key.validFrom), (js "rotateAfter", nullableValue key.rotateAfter),
    (js "retireAfter", nullableValue key.retireAfter),
    (js "allowedVaultIds",
      key.allowedVaultIds.elim .null fun ids => .array (ids.map .string)),
    (js "replacementKeyIds", .array (key.replacementKeyIds.map .string))]

def policyValue (policy : VaultSyncTrustPolicy) : Value :=
  .object [(js "schema", .string (js "terminal-workspace-sync-trust")),
    (js "version", .number version),
    (js "allowUnknownKeys", .bool policy.allowUnknownKeys),
    (js "trustedKeys", .array (policy.trustedKeys.map keyValue))]

theorem mapM_map_eq {α β : Type} {f : β → Option α} {g : α → β} (h : ∀ a, f (g a) = some a)
    (items : List α) : (items.map g).mapM f = some items := by
  induction items with
  | nil => rfl
  | cons item items ih =>
    rw [List.map_cons, List.mapM_cons, h, ih]
    rfl

theorem isTrustedKey_value (key : VaultSyncTrustedKey) :
    isTrustedKey (keyValue key) = some key := by
  have hstrings : ∀ items : List JsString,
      isStringArray (.array (items.map .string)) = some items := mapM_map_eq fun _ => rfl
  have hnullable : ∀ s : Option JsString, (nullableValue s).nullableString? = some s := by
    rintro (_ | s) <;> rfl
  have halgorithm : isAlgorithm ((keyValue key).field "algorithm") = some key.algorithm := by
    obtain ⟨_, algorithm, _, _, _, _, _⟩ := key
    cases algorithm
    rfl
  have hrotate : ((keyValue key).field "rotateAfter").nullableString? = some key.rotateAfter :=
    hnullable _
  have hretire : ((keyValue key).field "retireAfter").nullableString? = some key.retireAfter :=
    hnullable _
  have hallowed : isAllowedVaultIds ((keyValue key).field "allowedVaultIds") =
      some key.allowedVaultIds := by
    obtain ⟨_, _, _, _, _, allowedVaultIds, _⟩ := key
    cases allowedVaultIds with
    | none => rfl
    | some ids => exact congrArg (Option.map some) (hstrings ids)
  have hreplacements : isStringArray ((keyValue key).field "replacementKeyIds") =
      some key.replacementKeyIds := hstrings _
  unfold isTrustedKey
  rw [halgorithm, hrotate, hretire, hallowed, hreplacements]
  rfl

/-- Every policy is accepted as a value. -/
theorem parse_policyValue (policy : VaultSyncTrustPolicy) :
    parseVaultSyncTrustPolicy (policyValue policy) = .ok policy := by
  have hkeys : isTrustedKeys (.array (policy.trustedKeys.map keyValue)) = some policy.trustedKeys :=
    mapM_map_eq isTrustedKey_value _
  have hhead : (!(policyValue policy).isRecord ||
      !isPolicySchema ((policyValue policy).field "schema") ||
        !isVersion ((policyValue policy).field "version")) = false := rfl
  have hunknown : ((policyValue policy).field "allowUnknownKeys").bool? =
      some policy.allowUnknownKeys := rfl
  have hfield : (policyValue policy).field "trustedKeys" =
      .array (policy.trustedKeys.map keyValue) := rfl
  rw [parseVaultSyncTrustPolicy, hhead, hunknown, hfield, hkeys]
  rfl

end Accepted

section Digest

def countsText (counts : VaultSyncCountSummary) : JsString :=
  (js ":").intercalate
    ([counts.hosts, counts.keys, counts.snippets, counts.knownHosts].map fun n => ofText n.text)

def createDigestMaterial (header : VaultSyncEnvelopeHeader) (cipher : VaultSyncCipherPayload) :
    JsString :=
  (js "|").intercalate
    [header.schema.text, ofText version.text, payloadKind, header.vaultId, header.sourceDeviceId,
      header.snapshotId, header.baseSnapshotId.getD [], header.exportedAt,
      countsText header.recordCounts, countsText header.deletionCounts, cipher.algorithm.text,
      cipher.keyId, cipher.nonce, cipher.ciphertext, cipher.authTag]

/-- `byte.toString(16).padStart(2, "0")`. -/
def hexByte (byte : UInt8) : List Char :=
  [Nat.digitChar (byte.toNat / 16), Nat.digitChar (byte.toNat % 16)]

variable (sha256 : List UInt8 → List UInt8)

def sha256Hex (value : JsString) : JsString := ofText ((sha256 (utf8Bytes value)).flatMap hexByte)

def classifyVaultSyncStrategy (header : VaultSyncEnvelopeHeader)
    (localContext : VaultSyncLocalContext) : ImportStrategy :=
  if some header.snapshotId = localContext.lastAppliedSnapshotId then .sameSnapshot
  else if header.vaultId ≠ localContext.vaultId then .adoptVault
  else if (localContext.lastAppliedSnapshotId.bind truthy).isSome ∧
      header.baseSnapshotId = localContext.lastAppliedSnapshotId then
    .fastForward
  else .divergent

def countBundleRecords (bundle : LocalConfigBundle) : VaultSyncCountSummary where
  hosts := .ofNat bundle.hosts.length
  keys := .ofNat bundle.keys.length
  snippets := .ofNat bundle.snippets.length
  knownHosts := .ofNat bundle.knownHosts.length

def countBundleDeletions (deletions : VaultDeletionMap) : VaultSyncCountSummary where
  hosts := .ofNat deletions.hosts.length
  keys := .ofNat deletions.keys.length
  snippets := .ofNat deletions.snippets.length
  knownHosts := .ofNat deletions.knownHosts.length

/-- `none` where the bundle has no vault or no deletions, as a bundle of an old version. -/
def buildVaultSyncEnvelope (bundle : LocalConfigBundle) (cipher : VaultSyncCipherPayload) :
    Option VaultSyncEnvelope := do
  let vault ← bundle.vault
  let deletions ← bundle.deletions
  let header : VaultSyncEnvelopeHeader :=
    { schema := .terminalWorkspaceSync
      vaultId := vault.vaultId
      sourceDeviceId := vault.sourceDeviceId
      snapshotId := vault.snapshotId
      baseSnapshotId := vault.baseSnapshotId
      exportedAt := bundle.exportedAt
      recordCounts := countBundleRecords bundle
      deletionCounts := countBundleDeletions deletions }
  return { header, cipher, digest := sha256Hex sha256 (createDigestMaterial header cipher) }

def inspectVaultSyncEnvelope (value : Value) (localContext : VaultSyncLocalContext) :
    Except JsString VaultSyncEnvelopeAnalysis :=
  (parseVaultSyncEnvelope value).map fun envelope =>
    { strategy := classifyVaultSyncStrategy envelope.header localContext
      digestMatches :=
        sha256Hex sha256 (createDigestMaterial envelope.header envelope.cipher) = envelope.digest
      header := envelope.header }

end Digest

section Trust

/-- `now` is the time of evaluation, when it is given. -/
def evaluateVaultSyncEnvelopeTrust (envelope : VaultSyncEnvelope) (policy : VaultSyncTrustPolicy)
    (now : Option JsString) : VaultSyncTrustAnalysis :=
  let now := now.getD envelope.header.exportedAt
  match policy.trustedKeys.find? fun entry => entry.keyId = envelope.cipher.keyId with
  | none =>
    { accepted := policy.allowUnknownKeys
      status := .unknown
      matchedKeyId := none
      replacementKeyIds := []
      reason :=
        if policy.allowUnknownKeys then
          js "Envelope key is unknown but the policy allows unknown keys."
        else js "Envelope key is not trusted by the local sync policy." }
  | some matchedKey =>
    let analysis (accepted : Bool) (status : TrustStatus) (reason : Option JsString) :
        VaultSyncTrustAnalysis :=
      { accepted, status, matchedKeyId := some matchedKey.keyId
        replacementKeyIds := matchedKey.replacementKeyIds, reason }
    if matchedKey.algorithm ≠ envelope.cipher.algorithm then
      analysis false .algorithmMismatch
        (some (js "Envelope algorithm does not match the trusted key record."))
    else if matchedKey.allowedVaultIds.any (envelope.header.vaultId ∉ ·) then
      analysis false .vaultMismatch
        (some (js "Envelope vault is not allowed for the trusted key record."))
    else if before envelope.header.exportedAt matchedKey.validFrom then
      analysis false .notYetValid
        (some (js "Envelope was exported before the trusted key became valid."))
    else if (matchedKey.retireAfter.bind truthy).any (before · envelope.header.exportedAt) then
      analysis false .retired
        (some (js "Envelope was exported after the trusted key retirement time."))
    else if (matchedKey.rotateAfter.bind truthy).any (!before now ·) then
      analysis true .rotating
        (some (js "Envelope is still valid, but the trusted key should be rotated."))
    else analysis true .active none

end Trust

end VaultSync
