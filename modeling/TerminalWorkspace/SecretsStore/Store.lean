import TerminalWorkspace.Connections.Builder
import TerminalWorkspace.Foundation.AsyncCalls
import TerminalWorkspace.Foundation.RecordFile

/-! The store of the hosts' secrets in the native runtime. It keeps a record for each host in
memory, reads missing ones from three services of the keychain, and writes what the user sets or
clears to the keychain in the background. -/
namespace SecretsStore
open AsyncCalls Connections Inventory JsText

structure ConnectionSecretValues where
  password : JsString
  passphrase : JsString
  deriving DecidableEq

structure ConnectionSecretRecord extends ConnectionSecretValues where
  updatedAt : JsString
  deriving DecidableEq

def noSecrets : ConnectionSecretValues := ⟨[], []⟩

def hasConnectionSecrets (values : ConnectionSecretValues) : Bool :=
  values.password ≠ [] || values.passphrase ≠ []

/-- The items of the keychain by service and account. The entry of a host is two items. -/
structure Keychain where
  passwords : OrderedMap JsString JsString
  passphrases : OrderedMap JsString JsString
  keyPassphrases : OrderedMap JsString JsString
  identityPassphrases : OrderedMap JsString JsString
  deriving DecidableEq

/-- Storing an empty secret deletes the item. -/
def storeKeychainSecret (items : OrderedMap JsString JsString) (account value : JsString) :
    OrderedMap JsString JsString :=
  if value = [] then items.erase account else items.set account value

/-- An item that is missing reads as an empty secret. -/
def loadKeychainSecret (items : OrderedMap JsString JsString) (account : JsString) : JsString :=
  (items.get? account).getD []

inductive KeychainCall where
  | loadHostSecrets (hostId : JsString)
  | storeHostSecrets (hostId : JsString) (secrets : ConnectionSecretValues)
  | clearHostSecrets (hostId : JsString)
  | loadKeyPassphrase (fingerprint : JsString)
  | storeKeyPassphrase (fingerprint passphrase : JsString)
  | clearKeyPassphrase (fingerprint : JsString)
  | loadIdentityPassphrase (identityId : JsString)
  | storeIdentityPassphrase (identityId passphrase : JsString)
  | clearIdentityPassphrase (identityId : JsString)
  deriving DecidableEq

namespace KeychainCall

def Reply : KeychainCall → Type
  | loadHostSecrets _ => ConnectionSecretValues
  | loadKeyPassphrase _ | loadIdentityPassphrase _ => JsString
  | _ => Unit

def execute (k : Keychain) : (c : KeychainCall) → Keychain × c.Reply
  | loadHostSecrets hostId =>
    (k, (⟨loadKeychainSecret k.passwords hostId, loadKeychainSecret k.passphrases hostId⟩ :
      ConnectionSecretValues))
  | storeHostSecrets hostId secrets =>
    ({ k with
        passwords := storeKeychainSecret k.passwords hostId secrets.password
        passphrases := storeKeychainSecret k.passphrases hostId secrets.passphrase }, ())
  | clearHostSecrets hostId =>
    ({ k with
        passwords := k.passwords.erase hostId
        passphrases := k.passphrases.erase hostId }, ())
  | loadKeyPassphrase fingerprint => (k, loadKeychainSecret k.keyPassphrases fingerprint)
  | storeKeyPassphrase fingerprint passphrase =>
    ({ k with
        keyPassphrases := storeKeychainSecret k.keyPassphrases fingerprint passphrase }, ())
  | clearKeyPassphrase fingerprint =>
    ({ k with keyPassphrases := k.keyPassphrases.erase fingerprint }, ())
  | loadIdentityPassphrase identityId => (k, loadKeychainSecret k.identityPassphrases identityId)
  | storeIdentityPassphrase identityId passphrase =>
    ({ k with identityPassphrases :=
        storeKeychainSecret k.identityPassphrases identityId passphrase }, ())
  | clearIdentityPassphrase identityId =>
    ({ k with identityPassphrases := k.identityPassphrases.erase identityId }, ())

end KeychainCall

abbrev KeychainProgram := Program KeychainCall KeychainCall.Reply

section Calls
variable (hostId fingerprint identityId passphrase : JsString)

def loadNativeHostSecrets : KeychainProgram ConnectionSecretValues :=
  .await (KeychainCall.loadHostSecrets hostId)

def storeNativeHostSecrets (secrets : ConnectionSecretValues) : KeychainProgram Unit :=
  .await (KeychainCall.storeHostSecrets hostId secrets)

def clearNativeHostSecrets : KeychainProgram Unit := .await (KeychainCall.clearHostSecrets hostId)

def loadNativeKeyPassphrase : KeychainProgram JsString :=
  .await (KeychainCall.loadKeyPassphrase fingerprint)

def storeNativeKeyPassphrase : KeychainProgram Unit :=
  .await (KeychainCall.storeKeyPassphrase fingerprint passphrase)

def clearNativeKeyPassphrase : KeychainProgram Unit :=
  .await (KeychainCall.clearKeyPassphrase fingerprint)

def loadNativeIdentityPassphrase : KeychainProgram JsString :=
  .await (KeychainCall.loadIdentityPassphrase identityId)

def storeNativeIdentityPassphrase : KeychainProgram Unit :=
  .await (KeychainCall.storeIdentityPassphrase identityId passphrase)

def clearNativeIdentityPassphrase : KeychainProgram Unit :=
  .await (KeychainCall.clearIdentityPassphrase identityId)

end Calls

section Routing

/-- What the hosts, identities and keys stores hold. -/
structure Directory where
  hosts : List HostRecord
  identities : List IdentityRecord
  keys : List KeyRecord

def findHost (d : Directory) (hostId : JsString) : Option HostRecord :=
  d.hosts.find? fun entry => entry.id = hostId

def resolveHostIdentity (d : Directory) (hostId : JsString) : Option IdentityRecord :=
  (findHost d hostId).bind fun host =>
    resolveIdentityForHost host.toBackendConnectionHost d.identities

def trimmed (text : JsString) : JsString := RecordFile.trim isSpace text

def selectKeyForHost (privateKeyPath : JsString) (keys : List KeyRecord) : Option KeyRecord :=
  (truthy (trimmed privateKeyPath)).bind fun path =>
    keys.find? fun entry => trimmed entry.privateKeyPath = path

def isFingerprint (text : JsString) : Bool := CodePoint.scalar ':' ∈ text

def resolveHostKeyFingerprint (d : Directory) (hostId : JsString) : Option JsString :=
  (findHost d hostId).bind fun host =>
    (selectKeyForHost host.privateKeyPath d.keys).bind fun key =>
      if isFingerprint (trimmed key.fingerprint) then some (trimmed key.fingerprint) else none

/-- Where the passphrase of a host goes; each is set only if it is not the empty string. -/
structure Route where
  identityId : Option JsString
  fingerprint : Option JsString
  deriving DecidableEq

def resolveRoute (d : Directory) (hostId : JsString) : Route where
  identityId := (resolveHostIdentity d hostId).bind fun identity => truthy identity.id
  fingerprint := resolveHostKeyFingerprint d hostId

end Routing

section Loading
variable (hostId : JsString) (perHost : ConnectionSecretValues)

/-- A passphrase is moved to a more specific service, and then out of the entry of the host. -/
def migratePerHost (store : KeychainProgram Unit) : KeychainProgram Unit :=
  Program.attempt do
    store
    storeNativeHostSecrets hostId ⟨perHost.password, []⟩

/-- Stage 3: the passphrase in the entry of the host. -/
def loadPerHostStage (route : Route) : KeychainProgram ConnectionSecretValues :=
  if perHost.passphrase = [] then pure perHost
  else
    match route.identityId, route.fingerprint with
    | some identityId, _ => do
      migratePerHost hostId perHost (storeNativeIdentityPassphrase identityId perHost.passphrase)
      pure perHost
    | none, some fingerprint => do
      migratePerHost hostId perHost (storeNativeKeyPassphrase fingerprint perHost.passphrase)
      pure perHost
    | none, none => pure perHost

/-- Copies the passphrase of a key to the identity; that of the key stays for other hosts. -/
def migrateKeyed (keyedPassphrase : JsString) : Option JsString → KeychainProgram Unit
  | some identityId => (storeNativeIdentityPassphrase identityId keyedPassphrase).attempt
  | none => pure ()

/-- Stage 2: the passphrase of the key. -/
def loadKeyStage (route : Route) : KeychainProgram ConnectionSecretValues :=
  match route.fingerprint with
  | none => loadPerHostStage hostId perHost route
  | some fingerprint => do
    let keyedPassphrase ← loadNativeKeyPassphrase fingerprint
    if keyedPassphrase = [] then loadPerHostStage hostId perHost route
    else do
      migrateKeyed keyedPassphrase route.identityId
      pure ⟨perHost.password, keyedPassphrase⟩

/-- Stage 1: the passphrase of the identity. -/
def loadIdentityStage (route : Route) : KeychainProgram ConnectionSecretValues :=
  match route.identityId with
  | none => loadKeyStage hostId perHost route
  | some identityId => do
    let identityPassphrase ← loadNativeIdentityPassphrase identityId
    if identityPassphrase = [] then loadKeyStage hostId perHost route
    else pure ⟨perHost.password, identityPassphrase⟩

def loadSecretsWithMultiStageMigration (route : Route) :
    KeychainProgram ConnectionSecretValues := do
  let perHost ← loadNativeHostSecrets hostId
  loadIdentityStage hostId perHost route

end Loading

/-- The passphrase that stays in the entry of a host. -/
def perHostPassphrase (route : Route) (values : ConnectionSecretValues) : JsString :=
  if route.identityId.isSome || route.fingerprint.isSome then [] else values.passphrase

/-- What is written besides the entry of a host. -/
def persistPassphrase (route : Route) (passphrase : JsString) : KeychainProgram Unit :=
  if passphrase = [] then pure ()
  else
    match route.identityId, route.fingerprint with
    | some identityId, _ => storeNativeIdentityPassphrase identityId passphrase
    | none, some fingerprint => storeNativeKeyPassphrase fingerprint passphrase
    | none, none => pure ()

def persistSecretsWithIdentityRouting (hostId : JsString) (route : Route)
    (values : ConnectionSecretValues) : KeychainProgram Unit := do
  storeNativeHostSecrets hostId ⟨values.password, perHostPassphrase route values⟩
  persistPassphrase route values.passphrase

/-- What the user asks for: to set the secrets of a host, at a time, or to clear them. -/
inductive SecretsRequest where
  | set (values : ConnectionSecretValues) (route : Route) (now : JsString)
  | clear
  deriving DecidableEq

def SecretsRequest.persist (hostId : JsString) : SecretsRequest → KeychainProgram Unit
  | .set values route _ =>
    if hasConnectionSecrets values then persistSecretsWithIdentityRouting hostId route values
    else clearNativeHostSecrets hostId
  | .clear => clearNativeHostSecrets hostId

/-- The record that a request leaves in memory. -/
def SecretsRequest.record : SecretsRequest → Option ConnectionSecretRecord
  | .set values _ now => if hasConnectionSecrets values then some ⟨values, now⟩ else none
  | .clear => none

/-- The hydration of a host: its calls, and its end once its values are looked at. -/
inductive Hydration where
  | loading (rest : KeychainProgram ConnectionSecretValues)
  | finishing

/-- A set or clear, with what is left of its calls. -/
structure SecretsWrite where
  hostId : JsString
  request : SecretsRequest
  rest : KeychainProgram Unit

/-- The store, the keychain, and what is under way. The writes are listed in the order in which
they were asked for and stay listed when they are over. -/
structure SecretsState where
  secretsByHostId : OrderedMap JsString ConnectionSecretRecord
  hydrationPromises : OrderedMap JsString Hydration
  writes : List SecretsWrite
  cleanups : List (KeychainProgram Unit)
  keychain : Keychain

inductive SecretsAction where
  | hydrateHostSecrets (d : Directory) (hostId : JsString)
  | setHostSecrets (d : Directory) (hostId : JsString) (values : ConnectionSecretValues)
      (now : JsString)
  | clearHostSecrets (hostId : JsString)
  | clearKeyPassphraseByFingerprint (fingerprint : JsString)
  | clearIdentityPassphraseById (identityId : JsString)
  /-- The call that a hydration awaits takes effect, or fails. -/
  | hydrationCall (hostId : JsString) (fails : Bool)
  | hydrationThen (hostId : JsString) (now : JsString)
  | hydrationFinally (hostId : JsString)
  | writeCall (i : ℕ) (fails : Bool)
  | cleanupCall (i : ℕ) (fails : Bool)

namespace SecretsState
variable (s : SecretsState)

/-- A host with a record in memory, or with a hydration under way, is not looked up again. -/
def hydrateHostSecrets (d : Directory) (hostId : JsString) : SecretsState :=
  if (s.secretsByHostId.get? hostId).isSome || (s.hydrationPromises.get? hostId).isSome then s
  else
    let rest := loadSecretsWithMultiStageMigration hostId (resolveRoute d hostId)
    { s with hydrationPromises := s.hydrationPromises.set hostId (.loading rest) }

def withRecord (hostId : JsString) : Option ConnectionSecretRecord →
    OrderedMap JsString ConnectionSecretRecord
  | some record => s.secretsByHostId.set hostId record
  | none => s.secretsByHostId.erase hostId

/-- Memory changes at once, the keychain later. -/
def request (hostId : JsString) (request : SecretsRequest) : SecretsState :=
  { s with
    secretsByHostId := s.withRecord hostId request.record
    writes := s.writes ++ [⟨hostId, request, request.persist hostId⟩] }

def setHostSecrets (d : Directory) (hostId : JsString) (values : ConnectionSecretValues)
    (now : JsString) : SecretsState :=
  s.request hostId (.set values (resolveRoute d hostId) now)

def clearHostSecrets (hostId : JsString) : SecretsState := s.request hostId .clear

def cleanUp (program : KeychainProgram Unit) : SecretsState :=
  { s with cleanups := s.cleanups ++ [program] }

/-- What a key that is removed leaves in the keychain. -/
def clearKeyPassphraseByFingerprint (fingerprint : JsString) : SecretsState :=
  if isFingerprint fingerprint then s.cleanUp (clearNativeKeyPassphrase fingerprint) else s

def clearIdentityPassphraseById (identityId : JsString) : SecretsState :=
  if trimmed identityId = [] then s
  else s.cleanUp (clearNativeIdentityPassphrase identityId)

/-- The values of a hydration are recorded unless the host has a record by now. -/
def recordHydrated (hostId : JsString) (values : ConnectionSecretValues) (now : JsString) :
    SecretsState :=
  if hasConnectionSecrets values && (s.secretsByHostId.get? hostId).isNone then
    { s with secretsByHostId := s.secretsByHostId.set hostId ⟨values, now⟩ }
  else s

def finishing (hostId : JsString) : SecretsState :=
  { s with hydrationPromises := s.hydrationPromises.set hostId .finishing }

/-- The `then` of a hydration, or its `catch` where a call was rejected. -/
def hydrationThen (hostId : JsString) (now : JsString) : SecretsState :=
  match s.hydrationPromises.get? hostId with
  | some (.loading (.ret values)) => (s.recordHydrated hostId values now).finishing hostId
  | some (.loading .throw) => s.finishing hostId
  | _ => s

def hydrationFinally (hostId : JsString) : SecretsState :=
  match s.hydrationPromises.get? hostId with
  | some .finishing => { s with hydrationPromises := s.hydrationPromises.erase hostId }
  | _ => s

def hydrationCall (hostId : JsString) (fails : Bool) : SecretsState :=
  match s.hydrationPromises.get? hostId with
  | some (.loading rest) =>
    let next := rest.advance KeychainCall.execute fails s.keychain
    { s with
      hydrationPromises := s.hydrationPromises.set hostId (.loading next.2)
      keychain := next.1 }
  | _ => s

def writeCall (i : ℕ) (fails : Bool) : SecretsState :=
  match s.writes[i]? with
  | some write =>
    let next := write.rest.advance KeychainCall.execute fails s.keychain
    { s with writes := s.writes.set i { write with rest := next.2 }, keychain := next.1 }
  | none => s

def cleanupCall (i : ℕ) (fails : Bool) : SecretsState :=
  match s.cleanups[i]? with
  | some rest =>
    let next := rest.advance KeychainCall.execute fails s.keychain
    { s with cleanups := s.cleanups.set i next.2, keychain := next.1 }
  | none => s

def step : SecretsAction → SecretsState
  | .hydrateHostSecrets d hostId => s.hydrateHostSecrets d hostId
  | .setHostSecrets d hostId values now => s.setHostSecrets d hostId values now
  | .clearHostSecrets hostId => s.clearHostSecrets hostId
  | .clearKeyPassphraseByFingerprint fingerprint => s.clearKeyPassphraseByFingerprint fingerprint
  | .clearIdentityPassphraseById identityId => s.clearIdentityPassphraseById identityId
  | .hydrationCall hostId fails => s.hydrationCall hostId fails
  | .hydrationThen hostId now => s.hydrationThen hostId now
  | .hydrationFinally hostId => s.hydrationFinally hostId
  | .writeCall i fails => s.writeCall i fails
  | .cleanupCall i fails => s.cleanupCall i fails

end SecretsState

/-- The application has just started. -/
def started (keychain : Keychain) : SecretsState := ⟨.empty, .empty, [], [], keychain⟩

end SecretsStore
