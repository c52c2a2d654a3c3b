import TerminalWorkspace.HostKeys.NativeStore
import TerminalWorkspace.SecretsStore.Store
import TerminalWorkspace.VaultStores.InOrder

/-! What the deletion of a key takes out of the keychain. The entries of keys are shared by
fingerprint, so that of a deleted record may still be the one of other records. -/
namespace SecretsStore
open AsyncCalls Inventory JsText LocalConfig Runs VaultStores
open NativeHostKeys (isWhitespace)

section Native

/-- `char::is_whitespace`. -/
def isNativeSpace : CodePoint → Bool
  | .scalar c => isWhitespace c
  | .surrogate _ => false

/-- `split_once(':')`. -/
def splitOnceColon (text : JsString) : Option (JsString × JsString) :=
  match text.dropWhile (· ≠ .scalar ':') with
  | [] => none
  | _ :: payload => some (text.takeWhile (· ≠ .scalar ':'), payload)

/-- A fingerprint without an algorithm or without a value is refused. -/
def validateKeyFingerprint (fingerprint : JsString) : Bool :=
  match splitOnceColon (RecordFile.trim isNativeSpace fingerprint) with
  | none => false
  | some (algo, payload) => algo ≠ [] && RecordFile.trim isNativeSpace payload ≠ []

/-- Whether the native command goes on to the keychain. -/
def KeychainCall.accepted : KeychainCall → Bool
  | .loadKeyPassphrase fingerprint | .storeKeyPassphrase fingerprint _
  | .clearKeyPassphrase fingerprint => validateKeyFingerprint fingerprint
  | _ => true

/-- The keychain when the call that a program awaits has come back. -/
def afterCall (rest : KeychainProgram Unit) (k : Keychain) : Keychain :=
  (rest.advance KeychainCall.execute (!rest.pending.all KeychainCall.accepted) k).1

end Native

def directory (s : VaultStores.Stores) : Directory where
  hosts := s.collections.hosts
  identities := s.collections.identities
  keys := s.collections.keys

/-- `deleteKey`, with what it asks of the secrets. -/
def deleteKey (p : Platform) (s : VaultStores.Stores) (secrets : SecretsState) (keyId : JsString)
    (reading : Reading) : VaultStores.Stores × SecretsState :=
  (s.deleteKey p keyId reading,
    match s.collections.keys.find? fun entry => entry.id = keyId with
    | some key => secrets.clearKeyPassphraseByFingerprint key.fingerprint
    | none => secrets)

/-- The fingerprint of a record, as it is or as it is looked up. -/
def HasFingerprint (key : KeyRecord) (fingerprint : JsString) : Prop :=
  key.fingerprint = fingerprint ∨ trimmed key.fingerprint = fingerprint

/-- What a call changes in the keychain is the passphrase of a key that no host resolves to and
no record has. -/
structure TakesUnused (s : VaultStores.Stores) (k k' : Keychain) : Prop where
  passwords : k'.passwords = k.passwords
  passphrases : k'.passphrases = k.passphrases
  identityPassphrases : k'.identityPassphrases = k.identityPassphrases
  unresolved : ∀ fingerprint,
    k'.keyPassphrases.get? fingerprint ≠ k.keyPassphrases.get? fingerprint →
      ∀ hostId, resolveHostKeyFingerprint (directory s) hostId ≠ some fingerprint
  unrecorded : ∀ fingerprint,
    k'.keyPassphrases.get? fingerprint ≠ k.keyPassphrases.get? fingerprint →
      ∀ key ∈ s.collections.keys, ¬HasFingerprint key fingerprint

/-- The deletion asks only for calls that take what is unused when it is done. -/
def ForgetsOwn (p : Platform) (s : VaultStores.Stores) (keyId : JsString) (reading : Reading) : Prop :=
  ∀ secrets : SecretsState, ∃ added : List (KeychainProgram Unit),
    (deleteKey p s secrets keyId reading).2 =
      { secrets with cleanups := secrets.cleanups ++ added } ∧
    ∀ rest ∈ added, ∀ k, TakesUnused (deleteKey p s secrets keyId reading).1 k (afterCall rest k)

/-- No other record has the fingerprint of the deleted one, if that is one which is cleared. -/
def Unshared (s : VaultStores.Stores) (keyId : JsString) : Prop :=
  ∀ key ∈ s.collections.keys.find? fun entry => entry.id = keyId,
    isFingerprint key.fingerprint = true → validateKeyFingerprint key.fingerprint = true →
      ∀ other ∈ s.collections.keys, other.id ≠ keyId → ¬HasFingerprint other key.fingerprint

section Deletion
variable {p : Platform} {s : VaultStores.Stores} {keyId : JsString} {reading : Reading}

theorem keys_deleteKey (key : KeyRecord) :
    key ∈ (s.deleteKey p keyId reading).collections.keys ↔
      key ∈ s.collections.keys ∧ key.id ≠ keyId := by
  have hkeys : (s.deleteKey p keyId reading).collections.keys =
      sortKeys p (s.collections.keys.filter fun entry => entry.id ≠ keyId) := by
    unfold VaultStores.Stores.deleteKey
    split_ifs <;> rfl
  rw [hkeys, sortKeys, (sortBy_perm _ _).mem_iff, List.mem_filter, decide_eq_true_eq]

/-- A host resolves to the fingerprint of a record. -/
theorem exists_key_of_resolved {d : Directory} {hostId fingerprint : JsString}
    (h : resolveHostKeyFingerprint d hostId = some fingerprint) :
    ∃ key ∈ d.keys, HasFingerprint key fingerprint := by
  obtain ⟨host, -, hkey⟩ := Option.bind_eq_some_iff.mp h
  obtain ⟨key, hselected, hfingerprint⟩ := Option.bind_eq_some_iff.mp hkey
  obtain ⟨path, -, hfound⟩ := Option.bind_eq_some_iff.mp hselected
  split_ifs at hfingerprint
  exact ⟨key, List.mem_of_find?_eq_some hfound, .inr (Option.some.inj hfingerprint)⟩

theorem afterCall_clear (fingerprint : JsString) (k : Keychain) :
    afterCall (clearNativeKeyPassphrase fingerprint) k =
      if validateKeyFingerprint fingerprint then
        { k with keyPassphrases := k.keyPassphrases.erase fingerprint }
      else k := by
  have hcall : afterCall (clearNativeKeyPassphrase fingerprint) k =
      (if !validateKeyFingerprint fingerprint then k
        else { k with keyPassphrases := k.keyPassphrases.erase fingerprint }) := by
    cases h : validateKeyFingerprint fingerprint <;>
      simp [afterCall, clearNativeKeyPassphrase, Program.await, Program.pending, Program.advance,
        KeychainCall.accepted, KeychainCall.execute, h]
  rw [hcall]
  cases validateKeyFingerprint fingerprint <;> rfl

/-- The keychain loses at most the entry of the fingerprint. -/
theorem takesUnused_clear {fingerprint : JsString}
    (h : validateKeyFingerprint fingerprint = true →
      ∀ key ∈ s.collections.keys, ¬HasFingerprint key fingerprint) (k : Keychain) :
    TakesUnused s k (afterCall (clearNativeKeyPassphrase fingerprint) k) := by
  have hlost : ∀ lost,
      (afterCall (clearNativeKeyPassphrase fingerprint) k).keyPassphrases.get? lost ≠
        k.keyPassphrases.get? lost → validateKeyFingerprint fingerprint = true ∧ lost = fingerprint := by
    intro lost hne
    rw [afterCall_clear] at hne
    split_ifs at hne with hvalid
    · refine ⟨hvalid, ?_⟩
      by_contra hother
      rw [OrderedMap.get?_erase, if_neg hother] at hne
      exact hne rfl
    · exact absurd rfl hne
  have hrecords : ∀ lost,
      (afterCall (clearNativeKeyPassphrase fingerprint) k).keyPassphrases.get? lost ≠
        k.keyPassphrases.get? lost → ∀ key ∈ s.collections.keys, ¬HasFingerprint key lost := by
    intro lost hne
    obtain ⟨hvalid, rfl⟩ := hlost lost hne
    exact h hvalid
  rw [afterCall_clear] at hrecords ⊢
  refine ⟨?_, ?_, ?_, fun lost hne hostId hresolved => ?_, hrecords⟩
  · split_ifs <;> rfl
  · split_ifs <;> rfl
  · split_ifs <;> rfl
  · obtain ⟨key, hkey, hhas⟩ := exists_key_of_resolved hresolved
    exact hrecords lost hne key hkey hhas

theorem forgetsOwn_of_unshared (h : Unshared s keyId) : ForgetsOwn p s keyId reading := by
  intro secrets
  have hnothing : ∀ secrets : SecretsState,
      secrets = { secrets with cleanups := secrets.cleanups ++ [] } := fun secrets => by
    rw [List.append_nil]
  simp only [deleteKey]
  cases hfind : s.collections.keys.find? fun entry => entry.id = keyId with
  | none => exact ⟨[], hnothing secrets, fun _ hrest => absurd hrest List.not_mem_nil⟩
  | some key =>
    simp only [SecretsState.clearKeyPassphraseByFingerprint]
    split_ifs with hfingerprint
    · refine ⟨[clearNativeKeyPassphrase key.fingerprint], rfl, fun rest hrest k => ?_⟩
      obtain rfl := List.mem_singleton.mp hrest
      refine takesUnused_clear (fun hvalid other hother => ?_) k
      obtain ⟨hother, hne⟩ := (keys_deleteKey other).mp hother
      exact h key hfind hfingerprint hvalid other hother hne
    · exact ⟨[], hnothing secrets, fun _ hrest => absurd hrest List.not_mem_nil⟩

theorem unshared_of_forgetsOwn (h : ForgetsOwn p s keyId reading) : Unshared s keyId := by
  intro key hkey hfingerprint hvalid other hother hne hhas
  let k : Keychain := ⟨.empty, .empty, OrderedMap.empty.set key.fingerprint [], .empty⟩
  obtain ⟨added, hadded, hunused⟩ := h (started k)
  have hkey : s.collections.keys.find? (fun entry => entry.id = keyId) = some key := hkey
  simp only [deleteKey, hkey, SecretsState.clearKeyPassphraseByFingerprint, if_pos hfingerprint] at hadded
  have hcleanups := congrArg SecretsState.cleanups hadded
  have hclear : clearNativeKeyPassphrase key.fingerprint ∈ added := by
    simp only [SecretsState.cleanUp, started, List.nil_append] at hcleanups
    rw [← hcleanups]
    exact List.mem_singleton_self _
  refine (hunused _ hclear k).unrecorded key.fingerprint ?_ other
    ((keys_deleteKey other).mpr ⟨hother, hne⟩) hhas
  rw [afterCall_clear, if_pos hvalid]
  simp [k, OrderedMap.get?_erase]

/-- What the deletion takes is unused just when no other record shares it. -/
theorem forgetsOwn_iff : ForgetsOwn p s keyId reading ↔ Unshared s keyId :=
  ⟨unshared_of_forgetsOwn, forgetsOwn_of_unshared⟩

end Deletion

section Runs

/-- A step that deletes a key forgets only what is the key's own. -/
def StepForgetsOwn (p : Platform) (s : VaultStores.Stores) : VaultStep → Prop
  | .act reading (.deleteKey keyId) => ForgetsOwn p s keyId reading
  | _ => True

def StepUnshared (s : VaultStores.Stores) : VaultStep → Prop
  | .act _ (.deleteKey keyId) => Unshared s keyId
  | _ => True

/-- In a run of the stores, with its imports and merges, every deletion of a key takes only what is
unused, just when no deleted record shares its fingerprint with another one. -/
theorem deletions_forgetOwn_iff (p : Platform) (start : VaultStores.Stores) (steps : List VaultStep) :
    Allowed (vaultStep p) (StepForgetsOwn p) start steps ↔
      Allowed (vaultStep p) StepUnshared start steps := by
  have hstep : ∀ (s : VaultStores.Stores) (st : VaultStep), True →
      (StepForgetsOwn p s st ↔ StepUnshared s st) := by
    rintro s (⟨reading, a⟩ | _) -
    · cases a with
      | deleteKey keyId => exact forgetsOwn_iff
      | _ => exact Iff.rfl
    · exact Iff.rfl
  exact allowed_congr hstep (fun _ _ _ _ => trivial) trivial

/-- The texts stay in the order they have. -/
def keepsOrder : Platform := ⟨fun _ _ => .eq, fun _ => none⟩

/-- The first key of a new installation, imported from another path and assigned to its host. -/
def copiedKey : List VaultStep :=
  [.act ⟨js "2026-04-01T00:00:00.000Z", 0⟩ (.importKey (js "copy")
      ⟨.ed25519, 256, js "SHA256:prodGatewayDemoKey", js "ops@macbook-pro", js "~/.ssh/id_copy", .absent⟩
      true (js "key-copy")),
    .act ⟨js "2026-04-01T00:00:01.000Z", 1⟩
      (.assignKey (js "prod-gateway") ⟨js "copy", js "~/.ssh/id_copy"⟩)]

/-- The entry that the host resolves to goes with the record of the other path. -/
theorem copied_key_forgotten :
    ¬ (∀ (p : Platform) (vaultId deviceId : JsString) (steps : List VaultStep),
      Allowed (vaultStep p) (StepForgetsOwn p) (sampleStores p vaultId deviceId) steps) ∧
    resolveHostKeyFingerprint (directory (run (vaultStep keepsOrder)
      (sampleStores keepsOrder (js "v") (js "d")) (copiedKey ++
        [.act ⟨js "2026-04-01T00:00:02.000Z", 2⟩ (.deleteKey (js "key-prod-ed25519"))])))
      (js "prod-gateway") = some (js "SHA256:prodGatewayDemoKey") := by
  refine ⟨fun h => ?_, by decide +kernel⟩
  have hrun := h keepsOrder (js "v") (js "d") (copiedKey ++
    [.act ⟨js "2026-04-01T00:00:02.000Z", 2⟩ (.deleteKey (js "key-prod-ed25519"))])
  have hunshared : Unshared (run (vaultStep keepsOrder)
      (sampleStores keepsOrder (js "v") (js "d")) copiedKey) (js "key-prod-ed25519") :=
    unshared_of_forgetsOwn (allowed_iff.mp hrun copiedKey _ (List.prefix_refl _))
  generalize hs : run (vaultStep keepsOrder) (sampleStores keepsOrder (js "v") (js "d")) copiedKey =
    s at hunshared
  have hfirst : (s.collections.keys.find? fun entry => entry.id = js "key-prod-ed25519").map
      KeyRecord.fingerprint = some (js "SHA256:prodGatewayDemoKey") := by
    rw [← hs]
    decide +kernel
  have hcopy : (s.collections.keys.any fun entry => entry.id ≠ js "key-prod-ed25519" ∧
      entry.fingerprint = js "SHA256:prodGatewayDemoKey") = true := by
    rw [← hs]
    decide +kernel
  obtain ⟨key, hkey, hfingerprint⟩ := Option.map_eq_some_iff.mp hfirst
  obtain ⟨copy, hcopy, hshared⟩ := List.any_eq_true.mp hcopy
  obtain ⟨hne, hsame⟩ := of_decide_eq_true hshared
  exact hunshared key hkey (by rw [hfingerprint]; decide +kernel)
    (by rw [hfingerprint]; decide +kernel) copy hcopy hne (.inl (hsame.trans hfingerprint.symm))

end Runs

end SecretsStore
