import TerminalWorkspace.Foundation.AsyncCalls
import TerminalWorkspace.SecretsStore.LastAction

/-! What a hydration finds in the keychain and leaves there, if its calls take place one after the
other. The entry of a host is two items, so a call that stores it may fail halfway. -/
namespace SecretsStore
open AsyncCalls AsyncCalls.Program Connections Inventory JsText

section Items

/-- The keychain, and which of the coming writes of an item fails: how many succeed before it, and
whether it changes the item all the same. -/
structure FaultyKeychain where
  keychain : Keychain
  fault : Option (ℕ × Bool)

def writeItem (write : Keychain → Keychain) (k : FaultyKeychain) : FaultyKeychain × Option Unit :=
  match k.fault with
  | none => (⟨write k.keychain, none⟩, some ())
  | some (0, changes) => (⟨if changes then write k.keychain else k.keychain, none⟩, none)
  | some (n + 1, changes) => (⟨write k.keychain, some (n, changes)⟩, some ())

/-- The second item is written only if the first one was. -/
def writeItems (first second : Keychain → Keychain) (k : FaultyKeychain) :
    FaultyKeychain × Option Unit :=
  match writeItem first k with
  | (k', some _) => writeItem second k'
  | (k', none) => (k', none)

namespace Keychain
variable (k : Keychain)

def storePassword (hostId password : JsString) : Keychain :=
  { k with passwords := storeKeychainSecret k.passwords hostId password }

def storePassphrase (hostId passphrase : JsString) : Keychain :=
  { k with passphrases := storeKeychainSecret k.passphrases hostId passphrase }

end Keychain

/-- A call whose reads succeed, and whose writes of items may not. -/
def KeychainCall.executeItems (k : FaultyKeychain) : (c : KeychainCall) → FaultyKeychain × Option c.Reply
  | .storeHostSecrets hostId secrets =>
    writeItems (·.storePassword hostId secrets.password)
      (·.storePassphrase hostId secrets.passphrase) k
  | .clearHostSecrets hostId =>
    writeItems (·.storePassword hostId []) (·.storePassphrase hostId []) k
  | .storeKeyPassphrase fingerprint passphrase =>
    writeItem (fun k => ((storeKeyPassphrase fingerprint passphrase).execute k).1) k
  | .clearKeyPassphrase fingerprint =>
    writeItem (fun k => ((clearKeyPassphrase fingerprint).execute k).1) k
  | .storeIdentityPassphrase identityId passphrase =>
    writeItem (fun k => ((storeIdentityPassphrase identityId passphrase).execute k).1) k
  | .clearIdentityPassphrase identityId =>
    writeItem (fun k => ((clearIdentityPassphrase identityId).execute k).1) k
  | .loadHostSecrets hostId => (k, some ((loadHostSecrets hostId).execute k.keychain).2)
  | .loadKeyPassphrase fingerprint => (k, some ((loadKeyPassphrase fingerprint).execute k.keychain).2)
  | .loadIdentityPassphrase identityId =>
    (k, some ((loadIdentityPassphrase identityId).execute k.keychain).2)

theorem executeItems_faultless (k : Keychain) (c : KeychainCall) :
    c.executeItems ⟨k, none⟩ = (⟨(c.execute k).1, none⟩, some (c.execute k).2) := by
  cases c <;> rfl

variable {write first second : Keychain → Keychain} {k : FaultyKeychain}

/-- A write that fails may have changed the item. -/
theorem writeItem_ends (write : Keychain → Keychain) (k : FaultyKeychain) :
    Ends (fun _ k' => k'.keychain = write k.keychain)
      (fun k' => k'.keychain = k.keychain ∨ k'.keychain = write k.keychain) (writeItem write k) := by
  obtain ⟨keychain, fault⟩ := k
  rcases fault with _ | ⟨_ | n, _ | _⟩
  · exact rfl
  · exact .inl rfl
  · exact .inr rfl
  · exact rfl
  · exact rfl

theorem writeItems_ends (first second : Keychain → Keychain) (k : FaultyKeychain) :
    Ends (fun _ k' => k'.keychain = second (first k.keychain))
      (fun k' => k'.keychain = k.keychain ∨ k'.keychain = first k.keychain ∨
        k'.keychain = second (first k.keychain)) (writeItems first second k) := by
  have hfirst := writeItem_ends first k
  unfold writeItems
  rcases hwrite : writeItem first k with ⟨k', _ | done⟩
  · rw [hwrite] at hfirst
    exact hfirst.imp_right .inl
  · rw [hwrite] at hfirst
    have hchanged : k'.keychain = first k.keychain := hfirst
    have hsecond := writeItem_ends second k'
    rw [hchanged] at hsecond
    exact hsecond.imp (fun _ _ h => h) fun _ h => .inr h

end Items

section Found
variable (k : Keychain) (route : Route) (hostId : JsString)

def orElse (first second : JsString) : JsString := if first = [] then second else first

/-- The passphrase in the services that hosts share. -/
def Keychain.sharedPassphrase : JsString :=
  orElse (route.identityId.elim [] (loadKeychainSecret k.identityPassphrases))
    (route.fingerprint.elim [] (loadKeychainSecret k.keyPassphrases))

/-- What a hydration of the host finds. -/
def Keychain.found : ConnectionSecretValues where
  password := loadKeychainSecret k.passwords hostId
  passphrase := orElse (k.sharedPassphrase route) (loadKeychainSecret k.passphrases hostId)

variable {k route hostId}

theorem orElse_of_ne {first second : JsString} (h : first ≠ []) : orElse first second = first :=
  if_neg h

theorem loadKeychainSecret_store (items : OrderedMap JsString JsString)
    (account value other : JsString) :
    loadKeychainSecret (storeKeychainSecret items account value) other =
      if other = account then value else loadKeychainSecret items other := by
  rw [loadKeychainSecret, get?_storeKeychainSecret]
  split_ifs
  · unfold truthy
    split_ifs with hvalue
    · exact hvalue.symm
    · rfl
  · rfl

end Found

section Kept
variable {k₀ k k₁ : Keychain} {route : Route} {hostId : JsString}

/-- What a hydration of the host finds is what it would have found before. -/
def Kept (k₀ : Keychain) (route : Route) (hostId : JsString) (k : Keychain) : Prop :=
  k.found route hostId = k₀.found route hostId

theorem Kept.storePassword (h : Kept k₀ route hostId k) :
    Kept k₀ route hostId (k.storePassword hostId (k₀.found route hostId).password) := by
  have hpassword : loadKeychainSecret (storeKeychainSecret k.passwords hostId
      (k₀.found route hostId).password) hostId = (k₀.found route hostId).password := by
    rw [loadKeychainSecret_store, if_pos rfl]
  have hpassphrase := congrArg ConnectionSecretValues.passphrase h
  exact congrArg₂ ConnectionSecretValues.mk hpassword hpassphrase

/-- The passphrase in the entry of the host does not matter once there is a shared one. -/
theorem Kept.storePassphrase (h : Kept k₀ route hostId k) (hshared : k.sharedPassphrase route ≠ [])
    (passphrase : JsString) : Kept k₀ route hostId (k.storePassphrase hostId passphrase) := by
  refine Eq.trans ?_ h
  have hboth : ∀ own, orElse (k.sharedPassphrase route) own = k.sharedPassphrase route := fun _ =>
    orElse_of_ne hshared
  change ConnectionSecretValues.mk _ (orElse (k.sharedPassphrase route) _) =
    ConnectionSecretValues.mk _ (orElse (k.sharedPassphrase route) _)
  rw [hboth, hboth]
  rfl

/-- A passphrase is stored in a shared service. -/
abbrev StoresAs (k₀ k₁ : Keychain) (store : KeychainProgram Unit) : Prop :=
  Settles KeychainCall.executeItems (fun k => k.keychain = k₀) store (fun _ k => k.keychain = k₁)
    fun k => k.keychain = k₀ ∨ k.keychain = k₁

theorem storeNativeIdentityPassphrase_storesAs (k₀ : Keychain) (identityId passphrase : JsString) :
    StoresAs k₀ ((KeychainCall.storeIdentityPassphrase identityId passphrase).execute k₀).1
      (storeNativeIdentityPassphrase identityId passphrase) := by
  refine Settles.await fun k hk => ?_
  rw [← hk]
  exact writeItem_ends
    (fun k => ((KeychainCall.storeIdentityPassphrase identityId passphrase).execute k).1) k

theorem storeNativeKeyPassphrase_storesAs (k₀ : Keychain) (fingerprint passphrase : JsString) :
    StoresAs k₀ ((KeychainCall.storeKeyPassphrase fingerprint passphrase).execute k₀).1
      (storeNativeKeyPassphrase fingerprint passphrase) := by
  refine Settles.await fun k hk => ?_
  rw [← hk]
  exact writeItem_ends
    (fun k => ((KeychainCall.storeKeyPassphrase fingerprint passphrase).execute k).1) k

/-- A passphrase that is moved out of the entry of the host can be read at every stage. -/
theorem migratePerHost_settles {store : KeychainProgram Unit} {perHost : ConnectionSecretValues}
    (hstore : StoresAs k₀ k₁ store) (hkept : Kept k₀ route hostId k₁)
    (hshared : k₁.sharedPassphrase route ≠ [])
    (hpassword : perHost.password = (k₀.found route hostId).password) (E : FaultyKeychain → Prop) :
    Settles KeychainCall.executeItems (fun k => k.keychain = k₀)
      (migratePerHost hostId perHost store) (fun _ k => Kept k₀ route hostId k.keychain) E := by
  refine Settles.attempt (Settles.bind (hstore.imp (fun _ h => h) (fun _ _ h => h) ?_) fun _ => ?_)
  · rintro k (hk | hk)
    · rw [hk]
      exact rfl
    · rw [hk]
      exact hkept
  · refine Settles.await fun k (hk : k.keychain = k₁) => ?_
    rw [hpassword]
    have hfirst := hkept.storePassword
    have hsecond := hfirst.storePassphrase hshared []
    refine (writeItems_ends _ _ k).imp (fun _ k' h => ?_) fun k' h => ?_
    · rw [h, hk]
      exact hsecond
    · rw [hk] at h
      rcases h with h | h | h <;> rw [h]
      · exact hkept
      · exact hfirst
      · exact hsecond

theorem sharedPassphrase_storeIdentity (identityId : JsString) {passphrase : JsString}
    (hne : passphrase ≠ []) (fingerprint : Option JsString) :
    ((KeychainCall.storeIdentityPassphrase identityId passphrase).execute k).1.sharedPassphrase
      ⟨some identityId, fingerprint⟩ = passphrase := by
  have hload := loadKeychainSecret_store k.identityPassphrases identityId passphrase identityId
  rw [if_pos rfl] at hload
  change orElse (loadKeychainSecret (storeKeychainSecret _ identityId _) identityId) _ = passphrase
  rw [hload, orElse_of_ne hne]

theorem sharedPassphrase_storeKey (fingerprint passphrase : JsString) :
    ((KeychainCall.storeKeyPassphrase fingerprint passphrase).execute k).1.sharedPassphrase
      ⟨none, some fingerprint⟩ = passphrase := by
  have hload := loadKeychainSecret_store k.keyPassphrases fingerprint passphrase fingerprint
  rw [if_pos rfl] at hload
  exact hload

/-- The passphrase that a hydration finds is shared. -/
theorem kept_of_shared (hshared : k₁.sharedPassphrase route = (k₀.found route hostId).passphrase)
    (hne : (k₀.found route hostId).passphrase ≠ []) (hpasswords : k₁.passwords = k₀.passwords) :
    Kept k₀ route hostId k₁ := by
  rw [Kept, Keychain.found, hshared, orElse_of_ne hne, hpasswords]
  rfl

end Kept

section Hydration
variable {k₀ : Keychain} {route : Route} {hostId : JsString}

/-- A program returns what a hydration finds, and leaves it there. -/
abbrev Finds (k₀ : Keychain) (route : Route) (hostId : JsString)
    (p : KeychainProgram ConnectionSecretValues) : Prop :=
  Settles KeychainCall.executeItems (fun k => k.keychain = k₀) p
    (fun values k => values = k₀.found route hostId ∧ Kept k₀ route hostId k.keychain)
    fun _ => False

theorem Finds.pure {values : ConnectionSecretValues} (h : values = k₀.found route hostId) :
    Finds k₀ route hostId (pure values) := by
  refine Settles.pure fun k hk => ⟨h, ?_⟩
  rw [hk]
  exact rfl

/-- A call that only reads. -/
theorem Finds.load {c : KeychainCall} {f : c.Reply → KeychainProgram ConnectionSecretValues}
    (hload : ∀ k, c.executeItems k = (k, some (c.execute k.keychain).2))
    (hf : Finds k₀ route hostId (f (c.execute k₀).2)) :
    Finds k₀ route hostId (await c >>= f) := by
  intro k hk
  rw [settle_bind, settle_await, hload, hk]
  exact hf k hk

/-- What the entry of the host holds. -/
def Keychain.perHost (k : Keychain) (hostId : JsString) : ConnectionSecretValues :=
  ⟨loadKeychainSecret k.passwords hostId, loadKeychainSecret k.passphrases hostId⟩

theorem finds_perHostStage (hshared : k₀.sharedPassphrase route = []) :
    Finds k₀ route hostId (loadPerHostStage hostId (k₀.perHost hostId) route) := by
  have hfound : k₀.found route hostId = k₀.perHost hostId := by
    rw [Keychain.found, hshared]
    rfl
  unfold loadPerHostStage
  split_ifs with hnone
  · exact Finds.pure hfound.symm
  · have hne : (k₀.found route hostId).passphrase ≠ [] := hfound ▸ hnone
    obtain ⟨_ | identityId, fingerprint⟩ := route
    · cases fingerprint with
      | none => exact Finds.pure hfound.symm
      | some fingerprint =>
        have hstored := sharedPassphrase_storeKey (k := k₀) fingerprint
          (k₀.perHost hostId).passphrase
        refine Settles.bind (migratePerHost_settles (storeNativeKeyPassphrase_storesAs k₀ _ _)
          (kept_of_shared (hstored.trans ?_) hne rfl) (by rwa [hstored]) ?_ _) fun _ =>
            Settles.pure fun k hk => ⟨hfound.symm, hk⟩
        · rw [hfound]
        · rw [hfound]
    · have hstored := sharedPassphrase_storeIdentity (k := k₀) identityId hnone
        fingerprint
      refine Settles.bind (migratePerHost_settles (storeNativeIdentityPassphrase_storesAs k₀ _ _)
        (kept_of_shared (hstored.trans ?_) hne rfl) (by rwa [hstored]) ?_ _) fun _ =>
          Settles.pure fun k hk => ⟨hfound.symm, hk⟩
      · rw [hfound]
      · rw [hfound]

theorem finds_keyStage
    (hidentity : route.identityId.elim [] (loadKeychainSecret k₀.identityPassphrases) = []) :
    Finds k₀ route hostId (loadKeyStage hostId (k₀.perHost hostId) route) := by
  obtain ⟨identityId, _ | fingerprint⟩ := route
  · refine finds_perHostStage ?_
    rw [Keychain.sharedPassphrase, hidentity]
    rfl
  · have hshared : k₀.sharedPassphrase ⟨identityId, some fingerprint⟩ =
        loadKeychainSecret k₀.keyPassphrases fingerprint := by
      rw [Keychain.sharedPassphrase, hidentity]
      rfl
    refine Finds.load (fun _ => rfl) ?_
    change Finds k₀ _ hostId (if loadKeychainSecret k₀.keyPassphrases fingerprint = [] then _ else _)
    split_ifs with hkeyed
    · exact finds_perHostStage (hshared.trans hkeyed)
    · have hfound : k₀.found ⟨identityId, some fingerprint⟩ hostId =
          ⟨loadKeychainSecret k₀.passwords hostId,
            loadKeychainSecret k₀.keyPassphrases fingerprint⟩ := by
        rw [Keychain.found, hshared, orElse_of_ne hkeyed]
      cases identityId with
      | none => exact Finds.pure hfound.symm
      | some identityId =>
        have hstored := sharedPassphrase_storeIdentity (k := k₀) identityId hkeyed
          (some fingerprint)
        have hkept : Kept k₀ ⟨some identityId, some fingerprint⟩ hostId _ :=
          kept_of_shared (hstored.trans (by rw [hfound])) (hfound ▸ hkeyed) rfl
        refine Settles.bind (Settles.attempt ((storeNativeIdentityPassphrase_storesAs k₀ identityId
          _).imp (fun _ h => h) (fun _ k hk => ?_) fun k hk => ?_)) fun _ =>
            Settles.pure fun k hk => ⟨hfound.symm, hk⟩
        · rw [hk]
          exact hkept
        · rcases hk with hk | hk <;> rw [hk]
          · exact rfl
          · exact hkept

theorem finds_identityStage :
    Finds k₀ route hostId (loadIdentityStage hostId (k₀.perHost hostId) route) := by
  obtain ⟨_ | identityId, fingerprint⟩ := route
  · exact finds_keyStage rfl
  · refine Finds.load (fun _ => rfl) ?_
    change Finds k₀ _ hostId
      (if loadKeychainSecret k₀.identityPassphrases identityId = [] then _ else _)
    split_ifs with hidentity
    · exact finds_keyStage hidentity
    · have hshared : k₀.sharedPassphrase ⟨some identityId, fingerprint⟩ =
          loadKeychainSecret k₀.identityPassphrases identityId := orElse_of_ne hidentity
      refine Finds.pure ?_
      rw [Keychain.found, hshared, orElse_of_ne hidentity]
      rfl

/-- A hydration returns what it finds and leaves it there, whichever write fails. -/
theorem finds_loadSecrets : Finds k₀ route hostId (loadSecretsWithMultiStageMigration hostId route) :=
  Finds.load (fun _ => rfl) finds_identityStage

end Hydration

end SecretsStore
