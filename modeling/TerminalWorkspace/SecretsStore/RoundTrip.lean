import TerminalWorkspace.SecretsStore.SettledSecrets
import TerminalWorkspace.VaultStores.Hosts
import TerminalWorkspace.VaultStores.Identities

/-! Secrets that are set come back from the keychain, and a passphrase that a hydration moves can
be read by the next one. Here no two calls of the keychain overlap. -/
namespace SecretsStore
open AsyncCalls AsyncCalls.Program Connections Inventory JsText Runs VaultStores

namespace SecretsState
variable (s : SecretsState)

/-- All calls of a set or clear take place. -/
def settleWrite (i : ℕ) (fault : Option (ℕ × Bool)) : SecretsState :=
  match s.writes[i]? with
  | some write =>
    let settled := write.rest.settle KeychainCall.executeItems ⟨s.keychain, fault⟩
    { s with
      writes := s.writes.set i { write with rest := finished settled.2 }
      keychain := settled.1.keychain }
  | none => s

/-- All calls of a hydration take place. -/
def settleHydration (hostId : JsString) (fault : Option (ℕ × Bool)) : SecretsState :=
  match s.hydrationPromises.get? hostId with
  | some (.loading rest) =>
    let settled := rest.settle KeychainCall.executeItems ⟨s.keychain, fault⟩
    { s with
      hydrationPromises := s.hydrationPromises.set hostId (.loading (finished settled.2))
      keychain := settled.1.keychain }
  | _ => s

/-- `setHostSecrets`, until all its calls have succeeded. -/
def afterSet (d : Directory) (hostId : JsString) (values : ConnectionSecretValues)
    (now : JsString) : SecretsState :=
  (s.setHostSecrets d hostId values now).settleWrite s.writes.length none

/-- `hydrateHostSecrets`, until its promise is settled. It resolves to the record in memory. -/
def afterHydration (d : Directory) (hostId now : JsString) (fault : Option (ℕ × Bool)) :
    SecretsState :=
  (((s.hydrateHostSecrets d hostId).settleHydration hostId fault).hydrationThen hostId
    now).hydrationFinally hostId

/-- There is no record of the host, and none is on its way. -/
def Unread (hostId : JsString) : Prop :=
  s.secretsByHostId.get? hostId = none ∧ s.hydrationPromises.get? hostId = none

end SecretsState

theorem unread_started (k : Keychain) (hostId : JsString) : (started k).Unread hostId := ⟨rfl, rfl⟩

section Interleaved

theorem settle_faultless {ρ : Type} (k : Keychain) (p : KeychainProgram ρ) :
    p.settle KeychainCall.executeItems ⟨k, none⟩ =
      (⟨(p.settle (fun k c => ((c.execute k).1, some (c.execute k).2)) k).1, none⟩,
        (p.settle (fun k c => ((c.execute k).1, some (c.execute k).2)) k).2) :=
  settle_map (f := fun k => FaultyKeychain.mk k none) _ executeItems_faultless k p

/-- The next call takes effect. -/
def nextCall {ρ : Type} (q : Keychain × KeychainProgram ρ) : Keychain × KeychainProgram ρ :=
  q.2.advance KeychainCall.execute false q.1

theorem exists_nextCalls {ρ : Type} (k : Keychain) (p : KeychainProgram ρ) :
    ∃ n, nextCall^[n] (k, p) =
      ((p.settle KeychainCall.executeItems ⟨k, none⟩).1.keychain,
        finished (p.settle KeychainCall.executeItems ⟨k, none⟩).2) := by
  obtain ⟨n, hn⟩ := exists_advance_eq_settle KeychainCall.execute k p
  refine ⟨n, hn.trans ?_⟩
  rw [settle_faultless]

theorem run_writeCalls {s : SecretsState} {i : ℕ} {write : SecretsWrite}
    (h : s.writes[i]? = some write) (n : ℕ) :
    run SecretsState.step s (List.replicate n (.writeCall i false)) =
      { s with
        writes := s.writes.set i
          { write with rest := (nextCall^[n] (s.keychain, write.rest)).2 }
        keychain := (nextCall^[n] (s.keychain, write.rest)).1 } := by
  induction n generalizing s write with
  | zero =>
    obtain ⟨hi, rfl⟩ := List.getElem?_eq_some_iff.mp h
    change s = { s with writes := s.writes.set i s.writes[i], keychain := s.keychain }
    rw [List.set_getElem_self]
  | succ n ih =>
    have hstep : s.step (.writeCall i false) =
        { s with
          writes := s.writes.set i { write with
            rest := (write.rest.advance KeychainCall.execute false s.keychain).2 }
          keychain := (write.rest.advance KeychainCall.execute false s.keychain).1 } := by
      change s.writeCall i false = _
      rw [SecretsState.writeCall, h]
    rw [List.replicate_succ, run_cons, hstep, ih (Indexed.getElem?_set_self_of_some h _),
      List.set_set]
    rfl

/-- All calls of a write are calls of the store that nothing comes between. -/
theorem exists_run_eq_settleWrite (s : SecretsState) (i : ℕ) :
    ∃ n, run SecretsState.step s (List.replicate n (.writeCall i false)) =
      s.settleWrite i none := by
  cases h : s.writes[i]? with
  | none => exact ⟨0, by rw [SecretsState.settleWrite, h]; rfl⟩
  | some write =>
    obtain ⟨n, hn⟩ := exists_nextCalls s.keychain write.rest
    refine ⟨n, ?_⟩
    rw [run_writeCalls h, hn, SecretsState.settleWrite, h]

theorem run_hydrationCalls {s : SecretsState} {hostId : JsString}
    {rest : KeychainProgram ConnectionSecretValues}
    (h : s.hydrationPromises.get? hostId = some (.loading rest)) (n : ℕ) :
    run SecretsState.step s (List.replicate n (.hydrationCall hostId false)) =
      { s with
        hydrationPromises := s.hydrationPromises.set hostId
          (.loading (nextCall^[n] (s.keychain, rest)).2)
        keychain := (nextCall^[n] (s.keychain, rest)).1 } := by
  induction n generalizing s rest with
  | zero =>
    change s = { s with
      hydrationPromises := s.hydrationPromises.set hostId (.loading rest)
      keychain := s.keychain }
    rw [OrderedMap.set_of_get? h]
  | succ n ih =>
    have hstep : s.step (.hydrationCall hostId false) =
        { s with
          hydrationPromises := s.hydrationPromises.set hostId
            (.loading (rest.advance KeychainCall.execute false s.keychain).2)
          keychain := (rest.advance KeychainCall.execute false s.keychain).1 } := by
      change s.hydrationCall hostId false = _
      rw [SecretsState.hydrationCall, h]
    rw [List.replicate_succ, run_cons, hstep, ih (OrderedMap.get?_set_self ..),
      OrderedMap.set_set]
    rfl

theorem exists_run_eq_settleHydration (s : SecretsState) (hostId : JsString) :
    ∃ n, run SecretsState.step s (List.replicate n (.hydrationCall hostId false)) =
      s.settleHydration hostId none := by
  cases h : s.hydrationPromises.get? hostId with
  | none => exact ⟨0, by rw [SecretsState.settleHydration, h]; rfl⟩
  | some hydration =>
    cases hydration with
    | finishing => exact ⟨0, by rw [SecretsState.settleHydration, h]; rfl⟩
    | loading rest =>
      obtain ⟨n, hn⟩ := exists_nextCalls s.keychain rest
      refine ⟨n, ?_⟩
      rw [run_hydrationCalls h, hn, SecretsState.settleHydration, h]

end Interleaved

section Setting
variable {k : Keychain} {route : Route} {hostId : JsString} {values : ConnectionSecretValues}

/-- The keychain once the secrets of a host are set. -/
structure Persisted (route : Route) (hostId : JsString) (values : ConnectionSecretValues)
    (k : Keychain) : Prop where
  found : k.found route hostId = values
  ownSlot : route.identityId.isSome ∨ route.fingerprint.isSome → k.passphrases.get? hostId = none

theorem persisted_of_shared (hpassword : loadKeychainSecret k.passwords hostId = values.password)
    (hshared : k.sharedPassphrase route = values.passphrase) (hne : values.passphrase ≠ [])
    (hown : k.passphrases.get? hostId = none) : Persisted route hostId values k where
  found := by
    rw [Keychain.found, hpassword, hshared, orElse_of_ne hne]
  ownSlot _ := hown

theorem settle_persistSecrets (k : Keychain) (route : Route) (hostId : JsString)
    (hpassphrase : values.passphrase ≠ []) :
    ∃ k', (persistSecretsWithIdentityRouting hostId route values).settle KeychainCall.executeItems
      ⟨k, none⟩ = (⟨k', none⟩, some ()) ∧ Persisted route hostId values k' := by
  have hstored : ∀ items value,
      loadKeychainSecret (storeKeychainSecret items hostId value) hostId = value := by
    intro items value
    rw [loadKeychainSecret_store, if_pos rfl]
  have hempty : (storeKeychainSecret k.passphrases hostId []).get? hostId = none := by
    rw [get?_storeKeychainSecret, if_pos rfl]
    rfl
  unfold persistSecretsWithIdentityRouting persistPassphrase
  rw [if_neg hpassphrase]
  obtain ⟨_ | identityId, fingerprint⟩ := route
  · cases fingerprint with
    | none =>
      refine ⟨_, rfl, ?_, nofun⟩
      exact congrArg₂ ConnectionSecretValues.mk (hstored _ _) (hstored _ _)
    | some fingerprint =>
      exact ⟨_, rfl, persisted_of_shared (hstored _ _) (sharedPassphrase_storeKey _ _) hpassphrase
        hempty⟩
  · exact ⟨_, rfl, persisted_of_shared (hstored _ _)
      (sharedPassphrase_storeIdentity _ hpassphrase fingerprint) hpassphrase hempty⟩

theorem persisted_afterSet (s : SecretsState) (d : Directory) (now : JsString)
    (hpassphrase : values.passphrase ≠ []) :
    Persisted (resolveRoute d hostId) hostId values (s.afterSet d hostId values now).keychain := by
  obtain ⟨k, hsettle, hpersisted⟩ :=
    settle_persistSecrets s.keychain (resolveRoute d hostId) hostId hpassphrase
  have hsecrets : hasConnectionSecrets values = true := by
    simp [hasConnectionSecrets, hpassphrase]
  have hpersist : (SecretsRequest.set values (resolveRoute d hostId) now).persist hostId =
      persistSecretsWithIdentityRouting hostId (resolveRoute d hostId) values := if_pos hsecrets
  have hwrite : (s.setHostSecrets d hostId values now).writes[s.writes.length]? =
      some ⟨hostId, .set values (resolveRoute d hostId) now,
        persistSecretsWithIdentityRouting hostId (resolveRoute d hostId) values⟩ := by
    rw [← hpersist]
    exact List.getElem?_concat_length
  rw [SecretsState.afterSet, SecretsState.settleWrite, hwrite]
  dsimp only
  change Persisted _ _ _ (settle KeychainCall.executeItems ⟨s.keychain, none⟩ _).1.keychain
  rw [hsettle]
  exact hpersisted

end Setting

section Reading
variable {s : SecretsState} {d : Directory} {hostId : JsString}

/-- The record that a hydration makes of what it finds. -/
def hydratedRecord (values : ConnectionSecretValues) (now : JsString) :
    Option ConnectionSecretRecord :=
  if hasConnectionSecrets values then some ⟨values, now⟩ else none

/-- The end of a hydration, once its values are there. -/
theorem finish_hydration {values : ConnectionSecretValues}
    (hrecord : s.secretsByHostId.get? hostId = none)
    (hloaded : s.hydrationPromises.get? hostId = some (.loading (.ret values))) (now : JsString) :
    ((s.hydrationThen hostId now).hydrationFinally hostId).secretsByHostId.get? hostId =
        hydratedRecord values now ∧
      ((s.hydrationThen hostId now).hydrationFinally hostId).keychain = s.keychain := by
  have hthen : s.hydrationThen hostId now = (s.recordHydrated hostId values now).finishing hostId := by
    rw [SecretsState.hydrationThen, hloaded]
  have hfinally : ∀ t : SecretsState, (t.finishing hostId).hydrationFinally hostId =
      { t.finishing hostId with
        hydrationPromises := (t.finishing hostId).hydrationPromises.erase hostId } := by
    intro t
    rw [SecretsState.hydrationFinally, SecretsState.finishing, OrderedMap.get?_set_self]
  rw [hthen, hfinally]
  change (s.recordHydrated hostId values now).secretsByHostId.get? hostId = _ ∧
    (s.recordHydrated hostId values now).keychain = _
  unfold SecretsState.recordHydrated hydratedRecord
  cases hasConnectionSecrets values with
  | false => exact ⟨hrecord, rfl⟩
  | true =>
    rw [if_pos (by simp [hrecord]), if_pos rfl]
    exact ⟨OrderedMap.get?_set_self .., rfl⟩

theorem afterHydration_spec (h : s.Unread hostId) (now : JsString) (fault : Option (ℕ × Bool)) :
    (s.afterHydration d hostId now fault).secretsByHostId.get? hostId =
        hydratedRecord (s.keychain.found (resolveRoute d hostId) hostId) now ∧
      Kept s.keychain (resolveRoute d hostId) hostId
        (s.afterHydration d hostId now fault).keychain := by
  have hfinds : Ends _ _ (settle KeychainCall.executeItems ⟨s.keychain, fault⟩
    (loadSecretsWithMultiStageMigration hostId (resolveRoute d hostId))) :=
    finds_loadSecrets ⟨s.keychain, fault⟩ rfl
  have hstarted : s.hydrateHostSecrets d hostId =
      { s with
        hydrationPromises := s.hydrationPromises.set hostId
          (.loading (loadSecretsWithMultiStageMigration hostId (resolveRoute d hostId))) } := by
    rw [SecretsState.hydrateHostSecrets, if_neg (by simp [h.1, h.2])]
  rcases hsettle : settle KeychainCall.executeItems ⟨s.keychain, fault⟩
    (loadSecretsWithMultiStageMigration hostId (resolveRoute d hostId)) with ⟨k, _ | values⟩
  · rw [hsettle] at hfinds
    exact hfinds.elim
  · rw [hsettle] at hfinds
    obtain ⟨rfl, hkept⟩ := hfinds
    have hsettled : (s.hydrateHostSecrets d hostId).settleHydration hostId fault =
        { s with
          hydrationPromises := s.hydrationPromises.set hostId
            (.loading (.ret (s.keychain.found (resolveRoute d hostId) hostId)))
          keychain := k.keychain } := by
      rw [hstarted, SecretsState.settleHydration, OrderedMap.get?_set_self]
      dsimp only
      rw [hsettle, OrderedMap.set_set]
      rfl
    obtain ⟨hrecord, hkeychain⟩ := finish_hydration (s := { s with
      hydrationPromises := s.hydrationPromises.set hostId
        (.loading (.ret (s.keychain.found (resolveRoute d hostId) hostId)))
      keychain := k.keychain }) h.1 (OrderedMap.get?_set_self ..) now
    rw [SecretsState.afterHydration, hsettled, hkeychain]
    exact ⟨hrecord, hkept⟩

/-- Secrets that are set are read back, from whatever the slots held, and are kept out of the slot
of the host if there is a shared one. A passphrase that a hydration finds is returned, and the next
hydration finds it again, whichever writes of the two fail. -/
theorem hostSecrets_kept (d : Directory) (hostId : JsString) :
    (∀ (s t : SecretsState) (values : ConnectionSecretValues) (now now' : JsString)
        (fault : Option (ℕ × Bool)), values.passphrase ≠ [] →
      t.keychain = (s.afterSet d hostId values now).keychain → t.Unread hostId →
        (t.afterHydration d hostId now' fault).secretsByHostId.get? hostId =
          some ⟨values, now'⟩) ∧
    (∀ (s : SecretsState) (values : ConnectionSecretValues) (now : JsString),
      values.passphrase ≠ [] →
      (resolveRoute d hostId).identityId.isSome ∨ (resolveRoute d hostId).fingerprint.isSome →
        (s.afterSet d hostId values now).keychain.passphrases.get? hostId = none) ∧
    ∀ (s t : SecretsState) (passphrase now now' : JsString) (fault fault' : Option (ℕ × Bool)),
      s.Unread hostId → (s.keychain.found (resolveRoute d hostId) hostId).passphrase = passphrase →
      passphrase ≠ [] → t.keychain = (s.afterHydration d hostId now fault).keychain →
      t.Unread hostId →
        (∃ record ∈ (s.afterHydration d hostId now fault).secretsByHostId.get? hostId,
          record.passphrase = passphrase) ∧
        ∃ record ∈ (t.afterHydration d hostId now' fault').secretsByHostId.get? hostId,
          record.passphrase = passphrase := by
  have hrecord : ∀ (values : ConnectionSecretValues) (now : JsString), values.passphrase ≠ [] →
      hydratedRecord values now = some ⟨values, now⟩ := fun values now hne =>
    if_pos (by simp [hasConnectionSecrets, hne])
  refine ⟨fun s t values now now' fault hne hkeychain hunread => ?_,
    fun s values now hne hroute => (persisted_afterSet s d now hne).ownSlot hroute,
    fun s t passphrase now now' fault fault' hs hfound hne hkeychain ht => ?_⟩
  · rw [(afterHydration_spec hunread now' fault).1, hkeychain,
      (persisted_afterSet s d now hne).found, hrecord values now' hne]
  · obtain ⟨hfirst, hkept⟩ := afterHydration_spec (d := d) hs now fault
    have hsecond := (afterHydration_spec (d := d) ht now' fault').1
    rw [hkeychain, hkept] at hsecond
    subst hfound
    rw [hrecord _ now hne] at hfirst
    rw [hrecord _ now' hne] at hsecond
    exact ⟨⟨_, hfirst, rfl⟩, _, hsecond, rfl⟩

/-- The sample host that is bound to a sample identity, with a passphrase in its own slot. -/
def boundDirectory : Directory := ⟨[prodGateway], sampleIdentities, []⟩

def legacyKeychain : Keychain :=
  ⟨.empty, OrderedMap.empty.set prodGateway.id (js "old"), .empty, .empty⟩

theorem hostSecrets_kept_prodGateway :
    ((started ((started legacyKeychain).afterSet boundDirectory prodGateway.id
        ⟨js "password", js "new"⟩ (js "t1")).keychain).afterHydration boundDirectory prodGateway.id
          (js "t2") none).secretsByHostId.get? prodGateway.id =
        some ⟨⟨js "password", js "new"⟩, js "t2"⟩ ∧
      ((started legacyKeychain).afterSet boundDirectory prodGateway.id
        ⟨js "password", js "new"⟩ (js "t1")).keychain.passphrases.get? prodGateway.id = none ∧
      ∃ record ∈ ((started legacyKeychain).afterHydration boundDirectory prodGateway.id (js "t1")
        (some (2, false))).secretsByHostId.get? prodGateway.id, record.passphrase = js "old" := by
  have h := hostSecrets_kept boundDirectory prodGateway.id
  refine ⟨h.1 _ _ _ _ _ none (by decide) rfl (unread_started _ _),
    h.2.1 _ _ _ (by decide) (.inl (by decide +kernel)), ?_⟩
  have hmigrated := h.2.2 (started legacyKeychain)
    (started ((started legacyKeychain).afterHydration boundDirectory prodGateway.id (js "t1")
      (some (2, false))).keychain) (js "old") (js "t1") (js "t2") (some (2, false)) none
    (unread_started _ _) (by decide +kernel) (by decide) rfl (unread_started _ _)
  exact hmigrated.1

end Reading

end SecretsStore
