import TerminalWorkspace.Foundation.Indexed
import TerminalWorkspace.Foundation.Runs
import TerminalWorkspace.SecretsStore.Store

/-! Whether the secrets of a host follow the last set or clear. Memory changes with the request
itself, the entry in the keychain with the call that it issues. Both stay as they are unless an
older call reaches the entry after that one, or a hydration comes to record what it has read before
the request, or read from a service that the request does not clear. -/
namespace SecretsStore
open AsyncCalls Indexed Inventory JsText Runs

/-- The entry of a host that a call writes, and with what. -/
def KeychainCall.entryWritten : KeychainCall → Option (JsString × ConnectionSecretValues)
  | .storeHostSecrets hostId secrets => some (hostId, secrets)
  | .clearHostSecrets hostId => some (hostId, noSecrets)
  | _ => none

/-- The entry that a request asks for. -/
def SecretsRequest.entry : SecretsRequest → ConnectionSecretValues
  | .set values route _ =>
    if hasConnectionSecrets values then ⟨values.password, perHostPassphrase route values⟩
    else noSecrets
  | .clear => noSecrets

/-- The items of a host hold just these secrets; an empty one has no item. -/
def Keychain.HasEntry (k : Keychain) (hostId : JsString) (values : ConnectionSecretValues) : Prop :=
  k.passwords.get? hostId = truthy values.password ∧
    k.passphrases.get? hostId = truthy values.passphrase

def SecretsWrite.Pending (write : SecretsWrite) : Prop :=
  write.rest.pending.bind KeychainCall.entryWritten = some (write.hostId, write.request.entry)

instance (write : SecretsWrite) : Decidable write.Pending :=
  inferInstanceAs (Decidable (_ = _))

/-- The last set or clear of a host. -/
structure LastWrite (writes : List SecretsWrite) (i : ℕ) (write : SecretsWrite) : Prop where
  found : writes[i]? = some write
  last : ∀ j other, i < j → writes[j]? = some other → other.hostId ≠ write.hostId

namespace SecretsState

/-- The call that an action lets take effect. -/
def effect (s : SecretsState) : SecretsAction → Option (KeychainCall × Bool)
  | .hydrationCall hostId fails =>
    match s.hydrationPromises.get? hostId with
    | some (.loading rest) => rest.pending.map fun c => (c, fails)
    | _ => none
  | .writeCall i fails => s.writes[i]?.bind fun write => write.rest.pending.map fun c => (c, fails)
  | .cleanupCall i fails => s.cleanups[i]?.bind fun rest => rest.pending.map fun c => (c, fails)
  | _ => none

/-- The values that a hydration has found, before they are looked at. -/
def loaded (s : SecretsState) (hostId : JsString) : Option ConnectionSecretValues :=
  match s.hydrationPromises.get? hostId with
  | some (.loading (.ret values)) => some values
  | _ => none

/-- No call writes the entry of a host after that of the last request took effect, unless the entry
holds that already; and no hydration records secrets for a host that was set or cleared. -/
structure InOrder (s : SecretsState) (a : SecretsAction) : Prop where
  calls : ∀ c hostId values, s.effect a = some (c, false) →
    c.entryWritten = some (hostId, values) → ∀ i write, LastWrite s.writes i write →
    write.hostId = hostId → write.Pending ∨ s.keychain.HasEntry hostId values
  records : ∀ hostId now values, a = .hydrationThen hostId now → s.loaded hostId = some values →
    hasConnectionSecrets values = true → s.secretsByHostId.get? hostId = none →
    ∀ write ∈ s.writes, write.hostId ≠ hostId

/-- Every call that writes the entry of a host takes effect. -/
def TakesEffect (s : SecretsState) (a : SecretsAction) : Prop :=
  ∀ c, s.effect a = some (c, true) → c.entryWritten = none

/-- Nothing is under way. -/
structure Settled (s : SecretsState) : Prop where
  hydrations : ∀ hostId, s.hydrationPromises.get? hostId = none
  writes : ∀ write ∈ s.writes, write.rest.pending = none
  cleanups : ∀ rest ∈ s.cleanups, rest.pending = none

end SecretsState

/-- The set or clear that an action asks for. -/
def SecretsAction.asked : SecretsAction → Option (JsString × SecretsRequest)
  | .setHostSecrets d hostId values now => some (hostId, .set values (resolveRoute d hostId) now)
  | .clearHostSecrets hostId => some (hostId, .clear)
  | _ => none

def lastRequest (hostId : JsString) (actions : List SecretsAction) : Option SecretsRequest :=
  OrderedMap.lastFor hostId (actions.filterMap SecretsAction.asked)

/-- Makes no call that writes the entry of a host. -/
def Spares {ρ : Type} (p : KeychainProgram ρ) : Prop := p.AllCalls (·.entryWritten = none)

section Calls
variable {k : Keychain} {c : KeychainCall} {hostId : JsString} {values : ConnectionSecretValues}

theorem truthy_injective : Function.Injective truthy := by
  intro a b h
  unfold truthy at h
  split_ifs at h with ha hb hb
  · rw [ha, hb]
  · exact Option.some.inj h

theorem get?_storeKeychainSecret (items : OrderedMap JsString JsString)
    (account value other : JsString) :
    (storeKeychainSecret items account value).get? other =
      if other = account then truthy value else items.get? other := by
  unfold storeKeychainSecret truthy
  split_ifs with hvalue hsame hsame
  · rw [OrderedMap.get?_erase, if_pos hsame]
  · rw [OrderedMap.get?_erase, if_neg hsame]
  · rw [OrderedMap.get?_set, if_pos hsame]
  · rw [OrderedMap.get?_set, if_neg hsame]

theorem Keychain.HasEntry.unique {other : ConnectionSecretValues} (h : k.HasEntry hostId values)
    (hother : k.HasEntry hostId other) : values = other := by
  obtain ⟨password, passphrase⟩ := values
  obtain ⟨password', passphrase'⟩ := other
  obtain rfl := truthy_injective (h.1.symm.trans hother.1)
  obtain rfl := truthy_injective (h.2.symm.trans hother.2)
  rfl

/-- A call that writes the entry of a host leaves in it what it writes. -/
theorem hasEntry_execute (h : c.entryWritten = some (hostId, values)) :
    (c.execute k).1.HasEntry hostId values := by
  cases c with
  | storeHostSecrets id secrets =>
    obtain ⟨rfl, rfl⟩ := Prod.mk.inj (Option.some.inj h)
    constructor
    · exact (get?_storeKeychainSecret _ _ _ _).trans (if_pos rfl)
    · exact (get?_storeKeychainSecret _ _ _ _).trans (if_pos rfl)
  | clearHostSecrets id =>
    obtain ⟨rfl, rfl⟩ := Prod.mk.inj (Option.some.inj h)
    constructor
    · exact (OrderedMap.get?_erase _ _ _).trans (if_pos rfl)
    · exact (OrderedMap.get?_erase _ _ _).trans (if_pos rfl)
  | _ => cases h

/-- The other entries stay as they are. -/
theorem hasEntry_execute_other (h : ∀ written, c.entryWritten ≠ some (hostId, written)) :
    (c.execute k).1.HasEntry hostId values ↔ k.HasEntry hostId values := by
  cases c with
  | storeHostSecrets id secrets =>
    have hne : hostId ≠ id := fun heq => h secrets (heq ▸ rfl)
    unfold Keychain.HasEntry KeychainCall.execute
    rw [get?_storeKeychainSecret, get?_storeKeychainSecret, if_neg hne, if_neg hne]
  | clearHostSecrets id =>
    have hne : hostId ≠ id := fun heq => h noSecrets (heq ▸ rfl)
    unfold Keychain.HasEntry KeychainCall.execute
    rw [OrderedMap.get?_erase, OrderedMap.get?_erase, if_neg hne, if_neg hne]
  | _ => exact Iff.rfl

end Calls

section Programs
variable {hostId : JsString} {request : SecretsRequest}

theorem spares_persistPassphrase (route : Route) (passphrase : JsString) :
    Spares (persistPassphrase route passphrase) := by
  unfold persistPassphrase
  split_ifs
  · trivial
  · obtain ⟨_ | identityId, _ | fingerprint⟩ := route
    · trivial
    · exact Program.AllCalls.await rfl
    · exact Program.AllCalls.await rfl
    · exact Program.AllCalls.await rfl

/-- A request writes the entry of its host first, and no entry after that. -/
theorem persist_eq (hostId : JsString) (request : SecretsRequest) :
    ∃ c next, request.persist hostId = .call c next ∧
      c.entryWritten = some (hostId, request.entry) ∧ ∀ reply, Spares (next reply) := by
  have hclear : ∃ c next, clearNativeHostSecrets hostId = .call c next ∧
      c.entryWritten = some (hostId, noSecrets) ∧ ∀ reply, Spares (next reply) :=
    ⟨_, _, rfl, rfl, fun reply => by cases reply <;> trivial⟩
  cases request with
  | clear => exact hclear
  | set values route now =>
    simp only [SecretsRequest.persist, SecretsRequest.entry]
    by_cases hvalues : hasConnectionSecrets values = true
    · rw [if_pos hvalues, if_pos hvalues]
      refine ⟨_, _, rfl, rfl, fun reply => ?_⟩
      cases reply with
      | none => trivial
      | some _ => exact spares_persistPassphrase route values.passphrase
    · rw [if_neg hvalues, if_neg hvalues]
      exact hclear

end Programs

namespace SecretsState

/-- Memory and the keychain follow the last set or clear of each host. Until its call takes effect
the keychain has yet to. -/
structure Follows (s : SecretsState) : Prop where
  underWay : ∀ write ∈ s.writes,
    write.rest = write.request.persist write.hostId ∨ Spares write.rest
  memory : ∀ i write, LastWrite s.writes i write →
    s.secretsByHostId.get? write.hostId = write.request.record
  entry : ∀ i write, LastWrite s.writes i write →
    write.Pending ∨ s.keychain.HasEntry write.hostId write.request.entry

variable {s : SecretsState} {hostId : JsString}

theorem pending_persist (hostId : JsString) (request : SecretsRequest) :
    SecretsWrite.Pending ⟨hostId, request, request.persist hostId⟩ := by
  obtain ⟨c, next, heq, hwritten, -⟩ := persist_eq hostId request
  rw [SecretsWrite.Pending, heq]
  exact hwritten

theorem get?_withRecord (s : SecretsState) (hostId other : JsString)
    (record : Option ConnectionSecretRecord) :
    (s.withRecord hostId record).get? other =
      if other = hostId then record else s.secretsByHostId.get? other := by
  cases record with
  | none => exact OrderedMap.get?_erase _ _ _
  | some record => exact OrderedMap.get?_set _ _ _ _

/-- After a new request the last one of a host is that one, or one for another host. -/
theorem lastWrite_concat {writes : List SecretsWrite} {new write : SecretsWrite} {i : ℕ}
    (h : LastWrite (writes ++ [new]) i write) :
    write = new ∨ LastWrite writes i write ∧ write.hostId ≠ new.hostId := by
  rcases getElem?_concat_some h.found with hfound | ⟨-, hnew⟩
  · have hlt : i < writes.length := (List.getElem?_eq_some_iff.mp hfound).1
    refine .inr ⟨⟨hfound, fun j other hj hother => ?_⟩, fun hsame => ?_⟩
    · exact h.last j other hj (getElem?_concat_of_some hother)
    · exact h.last writes.length new hlt List.getElem?_concat_length hsame.symm
  · exact .inl hnew

theorem Follows.request (h : s.Follows) (hostId : JsString) (request : SecretsRequest) :
    (s.request hostId request).Follows := by
  constructor
  case underWay =>
    intro write hwrite
    rcases List.mem_append.mp hwrite with hmem | hmem
    · exact h.underWay write hmem
    · obtain rfl := List.mem_singleton.mp hmem
      exact .inl rfl
  case memory =>
    intro i write hlast
    refine (get?_withRecord s hostId write.hostId request.record).trans ?_
    rcases lastWrite_concat hlast with rfl | ⟨hold, hne⟩
    · exact if_pos rfl
    · rw [if_neg hne]
      exact h.memory i write hold
  case entry =>
    intro i write hlast
    rcases lastWrite_concat hlast with rfl | ⟨hold, -⟩
    · exact .inl (pending_persist hostId request)
    · exact h.entry i write hold

/-- A call that may take effect leaves the entry of the last request as it is, or comes before the
call of that request. -/
theorem entry_advance {ρ : Type} {p : KeychainProgram ρ} {k : Keychain} {fails : Bool}
    {write : SecretsWrite}
    (horder : ∀ c values, p.pending = some c → fails = false →
      c.entryWritten = some (write.hostId, values) →
      write.Pending ∨ k.HasEntry write.hostId values)
    (hentry : write.Pending ∨ k.HasEntry write.hostId write.request.entry) :
    write.Pending ∨
      (p.advance KeychainCall.execute fails k).1.HasEntry write.hostId write.request.entry := by
  by_cases hpending : write.Pending
  · exact .inl hpending
  have hholds := hentry.resolve_left hpending
  refine .inr ?_
  cases p with
  | ret value => exact hholds
  | throw => exact hholds
  | call c next =>
    cases fails with
    | true => exact hholds
    | false =>
      show (c.execute k).1.HasEntry write.hostId write.request.entry
      by_cases hwrites : ∃ values, c.entryWritten = some (write.hostId, values)
      · obtain ⟨values, hvalues⟩ := hwrites
        have hsame := (horder c values rfl rfl hvalues).resolve_left hpending
        rw [hholds.unique hsame]
        exact hasEntry_execute hvalues
      · exact (hasEntry_execute_other (not_exists.mp hwrites)).mpr hholds

/-- A call that is none of the writes'. -/
theorem Follows.call {s' : SecretsState} {a : SecretsAction} {ρ : Type} (h : s.Follows)
    (p : KeychainProgram ρ) (fails : Bool) (horder : s.InOrder a)
    (heffect : ∀ c, p.pending = some c → s.effect a = some (c, fails))
    (hwrites : s'.writes = s.writes) (hmemory : s'.secretsByHostId = s.secretsByHostId)
    (hkeychain : s'.keychain = (p.advance KeychainCall.execute fails s.keychain).1) :
    s'.Follows := by
  constructor
  case underWay => exact hwrites ▸ h.underWay
  case memory => exact hmemory ▸ hwrites ▸ h.memory
  case entry =>
    intro i write hlast
    rw [hwrites] at hlast
    rw [hkeychain]
    refine entry_advance (fun c values hpending hfails hwritten => ?_) (h.entry i write hlast)
    subst hfails
    exact horder.calls c _ values (heffect c hpending) hwritten i write hlast rfl

theorem Follows.hydrationCall {fails : Bool} (h : s.Follows)
    (horder : s.InOrder (.hydrationCall hostId fails)) : (s.hydrationCall hostId fails).Follows := by
  unfold SecretsState.hydrationCall
  split
  · rename_i rest hrest
    refine h.call rest fails horder (fun c hpending => ?_) rfl rfl rfl
    simp only [effect, hrest, hpending, Option.map_some]
  · exact h

theorem Follows.cleanupCall {j : ℕ} {fails : Bool} (h : s.Follows)
    (horder : s.InOrder (.cleanupCall j fails)) : (s.cleanupCall j fails).Follows := by
  unfold SecretsState.cleanupCall
  split
  · rename_i rest hrest
    refine h.call rest fails horder (fun c hpending => ?_) rfl rfl rfl
    simp only [effect, hrest, hpending, Option.bind_some, Option.map_some]
  · exact h

/-- After a call of a write, which keeps its host and its request. -/
theorem lastWrite_set {writes : List SecretsWrite} {i j : ℕ} {old write : SecretsWrite}
    {rest : KeychainProgram Unit} (hold : writes[j]? = some old)
    (h : LastWrite (writes.set j { old with rest := rest }) i write) :
    write = { old with rest := rest } ∧ LastWrite writes j old ∨ LastWrite writes i write := by
  have hlast (k : ℕ) (other : SecretsWrite) (hk : i < k) (hother : writes[k]? = some other) :
      other.hostId ≠ write.hostId := by
    by_cases hkj : k = j
    · subst hkj
      obtain rfl := Option.some.inj (hold.symm.trans hother)
      have hne := h.last k { old with rest := rest } hk (getElem?_set_self_of_some hold _)
      exact hne
    · exact h.last k other hk ((List.getElem?_set_ne (Ne.symm hkj)).trans hother)
  rcases getElem?_set_some h.found with ⟨rfl, rfl, -⟩ | ⟨-, hfound⟩
  · exact .inl ⟨rfl, hold, hlast⟩
  · exact .inr ⟨hfound, hlast⟩

theorem Follows.writeCall {j : ℕ} {fails : Bool} (h : s.Follows)
    (horder : s.InOrder (.writeCall j fails)) (htakes : s.TakesEffect (.writeCall j fails)) :
    (s.writeCall j fails).Follows := by
  unfold SecretsState.writeCall
  split
  case h_2 => exact h
  case h_1 old hold =>
  have hcall {c : KeychainCall} (hpending : old.rest.pending = some c) :
      s.effect (.writeCall j fails) = some (c, fails) := by
    simp only [effect, hold, hpending, Option.bind_some, Option.map_some]
  have hentry {i : ℕ} {write : SecretsWrite} (hlast : LastWrite s.writes i write) :
      write.Pending ∨ (old.rest.advance KeychainCall.execute fails s.keychain).1.HasEntry
        write.hostId write.request.entry := by
    refine entry_advance (fun c values hpending hfails hwritten => ?_) (h.entry i write hlast)
    subst hfails
    exact horder.calls c _ values (hcall hpending) hwritten i write hlast rfl
  -- The first call of a request writes its entry, and no later one writes any.
  have hstep : (Spares (old.rest.advance KeychainCall.execute fails s.keychain).2) ∧
      (old.Pending → (old.rest.advance KeychainCall.execute fails s.keychain).1.HasEntry
        old.hostId old.request.entry) := by
    rcases h.underWay old (List.mem_of_getElem? hold) with hstart | hspares
    · obtain ⟨c, next, heq, hwritten, hnext⟩ := persist_eq old.hostId old.request
      have hpending : old.rest.pending = some c := by
        rw [hstart, heq]
        rfl
      cases fails with
      | true =>
        have hnone := htakes c (hcall hpending)
        rw [hwritten] at hnone
        cases hnone
      | false =>
        rw [hstart, heq]
        exact ⟨hnext _, fun _ => hasEntry_execute hwritten⟩
    · refine ⟨hspares.advance, fun hpending => ?_⟩
      obtain ⟨c, hc, hwritten⟩ := Option.bind_eq_some_iff.mp hpending
      have hnone := hspares.pending hc
      rw [hwritten] at hnone
      cases hnone
  constructor
  case underWay =>
    intro write hwrite
    rcases List.mem_or_eq_of_mem_set hwrite with hmem | rfl
    · exact h.underWay write hmem
    · exact .inr hstep.1
  case memory =>
    intro i write hlast
    rcases lastWrite_set hold hlast with ⟨rfl, hlastOld⟩ | hlastOld
    · exact h.memory j old hlastOld
    · exact h.memory i write hlastOld
  case entry =>
    intro i write hlast
    rcases lastWrite_set hold hlast with ⟨rfl, hlastOld⟩ | hlastOld
    · exact .inr ((hentry hlastOld).elim hstep.2 id)
    · exact hentry hlastOld

theorem Follows.finishing (h : s.Follows) (hostId : JsString) : (s.finishing hostId).Follows :=
  ⟨h.underWay, h.memory, h.entry⟩

/-- What a hydration records for a host that was neither set nor cleared. -/
theorem Follows.recordHydrated {values : ConnectionSecretValues} {now : JsString} (h : s.Follows)
    (hunset : hasConnectionSecrets values = true → s.secretsByHostId.get? hostId = none →
      ∀ write ∈ s.writes, write.hostId ≠ hostId) :
    (s.recordHydrated hostId values now).Follows := by
  unfold SecretsState.recordHydrated
  split_ifs with hrecords
  · obtain ⟨hvalues, hnone⟩ := (Bool.and_eq_true _ _).mp hrecords
    have hother := hunset hvalues (Option.isNone_iff_eq_none.mp hnone)
    refine ⟨h.underWay, fun i write hlast => ?_, h.entry⟩
    have hne := hother write (List.mem_of_getElem? hlast.found)
    exact (OrderedMap.get?_set _ _ _ _).trans ((if_neg hne).trans (h.memory i write hlast))
  · exact h

theorem Follows.hydrationThen {now : JsString} (h : s.Follows)
    (horder : s.InOrder (.hydrationThen hostId now)) : (s.hydrationThen hostId now).Follows := by
  unfold SecretsState.hydrationThen
  split
  · rename_i values hrest
    have hloaded : s.loaded hostId = some values := by
      rw [loaded, hrest]
    exact (h.recordHydrated (horder.records hostId now values rfl hloaded)).finishing hostId
  · exact h.finishing hostId
  · exact h

theorem Follows.step {a : SecretsAction} (h : s.Follows) (horder : s.InOrder a)
    (htakes : s.TakesEffect a) : (s.step a).Follows := by
  cases a with
  | hydrateHostSecrets d hostId =>
    show (s.hydrateHostSecrets d hostId).Follows
    unfold SecretsState.hydrateHostSecrets
    split_ifs
    · exact h
    · exact ⟨h.underWay, h.memory, h.entry⟩
  | setHostSecrets d hostId values now => exact h.request hostId _
  | clearHostSecrets hostId => exact h.request hostId .clear
  | clearKeyPassphraseByFingerprint fingerprint =>
    show (s.clearKeyPassphraseByFingerprint fingerprint).Follows
    unfold SecretsState.clearKeyPassphraseByFingerprint
    split_ifs
    · exact ⟨h.underWay, h.memory, h.entry⟩
    · exact h
  | clearIdentityPassphraseById identityId =>
    show (s.clearIdentityPassphraseById identityId).Follows
    unfold SecretsState.clearIdentityPassphraseById
    split_ifs
    · exact h
    · exact ⟨h.underWay, h.memory, h.entry⟩
  | hydrationCall hostId fails => exact h.hydrationCall horder
  | hydrationThen hostId now => exact h.hydrationThen horder
  | hydrationFinally hostId =>
    show (s.hydrationFinally hostId).Follows
    unfold SecretsState.hydrationFinally
    split
    · exact ⟨h.underWay, h.memory, h.entry⟩
    · exact h
  | writeCall i fails => exact h.writeCall horder htakes
  | cleanupCall i fails => exact h.cleanupCall horder

theorem hydrationPromises_of_loaded {values : ConnectionSecretValues}
    (h : s.loaded hostId = some values) :
    s.hydrationPromises.get? hostId = some (.loading (.ret values)) := by
  unfold loaded at h
  split at h
  · rename_i found hfound
    obtain rfl := Option.some.inj h
    exact hfound
  · cases h

/-- The last request of a host is the one that is listed last. -/
theorem lastWrite_of_lastFor {α : Type} {f : SecretsWrite → α} {writes : List SecretsWrite} {v : α}
    (h : OrderedMap.lastFor hostId (writes.map fun write => (write.hostId, f write)) = some v) :
    ∃ i write, LastWrite writes i write ∧ write.hostId = hostId ∧ f write = v := by
  obtain ⟨i, hi, hlast⟩ := OrderedMap.lastFor_getElem? h
  rw [List.getElem?_map] at hi
  obtain ⟨write, hfound, heq⟩ := Option.map_eq_some_iff.mp hi
  obtain ⟨hhost, hvalue⟩ := Prod.mk.inj heq
  refine ⟨i, write, ⟨hfound, fun j other hj hother => ?_⟩, hhost, hvalue⟩
  rw [hhost]
  refine hlast j (other.hostId, f other) hj ?_
  rw [List.getElem?_map, hother, Option.map_some]

theorem exists_last {write : SecretsWrite} {writes : List SecretsWrite} (hwrite : write ∈ writes) :
    ∃ i last, LastWrite writes i last ∧ last.hostId = write.hostId := by
  have hsome : OrderedMap.lastFor write.hostId (writes.map fun w => (w.hostId, w)) ≠ none :=
    fun hnone => OrderedMap.lastFor_eq_none.mp hnone _ (List.mem_map_of_mem hwrite) rfl
  obtain ⟨v, hv⟩ := Option.ne_none_iff_exists'.mp hsome
  obtain ⟨i, last, hlast, hhost, -⟩ := lastWrite_of_lastFor hv
  exact ⟨i, last, hlast, hhost⟩

/-- The call that takes effect is one of the keychain. -/
theorem keychain_step {a : SecretsAction} {c : KeychainCall}
    (heffect : s.effect a = some (c, false)) :
    (s.step a).keychain = (c.execute s.keychain).1 := by
  have hadvance {ρ : Type} {p : KeychainProgram ρ} {fails : Bool}
      (hp : (p.pending.map fun d => (d, fails)) = some (c, false)) :
      (p.advance KeychainCall.execute fails s.keychain).1 = (c.execute s.keychain).1 := by
    obtain ⟨d, hd, heq⟩ := Option.map_eq_some_iff.mp hp
    obtain ⟨rfl, rfl⟩ := Prod.mk.inj heq
    cases p with
    | call d next =>
      obtain rfl := Option.some.inj hd
      rfl
    | ret value => cases hd
    | throw => cases hd
  cases a with
  | hydrationCall hostId fails =>
    simp only [effect] at heffect
    split at heffect
    · rename_i rest hrest
      show (s.hydrationCall hostId fails).keychain = _
      simp only [SecretsState.hydrationCall, hrest]
      exact hadvance heffect
    · cases heffect
  | writeCall i fails =>
    obtain ⟨write, hwrite, hp⟩ := Option.bind_eq_some_iff.mp heffect
    show (s.writeCall i fails).keychain = _
    simp only [SecretsState.writeCall, hwrite]
    exact hadvance hp
  | cleanupCall i fails =>
    obtain ⟨rest, hrest, hp⟩ := Option.bind_eq_some_iff.mp heffect
    show (s.cleanupCall i fails).keychain = _
    simp only [SecretsState.cleanupCall, hrest]
    exact hadvance hp
  | _ => cases heffect

/-- The last request of a host remains the last when a call takes effect, and once its own call is
through, that call does not come back. -/
theorem lastWrite_step {a : SecretsAction} {c : KeychainCall} {fails : Bool} {i : ℕ}
    {write : SecretsWrite} (h : s.Follows) (heffect : s.effect a = some (c, fails))
    (hlast : LastWrite s.writes i write) (hpending : ¬ write.Pending) :
    ∃ write', LastWrite (s.step a).writes i write' ∧ write'.hostId = write.hostId ∧
      write'.request = write.request ∧ ¬ write'.Pending := by
  cases a with
  | hydrationCall hostId fails =>
    refine ⟨write, ?_, rfl, rfl, hpending⟩
    show LastWrite (s.hydrationCall hostId fails).writes i write
    unfold SecretsState.hydrationCall
    split <;> exact hlast
  | cleanupCall j fails =>
    refine ⟨write, ?_, rfl, rfl, hpending⟩
    show LastWrite (s.cleanupCall j fails).writes i write
    unfold SecretsState.cleanupCall
    split <;> exact hlast
  | writeCall j fails =>
    obtain ⟨old, hold, -⟩ := Option.bind_eq_some_iff.mp heffect
    have hwrites : (s.step (.writeCall j fails)).writes = s.writes.set j { old with
        rest := (old.rest.advance KeychainCall.execute fails s.keychain).2 } := by
      simp only [SecretsState.step, SecretsState.writeCall, hold]
    rw [hwrites]
    have hlater (k : ℕ) (other : SecretsWrite) (hk : i < k)
        (hother : (s.writes.set j { old with
          rest := (old.rest.advance KeychainCall.execute fails s.keychain).2 })[k]? = some other) :
        other.hostId ≠ write.hostId := by
      rcases getElem?_set_some hother with ⟨rfl, rfl, -⟩ | ⟨-, hfound⟩
      · exact hlast.last k old hk hold
      · exact hlast.last k other hk hfound
    by_cases hij : i = j
    · subst hij
      obtain rfl := Option.some.inj (hold.symm.trans hlast.found)
      have hspares := (h.underWay old (List.mem_of_getElem? hold)).resolve_left fun hstart =>
        hpending (by
          rw [SecretsWrite.Pending, hstart]
          exact pending_persist old.hostId old.request)
      refine ⟨_, ⟨getElem?_set_self_of_some hold _, hlater⟩, rfl, rfl, fun hagain => ?_⟩
      obtain ⟨d, hd, hwritten⟩ := Option.bind_eq_some_iff.mp hagain
      have hnone := hspares.advance.pending hd
      rw [hwritten] at hnone
      cases hnone
    · exact ⟨write, ⟨(List.getElem?_set_ne (Ne.symm hij)).trans hlast.found, hlater⟩, rfl, rfl,
        hpending⟩
  | _ => cases heffect

/-- A step leaves the last requests followed if and only if it is in order. -/
theorem follows_step_iff {a : SecretsAction} (h : s.Follows) (htakes : s.TakesEffect a) :
    (s.step a).Follows ↔ s.InOrder a := by
  refine ⟨fun hstep => ⟨?_, ?_⟩, fun horder => h.step horder htakes⟩
  · rintro c _ values heffect hwritten i write hlast rfl
    by_cases hpending : write.Pending
    · exact .inl hpending
    have hholds := (h.entry i write hlast).resolve_left hpending
    obtain ⟨write', hlast', hhost, hrequest, hpending'⟩ := lastWrite_step h heffect hlast hpending
    have hafter := (hstep.entry i write' hlast').resolve_left hpending'
    rw [keychain_step heffect, hhost, hrequest] at hafter
    rw [(hasEntry_execute hwritten).unique hafter]
    exact .inr hholds
  · rintro _ now values rfl hloaded hvalues hnone write hwrite rfl
    obtain ⟨i, last, hlast, hhost⟩ := exists_last hwrite
    have hbefore := (h.memory i last hlast).symm.trans (hhost ▸ hnone)
    have hwrites : (s.hydrationThen write.hostId now).writes = s.writes := by
      unfold SecretsState.hydrationThen SecretsState.recordHydrated
      split
      · split_ifs <;> rfl
      · rfl
      · rfl
    have hafter := hstep.memory i last (hwrites.symm ▸ hlast)
    rw [hbefore, hhost] at hafter
    have hrecorded : (s.hydrationThen write.hostId now).secretsByHostId.get? write.hostId =
        some ⟨values, now⟩ := by
      unfold SecretsState.hydrationThen
      rw [hydrationPromises_of_loaded hloaded]
      simp only [SecretsState.recordHydrated, hvalues, hnone, Option.isNone_none, Bool.and_self,
        if_true]
      exact OrderedMap.get?_set_self _ _ _
    rw [show (s.step (.hydrationThen write.hostId now)).secretsByHostId.get? write.hostId =
      some ⟨values, now⟩ from hrecorded] at hafter
    cases hafter

theorem follows_started (keychain : Keychain) : (started keychain).Follows :=
  ⟨nofun, fun _ _ h => (nomatch h.found), fun _ _ h => nomatch h.found⟩

/-- Along a run the last requests are followed in every state if and only if every step is in
order. -/
theorem follows_run_iff {keychain : Keychain} {actions : List SecretsAction}
    (htakes : Allowed SecretsState.step TakesEffect (started keychain) actions) :
    (∀ first, first <+: actions → (run SecretsState.step (started keychain) first).Follows) ↔
      Allowed SecretsState.step InOrder (started keychain) actions := by
  constructor
  · intro h
    refine allowed_iff.mpr fun first a hfirst => ?_
    have hbefore := h first ((List.prefix_append first [a]).trans hfirst)
    refine (follows_step_iff hbefore (allowed_iff.mp htakes first a hfirst)).mp ?_
    have hafter := h (first ++ [a]) hfirst
    rwa [run_append] at hafter
  · intro horder first hfirst
    exact run_invariant (fun s a h hboth => Follows.step h hboth.2 hboth.1)
      (follows_started keychain) ((htakes.of_prefix hfirst).and (horder.of_prefix hfirst))

/-- Each set or clear is listed when it is asked for. -/
theorem requests_step (s : SecretsState) (a : SecretsAction) :
    (s.step a).writes.map (fun write => (write.hostId, write.request)) =
      s.writes.map (fun write => (write.hostId, write.request)) ++ a.asked.toList := by
  cases a with
  | hydrateHostSecrets d hostId =>
    simp only [SecretsState.step, SecretsState.hydrateHostSecrets, SecretsAction.asked,
      Option.toList_none, List.append_nil]
    split_ifs <;> rfl
  | setHostSecrets d hostId values now => exact List.map_append
  | clearHostSecrets hostId => exact List.map_append
  | clearKeyPassphraseByFingerprint fingerprint =>
    simp only [SecretsState.step, clearKeyPassphraseByFingerprint, SecretsAction.asked,
      Option.toList_none, List.append_nil]
    split_ifs <;> rfl
  | clearIdentityPassphraseById identityId =>
    simp only [SecretsState.step, clearIdentityPassphraseById, SecretsAction.asked,
      Option.toList_none, List.append_nil]
    split_ifs <;> rfl
  | hydrationCall hostId fails =>
    simp only [SecretsState.step, SecretsState.hydrationCall, SecretsAction.asked,
      Option.toList_none, List.append_nil]
    split <;> rfl
  | hydrationThen hostId now =>
    simp only [SecretsState.step, SecretsState.hydrationThen, SecretsState.recordHydrated,
      SecretsAction.asked, Option.toList_none, List.append_nil]
    split
    · split_ifs <;> rfl
    · rfl
    · rfl
  | hydrationFinally hostId =>
    simp only [SecretsState.step, hydrationFinally, SecretsAction.asked, Option.toList_none,
      List.append_nil]
    split <;> rfl
  | writeCall i fails =>
    simp only [SecretsState.step, SecretsState.writeCall, SecretsAction.asked, Option.toList_none,
      List.append_nil]
    split
    · rename_i write hwrite
      exact map_set_of_some hwrite rfl
    · rfl
  | cleanupCall i fails =>
    simp only [SecretsState.step, SecretsState.cleanupCall, SecretsAction.asked,
      Option.toList_none, List.append_nil]
    split <;> rfl

theorem requests_run (s : SecretsState) (actions : List SecretsAction) :
    (run SecretsState.step s actions).writes.map (fun write => (write.hostId, write.request)) =
      s.writes.map (fun write => (write.hostId, write.request)) ++
        actions.filterMap SecretsAction.asked := by
  induction actions generalizing s with
  | nil => exact (List.append_nil _).symm
  | cons a actions ih =>
    rw [run_cons, ih, requests_step, List.append_assoc]
    cases hasked : a.asked with
    | none => rw [List.filterMap_cons_none hasked, Option.toList_none, List.nil_append]
    | some request => rw [List.filterMap_cons_some hasked, Option.toList_some, List.singleton_append]

theorem exists_lastWrite (keychain : Keychain) {actions : List SecretsAction}
    {request : SecretsRequest} (h : lastRequest hostId actions = some request) :
    ∃ i write, LastWrite (run SecretsState.step (started keychain) actions).writes i write ∧
      write.hostId = hostId ∧ write.request = request := by
  have hwrites := requests_run (started keychain) actions
  rw [show (started keychain).writes = [] from rfl, List.map_nil, List.nil_append] at hwrites
  rw [lastRequest, ← hwrites] at h
  exact lastWrite_of_lastFor h

end SecretsState

/-- Once nothing is under way, memory and the keychain hold for each host what its last set or
clear asks for, provided that every call that writes an entry takes effect, and that none does so
after that of the last request, and no hydration records secrets for a host set or cleared. -/
theorem lastAction_run (keychain : Keychain) (actions : List SecretsAction) (hostId : JsString)
    (request : SecretsRequest)
    (htakes : Allowed SecretsState.step SecretsState.TakesEffect (started keychain) actions)
    (horder : Allowed SecretsState.step SecretsState.InOrder (started keychain) actions)
    (hsettled : (run SecretsState.step (started keychain) actions).Settled)
    (hlast : lastRequest hostId actions = some request) :
    (run SecretsState.step (started keychain) actions).secretsByHostId.get? hostId =
        request.record ∧
      (run SecretsState.step (started keychain) actions).keychain.HasEntry hostId
        request.entry := by
  have hfollows := (SecretsState.follows_run_iff htakes).mpr horder actions List.prefix_rfl
  obtain ⟨i, write, hwrite, rfl, rfl⟩ := SecretsState.exists_lastWrite keychain hlast
  refine ⟨hfollows.memory i write hwrite, (hfollows.entry i write hwrite).resolve_left ?_⟩
  intro hpending
  have hnone := hsettled.writes write (List.mem_of_getElem? hwrite.found)
  rw [SecretsWrite.Pending, hnone] at hpending
  cases hpending

section Resurrected

def emptyDirectory : Directory := ⟨[], [], []⟩

/-- A keychain with the password of a host. -/
def savedKeychain : Keychain :=
  ⟨OrderedMap.empty.set (js "host-1") (js "saved"), .empty, .empty, .empty⟩

/-- The editor of a host asks for its secrets, and the user sets a password before they are there. -/
def setMeanwhile : List SecretsAction :=
  [.hydrateHostSecrets emptyDirectory (js "host-1"), .hydrationCall (js "host-1") false,
    .setHostSecrets emptyDirectory (js "host-1") ⟨js "new", []⟩ (js "t1"), .writeCall 0 false,
    .hydrationThen (js "host-1") (js "t2"), .hydrationFinally (js "host-1")]

/-- The host is deleted before its secrets are there. -/
def deletedMeanwhile : List SecretsAction :=
  [.hydrateHostSecrets emptyDirectory (js "host-1"), .hydrationCall (js "host-1") false,
    .clearHostSecrets (js "host-1"), .writeCall 0 false,
    .hydrationThen (js "host-1") (js "t2"), .hydrationFinally (js "host-1")]

/-- No call of an action fails. -/
def SecretsAction.succeeds : SecretsAction → Bool
  | .hydrationCall _ fails | .writeCall _ fails | .cleanupCall _ fails => !fails
  | _ => true

theorem takesEffect_of_succeeds {s : SecretsState} {a : SecretsAction} (h : a.succeeds = true) :
    s.TakesEffect a := by
  intro c heffect
  cases a with
  | hydrationCall hostId fails =>
    simp only [SecretsState.effect] at heffect
    split at heffect
    · obtain ⟨d, -, heq⟩ := Option.map_eq_some_iff.mp heffect
      obtain ⟨-, rfl⟩ := Prod.mk.inj heq
      cases h
    · cases heffect
  | writeCall i fails =>
    obtain ⟨write, -, hp⟩ := Option.bind_eq_some_iff.mp heffect
    obtain ⟨d, -, heq⟩ := Option.map_eq_some_iff.mp hp
    obtain ⟨-, rfl⟩ := Prod.mk.inj heq
    cases h
  | cleanupCall i fails =>
    obtain ⟨rest, -, hp⟩ := Option.bind_eq_some_iff.mp heffect
    obtain ⟨d, -, heq⟩ := Option.map_eq_some_iff.mp hp
    obtain ⟨-, rfl⟩ := Prod.mk.inj heq
    cases h
  | _ => cases heffect

theorem allowed_of_succeeds {s : SecretsState} {actions : List SecretsAction}
    (h : ∀ a ∈ actions, a.succeeds = true) :
    Allowed SecretsState.step SecretsState.TakesEffect s actions := by
  induction actions generalizing s with
  | nil => trivial
  | cons a actions ih =>
    exact ⟨takesEffect_of_succeeds (h a List.mem_cons_self),
      ih fun b hb => h b (List.mem_cons_of_mem a hb)⟩

theorem settled_of_checks {s : SecretsState} (hhydrations : s.hydrationPromises.keys = [])
    (hwrites : s.writes.all (·.rest.pending.isNone) = true) (hcleanups : s.cleanups = []) :
    s.Settled := by
  refine ⟨fun hostId => ?_, fun write hwrite => ?_, fun rest hrest => ?_⟩
  · have hnot : hostId ∉ s.hydrationPromises.keys := by
      rw [hhydrations]
      exact List.not_mem_nil
    rw [OrderedMap.mem_keys_iff] at hnot
    exact Option.not_isSome_iff_eq_none.mp hnot
  · exact Option.isNone_iff_eq_none.mp (List.all_eq_true.mp hwrites write hwrite)
  · rw [hcleanups] at hrest
    cases hrest

theorem settled_setMeanwhile :
    (run SecretsState.step (started savedKeychain) setMeanwhile).Settled :=
  settled_of_checks (by decide +kernel) (by decide +kernel) (by rfl)

theorem settled_deletedMeanwhile :
    (run SecretsState.step (started savedKeychain) deletedMeanwhile).Settled :=
  settled_of_checks (by decide +kernel) (by decide +kernel) (by rfl)

/-- An action lets no call take effect that writes an entry, and records nothing. -/
theorem inOrder_of_spared {s : SecretsState} {a : SecretsAction}
    (hcall : (s.effect a).bind (·.1.entryWritten) = none)
    (hrecord : ∀ hostId now, a = .hydrationThen hostId now →
      (s.secretsByHostId.get? hostId).isSome = true) : s.InOrder a := by
  constructor
  · intro c hostId values heffect hwritten
    rw [heffect, Option.bind_some, hwritten] at hcall
    cases hcall
  · intro hostId now values ha _ _ hnone
    have hsome := hrecord hostId now ha
    rw [hnone] at hsome
    cases hsome

/-- The call of a request that no other one follows. -/
theorem inOrder_of_pending {s : SecretsState} {i : ℕ} {fails : Bool}
    (h : ∀ write ∈ s.writes, write.Pending) : s.InOrder (.writeCall i fails) :=
  ⟨fun _ _ _ _ _ _ write hlast _ => .inl (h write (List.mem_of_getElem? hlast.found)), nofun⟩

theorem lastAction_setMeanwhile :
    (run SecretsState.step (started savedKeychain) setMeanwhile).secretsByHostId.get?
        (js "host-1") = some ⟨⟨js "new", []⟩, js "t1"⟩ ∧
      (run SecretsState.step (started savedKeychain) setMeanwhile).keychain.HasEntry
        (js "host-1") ⟨js "new", []⟩ :=
  lastAction_run savedKeychain setMeanwhile (js "host-1")
    (.set ⟨js "new", []⟩ ⟨none, none⟩ (js "t1")) (allowed_of_succeeds (by decide))
    ⟨inOrder_of_spared rfl nofun, inOrder_of_spared (by decide +kernel) nofun,
      inOrder_of_spared rfl nofun, inOrder_of_pending (by decide +kernel),
      inOrder_of_spared rfl (by rintro _ _ ⟨rfl, rfl⟩; decide +kernel),
      inOrder_of_spared rfl nofun, trivial⟩
    settled_setMeanwhile (by decide +kernel)

/-- The password of a host that was deleted while a hydration had it in hand is back in memory. -/
theorem not_every_last_action_followed :
    ¬ ∀ (keychain : Keychain) (actions : List SecretsAction) (hostId : JsString)
      (request : SecretsRequest),
      Allowed SecretsState.step SecretsState.TakesEffect (started keychain) actions →
      (run SecretsState.step (started keychain) actions).Settled →
      lastRequest hostId actions = some request →
      (run SecretsState.step (started keychain) actions).secretsByHostId.get? hostId =
          request.record ∧
        (run SecretsState.step (started keychain) actions).keychain.HasEntry hostId
          request.entry := by
  intro h
  have hmemory := (h savedKeychain deletedMeanwhile (js "host-1") .clear
    (allowed_of_succeeds (by decide)) settled_deletedMeanwhile (by decide +kernel)).1
  revert hmemory
  decide +kernel

end Resurrected
end SecretsStore
