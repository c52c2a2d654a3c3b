import Mathlib.Data.List.Perm.Basic
import TerminalWorkspace.Inventory.SerialText

/-! Records that serialise alike. All their fields are the same, and the environment of a
host as a map. -/
namespace Inventory
open JsText PrefixFree

section Value
variable {p : Platform}

theorem serialize_eq {v w : JsonValue} (h : stableSerialize p v = stableSerialize p w) :
    v.kind = w.kind :=
  kind_eq (congrArg (· ++ []) h)

@[simp] theorem serialize_string_iff {s t : JsString} :
    stableSerialize p (.string s) = stableSerialize p (.string t) ↔ s = t := by
  constructor
  · intro h
    exact (quote_eq (congrArg (· ++ []) h)).1
  · rintro rfl
    rfl

@[simp] theorem serialize_number_iff {m n : ℤ} :
    stableSerialize p (.number m) = stableSerialize p (.number n) ↔ m = n :=
  numberText_injective.eq_iff

@[simp] theorem serialize_bool_iff {b c : Bool} :
    stableSerialize p (.bool b) = stableSerialize p (.bool c) ↔ b = c := by
  constructor
  · intro h
    exact JsonKind.bool.inj (serialize_eq h)
  · rintro rfl
    rfl

theorem serializeItems_strings (p : Platform) (items : List JsString) :
    serializeItems p (items.map .string) = items.map quote := by
  induction items with
  | nil => rfl
  | cons item items ih =>
    rw [List.map_cons, serializeItems, ih]
    rfl

theorem quote_injective : Function.Injective quote :=
  fun _ _ h => (quote_eq (congrArg (· ++ []) h)).1

@[simp] theorem serialize_stringArray_iff {items others : List JsString} :
    stableSerialize p (stringArray items) = stableSerialize p (stringArray others) ↔
      items = others := by
  constructor
  · intro h
    have hitems := (items_eq (readAlone_items p _) (congrArg (· ++ []) h)).1
    rw [serializeItems_strings, serializeItems_strings] at hitems
    exact List.map_injective_iff.mpr quote_injective hitems
  · rintro rfl
    rfl

theorem serializeEntries_eq_map (p : Platform) (entries : List (JsString × JsonValue)) :
    serializeEntries p entries = entries.map fun e => (e.1, stableSerialize p e.2) := by
  induction entries with
  | nil => rfl
  | cons e entries ih => rw [serializeEntries, ih, List.map_cons]

/-- Objects that serialise alike have the same entries, in some order. -/
theorem entries_perm {entries others : List (JsString × JsonValue)}
    (h : stableSerialize p (.object entries) = stableSerialize p (.object others)) :
    (serializeEntries p entries).Perm (serializeEntries p others) := by
  have hsorted := (entries_eq (readAlone_entries p entries) (congrArg (· ++ []) h)).1
  have hperm := sortBy_perm (fun l r => p.localeCompare l.1 r.1) (serializeEntries p entries)
  rw [← sortedEntries, hsorted] at hperm
  exact hperm.symm.trans (sortBy_perm _ _)

/-- The entries of a string map. -/
def stringEntries (m : OrderedMap JsString JsString) : List (JsString × JsonValue) :=
  m.entries.map fun e => (e.1, .string e.2)

theorem stringEntries_perm {m n : OrderedMap JsString JsString}
    (h : stableSerialize p (.object (stringEntries m)) =
      stableSerialize p (.object (stringEntries n))) : m.entries.Perm n.entries := by
  have hinj : Function.Injective fun e : JsString × JsString =>
      (e.1, stableSerialize p (.string e.2)) := by
    rintro ⟨k, u⟩ ⟨l, v⟩ heq
    obtain ⟨hkey, htext⟩ := Prod.mk.inj heq
    exact Prod.ext hkey (serialize_string_iff.mp htext)
  have hperm := entries_perm h
  simp only [serializeEntries_eq_map, stringEntries, List.map_map] at hperm
  exact (List.map_perm_map_iff hinj).mp hperm

end Value

section Fields
variable {κ ν : Type*}

/-- The fields that are there. -/
def present (fields : List (κ × Option ν)) : List (κ × ν) :=
  fields.filterMap fun f => f.2.map fun v => (f.1, v)

theorem present_append (fields others : List (κ × Option ν)) :
    present (fields ++ others) = present fields ++ present others := List.filterMap_append

theorem present_key {fields : List (κ × Option ν)} {e : κ × ν} (h : e ∈ present fields) :
    e.1 ∈ fields.map Prod.fst := by
  obtain ⟨f, hf, he⟩ := List.mem_filterMap.mp h
  obtain ⟨v, -, rfl⟩ := Option.map_eq_some_iff.mp he
  exact List.mem_map_of_mem hf

/-- Fields under distinct keys are known from those that are there, in whatever order. -/
theorem fields_eq {fields others : List (κ × Option ν)}
    (hkeys : fields.map Prod.fst = others.map Prod.fst) (hnodup : (fields.map Prod.fst).Nodup)
    (h : (present fields).Perm (present others)) : fields = others := by
  induction fields generalizing others with
  | nil => exact (List.map_eq_nil_iff.mp hkeys.symm).symm
  | cons f fields ih =>
    obtain ⟨k, o⟩ := f
    cases others with
    | nil => cases hkeys
    | cons f' others =>
      obtain ⟨k', o'⟩ := f'
      obtain ⟨rfl, hrest⟩ : k = k' ∧ fields.map Prod.fst = others.map Prod.fst :=
        List.cons.inj hkeys
      obtain ⟨hnew, hdistinct⟩ := List.nodup_cons.mp hnodup
      have hnew' : k ∉ others.map Prod.fst := hrest ▸ hnew
      cases o with
      | none =>
        cases o' with
        | none => rw [ih hrest hdistinct h]
        | some v =>
          have hmem : (k, v) ∈ present fields := h.symm.subset List.mem_cons_self
          exact absurd (present_key hmem) hnew
      | some u =>
        cases o' with
        | none =>
          have hmem : (k, u) ∈ present others := h.subset List.mem_cons_self
          exact absurd (present_key hmem) hnew'
        | some v =>
          have hmem : (k, u) ∈ (k, v) :: present others := h.subset List.mem_cons_self
          rcases List.mem_cons.mp hmem with heq | hmem
          · obtain rfl := (Prod.mk.inj heq).2
            rw [ih hrest hdistinct h.cons_inv]
          · exact absurd (present_key hmem) hnew'

end Fields

section Records
variable {p : Platform}

/-- The text of an optional property, if it has one. -/
def Optional.serialized : Optional JsString → Option JsString
  | .absent => none
  | .undefined => some (js "undefined")
  | .value s => some (quote s)

theorem Optional.serialized_injective : Function.Injective Optional.serialized := by
  have hquote (s : JsString) : js "undefined" ≠ quote s := by
    intro h
    exact absurd (List.head_eq_of_cons_eq h) (by decide)
  intro a b h
  cases a <;> cases b <;> simp [Optional.serialized, hquote, (hquote _).symm] at h ⊢
  exact quote_injective h

/-- A field that is always there. -/
def required (p : Platform) (key : String) (value : JsonValue) : JsString × Option JsString :=
  (js key, some (stableSerialize p value))

def optional (key : String) (value : Optional JsString) : JsString × Option JsString :=
  (js key, value.serialized)

theorem present_optional (p : Platform) (key : String) (value : Optional JsString) :
    present [optional key value] = serializeEntries p (optionalEntry key value) := by
  cases value <;> rfl

theorem serializeEntries_append (p : Platform) (es fs : List (JsString × JsonValue)) :
    serializeEntries p (es ++ fs) = serializeEntries p es ++ serializeEntries p fs := by
  simp [serializeEntries_eq_map]

/-- Records that serialise alike have the same fields, if the fields are what is serialised. -/
theorem fields_of_serialize {α : Type} [VaultRecord α]
    {fields : α → List (JsString × Option JsString)}
    (hpresent : ∀ a, ∃ es, VaultRecord.toJson a = .object es ∧
      serializeEntries p es = present (fields a))
    (hkeys : ∀ a b, (fields a).map Prod.fst = (fields b).map Prod.fst)
    (hnodup : ∀ a, ((fields a).map Prod.fst).Nodup) {a b : α}
    (h : stableSerialize p (VaultRecord.toJson a) = stableSerialize p (VaultRecord.toJson b)) :
    fields a = fields b := by
  obtain ⟨es, ha, hes⟩ := hpresent a
  obtain ⟨fs, hb, hfs⟩ := hpresent b
  rw [ha, hb] at h
  have hperm := entries_perm h
  rw [hes, hfs] at hperm
  exact fields_eq (hkeys a b) (hnodup a) hperm

theorem KeyAlgorithm.text_injective : Function.Injective KeyAlgorithm.text := by
  intro a b
  cases a <;> cases b <;> decide

theorem KeySource.text_injective : Function.Injective KeySource.text := by
  intro a b
  cases a <;> cases b <;> decide

theorem HostAuthMethod.text_injective : Function.Injective HostAuthMethod.text := by
  intro a b
  cases a <;> cases b <;> decide

theorem HostProtocol.text_injective : Function.Injective HostProtocol.text := by
  intro a b
  cases a <;> cases b <;> decide

theorem HostKeyPolicy.text_injective : Function.Injective HostKeyPolicy.text := by
  intro a b
  cases a <;> cases b <;> decide

theorem IdentitySource.text_injective : Function.Injective IdentitySource.text := by
  intro a b
  cases a <;> cases b <;> decide

def KeyRecord.fields (p : Platform) (key : KeyRecord) : List (JsString × Option JsString) :=
  [required p "id" (.string key.id), required p "label" (.string key.label),
    required p "algorithm" (.string (js key.algorithm.text)), required p "bits" (.number key.bits),
    required p "fingerprint" (.string key.fingerprint), required p "comment" (.string key.comment),
    required p "privateKeyPath" (.string key.privateKeyPath),
    required p "source" (.string (js key.source.text)),
    required p "hasPassphrase" (.bool key.hasPassphrase),
    required p "assignedHostIds" (stringArray key.assignedHostIds),
    required p "createdAt" (.string key.createdAt), required p "updatedAt" (.string key.updatedAt),
    optional "publicKeyPath" key.publicKeyPath]

theorem KeyRecord.ext_serialize {key other : KeyRecord}
    (h : stableSerialize p (VaultRecord.toJson key) = stableSerialize p (VaultRecord.toJson other)) :
    key = other := by
  have hfields : key.fields p = other.fields p := by
    refine fields_of_serialize (fun key => ⟨_, rfl, ?_⟩) (fun _ _ => rfl) (fun key => ?_) h
    · rw [serializeEntries_append, ← present_optional]
      rfl
    · simp [KeyRecord.fields, required, optional, js_injective.eq_iff]
  simp only [KeyRecord.fields, required, optional, List.cons.injEq, Prod.mk.injEq, true_and,
    Option.some.injEq, serialize_string_iff, serialize_number_iff, serialize_bool_iff,
    serialize_stringArray_iff, js_injective.eq_iff, KeyAlgorithm.text_injective.eq_iff,
    KeySource.text_injective.eq_iff, Optional.serialized_injective.eq_iff, and_true] at hfields
  cases key
  cases other
  simp_all

def SnippetRecord.fields (p : Platform) (snippet : SnippetRecord) :
    List (JsString × Option JsString) :=
  [required p "id" (.string snippet.id), required p "title" (.string snippet.title),
    required p "description" (.string snippet.description),
    required p "command" (.string snippet.command), required p "tags" (stringArray snippet.tags),
    required p "targetHostIds" (stringArray snippet.targetHostIds),
    required p "createdAt" (.string snippet.createdAt),
    required p "updatedAt" (.string snippet.updatedAt), optional "lastRunAt" snippet.lastRunAt]

theorem SnippetRecord.ext_serialize {snippet other : SnippetRecord}
    (h : stableSerialize p (VaultRecord.toJson snippet) =
      stableSerialize p (VaultRecord.toJson other)) : snippet = other := by
  have hfields : snippet.fields p = other.fields p := by
    refine fields_of_serialize (fun snippet => ⟨_, rfl, ?_⟩) (fun _ _ => rfl) (fun snippet => ?_) h
    · rw [serializeEntries_append, ← present_optional]
      rfl
    · simp [SnippetRecord.fields, required, optional, js_injective.eq_iff]
  simp only [SnippetRecord.fields, required, optional, List.cons.injEq, Prod.mk.injEq, true_and,
    Option.some.injEq, serialize_string_iff, serialize_stringArray_iff,
    Optional.serialized_injective.eq_iff, and_true] at hfields
  cases snippet
  cases other
  simp_all

def KnownHostRecord.fields (p : Platform) (knownHost : KnownHostRecord) :
    List (JsString × Option JsString) :=
  [required p "id" (.string knownHost.id), required p "hostname" (.string knownHost.hostname),
    required p "port" (.number knownHost.port),
    required p "algorithm" (.string knownHost.algorithm),
    required p "publicKey" (.string knownHost.publicKey),
    required p "fingerprint" (.string knownHost.fingerprint),
    required p "trustedAt" (.string knownHost.trustedAt),
    required p "updatedAt" (.string knownHost.updatedAt)]

theorem KnownHostRecord.ext_serialize {knownHost other : KnownHostRecord}
    (h : stableSerialize p (VaultRecord.toJson knownHost) =
      stableSerialize p (VaultRecord.toJson other)) : knownHost = other := by
  have hfields : knownHost.fields p = other.fields p := by
    refine fields_of_serialize (fun knownHost => ⟨_, rfl, rfl⟩) (fun _ _ => rfl) (fun knownHost => ?_) h
    simp [KnownHostRecord.fields, required, js_injective.eq_iff]
  simp only [KnownHostRecord.fields, required, List.cons.injEq, Prod.mk.injEq, true_and,
    Option.some.injEq, serialize_string_iff, serialize_number_iff, and_true] at hfields
  cases knownHost
  cases other
  simp_all

def IdentityRecord.fields (p : Platform) (identity : IdentityRecord) :
    List (JsString × Option JsString) :=
  [required p "id" (.string identity.id), required p "label" (.string identity.label),
    required p "username" (.string identity.username),
    required p "authMethod" (.string (js identity.authMethod.text)),
    required p "privateKeyPath" (.string identity.privateKeyPath),
    required p "hasPassphrase" (.bool identity.hasPassphrase),
    required p "comment" (.string identity.comment),
    required p "source" (.string (js identity.source.text)),
    required p "createdAt" (.string identity.createdAt),
    required p "updatedAt" (.string identity.updatedAt), optional "keyId" identity.keyId]

theorem IdentityRecord.ext_serialize {identity other : IdentityRecord}
    (h : stableSerialize p (VaultRecord.toJson identity) =
      stableSerialize p (VaultRecord.toJson other)) : identity = other := by
  have hfields : identity.fields p = other.fields p := by
    refine fields_of_serialize (fun identity => ⟨_, rfl, ?_⟩) (fun _ _ => rfl)
      (fun identity => ?_) h
    · rw [serializeEntries_append, ← present_optional]
      rfl
    · simp [IdentityRecord.fields, required, optional, js_injective.eq_iff]
  simp only [IdentityRecord.fields, required, optional, List.cons.injEq, Prod.mk.injEq, true_and,
    Option.some.injEq, serialize_string_iff, serialize_bool_iff, js_injective.eq_iff,
    HostAuthMethod.text_injective.eq_iff, IdentitySource.text_injective.eq_iff,
    Optional.serialized_injective.eq_iff, and_true] at hfields
  cases identity
  cases other
  simp_all

def HostRecord.fields (p : Platform) (host : HostRecord) : List (JsString × Option JsString) :=
  [required p "id" (.string host.id), required p "label" (.string host.label),
    required p "protocol" (.string (js host.protocol.text)),
    required p "hostname" (.string host.hostname), required p "username" (.string host.username),
    required p "port" (.number host.port),
    required p "authMethod" (.string (js host.authMethod.text)),
    required p "privateKeyPath" (.string host.privateKeyPath),
    required p "group" (.string host.group), required p "tags" (stringArray host.tags),
    required p "note" (.string host.note), required p "favorite" (.bool host.favorite),
    required p "keyLabel" (.string host.keyLabel),
    required p "hostKeyPolicy" (.string (js host.hostKeyPolicy.text)),
    required p "agentForwarding" (.bool host.agentForwarding),
    required p "environment" (.object (stringEntries host.environment)),
    required p "sftpRoot" (.string host.sftpRoot),
    required p "snippetCount" (.number host.snippetCount),
    required p "forwardingCount" (.number host.forwardingCount),
    required p "createdAt" (.string host.createdAt),
    required p "updatedAt" (.string host.updatedAt), optional "jumpHostId" host.jumpHostId,
    optional "lastConnectedAt" host.lastConnectedAt, optional "identityId" host.identityId]

/-- Hosts that serialise alike differ at most in the order of their environment. -/
theorem HostRecord.ext_serialize {host other : HostRecord}
    (h : stableSerialize p (VaultRecord.toJson host) = stableSerialize p (VaultRecord.toJson other)) :
    { host with environment := other.environment } = other ∧
      host.environment.entries.Perm other.environment.entries := by
  have hfields : host.fields p = other.fields p := by
    refine fields_of_serialize (fun host => ⟨_, rfl, ?_⟩) (fun _ _ => rfl) (fun host => ?_) h
    · have hsplit : host.fields p = (host.fields p).take 21 ++ [optional "jumpHostId" host.jumpHostId] ++
          [optional "lastConnectedAt" host.lastConnectedAt] ++
          [optional "identityId" host.identityId] := rfl
      rw [hsplit, present_append, present_append, present_append]
      simp only [serializeEntries_append, present_optional p]
      rfl
    · simp [HostRecord.fields, required, optional, js_injective.eq_iff]
  simp only [HostRecord.fields, required, optional, List.cons.injEq, Prod.mk.injEq, true_and,
    Option.some.injEq, serialize_string_iff, serialize_number_iff, serialize_bool_iff,
    serialize_stringArray_iff, js_injective.eq_iff, HostProtocol.text_injective.eq_iff,
    HostAuthMethod.text_injective.eq_iff, HostKeyPolicy.text_injective.eq_iff,
    Optional.serialized_injective.eq_iff, and_true] at hfields
  obtain ⟨hid, hlabel, hprotocol, hhostname, husername, hport, hauth, hpath, hgroup, htags, hnote,
    hfavorite, hkeyLabel, hpolicy, hforwarding, henvironment, hsftp, hsnippets, hforwards, hcreated,
    hupdated, hjump, hconnected, hidentity⟩ := hfields
  refine ⟨?_, stringEntries_perm henvironment⟩
  simp only [hid, hlabel, hprotocol, hhostname, husername, hport, hauth, hpath, hgroup, htags,
    hnote, hfavorite, hkeyLabel, hpolicy, hforwarding, hsftp, hsnippets, hforwards, hcreated,
    hupdated, hjump, hconnected, hidentity]

end Records
end Inventory
