import TerminalWorkspace.Inventory.RecordText
import TerminalWorkspace.Inventory.Serialization

/-! The order and the normal form of a host collection. -/
namespace Inventory
open JsText
open RecordFile (trim)

/-- Lower case as far as a comparison with an ASCII word can tell. -/
def asciiLower : CodePoint → CodePoint
  | .scalar c => .scalar c.toLower
  | c => c

def normalizeTags (tags : List JsString) : List JsString :=
  tags.filter fun tag =>
    let name := trim isSpace tag
    name ≠ [] && name.map asciiLower ≠ js "favorite"

/-- The environment's values are strings already; a blank key is dropped. -/
def normalizeEnvironment (environment : OrderedMap JsString JsString) :
    OrderedMap JsString JsString :=
  OrderedMap.ofList ((environment.entries.map fun e => (trim isSpace e.1, e.2)).filter
    fun e => e.1 ≠ [])

def normalizeHostRecord (host : HostRecord) : HostRecord :=
  { host with
    environment := normalizeEnvironment host.environment
    tags := normalizeTags host.tags
    jumpHostId :=
      match if hostSupportsJumpHosts host.protocol then host.jumpHostId.truthy else none with
      | some jumpHostId => .value jumpHostId
      | none => .undefined
    sftpRoot :=
      if hostSupportsSftp host.protocol && trim isSpace host.sftpRoot ≠ [] then host.sftpRoot
      else [] }

@[simp] theorem normalizeHostRecord_id (host : HostRecord) :
    (normalizeHostRecord host).id = host.id := rfl

@[simp] theorem normalizeHostRecord_updatedAt (host : HostRecord) :
    (normalizeHostRecord host).updatedAt = host.updatedAt := rfl

/-- Favourites first, then by the last connection, then by label. -/
def compareHosts (p : Platform) (left right : HostRecord) : Ordering :=
  let leftActivity := left.lastConnectedAt.get?.getD []
  let rightActivity := right.lastConnectedAt.get?.getD []
  if left.favorite ≠ right.favorite then if left.favorite then .lt else .gt
  else if leftActivity ≠ rightActivity then p.localeCompare rightActivity leftActivity
  else p.localeCompare left.label right.label

def sortHostCollection (p : Platform) (hosts : List HostRecord) : List HostRecord :=
  sortBy (compareHosts p) (hosts.map normalizeHostRecord)

/-! Hosts in normal form. Normalising twice changes nothing, and a host that serialises like
one in normal form is in normal form itself. -/
open RecordFile (trim_trim)

/-- The environments that normalising leaves as they are. -/
theorem normalizeEnvironment_eq_self_iff {m : OrderedMap JsString JsString} :
    normalizeEnvironment m = m ↔ ∀ e ∈ m.entries, trim isSpace e.1 = e.1 ∧ e.1 ≠ [] := by
  constructor
  · intro h e he
    rw [← h] at he
    have hkept := OrderedMap.mem_ofList he
    obtain ⟨hmem, hne⟩ := List.mem_filter.mp hkept
    obtain ⟨e', -, rfl⟩ := List.mem_map.mp hmem
    exact ⟨trim_trim isSpace e'.1, of_decide_eq_true hne⟩
  · intro h
    have hmap : (m.entries.map fun e => (trim isSpace e.1, e.2)) = m.entries := by
      conv_rhs => rw [← List.map_id m.entries]
      exact List.map_congr_left fun e he => Prod.ext (h e he).1 rfl
    have hfilter : (m.entries.filter fun e => e.1 ≠ []) = m.entries :=
      List.filter_eq_self.mpr fun e he => decide_eq_true (h e he).2
    refine OrderedMap.entries_injective ?_
    rw [normalizeEnvironment, hmap, hfilter, OrderedMap.ofList_entries m.nodup]

theorem normalizeEnvironment_idem (m : OrderedMap JsString JsString) :
    normalizeEnvironment (normalizeEnvironment m) = normalizeEnvironment m := by
  rw [normalizeEnvironment_eq_self_iff]
  intro e he
  obtain ⟨hmem, hne⟩ := List.mem_filter.mp (OrderedMap.mem_ofList he)
  obtain ⟨e', -, rfl⟩ := List.mem_map.mp hmem
  exact ⟨trim_trim isSpace e'.1, of_decide_eq_true hne⟩

theorem truthy_truthy {s t : JsString} (h : truthy s = some t) : truthy t = some t := by
  unfold truthy at h ⊢
  split_ifs at h with hs
  obtain rfl := Option.some.inj h
  rw [if_neg hs]

theorem normalizeHostRecord_idem (host : HostRecord) :
    normalizeHostRecord (normalizeHostRecord host) = normalizeHostRecord host := by
  have htags : normalizeTags (normalizeTags host.tags) = normalizeTags host.tags := by
    simp [normalizeTags]
  have hsftp : (normalizeHostRecord (normalizeHostRecord host)).sftpRoot =
      (normalizeHostRecord host).sftpRoot := by
    simp only [normalizeHostRecord]
    split_ifs with h <;> simp_all
  have hjump : (normalizeHostRecord (normalizeHostRecord host)).jumpHostId =
      (normalizeHostRecord host).jumpHostId := by
    simp only [normalizeHostRecord]
    by_cases hsupports : hostSupportsJumpHosts host.protocol = true
    · simp only [hsupports, if_true]
      cases hjump : host.jumpHostId.truthy with
      | none => rfl
      | some id =>
        obtain ⟨s, -, hs⟩ := Option.bind_eq_some_iff.mp hjump
        have htruthy : (Optional.value id).truthy = some id := truthy_truthy hs
        simp [htruthy]
    · simp [hsupports]
  calc normalizeHostRecord (normalizeHostRecord host)
      = { normalizeHostRecord host with
          environment := normalizeEnvironment (normalizeEnvironment host.environment)
          tags := normalizeTags (normalizeTags host.tags)
          jumpHostId := (normalizeHostRecord (normalizeHostRecord host)).jumpHostId
          sftpRoot := (normalizeHostRecord (normalizeHostRecord host)).sftpRoot } := rfl
    _ = normalizeHostRecord host := by
      rw [normalizeEnvironment_idem, htags, hjump, hsftp]
      rfl

/-- A host that serialises like one in normal form is in normal form. -/
theorem normal_of_serialize {p : Platform} {host other : HostRecord}
    (hother : normalizeHostRecord other = other)
    (h : stableSerialize p (VaultRecord.toJson host) = stableSerialize p (VaultRecord.toJson other)) :
    normalizeHostRecord host = host := by
  obtain ⟨hfields, hperm⟩ := HostRecord.ext_serialize h
  have henvironment : normalizeEnvironment host.environment = host.environment := by
    have hnormal := congrArg (·.environment) hother
    simp only [normalizeHostRecord] at hnormal
    rw [normalizeEnvironment_eq_self_iff] at hnormal ⊢
    exact fun e he => hnormal e (hperm.subset he)
  have hrest : { normalizeHostRecord host with environment := host.environment } = host := by
    rw [← hfields] at hother
    exact congrArg (fun r : HostRecord => { r with environment := host.environment }) hother
  calc normalizeHostRecord host
      = { normalizeHostRecord host with
          environment := normalizeEnvironment host.environment } := rfl
    _ = host := by rw [henvironment, hrest]

end Inventory
