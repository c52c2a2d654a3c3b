import Mathlib.Data.List.ReduceOption
import TerminalWorkspace.Foundation.AsyncCalls
import TerminalWorkspace.Foundation.Base64
import TerminalWorkspace.Foundation.RecentUse
import TerminalWorkspace.VaultSync.Contract

/-! The registries that remember which canonical path a cycle key stands for: the one of the
native application keeps a queue beside its map, the one of the server only a map. -/
namespace SshConfig
open JsText RecentUse

/-- A call on a registry: a file was read, or a key that came back is looked up. -/
inductive RegistryCall (κ π : Type*) where
  | remember (canonicalPath : π)
  | canonicalPath (cycleKey : κ)

inductive RegistryAnswer (κ π : Type*) where
  | cycleKey (key : κ)
  | canonicalPath (found : Option π)

namespace Native
section Registry
variable {κ π : Type*} [DecidableEq κ] (cycleKey : π → κ)

structure SshConfigResolutionRegistry (κ π : Type*) where
  canonicalPaths : OrderedMap κ π
  recency : List κ
  maxEntries : ℕ
  maxEntries_pos : 0 < maxEntries

def withMaxEntries (maxEntries : ℕ) (hpos : 0 < maxEntries) : SshConfigResolutionRegistry κ π :=
  ⟨OrderedMap.empty, [], maxEntries, hpos⟩

variable (registry : SshConfigResolutionRegistry κ π)

/-- Room for a key: it leaves its place in the queue, or the key in front goes when the map is
full. -/
def makeRoom (key : κ) : SshConfigResolutionRegistry κ π :=
  if key ∈ registry.recency then
    { registry with recency := registry.recency.erase key }
  else if registry.canonicalPaths.entries.length ≥ registry.maxEntries then
    match registry.recency with
    | [] => registry
    | staleKey :: recency =>
      { registry with canonicalPaths := registry.canonicalPaths.erase staleKey, recency }
  else registry

def remember (canonical : π) : SshConfigResolutionRegistry κ π × κ :=
  let room := makeRoom registry (cycleKey canonical)
  ({ room with
      canonicalPaths := room.canonicalPaths.set (cycleKey canonical) canonical
      recency := room.recency ++ [cycleKey canonical] }, cycleKey canonical)

def canonicalPath (key : κ) : SshConfigResolutionRegistry κ π × Option π :=
  match registry.canonicalPaths.get? key with
  | none => (registry, none)
  | some canonical => ({ registry with recency := registry.recency.erase key ++ [key] }, some canonical)

def call : RegistryCall κ π → SshConfigResolutionRegistry κ π × RegistryAnswer κ π
  | .remember path => ((remember cycleKey registry path).1,
      .cycleKey (remember cycleKey registry path).2)
  | .canonicalPath key => ((canonicalPath registry key).1,
      .canonicalPath (canonicalPath registry key).2)

end Registry

/-- The key of a path, where `bytes` are those of the path. -/
def sshConfigCycleKey {π : Type*} (sha256 : List UInt8 → List UInt8) (bytes : π → List UInt8)
    (salt : List UInt8) (canonical : π) : List Char :=
  Base64.encode (sha256 (salt ++ bytes canonical))

end Native

namespace Node
section Registry
variable {κ π : Type*} [DecidableEq κ] (cycleKey : π → κ)

structure SshConfigResolutionRegistry (κ π : Type*) where
  canonicalPaths : OrderedMap κ π
  maxEntries : ℕ
  maxEntries_pos : 0 < maxEntries

def withMaxEntries (maxEntries : ℕ) (hpos : 0 < maxEntries) : SshConfigResolutionRegistry κ π :=
  ⟨OrderedMap.empty, maxEntries, hpos⟩

variable (registry : SshConfigResolutionRegistry κ π)

/-- `delete`, of the key itself or of the first one when the map is full. -/
def makeRoom (key : κ) : OrderedMap κ π :=
  if key ∈ registry.canonicalPaths.keys then registry.canonicalPaths.erase key
  else if registry.canonicalPaths.entries.length ≥ registry.maxEntries then
    match registry.canonicalPaths.keys.head? with
    | none => registry.canonicalPaths
    | some first => registry.canonicalPaths.erase first
  else registry.canonicalPaths

def remember (canonicalPath : π) : SshConfigResolutionRegistry κ π × κ :=
  ({ registry with
      canonicalPaths :=
        (makeRoom registry (cycleKey canonicalPath)).set (cycleKey canonicalPath) canonicalPath },
    cycleKey canonicalPath)

def canonicalPath (key : κ) : SshConfigResolutionRegistry κ π × Option π :=
  match registry.canonicalPaths.get? key with
  | none => (registry, none)
  | some canonicalPath =>
    if cycleKey canonicalPath ≠ key then (registry, none)
    else
      ({ registry with
          canonicalPaths := (registry.canonicalPaths.erase key).set key canonicalPath },
        some canonicalPath)

def call : RegistryCall κ π → SshConfigResolutionRegistry κ π × RegistryAnswer κ π
  | .remember path => ((remember cycleKey registry path).1,
      .cycleKey (remember cycleKey registry path).2)
  | .canonicalPath key => ((canonicalPath cycleKey registry key).1,
      .canonicalPath (canonicalPath cycleKey registry key).2)

end Registry

/-- The key of a path, where `bytes` are those its text is encoded in. -/
def sshConfigCycleKey {π : Type*} (sha256 : List UInt8 → List UInt8) (bytes : π → List UInt8)
    (salt : List UInt8) (canonicalPath : π) : JsString :=
  ofText ((sha256 (salt ++ 0 :: bytes canonicalPath)).flatMap VaultSync.hexByte)

end Node

/-! Both registries keep the paths used last, as many as they have room for, and answer alike. -/
open AnsweredCalls

section Model
variable {κ π : Type*} [DecidableEq κ] [DecidableEq π] (cycleKey : π → κ) {capacity : ℕ}

/-- What a registry is for: it keeps the paths used last, where looking one up is a use. -/
def serve (recent : Store π capacity) : RegistryCall κ π → Store π capacity × RegistryAnswer κ π
  | .remember path => (recent.use path, .cycleKey (cycleKey path))
  | .canonicalPath key =>
    match recent.kept.find? (fun path => cycleKey path = key) with
    | none => (recent, .canonicalPath none)
    | some path => (recent.use path, .canonicalPath (some path))

/-- The key a call used: the remembered one, or the one it found. -/
def usedKey : RegistryCall κ π → RegistryAnswer κ π → Option κ
  | .remember _, .cycleKey key => some key
  | .canonicalPath key, .canonicalPath (some _) => some key
  | _, _ => none

def uses (calls : List (RegistryCall κ π)) (answers : List (RegistryAnswer κ π)) : List κ :=
  (List.zipWith usedKey calls answers).reduceOption

variable {cycleKey}

omit [DecidableEq π] in
theorem find?_cycleKey (hinj : Function.Injective cycleKey) {paths : List π} {path : π}
    (h : path ∈ paths) : paths.find? (fun other => cycleKey other = cycleKey path) = some path := by
  cases hfind : paths.find? fun other => cycleKey other = cycleKey path with
  | none => exact absurd (List.find?_eq_none.mp hfind path h) (by simp)
  | some other =>
    have hsame : cycleKey other = cycleKey path := by simpa using List.find?_some hfind
    rw [hinj hsame]

theorem serve_of_mem (hinj : Function.Injective cycleKey) {recent : Store π capacity} {path : π}
    (h : path ∈ recent.kept) :
    serve cycleKey recent (.canonicalPath (cycleKey path)) =
      (recent.use path, .canonicalPath (some path)) := by
  simp only [serve, find?_cycleKey hinj h]

theorem serve_of_unknown {recent : Store π capacity} {key : κ}
    (h : ∀ path ∈ recent.kept, cycleKey path ≠ key) :
    serve cycleKey recent (.canonicalPath key) = (recent, .canonicalPath none) := by
  have hnone : recent.kept.find? (fun path => cycleKey path = key) = none := by simpa using h
  simp only [serve, hnone]

omit [DecidableEq κ] [DecidableEq π] in
/-- A key is that of a path that is kept, or of none of them. -/
theorem known_or_unknown (cycleKey : π → κ) (recent : Store π capacity) (key : κ) :
    (∃ path ∈ recent.kept, cycleKey path = key) ∨ ∀ path ∈ recent.kept, cycleKey path ≠ key := by
  by_cases h : ∃ path ∈ recent.kept, cycleKey path = key
  · exact .inl h
  · exact .inr fun path hpath heq => h ⟨path, hpath, heq⟩

theorem use_kept (hinj : Function.Injective cycleKey) {recent : Store π capacity} {past : List κ}
    (h : recent.kept.map cycleKey = (touched past).take capacity) (path : π) :
    (recent.use path).kept.map cycleKey =
      (touched (past ++ [cycleKey path])).take capacity := by
  rw [Store.kept_use, ← use_map hinj, h, use_take, touched_concat]

theorem serve_kept (hinj : Function.Injective cycleKey) {recent : Store π capacity} {past : List κ}
    (h : recent.kept.map cycleKey = (touched past).take capacity) (c : RegistryCall κ π) :
    (serve cycleKey recent c).1.kept.map cycleKey =
      (touched (past ++ (usedKey c (serve cycleKey recent c).2).toList)).take capacity := by
  cases c with
  | remember path => exact use_kept hinj h path
  | canonicalPath key =>
    obtain ⟨path, hpath, rfl⟩ | hunknown := known_or_unknown cycleKey recent key
    · rw [serve_of_mem hinj hpath]
      exact use_kept hinj h path
    · rw [serve_of_unknown hunknown]
      simpa [usedKey] using h

/-- After any calls the paths used last are kept. -/
theorem run_serve_kept (hinj : Function.Injective cycleKey) (calls : List (RegistryCall κ π))
    {recent : Store π capacity} {past : List κ}
    (h : recent.kept.map cycleKey = (touched past).take capacity) :
    (run (serve cycleKey) recent calls).1.kept.map cycleKey =
      (touched (past ++ uses calls (run (serve cycleKey) recent calls).2)).take capacity := by
  induction calls generalizing recent past with
  | nil => rwa [run, uses, List.zipWith_nil_left, List.reduceOption_nil, List.append_nil]
  | cons c calls ih =>
    have hrest := ih (serve_kept hinj h c)
    rw [run, hrest, List.append_assoc]
    congr 3
    rw [uses, uses, List.zipWith_cons_cons]
    cases usedKey c (serve cycleKey recent c).2 <;> rfl

/-- Only paths that were remembered are kept. -/
theorem remembered_of_kept (hinj : Function.Injective cycleKey) {past calls : List (RegistryCall κ π)}
    {recent : Store π capacity} (h : ∀ path ∈ recent.kept, .remember path ∈ past) :
    ∀ path ∈ (run (serve cycleKey) recent calls).1.kept, .remember path ∈ past ++ calls := by
  induction calls generalizing recent past with
  | nil => simpa [run] using h
  | cons c calls ih =>
    have hnext : ∀ path ∈ (serve cycleKey recent c).1.kept, .remember path ∈ past ++ [c] := by
      have huse : ∀ other path, path ∈ (recent.use other).kept → path = other ∨ path ∈ recent.kept :=
        fun _ _ hpath => mem_touch.mp (List.mem_of_mem_take hpath)
      intro path hpath
      rw [List.mem_append, List.mem_singleton]
      cases c with
      | remember other =>
        obtain rfl | hkept := huse other path hpath
        · exact .inr rfl
        · exact .inl (h path hkept)
      | canonicalPath key =>
        obtain ⟨other, hother, rfl⟩ | hunknown := known_or_unknown cycleKey recent key
        · rw [serve_of_mem hinj hother] at hpath
          obtain rfl | hkept := huse other path hpath
          · exact .inl (h path hother)
          · exact .inl (h path hkept)
        · rw [serve_of_unknown hunknown] at hpath
          exact .inl (h path hpath)
    simpa [run, List.append_assoc] using ih hnext

end Model

namespace Native
section Represents
variable {κ π : Type*} [DecidableEq κ] [DecidableEq π] {cycleKey : π → κ} {capacity : ℕ}
  {recent : Store π capacity} {registry : SshConfigResolutionRegistry κ π}

variable (cycleKey) in
/-- The queue holds the keys of the paths that are kept, the one used last behind, and the map
finds these paths. -/
structure Represents (recent : Store π capacity) (registry : SshConfigResolutionRegistry κ π) :
    Prop where
  maxEntries : registry.maxEntries = capacity
  recency : registry.recency = (recent.kept.map cycleKey).reverse
  get? : ∀ key path, registry.canonicalPaths.get? key = some path ↔
    path ∈ recent.kept ∧ cycleKey path = key

omit [DecidableEq π] in
theorem Represents.mem_keys (h : Represents cycleKey recent registry) (key : κ) :
    key ∈ registry.canonicalPaths.keys ↔ key ∈ registry.recency := by
  simp [OrderedMap.mem_keys_iff, Option.isSome_iff_exists, h.get?, h.recency]

omit [DecidableEq π] in
theorem Represents.nodup (hinj : Function.Injective cycleKey)
    (h : Represents cycleKey recent registry) : registry.recency.Nodup := by
  rw [h.recency, List.nodup_reverse]
  exact recent.nodup.map hinj

omit [DecidableEq π] in
theorem Represents.perm (hinj : Function.Injective cycleKey)
    (h : Represents cycleKey recent registry) :
    registry.recency.Perm registry.canonicalPaths.keys :=
  (List.perm_ext_iff_of_nodup (h.nodup hinj) registry.canonicalPaths.nodup).mpr
    fun key => (h.mem_keys key).symm

omit [DecidableEq π] in
theorem Represents.length (hinj : Function.Injective cycleKey)
    (h : Represents cycleKey recent registry) :
    registry.canonicalPaths.entries.length = recent.kept.length := by
  have hperm := (h.perm hinj).length_eq
  rw [h.recency, OrderedMap.keys, List.length_map, List.length_reverse, List.length_map] at hperm
  exact hperm.symm

theorem reverse_use_of_mem (hinj : Function.Injective cycleKey) {path : π}
    (h : path ∈ recent.kept) :
    ((recent.kept.map cycleKey).reverse.erase (cycleKey path)) ++ [cycleKey path] =
      ((recent.use path).kept.map cycleKey).reverse := by
  rw [Store.kept_use, use_of_mem h recent.length_le, ← touch_map hinj]
  exact reverse_touch (recent.nodup.map hinj) _

omit [DecidableEq π] in
theorem exists_last (hlength : recent.kept.length = capacity) (hpos : 0 < capacity) :
    ∃ kept stale, recent.kept = kept ++ [stale] := by
  obtain hnil | hkept := List.eq_nil_or_concat' recent.kept
  · rw [hnil, List.length_nil] at hlength
    exact absurd hlength (Nat.ne_of_lt hpos)
  · exact hkept

/-- The room that is made for a path is what is kept of the others when it is used. -/
theorem makeRoom_spec (hinj : Function.Injective cycleKey)
    (h : Represents cycleKey recent registry) (path : π) :
    (makeRoom registry (cycleKey path)).maxEntries = capacity ∧
      (makeRoom registry (cycleKey path)).recency ++ [cycleKey path] =
        ((recent.use path).kept.map cycleKey).reverse ∧
      ∀ key, key ≠ cycleKey path → ∀ other,
        ((makeRoom registry (cycleKey path)).canonicalPaths.get? key = some other ↔
          other ∈ (recent.use path).kept ∧ cycleKey other = key) := by
  have hmem : cycleKey path ∈ registry.recency ↔ path ∈ recent.kept := by
    rw [h.recency, List.mem_reverse, List.mem_map_of_injective hinj]
  have hne : ∀ {key other}, key ≠ cycleKey path → cycleKey other = key → other ≠ path := by
    rintro _ other hkey rfl rfl
    exact hkey rfl
  unfold makeRoom
  split
  case isTrue hknown =>
    rw [hmem] at hknown
    refine ⟨h.maxEntries, ?_, fun key hkey other => ?_⟩
    · rw [← reverse_use_of_mem hinj hknown, h.recency]
    · rw [h.get?, Store.kept_use, use_of_mem hknown recent.length_le, mem_touch]
      exact and_congr_left fun hother => (or_iff_right (hne hkey hother)).symm
  case isFalse hnew =>
    rw [hmem] at hnew
    split
    case isTrue hfull =>
      rw [h.length hinj, h.maxEntries] at hfull
      have hlength : recent.kept.length = capacity := Nat.le_antisymm recent.length_le hfull
      have hpos : 0 < capacity := h.maxEntries ▸ registry.maxEntries_pos
      obtain ⟨kept, stale, hkept⟩ := exists_last hlength hpos
      have huse : (recent.use path).kept = path :: kept := by
        rw [Store.kept_use, use_of_full hnew hlength hpos, hkept, List.dropLast_concat]
      have hqueue : registry.recency = cycleKey stale :: (kept.map cycleKey).reverse := by
        rw [h.recency, hkept, List.map_append, List.reverse_append]
        rfl
      have hstale : stale ∉ kept := by
        have hnodup := recent.nodup
        rw [hkept] at hnodup
        exact fun hmem => (List.disjoint_of_nodup_append hnodup) hmem (List.mem_singleton_self _)
      rw [hqueue, huse]
      refine ⟨h.maxEntries, ?_, fun key hkey other => ?_⟩
      · rw [List.map_cons, List.reverse_cons]
      · rw [OrderedMap.get?_erase, List.mem_cons]
        split_ifs with hgone
        · subst hgone
          refine ⟨(by simp), fun hother => ?_⟩
          have hsame := hinj hother.2
          subst hsame
          exact absurd (hother.1.resolve_left (hne hkey rfl)) hstale
        · rw [h.get?, hkept, List.mem_append, List.mem_singleton]
          refine and_congr_left fun hother => ?_
          have hnotStale : other ≠ stale := fun hsame => hgone (hsame ▸ hother.symm)
          rw [or_iff_left hnotStale, or_iff_right (hne hkey hother)]
    case isFalse hroom =>
      rw [h.length hinj, h.maxEntries] at hroom
      have huse : (recent.use path).kept = path :: recent.kept :=
        use_of_lt hnew (Nat.lt_of_not_le hroom)
      refine ⟨h.maxEntries, ?_, fun key hkey other => ?_⟩
      · rw [huse, h.recency, List.map_cons, List.reverse_cons]
      · rw [huse, h.get?, List.mem_cons]
        exact and_congr_left fun hother => (or_iff_right (hne hkey hother)).symm

theorem remember_represents (hinj : Function.Injective cycleKey)
    (h : Represents cycleKey recent registry) (path : π) :
    Represents cycleKey (recent.use path) (remember cycleKey registry path).1 := by
  obtain ⟨hmax, hqueue, hothers⟩ := makeRoom_spec hinj h path
  have hpos : 0 < capacity := h.maxEntries ▸ registry.maxEntries_pos
  refine ⟨hmax, hqueue, fun key other => ?_⟩
  simp only [remember, OrderedMap.get?_set]
  split_ifs with hkey
  · subst hkey
    rw [Option.some.injEq, hinj.eq_iff]
    refine ⟨?_, fun hother => hother.2.symm⟩
    rintro rfl
    exact ⟨mem_use_self hpos _ _, rfl⟩
  · exact hothers key hkey other

theorem call_represents (hinj : Function.Injective cycleKey)
    (registry : SshConfigResolutionRegistry κ π) (recent : Store π capacity) (c : RegistryCall κ π)
    (h : Represents cycleKey recent registry) :
    Represents cycleKey (serve cycleKey recent c).1 (call cycleKey registry c).1 ∧
      (call cycleKey registry c).2 = (serve cycleKey recent c).2 := by
  cases c with
  | remember path => exact ⟨remember_represents hinj h path, rfl⟩
  | canonicalPath key =>
    obtain ⟨path, hpath, rfl⟩ | hunknown := known_or_unknown cycleKey recent key
    · have hfound : registry.canonicalPaths.get? (cycleKey path) = some path :=
        (h.get? _ _).mpr ⟨hpath, rfl⟩
      rw [serve_of_mem hinj hpath]
      simp only [call, canonicalPath, hfound, and_true]
      refine ⟨h.maxEntries, ?_, fun key other => ?_⟩
      · rw [← reverse_use_of_mem hinj hpath, h.recency]
      · rw [h.get?, Store.kept_use, use_of_mem hpath recent.length_le, mem_touch]
        refine and_congr_left fun _ => (or_iff_right_of_imp ?_).symm
        rintro rfl
        exact hpath
    · have hnone : registry.canonicalPaths.get? key = none :=
        Option.eq_none_iff_forall_not_mem.mpr fun path hpath =>
          hunknown path ((h.get? _ _).mp hpath).1 ((h.get? _ _).mp hpath).2
      rw [serve_of_unknown hunknown]
      simp only [call, canonicalPath, hnone, and_true]
      exact h

end Represents
end Native

namespace Node
section Represents
variable {κ π : Type*} [DecidableEq κ] {cycleKey : π → κ}

variable (cycleKey) in
/-- The entries of the map are those of the paths, the last of the list first. -/
def Shows (m : OrderedMap κ π) (kept : List π) : Prop :=
  m.entries = (kept.map fun path => (cycleKey path, path)).reverse

omit [DecidableEq κ] in
theorem Shows.keys {m : OrderedMap κ π} {kept : List π} (h : Shows cycleKey m kept) :
    m.keys = (kept.map cycleKey).reverse := by
  rw [OrderedMap.keys, h, List.map_reverse, List.map_map]
  rfl

omit [DecidableEq κ] in
theorem Shows.mem_keys (hinj : Function.Injective cycleKey) {m : OrderedMap κ π} {kept : List π}
    (h : Shows cycleKey m kept) (path : π) : cycleKey path ∈ m.keys ↔ path ∈ kept := by
  rw [h.keys, List.mem_reverse, List.mem_map_of_injective hinj]

theorem Shows.get? {m : OrderedMap κ π} {kept : List π} (h : Shows cycleKey m kept) {path : π}
    (hpath : path ∈ kept) : m.get? (cycleKey path) = some path := by
  refine OrderedMap.get?_of_mem ?_
  rw [h, List.mem_reverse]
  exact List.mem_map_of_mem hpath

theorem Shows.get?_of_unknown {m : OrderedMap κ π} {kept : List π} (h : Shows cycleKey m kept)
    {key : κ} (hkey : ∀ path ∈ kept, cycleKey path ≠ key) : m.get? key = none := by
  have hnot : key ∉ m.keys := by
    rw [h.keys, List.mem_reverse, List.mem_map]
    rintro ⟨path, hpath, heq⟩
    exact hkey path hpath heq
  rwa [OrderedMap.mem_keys_iff, Option.not_isSome_iff_eq_none] at hnot

theorem Shows.set (hinj : Function.Injective cycleKey) {m : OrderedMap κ π} {kept : List π}
    (h : Shows cycleKey m kept) {path : π} (hnew : path ∉ kept) :
    Shows cycleKey (m.set (cycleKey path) path) (path :: kept) := by
  have hkey : cycleKey path ∉ m.keys := (h.mem_keys hinj path).not.mpr hnew
  rw [Shows, List.map_cons, List.reverse_cons, ← h]
  exact OrderedMap.setEntry_of_not_mem hkey

variable [DecidableEq π]

theorem Shows.erase (hinj : Function.Injective cycleKey) {m : OrderedMap κ π} {kept : List π}
    (h : Shows cycleKey m kept) (hnodup : kept.Nodup) (path : π) :
    Shows cycleKey (m.erase (cycleKey path)) (kept.erase path) := by
  have hsame : (fun e : κ × π => decide (e.1 ≠ cycleKey path)) ∘ (fun path => (cycleKey path, path)) =
      fun other => other != path := by
    funext other
    simp [hinj.eq_iff, bne, beq_eq_decide]
  have herase : (m.erase (cycleKey path)).entries =
      m.entries.filter fun e => e.1 ≠ cycleKey path := rfl
  rw [Shows, herase, h, List.filter_reverse, List.filter_map, hsame, hnodup.erase_eq_filter]

theorem Shows.touch (hinj : Function.Injective cycleKey) {m : OrderedMap κ π} {kept : List π}
    (h : Shows cycleKey m kept) (hnodup : kept.Nodup) (path : π) :
    Shows cycleKey ((m.erase (cycleKey path)).set (cycleKey path) path) (RecentUse.touch kept path) :=
  (h.erase hinj hnodup path).set hinj hnodup.not_mem_erase

variable {capacity : ℕ} {recent : Store π capacity} {registry : SshConfigResolutionRegistry κ π}

omit [DecidableEq π] in
variable (cycleKey) in
structure Represents (recent : Store π capacity) (registry : SshConfigResolutionRegistry κ π) :
    Prop where
  maxEntries : registry.maxEntries = capacity
  shows : Shows cycleKey registry.canonicalPaths recent.kept

theorem remember_represents (hinj : Function.Injective cycleKey)
    (h : Represents cycleKey recent registry) (path : π) :
    Represents cycleKey (recent.use path) (remember cycleKey registry path).1 := by
  have hlength : registry.canonicalPaths.entries.length = recent.kept.length := by
    rw [h.shows, List.length_reverse, List.length_map]
  refine ⟨h.maxEntries, ?_⟩
  rw [Store.kept_use]
  simp only [remember, makeRoom, h.shows.mem_keys hinj, hlength, h.maxEntries]
  split_ifs with hknown hfull
  · rw [use_of_mem hknown recent.length_le]
    exact h.shows.touch hinj recent.nodup path
  · have hfull : recent.kept.length = capacity := Nat.le_antisymm recent.length_le hfull
    have hpos : 0 < capacity := h.maxEntries ▸ registry.maxEntries_pos
    obtain ⟨kept, stale, hkept⟩ := Native.exists_last hfull hpos
    have hnodup := recent.nodup
    have hshows := h.shows
    rw [use_of_full hknown hfull hpos]
    rw [hkept] at hnodup hshows hknown ⊢
    have hstale : stale ∉ kept := fun hmem =>
      (List.disjoint_of_nodup_append hnodup) hmem (List.mem_singleton_self _)
    have herase : (kept ++ [stale]).erase stale = kept := by
      rw [List.erase_append_right _ hstale, List.erase_cons_head, List.append_nil]
    have hfirst : registry.canonicalPaths.keys.head? = some (cycleKey stale) := by
      simp [hshows.keys]
    rw [hfirst, List.dropLast_concat]
    have hgone := hshows.erase hinj hnodup stale
    rw [herase] at hgone
    exact hgone.set hinj fun hmem => hknown (List.mem_append_left _ hmem)
  · rw [use_of_lt hknown (Nat.lt_of_not_le hfull)]
    exact h.shows.set hinj hknown

theorem call_represents (hinj : Function.Injective cycleKey)
    (registry : SshConfigResolutionRegistry κ π) (recent : Store π capacity) (c : RegistryCall κ π)
    (h : Represents cycleKey recent registry) :
    Represents cycleKey (serve cycleKey recent c).1 (call cycleKey registry c).1 ∧
      (call cycleKey registry c).2 = (serve cycleKey recent c).2 := by
  cases c with
  | remember path => exact ⟨remember_represents hinj h path, rfl⟩
  | canonicalPath key =>
    obtain ⟨path, hpath, rfl⟩ | hunknown := known_or_unknown cycleKey recent key
    · rw [serve_of_mem hinj hpath]
      simp only [call, canonicalPath, h.shows.get? hpath, ne_eq, not_true_eq_false, if_false,
        and_true]
      refine ⟨h.maxEntries, ?_⟩
      rw [Store.kept_use, use_of_mem hpath recent.length_le]
      exact h.shows.touch hinj recent.nodup path
    · rw [serve_of_unknown hunknown]
      simp only [call, canonicalPath, h.shows.get?_of_unknown hunknown, and_true]
      exact h

end Represents
end Node

section Agreement
variable {κ κ' π : Type*} (cycleKey : π → κ) (nodeKey : π → κ')

/-- Two spellings of one key: they are keys of the same paths. -/
def SameKey (key : κ) (key' : κ') : Prop := ∀ path, cycleKey path = key ↔ nodeKey path = key'

inductive SameCall : RegistryCall κ π → RegistryCall κ' π → Prop
  | remember (path : π) : SameCall (.remember path) (.remember path)
  | canonicalPath {key : κ} {key' : κ'} (h : SameKey cycleKey nodeKey key key') :
      SameCall (.canonicalPath key) (.canonicalPath key')

inductive SameAnswer : RegistryAnswer κ π → RegistryAnswer κ' π → Prop
  | cycleKey {key : κ} {key' : κ'} (h : SameKey cycleKey nodeKey key key') :
      SameAnswer (.cycleKey key) (.cycleKey key')
  | canonicalPath (found : Option π) : SameAnswer (.canonicalPath found) (.canonicalPath found)

variable {cycleKey nodeKey} [DecidableEq κ] [DecidableEq κ'] [DecidableEq π] {capacity : ℕ}

theorem serve_agrees (hinj : Function.Injective cycleKey) (hnode : Function.Injective nodeKey)
    (recent recent' : Store π capacity) (c : RegistryCall κ π) (c' : RegistryCall κ' π)
    (hrecent : recent = recent') (h : SameCall cycleKey nodeKey c c') :
    (serve cycleKey recent c).1 = (serve nodeKey recent' c').1 ∧
      SameAnswer cycleKey nodeKey (serve cycleKey recent c).2 (serve nodeKey recent' c').2 := by
  subst hrecent
  cases h with
  | remember path =>
    exact ⟨rfl, .cycleKey fun other => by rw [hinj.eq_iff, hnode.eq_iff]⟩
  | @canonicalPath key key' hkey =>
    have hsame : (fun path => decide (cycleKey path = key)) = fun path => decide (nodeKey path = key') := by
      funext path
      exact decide_eq_decide.mpr (hkey path)
    simp only [serve, hsame]
    cases recent.kept.find? fun path => decide (nodeKey path = key') with
    | none => exact ⟨rfl, .canonicalPath _⟩
    | some path => exact ⟨rfl, .canonicalPath _⟩

end Agreement

section Registries
variable {κ π : Type*} [DecidableEq κ]

/-- A key is found when it was remembered and fewer than `maxEntries` other keys were used since
its own last use. -/
def FindsRecent (cycleKey : π → κ) (maxEntries : ℕ) (calls : List (RegistryCall κ π))
    (answers : List (RegistryAnswer κ π)) (lookup : κ → Option π) : Prop :=
  ∀ key path, lookup key = some path ↔
    .remember path ∈ calls ∧ cycleKey path = key ∧
      ∃ earlier later, uses calls answers = earlier ++ key :: later ∧ key ∉ later ∧
        later.dedup.length < maxEntries

variable [DecidableEq π] {cycleKey : π → κ} {maxEntries : ℕ}

theorem findsRecent_of_serve (hinj : Function.Injective cycleKey) {calls : List (RegistryCall κ π)}
    {lookup : κ → Option π}
    (hlookup : ∀ key path, lookup key = some path ↔
      path ∈ (run (serve cycleKey) (Store.empty : Store π maxEntries) calls).1.kept ∧
        cycleKey path = key) :
    FindsRecent cycleKey maxEntries calls
      (run (serve cycleKey) (Store.empty : Store π maxEntries) calls).2 lookup := by
  intro key path
  have hnone : (Store.empty : Store π maxEntries).kept.map cycleKey =
      (touched ([] : List κ)).take maxEntries := List.take_nil.symm
  have hkept := run_serve_kept hinj calls hnone
  rw [List.nil_append] at hkept
  rw [hlookup, ← mem_kept_iff, ← hkept]
  constructor
  · rintro ⟨hpath, rfl⟩
    have hempty : ∀ path ∈ (Store.empty : Store π maxEntries).kept,
        (.remember path : RegistryCall κ π) ∈ ([] : List (RegistryCall κ π)) :=
      fun _ h => absurd h List.not_mem_nil
    exact ⟨remembered_of_kept hinj hempty path hpath, rfl, List.mem_map_of_mem hpath⟩
  · rintro ⟨-, rfl, hpath⟩
    exact ⟨(List.mem_map_of_injective hinj).mp hpath, rfl⟩

end Registries

namespace Native
variable {κ π : Type*} [DecidableEq κ]

/-- A new registry after some calls, and its answers. -/
def served (cycleKey : π → κ) (maxEntries : ℕ) (hpos : 0 < maxEntries)
    (calls : List (RegistryCall κ π)) :
    SshConfigResolutionRegistry κ π × List (RegistryAnswer κ π) :=
  run (call cycleKey) (withMaxEntries maxEntries hpos) calls

theorem served_represents [DecidableEq π] {cycleKey : π → κ} (hinj : Function.Injective cycleKey)
    {maxEntries : ℕ} (hpos : 0 < maxEntries) (calls : List (RegistryCall κ π)) :
    Represents cycleKey (run (serve cycleKey) (Store.empty : Store π maxEntries) calls).1
        (served cycleKey maxEntries hpos calls).1 ∧
      (served cycleKey maxEntries hpos calls).2 =
        (run (serve cycleKey) (Store.empty : Store π maxEntries) calls).2 := by
  have hinit : Represents cycleKey (Store.empty : Store π maxEntries)
      (withMaxEntries maxEntries hpos) :=
    ⟨rfl, rfl, fun key path => ⟨nofun, fun h => absurd h.1 List.not_mem_nil⟩⟩
  exact run_represents (call_represents hinj) hinit calls

theorem canonicalPath_found {registry : SshConfigResolutionRegistry κ π} (key : κ) :
    (canonicalPath registry key).2 = registry.canonicalPaths.get? key := by
  rw [canonicalPath]
  cases registry.canonicalPaths.get? key <;> rfl

/-- What a registry of at most `maxEntries` entries holds and finds after the calls. -/
structure ExactLru (cycleKey : π → κ) (maxEntries : ℕ) (calls : List (RegistryCall κ π))
    (answers : List (RegistryAnswer κ π)) (registry : SshConfigResolutionRegistry κ π) : Prop where
  nodup : registry.recency.Nodup
  perm : registry.recency.Perm registry.canonicalPaths.keys
  length_le : registry.canonicalPaths.entries.length ≤ maxEntries
  finds : FindsRecent cycleKey maxEntries calls answers fun key => (canonicalPath registry key).2

theorem served_exactLru [DecidableEq π] {cycleKey : π → κ} (hinj : Function.Injective cycleKey)
    {maxEntries : ℕ} (hpos : 0 < maxEntries) (calls : List (RegistryCall κ π)) :
    ExactLru cycleKey maxEntries calls (served cycleKey maxEntries hpos calls).2
      (served cycleKey maxEntries hpos calls).1 := by
  obtain ⟨hrepr, hanswers⟩ := served_represents hinj hpos calls
  refine ⟨hrepr.nodup hinj, hrepr.perm hinj, ?_, ?_⟩
  · rw [hrepr.length hinj]
    exact Store.length_le _
  · rw [hanswers]
    refine findsRecent_of_serve hinj fun key path => ?_
    rw [canonicalPath_found]
    exact hrepr.get? key path

end Native

namespace Node
variable {κ π : Type*} [DecidableEq κ]

def served (cycleKey : π → κ) (maxEntries : ℕ) (hpos : 0 < maxEntries)
    (calls : List (RegistryCall κ π)) :
    SshConfigResolutionRegistry κ π × List (RegistryAnswer κ π) :=
  run (call cycleKey) (withMaxEntries maxEntries hpos) calls

theorem served_represents [DecidableEq π] {cycleKey : π → κ} (hinj : Function.Injective cycleKey)
    {maxEntries : ℕ} (hpos : 0 < maxEntries) (calls : List (RegistryCall κ π)) :
    Represents cycleKey (run (serve cycleKey) (Store.empty : Store π maxEntries) calls).1
        (served cycleKey maxEntries hpos calls).1 ∧
      (served cycleKey maxEntries hpos calls).2 =
        (run (serve cycleKey) (Store.empty : Store π maxEntries) calls).2 := by
  have hinit : Represents cycleKey (Store.empty : Store π maxEntries)
      (withMaxEntries maxEntries hpos) := ⟨rfl, rfl⟩
  exact run_represents (call_represents hinj) hinit calls

theorem canonicalPath_found {cycleKey : π → κ} {registry : SshConfigResolutionRegistry κ π}
    {kept : List π} (h : Shows cycleKey registry.canonicalPaths kept) (key : κ) (path : π) :
    (canonicalPath cycleKey registry key).2 = some path ↔ path ∈ kept ∧ cycleKey path = key := by
  constructor
  · intro hfound
    rw [canonicalPath] at hfound
    split at hfound
    · cases hfound
    · rename_i other hget
      split_ifs at hfound with hkey
      cases hfound
      rw [not_not] at hkey
      subst hkey
      have hmem := OrderedMap.get?_mem hget
      rw [h, List.mem_reverse] at hmem
      obtain ⟨path, hpath, heq⟩ := List.mem_map.mp hmem
      obtain ⟨-, rfl⟩ := Prod.mk.inj heq
      exact ⟨hpath, rfl⟩
  · rintro ⟨hpath, rfl⟩
    simp only [canonicalPath, h.get? hpath, ne_eq, not_true_eq_false, if_false]

/-- The map is also the queue, so nothing is said about one beside it. -/
structure ExactLru (cycleKey : π → κ) (maxEntries : ℕ) (calls : List (RegistryCall κ π))
    (answers : List (RegistryAnswer κ π)) (registry : SshConfigResolutionRegistry κ π) : Prop where
  nodup : registry.canonicalPaths.keys.Nodup
  length_le : registry.canonicalPaths.entries.length ≤ maxEntries
  finds : FindsRecent cycleKey maxEntries calls answers
    fun key => (canonicalPath cycleKey registry key).2

theorem served_exactLru [DecidableEq π] {cycleKey : π → κ} (hinj : Function.Injective cycleKey)
    {maxEntries : ℕ} (hpos : 0 < maxEntries) (calls : List (RegistryCall κ π)) :
    ExactLru cycleKey maxEntries calls (served cycleKey maxEntries hpos calls).2
      (served cycleKey maxEntries hpos calls).1 := by
  obtain ⟨hrepr, hanswers⟩ := served_represents hinj hpos calls
  refine ⟨OrderedMap.nodup _, ?_, ?_⟩
  · rw [hrepr.shows, List.length_reverse, List.length_map]
    exact Store.length_le _
  · rw [hanswers]
    exact findsRecent_of_serve hinj fun key path => canonicalPath_found hrepr.shows key path

end Node

section Claims
variable {π : Type*} (sha256 : List UInt8 → List UInt8) (bytes nodeBytes : π → List UInt8)
  (salt nodeSalt : List UInt8)

/-- Both registries are stores of the paths used last, of at most `maxEntries` of them, and answer
the same calls alike. -/
theorem registries_lru
    (hnative : Function.Injective (Native.sshConfigCycleKey sha256 bytes salt))
    (hnode : Function.Injective (Node.sshConfigCycleKey sha256 nodeBytes nodeSalt))
    (maxEntries : ℕ) (hpos : 0 < maxEntries) :
    let cycleKey := Native.sshConfigCycleKey sha256 bytes salt
    let nodeKey := Node.sshConfigCycleKey sha256 nodeBytes nodeSalt
    (∀ calls, Native.ExactLru cycleKey maxEntries calls
        (Native.served cycleKey maxEntries hpos calls).2
        (Native.served cycleKey maxEntries hpos calls).1) ∧
      (∀ calls, Node.ExactLru nodeKey maxEntries calls
        (Node.served nodeKey maxEntries hpos calls).2
        (Node.served nodeKey maxEntries hpos calls).1) ∧
      ∀ calls nodeCalls, List.Forall₂ (SameCall cycleKey nodeKey) calls nodeCalls →
        List.Forall₂ (SameAnswer cycleKey nodeKey)
          (Native.served cycleKey maxEntries hpos calls).2
          (Node.served nodeKey maxEntries hpos nodeCalls).2 := by
  classical
  intro cycleKey nodeKey
  refine ⟨Native.served_exactLru hnative hpos, Node.served_exactLru hnode hpos,
    fun calls nodeCalls hcalls => ?_⟩
  rw [(Native.served_represents hnative hpos calls).2,
    (Node.served_represents hnode hpos nodeCalls).2]
  exact (run_related (serve_agrees hnative hnode) rfl hcalls).2

/-- Two files, and the hashes of their paths behind a byte 0. -/
def fileBytes (second : Bool) : List UInt8 := if second then [47, 98] else [47, 97]

def fileHash (bytes : List UInt8) : List UInt8 :=
  if bytes = 0 :: fileBytes true then
    [15, 97, 103, 156, 30, 16, 182, 178, 199, 118, 68, 241, 235, 77, 142, 37, 173, 149, 112, 217,
      75, 170, 152, 191, 72, 218, 191, 60, 206, 215, 96, 76]
  else
    [31, 50, 109, 91, 70, 166, 129, 187, 234, 235, 127, 45, 75, 253, 171, 224, 167, 120, 174, 248,
      112, 160, 65, 32, 85, 171, 115, 98, 220, 49, 154, 46]

/-- With room for one file, the second one makes the first go. -/
theorem registries_lru_two_files :
    Function.Injective (Native.sshConfigCycleKey fileHash fileBytes [0]) ∧
      Function.Injective (Node.sshConfigCycleKey fileHash fileBytes []) ∧ 0 < 1 ∧
      (Node.canonicalPath (Node.sshConfigCycleKey fileHash fileBytes [])
        (Node.served (Node.sshConfigCycleKey fileHash fileBytes []) 1 Nat.one_pos
          [.remember false, .remember true]).1
        (Node.sshConfigCycleKey fileHash fileBytes [] false)).2 = none ∧
      (Node.served (Node.sshConfigCycleKey fileHash fileBytes []) 1 Nat.one_pos
        [.remember false, .remember true]).1.canonicalPaths.entries.length ≤ 1 := by
  have hnative : Function.Injective (Native.sshConfigCycleKey fileHash fileBytes [0]) := by decide
  have hnode : Function.Injective (Node.sshConfigCycleKey fileHash fileBytes []) := by
    decide +kernel
  have hlru := registries_lru fileHash fileBytes fileBytes [0] [] hnative hnode 1 Nat.one_pos
  exact ⟨hnative, hnode, Nat.one_pos, by decide +kernel, (hlru.2.1 _).length_le⟩

end Claims

end SshConfig
