import TerminalWorkspace.Foundation.Timestamps
import TerminalWorkspace.VaultSync.Contract

/-! Trust in an envelope, by the instants that its timestamps and those of the policy denote.
The evaluation compares the texts of the timestamps, which come in the order of the instants
only where these are far enough apart. -/
namespace VaultSync
open JsText Timestamps

section Dated

/-- A trusted key with times of any kind. -/
structure DatedKey (τ : Type) where
  keyId : JsString
  algorithm : CipherAlgorithm
  validFrom : τ
  rotateAfter : Option τ
  retireAfter : Option τ
  allowedVaultIds : Option (List JsString)
  replacementKeyIds : List JsString

/-- An envelope and a policy with times of any kind, and the time of evaluation. -/
structure Dated (τ : Type) where
  envelope : VaultSyncEnvelope
  exportedAt : τ
  allowUnknownKeys : Bool
  trustedKeys : List (DatedKey τ)
  now : Option τ

variable {τ σ : Type}

def DatedKey.map (f : τ → σ) (key : DatedKey τ) : DatedKey σ :=
  { key with
    validFrom := f key.validFrom
    rotateAfter := key.rotateAfter.map f
    retireAfter := key.retireAfter.map f }

def Dated.map (f : τ → σ) (d : Dated τ) : Dated σ :=
  { d with
    exportedAt := f d.exportedAt
    trustedKeys := d.trustedKeys.map (DatedKey.map f)
    now := d.now.map f }

def DatedKey.trustedKey (key : DatedKey JsString) : VaultSyncTrustedKey := { key with }

/-- What the evaluation says of texts. -/
def Dated.analysis (d : Dated JsString) : VaultSyncTrustAnalysis :=
  evaluateVaultSyncEnvelopeTrust
    { d.envelope with header := { d.envelope.header with exportedAt := d.exportedAt } }
    { allowUnknownKeys := d.allowUnknownKeys
      trustedKeys := d.trustedKeys.map DatedKey.trustedKey } d.now

/-- The first trusted key with the id of the envelope's. -/
def Dated.matchedKey (d : Dated τ) : Option (DatedKey τ) :=
  d.trustedKeys.find? fun key => key.keyId = d.envelope.cipher.keyId

def DatedKey.allows (key : DatedKey τ) (vaultId : JsString) : Bool :=
  key.allowedVaultIds.all (vaultId ∈ ·)

/-- An envelope of an unknown key is accepted where the policy says so; one of a trusted key for
its vaults, from when it becomes valid until it is retired. -/
def Dated.Trusted (d : Dated ℚ) : Prop :=
  (d.matchedKey = none ∧ d.allowUnknownKeys = true) ∨
    ∃ key, d.matchedKey = some key ∧ key.allows d.envelope.header.vaultId = true ∧
      key.validFrom ≤ d.exportedAt ∧ ∀ retired ∈ key.retireAfter, d.exportedAt ≤ retired

/-- The envelope is accepted by the instants, and another spelling of them changes neither that
nor the status. -/
def DecidedByInstants (d : Dated Timestamp) : Prop :=
  ((d.map Timestamp.text).analysis.accepted = true ↔ (d.map Timestamp.instant).Trusted) ∧
    ∀ other : Dated Timestamp, other.map Timestamp.instant = d.map Timestamp.instant →
      (other.map Timestamp.text).analysis.accepted = (d.map Timestamp.text).analysis.accepted ∧
        (other.map Timestamp.text).analysis.status = (d.map Timestamp.text).analysis.status

end Dated

section Outcome
variable {τ σ : Type}

/-- Acceptance and status for a trusted key, by what is taken for earlier. -/
def DatedKey.outcome (earlier : τ → τ → Prop) [DecidableRel earlier] (key : DatedKey τ)
    (vaultId : JsString) (exportedAt now : τ) : Bool × TrustStatus :=
  if key.allows vaultId = false then (false, .vaultMismatch)
  else if earlier exportedAt key.validFrom then (false, .notYetValid)
  else if ∃ retired ∈ key.retireAfter, earlier retired exportedAt then (false, .retired)
  else if ∃ rotated ∈ key.rotateAfter, ¬earlier now rotated then (true, .rotating)
  else (true, .active)

def Dated.outcome (earlier : τ → τ → Prop) [DecidableRel earlier] (d : Dated τ) :
    Bool × TrustStatus :=
  match d.matchedKey with
  | none => (d.allowUnknownKeys, .unknown)
  | some key =>
    key.outcome earlier d.envelope.header.vaultId d.exportedAt (d.now.getD d.exportedAt)

theorem matchedKey_map (f : τ → σ) (d : Dated τ) :
    (d.map f).matchedKey = d.matchedKey.map (DatedKey.map f) := by
  simp only [Dated.matchedKey, Dated.map, List.find?_map]
  rfl

theorem outcome_map (f : τ → σ) (earlier : σ → σ → Prop) [DecidableRel earlier]
    [DecidableRel fun first second => earlier (f first) (f second)] (d : Dated τ) :
    (d.map f).outcome earlier =
      d.outcome fun first second => earlier (f first) (f second) := by
  have hnow : (d.now.map f).getD (f d.exportedAt) = f (d.now.getD d.exportedAt) := by
    cases d.now <;> rfl
  simp only [Dated.outcome, matchedKey_map]
  cases d.matchedKey with
  | none => rfl
  | some key =>
    have hallows : (key.map f).allows = key.allows := rfl
    simp only [Option.map_some, DatedKey.outcome, hallows]
    simp [DatedKey.map, Dated.map, hnow]

theorem evaluate_unknown {envelope : VaultSyncEnvelope} {policy : VaultSyncTrustPolicy}
    {now : Option JsString}
    (hkey : policy.trustedKeys.find? (fun entry => entry.keyId = envelope.cipher.keyId) = none) :
    ((evaluateVaultSyncEnvelopeTrust envelope policy now).accepted,
        (evaluateVaultSyncEnvelopeTrust envelope policy now).status) =
      (policy.allowUnknownKeys, .unknown) := by
  simp only [evaluateVaultSyncEnvelopeTrust, hkey]

/-- The source's branches for a matched key, where no time is the empty text. -/
theorem evaluate_matched {envelope : VaultSyncEnvelope} {policy : VaultSyncTrustPolicy}
    {now : Option JsString} {key : DatedKey JsString}
    (hkey : policy.trustedKeys.find? (fun entry => entry.keyId = envelope.cipher.keyId) =
      some key.trustedKey)
    (hretire : key.retireAfter.bind Inventory.truthy = key.retireAfter)
    (hrotate : key.rotateAfter.bind Inventory.truthy = key.rotateAfter) :
    ((evaluateVaultSyncEnvelopeTrust envelope policy now).accepted,
        (evaluateVaultSyncEnvelopeTrust envelope policy now).status) =
      key.outcome (fun first second => before first second = true) envelope.header.vaultId
        envelope.header.exportedAt (now.getD envelope.header.exportedAt) := by
  have halgorithm : ¬key.algorithm ≠ envelope.cipher.algorithm := by
    cases key.algorithm
    cases envelope.cipher.algorithm
    simp
  have hallows : key.allowedVaultIds.any (envelope.header.vaultId ∉ ·) = true ↔
      key.allows envelope.header.vaultId = false := by
    cases h : key.allowedVaultIds <;> simp [DatedKey.allows, h]
  have hretired : (key.retireAfter.any fun time => before time envelope.header.exportedAt) = true ↔
      ∃ retired ∈ key.retireAfter, before retired envelope.header.exportedAt = true := by
    cases key.retireAfter <;> simp
  have hrotated : (key.rotateAfter.any fun time =>
        !before (now.getD envelope.header.exportedAt) time) = true ↔
      ∃ rotated ∈ key.rotateAfter,
        ¬before (now.getD envelope.header.exportedAt) rotated = true := by
    cases key.rotateAfter <;> simp
  unfold evaluateVaultSyncEnvelopeTrust
  simp only [hkey, DatedKey.trustedKey, DatedKey.outcome, halgorithm, if_false, hretire, hrotate,
    hallows, hretired, hrotated]
  split_ifs <;> rfl

theorem text_ne_nil (t : Timestamp) : t.text ≠ [] := by
  simp [Timestamp.text, Timestamp.clockText, ofText]

theorem truthy_text (time : Option Timestamp) :
    (time.map Timestamp.text).bind Inventory.truthy = time.map Timestamp.text := by
  cases time with
  | none => rfl
  | some t => simp [Inventory.truthy, text_ne_nil]

theorem analysis_eq (d : Dated Timestamp) :
    ((d.map Timestamp.text).analysis.accepted, (d.map Timestamp.text).analysis.status) =
      d.outcome fun first second => before first.text second.text = true := by
  have hfind : (d.map Timestamp.text).matchedKey.map DatedKey.trustedKey =
      ((d.map Timestamp.text).trustedKeys.map DatedKey.trustedKey).find?
        fun entry => entry.keyId = d.envelope.cipher.keyId := by
    rw [List.find?_map]
    rfl
  rw [matchedKey_map] at hfind
  rw [← outcome_map Timestamp.text fun first second => before first second = true, Dated.outcome,
    matchedKey_map]
  cases hkey : d.matchedKey with
  | none =>
    rw [hkey] at hfind
    exact evaluate_unknown hfind.symm
  | some key =>
    rw [hkey] at hfind
    exact evaluate_matched hfind.symm (truthy_text _) (truthy_text _)

theorem trusted_iff (d : Dated ℚ) :
    d.Trusted ↔ (d.outcome fun first second => first < second).1 = true := by
  unfold Dated.Trusted Dated.outcome
  cases d.matchedKey with
  | none => simp
  | some key =>
    simp only [reduceCtorEq, false_and, false_or, Option.some.injEq, exists_eq_left',
      DatedKey.outcome, ← not_lt]
    split_ifs <;> simp_all

variable {earlier : τ → τ → Prop} [DecidableRel earlier] {d : Dated τ} {key : DatedKey τ}

theorem notYetValid_iff (hkey : d.matchedKey = some key)
    (hallows : key.allows d.envelope.header.vaultId = true) :
    (d.outcome earlier).2 = .notYetValid ↔ earlier d.exportedAt key.validFrom := by
  simp only [Dated.outcome, hkey, DatedKey.outcome, hallows]
  split_ifs <;> simp_all

theorem retired_iff (hkey : d.matchedKey = some key)
    (hallows : key.allows d.envelope.header.vaultId = true)
    (hvalid : ¬earlier d.exportedAt key.validFrom) :
    (d.outcome earlier).2 = .retired ↔ ∃ retired ∈ key.retireAfter, earlier retired d.exportedAt := by
  simp only [Dated.outcome, hkey, DatedKey.outcome, hallows]
  split_ifs <;> simp_all

theorem active_iff (hkey : d.matchedKey = some key)
    (hallows : key.allows d.envelope.header.vaultId = true)
    (hvalid : ¬earlier d.exportedAt key.validFrom)
    (hunretired : ¬∃ retired ∈ key.retireAfter, earlier retired d.exportedAt) :
    (d.outcome earlier).2 = .active ↔
      ∀ rotated ∈ key.rotateAfter, earlier (d.now.getD d.exportedAt) rotated := by
  simp only [Dated.outcome, hkey, DatedKey.outcome, hallows]
  split_ifs <;> simp_all

end Outcome

section Decided

/-- The comparisons that the evaluation comes to are of instants that are apart. -/
def Settled (d : Dated Timestamp) : Prop :=
  ∀ key ∈ d.matchedKey, key.allows d.envelope.header.vaultId = true →
    Apart d.exportedAt key.validFrom ∧
      (key.validFrom.instant ≤ d.exportedAt.instant →
        (∀ retired ∈ key.retireAfter, Apart retired d.exportedAt) ∧
          ((∀ retired ∈ key.retireAfter, d.exportedAt.instant ≤ retired.instant) →
            ∀ rotated ∈ key.rotateAfter, Apart (d.now.getD d.exportedAt) rotated))

/-- By the texts of the timestamps, and by the instants. -/
def Dated.byTexts (d : Dated Timestamp) : Bool × TrustStatus :=
  d.outcome fun first second => before first.text second.text = true

def Dated.byInstants (d : Dated Timestamp) : Bool × TrustStatus :=
  d.outcome fun first second => first.instant < second.instant

theorem byInstants_congr {d other : Dated Timestamp}
    (h : other.map Timestamp.instant = d.map Timestamp.instant) :
    other.byInstants = d.byInstants := by
  have hother := outcome_map Timestamp.instant (fun first second : ℚ => first < second) other
  have hd := outcome_map Timestamp.instant (fun first second : ℚ => first < second) d
  rw [h] at hother
  exact hother.symm.trans hd

theorem decided_iff (d : Dated Timestamp) : DecidedByInstants d ↔
    (d.byTexts.1 = true ↔ d.byInstants.1 = true) ∧
      ∀ other : Dated Timestamp, other.map Timestamp.instant = d.map Timestamp.instant →
        other.byTexts = d.byTexts := by
  have haccepted : ∀ d : Dated Timestamp,
      (d.map Timestamp.text).analysis.accepted = d.byTexts.1 := fun d =>
    congrArg Prod.fst (analysis_eq d)
  have hstatus : ∀ d : Dated Timestamp, (d.map Timestamp.text).analysis.status = d.byTexts.2 :=
    fun d => congrArg Prod.snd (analysis_eq d)
  have hinstants : d.byInstants = (d.map Timestamp.instant).outcome fun first second =>
      first < second := (outcome_map _ _ _).symm
  unfold DecidedByInstants
  rw [trusted_iff, ← hinstants]
  simp only [haccepted, hstatus]
  exact and_congr Iff.rfl (forall₂_congr fun other _ => Prod.ext_iff.symm)

variable {d : Dated Timestamp} {key : DatedKey Timestamp}

/-- Where the comparisons that it comes to agree, the outcome is one. -/
theorem keyOutcome_congr {σ τ : Type} {earlier : σ → σ → Prop} {sooner : τ → τ → Prop}
    [DecidableRel earlier] [DecidableRel sooner] {first : DatedKey σ} {second : DatedKey τ}
    {vaultId : JsString} {exported now : σ} {exported' now' : τ}
    (hids : first.allowedVaultIds = second.allowedVaultIds)
    (hvalid : second.allows vaultId = true →
      (earlier exported first.validFrom ↔ sooner exported' second.validFrom))
    (hretired : second.allows vaultId = true → ¬sooner exported' second.validFrom →
      ((∃ retired ∈ first.retireAfter, earlier retired exported) ↔
        ∃ retired ∈ second.retireAfter, sooner retired exported'))
    (hrotated : second.allows vaultId = true → ¬sooner exported' second.validFrom →
      (¬∃ retired ∈ second.retireAfter, sooner retired exported') →
      ((∃ rotated ∈ first.rotateAfter, ¬earlier now rotated) ↔
        ∃ rotated ∈ second.rotateAfter, ¬sooner now' rotated)) :
    first.outcome earlier vaultId exported now = second.outcome sooner vaultId exported' now' := by
  have hallows : first.allows vaultId = second.allows vaultId := by
    rw [DatedKey.allows, DatedKey.allows, hids]
  unfold DatedKey.outcome
  rw [hallows]
  by_cases hall : second.allows vaultId = false
  · rw [if_pos hall, if_pos hall]
  rw [if_neg hall, if_neg hall]
  replace hall := Bool.not_eq_false _ |>.mp hall
  by_cases hearly : sooner exported' second.validFrom
  · rw [if_pos hearly, if_pos ((hvalid hall).mpr hearly)]
  rw [if_neg hearly, if_neg (mt (hvalid hall).mp hearly)]
  by_cases hlate : ∃ retired ∈ second.retireAfter, sooner retired exported'
  · rw [if_pos hlate, if_pos ((hretired hall hearly).mpr hlate)]
  rw [if_neg hlate, if_neg (mt (hretired hall hearly).mp hlate)]
  exact if_congr (hrotated hall hearly hlate) rfl rfl

/-- Another spelling of a time, with an option around it. -/
theorem exists_mem_iff {time time' : Option Timestamp}
    (h : time'.map Timestamp.instant = time.map Timestamp.instant) {p q : Timestamp → Prop}
    (hpq : ∀ t ∈ time, ∀ t' : Timestamp, t'.instant = t.instant → (p t' ↔ q t)) :
    (∃ t' ∈ time', p t') ↔ ∃ t ∈ time, q t := by
  cases time with
  | none =>
    obtain rfl : time' = none := Option.map_eq_none_iff.mp h
    simp
  | some t =>
    obtain ⟨t', rfl, ht⟩ := Option.map_eq_some_iff.mp h
    simpa using hpq t rfl t' ht

/-- Settled comparisons come out on any texts as on the instants. -/
theorem byTexts_of_settled (h : Settled d) {other : Dated Timestamp}
    (hother : other.map Timestamp.instant = d.map Timestamp.instant) :
    other.byTexts = d.byInstants := by
  have hmatched : other.matchedKey.map (DatedKey.map Timestamp.instant) =
      d.matchedKey.map (DatedKey.map Timestamp.instant) := by
    rw [← matchedKey_map, ← matchedKey_map, hother]
  have henvelope : other.envelope = d.envelope :=
    congrArg (fun e : Dated ℚ => e.envelope) hother
  have hunknown : other.allowUnknownKeys = d.allowUnknownKeys :=
    congrArg (fun e : Dated ℚ => e.allowUnknownKeys) hother
  have hexported : other.exportedAt.instant = d.exportedAt.instant :=
    congrArg Dated.exportedAt hother
  have hnow : (other.now.getD other.exportedAt).instant =
      (d.now.getD d.exportedAt).instant := by
    have hnows : other.now.map Timestamp.instant = d.now.map Timestamp.instant :=
      congrArg Dated.now hother
    cases hd : d.now with
    | none =>
      rw [hd] at hnows
      rw [Option.map_eq_none_iff.mp hnows]
      exact hexported
    | some t =>
      rw [hd] at hnows
      obtain ⟨t', ht', ht⟩ := Option.map_eq_some_iff.mp hnows
      rw [ht']
      exact ht
  unfold Dated.byTexts Dated.byInstants Dated.outcome
  cases hkey : d.matchedKey with
  | none =>
    rw [hkey] at hmatched
    rw [Option.map_eq_none_iff.mp hmatched, hunknown]
  | some key =>
    rw [hkey] at hmatched
    obtain ⟨key', hkey', hsame⟩ := Option.map_eq_some_iff.mp hmatched
    have hsettled := h key hkey
    rw [hkey', henvelope]
    refine keyOutcome_congr (congrArg (fun k : DatedKey ℚ => k.allowedVaultIds) hsame) ?_ ?_ ?_
    · intro hallows
      exact robust_iff.mpr (hsettled hallows).1 _ _ hexported (congrArg DatedKey.validFrom hsame)
    · intro hallows hvalid
      refine exists_mem_iff (congrArg DatedKey.retireAfter hsame) fun t ht t' hinstant => ?_
      exact robust_iff.mpr (((hsettled hallows).2 (not_lt.mp hvalid)).1 t ht) _ _ hinstant hexported
    · intro hallows hvalid hunretired
      have hinside := ((hsettled hallows).2 (not_lt.mp hvalid)).2 (by simpa using hunretired)
      refine exists_mem_iff (congrArg DatedKey.rotateAfter hsame) fun t ht t' hinstant => ?_
      exact not_congr (robust_iff.mpr (hinside t ht) _ _ hnow hinstant)

/-- The times of the matched key, of the export and of the evaluation can be written anew. -/
theorem exists_rewritten (hkey : d.matchedKey = some key) (key' : DatedKey Timestamp)
    (exported : Timestamp) (now : Option Timestamp)
    (hsame : key'.map Timestamp.instant = key.map Timestamp.instant)
    (hexported : exported.instant = d.exportedAt.instant)
    (hnow : now.map Timestamp.instant = d.now.map Timestamp.instant) :
    ∃ other : Dated Timestamp, other.map Timestamp.instant = d.map Timestamp.instant ∧
      other.matchedKey = some key' ∧ other.exportedAt = exported ∧ other.now = now ∧
        other.envelope = d.envelope := by
  obtain ⟨hid, earlierKeys, laterKeys, hkeys, hnone⟩ := List.find?_eq_some_iff_append.mp hkey
  have hid' : key'.keyId = key.keyId := congrArg (fun k : DatedKey ℚ => k.keyId) hsame
  refine ⟨{ d with
    exportedAt := exported, trustedKeys := earlierKeys ++ key' :: laterKeys, now := now },
    ?_, ?_, rfl, rfl, rfl⟩
  · simp only [Dated.map, hexported, hnow, hkeys, List.map_append, List.map_cons, hsame]
  · exact List.find?_eq_some_iff_append.mpr ⟨by rwa [hid'], earlierKeys, laterKeys, rfl, hnone⟩

/-- In a decided evaluation, a comparison on which the status hangs is settled. -/
theorem robust_of_hangs {a b : Timestamp} (status : TrustStatus)
    (hsame : ∀ first second : Dated Timestamp, first.map Timestamp.instant = d.map Timestamp.instant →
      second.map Timestamp.instant = d.map Timestamp.instant → first.byTexts = second.byTexts)
    (hhangs : ∀ a' b' : Timestamp, a'.instant = a.instant → b'.instant = b.instant →
      ∃ other : Dated Timestamp, other.map Timestamp.instant = d.map Timestamp.instant ∧
        (other.byTexts.2 = status ↔ before a'.text b'.text = true)) : Robust a b := by
  intro a' b' ha hb
  obtain ⟨ordered, ordered', ha', hb', horder, -⟩ := exists_inOrder a b
  obtain ⟨first, hfirst, hstatus⟩ := hhangs a' b' ha hb
  obtain ⟨second, hsecond, hstatus'⟩ := hhangs ordered ordered' ha' hb'
  rw [← hstatus, hsame first second hfirst hsecond, hstatus', horder, ha', hb']

/-- The time of evaluation is written anew where it stands: for itself, or as that of the export. -/
theorem exists_now (d : Dated Timestamp) {now : Timestamp}
    (h : now.instant = (d.now.getD d.exportedAt).instant) :
    ∃ exported now', exported.instant = d.exportedAt.instant ∧
      Option.map Timestamp.instant now' = d.now.map Timestamp.instant ∧
        now'.getD exported = now := by
  cases hd : d.now with
  | none =>
    rw [hd] at h
    exact ⟨now, none, h, rfl, rfl⟩
  | some t =>
    rw [hd] at h
    exact ⟨d.exportedAt, some now, rfl, congrArg some h, rfl⟩

theorem settled_of_decided (h : DecidedByInstants d) : Settled d := by
  have htexts := ((decided_iff d).mp h).2
  have hsame : ∀ first second : Dated Timestamp,
      first.map Timestamp.instant = d.map Timestamp.instant →
      second.map Timestamp.instant = d.map Timestamp.instant → first.byTexts = second.byTexts :=
    fun first second hfirst hsecond => (htexts first hfirst).trans (htexts second hsecond).symm
  intro key hkey hallows
  have hkey : d.matchedKey = some key := hkey
  have hvalid : Robust d.exportedAt key.validFrom := by
    refine robust_of_hangs .notYetValid hsame fun exported valid he hv => ?_
    obtain ⟨other, hother, hmatched, hexported, -, henvelope⟩ :=
      exists_rewritten hkey { key with validFrom := valid } exported d.now
        (by simp [DatedKey.map, hv]) he rfl
    refine ⟨other, hother, ?_⟩
    rw [Dated.byTexts, notYetValid_iff hmatched (by rw [henvelope]; exact hallows), hexported]
  refine ⟨robust_iff.mp hvalid, fun hle => ?_⟩
  have hnotEarly : ∀ exported : Timestamp, exported.instant = d.exportedAt.instant →
      ¬before exported.text key.validFrom.text = true := fun exported he hbefore =>
    absurd ((hvalid exported key.validFrom he rfl).mp hbefore) (not_lt.mpr hle)
  have hretired : ∀ retired ∈ key.retireAfter, Robust retired d.exportedAt := by
    intro retired hretire
    have hretire : key.retireAfter = some retired := hretire
    refine robust_of_hangs .retired hsame fun retired' exported hr he => ?_
    obtain ⟨other, hother, hmatched, hexported, -, henvelope⟩ :=
      exists_rewritten hkey { key with retireAfter := some retired' } exported d.now
        (by simp [DatedKey.map, hr, hretire]) he rfl
    refine ⟨other, hother, ?_⟩
    rw [Dated.byTexts, retired_iff hmatched (by rw [henvelope]; exact hallows)
      (by rw [hexported]; exact hnotEarly exported he), hexported]
    simp
  refine ⟨fun retired hretire => robust_iff.mp (hretired retired hretire), fun hafter => ?_⟩
  intro rotated hrotate
  have hrotate : key.rotateAfter = some rotated := hrotate
  refine robust_iff.mp (robust_of_hangs .active hsame fun now rotated' hn hr => ?_)
  obtain ⟨exported, now', he, hnow', hgetD⟩ := exists_now d hn
  obtain ⟨other, hother, hmatched, hexported, hothernow, henvelope⟩ :=
    exists_rewritten hkey { key with rotateAfter := some rotated' } exported now'
      (by simp [DatedKey.map, hr, hrotate]) he hnow'
  refine ⟨other, hother, ?_⟩
  rw [Dated.byTexts, active_iff hmatched (by rw [henvelope]; exact hallows)
    (by rw [hexported]; exact hnotEarly exported he) ?_, hexported, hothernow, hgetD]
  · simp
  · rintro ⟨retired, hretire, hbefore⟩
    rw [hexported] at hbefore
    exact absurd ((hretired retired hretire retired exported rfl he).mp hbefore)
      (not_lt.mpr (hafter retired hretire))

/-- Trust is decided by instants just when the comparisons that the evaluation comes to are of
instants that no offsets bring together. -/
theorem decidedByInstants_iff (d : Dated Timestamp) : DecidedByInstants d ↔ Settled d := by
  refine ⟨settled_of_decided, fun h => (decided_iff d).mpr ⟨?_, fun other hother => ?_⟩⟩
  · rw [byTexts_of_settled h rfl]
  · rw [byTexts_of_settled h hother, byTexts_of_settled h rfl]

/-- A key that is valid from April on, and an envelope of an hour before that, as it is dated
two hours ahead. -/
def exportBeforeApril : Dated Timestamp where
  envelope :=
    { header :=
        { schema := .terminalWorkspaceSync
          vaultId := js "vault-current"
          sourceDeviceId := js "device-current"
          snapshotId := js "snapshot-2"
          baseSnapshotId := some (js "snapshot-1")
          exportedAt := js "2026-04-01T01:00:00.000+02:00"
          recordCounts := ⟨.zero, .zero, .zero, .zero⟩
          deletionCounts := ⟨.zero, .zero, .zero, .zero⟩ }
      cipher :=
        { algorithm := .aes256Gcm
          keyId := js "vault-key-1"
          nonce := js "bm9uY2U="
          ciphertext := js "Y2lwaGVy"
          authTag := js "dGFn" }
      digest := [] }
  exportedAt := ⟨⟨2026, 3, 0, by decide, by decide, by decide⟩, 1, 0, 0, [0, 0, 0], .offset true 2 0⟩
  allowUnknownKeys := false
  trustedKeys := [
    { keyId := js "vault-key-1"
      algorithm := .aes256Gcm
      validFrom := ⟨⟨2026, 3, 0, by decide, by decide, by decide⟩, 0, 0, 0, [0, 0, 0], .utc⟩
      rotateAfter := none
      retireAfter := none
      allowedVaultIds := none
      replacementKeyIds := [] }]
  now := none

theorem exportBeforeApril_accepted :
    exportBeforeApril.exportedAt.text = js "2026-04-01T01:00:00.000+02:00" ∧
      (exportBeforeApril.map Timestamp.text).analysis.accepted = true ∧
      ¬(exportBeforeApril.map Timestamp.instant).Trusted ∧
      ¬DecidedByInstants exportBeforeApril := by
  have haccepted : (exportBeforeApril.map Timestamp.text).analysis.accepted = true := by decide
  have huntrusted : ¬(exportBeforeApril.map Timestamp.instant).Trusted := by
    rw [trusted_iff]
    decide +kernel
  exact ⟨by decide, haccepted, huntrusted, fun h => huntrusted (h.1.mp haccepted)⟩

end Decided

end VaultSync
