import TerminalWorkspace.Foundation.JoinedWords
import TerminalWorkspace.Foundation.QuotedWords
import TerminalWorkspace.VaultSync.Contract

/-! What the digest of an envelope binds. The fields are joined by a bar that no field escapes,
no base snapshot is written as an empty one, and a text is encoded with one character for
every lone surrogate; an envelope without these is the only one with its digest. -/
namespace VaultSync
open JsText JsNumbers Inventory LocalConfig

section Material

/-- A character of a number is none of the separators. -/
theorem number_text_plain (n : Number) {c : Char} (hc : c ∈ n.text) :
    c ≠ '|' ∧ c ≠ ':' ∧ c ≠ Char.ofNat 0xFFFD := by
  rcases n.text_plain c hc with hdigit | hmark
  · refine ⟨?_, ?_, ?_⟩ <;> rintro rfl <;> exact absurd hdigit (by decide)
  · have hmarks : ∀ c ∈ numberMarks, c ≠ '|' ∧ c ≠ ':' ∧ c ≠ Char.ofNat 0xFFFD :=
      forall_mem_of_all (by decide)
    exact hmarks c hmark

def countNumbers (counts : VaultSyncCountSummary) : List Number :=
  [counts.hosts, counts.keys, counts.snippets, counts.knownHosts]

theorem countsText_injective : Function.Injective countsText := by
  intro first second h
  have hwhole : ∀ text ∈ (countNumbers second).map fun n => ofText n.text,
      CodePoint.scalar ':' ∉ text := by
    intro text htext hcolon
    obtain ⟨n, -, rfl⟩ := List.mem_map.mp htext
    obtain ⟨c, hc, heq⟩ := List.mem_map.mp hcolon
    exact (number_text_plain n hc).2.1 (CodePoint.scalar.inj heq)
  have htexts : (countNumbers first).map (fun n => ofText n.text) =
      (countNumbers second).map fun n => ofText n.text :=
    JoinedFields.eq_of_intercalate hwhole rfl h
  have hnumbers : countNumbers first = countNumbers second :=
    List.map_injective_iff.mpr (fun m n hmn => Number.text_injective (ofText_injective hmn)) htexts
  cases first
  cases second
  simpa [countNumbers] using hnumbers

/-- A character that is no bar and has an encoding of its own. -/
def Fixed (c : CodePoint) : Prop := ∃ x, c = .scalar x ∧ x ≠ '|' ∧ x ≠ Char.ofNat 0xFFFD

theorem fixed_js {literal : String}
    (h : (literal.toList.all fun x => decide (x ≠ '|' ∧ x ≠ Char.ofNat 0xFFFD)) = true)
    {c : CodePoint} (hc : c ∈ js literal) : Fixed c := by
  obtain ⟨x, hx, rfl⟩ := List.mem_map.mp hc
  exact ⟨x, rfl, forall_mem_of_all h x hx⟩

theorem mem_countsText {counts : VaultSyncCountSummary} {c : CodePoint}
    (h : c ∈ countsText counts) : Fixed c := by
  have hnumber : ∀ n : Number, c ∈ ofText n.text → Fixed c := by
    intro n hc
    obtain ⟨x, hx, rfl⟩ := List.mem_map.mp hc
    obtain ⟨hbar, -, hreplacement⟩ := number_text_plain n hx
    exact ⟨x, rfl, hbar, hreplacement⟩
  have hcolon : c ∈ js ":" → Fixed c := fixed_js (by decide)
  simp only [countsText, List.map_cons, List.map_nil, List.intercalate_cons_cons,
    List.intercalate_singleton, List.mem_append] at h
  rcases h with (h | h) | (h | h) | (h | h) | h
  all_goals first | exact hcolon h | exact hnumber _ h

/-- The texts that the parser does not look into. -/
def freeTexts (header : VaultSyncEnvelopeHeader) (cipher : VaultSyncCipherPayload) :
    List JsString :=
  [header.vaultId, header.sourceDeviceId, header.snapshotId, header.baseSnapshotId.getD [],
    header.exportedAt, cipher.keyId, cipher.nonce, cipher.ciphertext, cipher.authTag]

def fields (header : VaultSyncEnvelopeHeader) (cipher : VaultSyncCipherPayload) : List JsString :=
  [header.schema.text, ofText version.text, payloadKind, header.vaultId, header.sourceDeviceId,
    header.snapshotId, header.baseSnapshotId.getD [], header.exportedAt,
    countsText header.recordCounts, countsText header.deletionCounts, cipher.algorithm.text,
    cipher.keyId, cipher.nonce, cipher.ciphertext, cipher.authTag]

/-- A character with an encoding that no other has. -/
def Encoded (c : CodePoint) : Prop := ∃ x, c = .scalar x ∧ x ≠ Char.ofNat 0xFFFD

/-- The envelopes that the digest material tells from all others: no text has a bar in it or a
character that is not encoded as itself, and there is a base snapshot with a name. -/
structure Separable (header : VaultSyncEnvelopeHeader) (cipher : VaultSyncCipherPayload) :
    Prop where
  whole : ∀ text ∈ freeTexts header cipher, .scalar '|' ∉ text
  encoded : ∀ text ∈ freeTexts header cipher, ∀ c ∈ text, Encoded c
  based : ∃ base, base ≠ [] ∧ header.baseSnapshotId = some base

variable {header other : VaultSyncEnvelopeHeader} {cipher otherCipher : VaultSyncCipherPayload}

/-- The fields that the source fixes, or the parser checks, have no bar and are encoded. -/
theorem mem_fields {text : JsString} (h : text ∈ fields header cipher) :
    text ∈ freeTexts header cipher ∨ ∀ c ∈ text, Fixed c := by
  have hschema : ∀ c ∈ header.schema.text, Fixed c := by
    cases header.schema <;> exact fun c => fixed_js (by decide)
  have hversion : ∀ c ∈ js "1", Fixed c := fun c => fixed_js (by decide)
  have hkind : ∀ c ∈ payloadKind, Fixed c := fun c => fixed_js (by decide)
  have halgorithm : ∀ c ∈ cipher.algorithm.text, Fixed c := by
    cases cipher.algorithm
    exact fun c => fixed_js (by decide)
  simp only [fields, List.mem_cons, List.not_mem_nil, or_false] at h
  rcases h with rfl | rfl | rfl | rfl | rfl | rfl | rfl | rfl | rfl | rfl | rfl | rfl | rfl | rfl | rfl
  all_goals first
    | exact .inr hschema
    | exact .inr hversion
    | exact .inr hkind
    | exact .inr halgorithm
    | exact .inr fun c => mem_countsText
    | exact .inl (by simp [freeTexts])

theorem eq_of_fields (hbased : ∃ base, base ≠ [] ∧ header.baseSnapshotId = some base)
    (h : fields other otherCipher = fields header cipher) :
    other = header ∧ otherCipher = cipher := by
  obtain ⟨schema, vaultId, sourceDeviceId, snapshotId, baseSnapshotId, exportedAt, records,
    deletions⟩ := header
  obtain ⟨schema', vaultId', sourceDeviceId', snapshotId', baseSnapshotId', exportedAt', records',
    deletions'⟩ := other
  obtain ⟨algorithm, keyId, nonce, ciphertext, authTag⟩ := cipher
  obtain ⟨algorithm', keyId', nonce', ciphertext', authTag'⟩ := otherCipher
  obtain ⟨base, hne, rfl⟩ := hbased
  simp only [fields, List.cons.injEq, and_true, true_and, Option.getD_some] at h
  obtain ⟨hschema, rfl, rfl, rfl, hbase, rfl, hrecords, hdeletions, rfl, rfl, rfl, rfl⟩ := h
  have hschemas : schema' = schema := by
    cases schema' <;> cases schema <;> first | rfl | exact absurd hschema (by decide)
  have hbases : baseSnapshotId' = some base := by
    cases baseSnapshotId' with
    | none => exact absurd hbase.symm hne
    | some base' => exact congrArg some hbase
  rw [hschemas, hbases, countsText_injective hrecords, countsText_injective hdeletions]
  cases algorithm
  cases algorithm'
  exact ⟨rfl, rfl⟩

/-- Equal materials come from equal envelopes, when one of them is separable. -/
theorem eq_of_material (hs : Separable header cipher)
    (h : createDigestMaterial other otherCipher = createDigestMaterial header cipher) :
    other = header ∧ otherCipher = cipher := by
  have hjoined : [CodePoint.scalar '|'].intercalate (fields other otherCipher) =
      [CodePoint.scalar '|'].intercalate (fields header cipher) := h
  refine eq_of_fields hs.based (JoinedFields.eq_of_intercalate ?_ rfl hjoined)
  intro text htext hbar
  rcases mem_fields htext with hfree | hfixed
  · exact hs.whole text hfree hbar
  · obtain ⟨x, hx, hne, -⟩ := hfixed _ hbar
    exact hne (CodePoint.scalar.inj hx).symm

end Material

section Encoding

/-- Texts that are encoded alike are the same, where one of them is encoded as itself. -/
theorem eq_of_toText {s t : JsString} (ht : ∀ c ∈ t, Encoded c) (h : toText s = toText t) : s = t := by
  induction t generalizing s with
  | nil => exact List.map_eq_nil_iff.mp h
  | cons c t ih =>
    cases s with
    | nil => cases h
    | cons d s =>
      obtain ⟨hhead, htail⟩ := List.cons.inj h
      obtain ⟨x, rfl, hx⟩ := ht c List.mem_cons_self
      have hd : d = .scalar x := by
        cases d with
        | scalar y => exact congrArg CodePoint.scalar hhead
        | surrogate unit => exact absurd hhead.symm hx
      rw [hd, ih (fun e he => ht e (List.mem_cons_of_mem _ he)) htail]

/-- Another code point with the same encoding. -/
def lookalike : CodePoint → CodePoint
  | .scalar c => if c = Char.ofNat 0xFFFD then .surrogate 0 else .scalar c
  | .surrogate _ => .scalar (Char.ofNat 0xFFFD)

theorem toScalar_lookalike (c : CodePoint) : (lookalike c).toScalar = c.toScalar := by
  cases c with
  | scalar x =>
    simp only [lookalike]
    split_ifs with h
    · exact h.symm
    · rfl
  | surrogate unit => rfl

theorem lookalike_ne {c : CodePoint} (h : ¬Encoded c) : lookalike c ≠ c := by
  cases c with
  | scalar x =>
    have hx : x = Char.ofNat 0xFFFD := by
      by_contra hne
      exact h ⟨x, rfl, hne⟩
    simp [lookalike, hx]
  | surrogate unit => simp [lookalike]

/-- A text with a character that is not encoded as itself looks like another. -/
theorem exists_lookalike {s : JsString} (h : ∃ c ∈ s, ¬Encoded c) :
    ∃ t, t ≠ s ∧ toText t = toText s := by
  obtain ⟨c, hc, hnot⟩ := h
  refine ⟨s.map lookalike, fun heq => ?_, ?_⟩
  · have hsame : ∀ d ∈ s, lookalike d = id d := List.map_inj_left.mp (heq.trans (List.map_id s).symm)
    exact lookalike_ne hnot (hsame c hc)
  · simp [toText, Function.comp_def, toScalar_lookalike]

theorem hexByte_injective : Function.Injective hexByte := by
  intro first second h
  have hdigits : ∀ m < 16, ∀ n < 16, Nat.digitChar m = Nat.digitChar n → m = n := by decide
  have hfirst := first.toNat_lt
  have hsecond := second.toNat_lt
  simp only [hexByte, List.cons.injEq, and_true] at h
  have hhigh := hdigits _ (by omega) _ (by omega) h.1
  have hlow := hdigits _ (by omega) _ (by omega) h.2
  exact UInt8.toNat_inj.mp (by omega)

theorem flatMap_hexByte_injective :
    Function.Injective fun bytes : List UInt8 => bytes.flatMap hexByte := by
  intro first second h
  induction first generalizing second with
  | nil =>
    cases second with
    | nil => rfl
    | cons byte bytes => cases h
  | cons byte bytes ih =>
    cases second with
    | nil => cases h
    | cons byte' bytes' =>
      simp only [List.flatMap_cons] at h
      obtain ⟨hbyte, hbytes⟩ := List.append_inj h rfl
      rw [hexByte_injective hbyte, ih hbytes]

variable {sha256 : List UInt8 → List UInt8}

variable (sha256) in
/-- Two texts with the same hash have the same bytes. -/
def NoCollision (s t : JsString) : Prop :=
  sha256 (utf8Bytes s) = sha256 (utf8Bytes t) → utf8Bytes s = utf8Bytes t

/-- Without a collision, equal digests come from texts that are encoded alike. -/
theorem NoCollision.toText {s t : JsString} (h : NoCollision sha256 s t)
    (hdigest : sha256Hex sha256 s = sha256Hex sha256 t) : JsText.toText s = JsText.toText t :=
  Utf8.encode_injective (h (flatMap_hexByte_injective (ofText_injective hdigest)))

theorem sha256Hex_congr {s t : JsString} (h : toText s = toText t) :
    sha256Hex sha256 s = sha256Hex sha256 t := by
  rw [sha256Hex, sha256Hex, utf8Bytes, utf8Bytes, h]

end Encoding

section Binding
variable (sha256 : List UInt8 → List UInt8) {header other : VaultSyncEnvelopeHeader}
  {cipher otherCipher : VaultSyncCipherPayload}

/-- The envelope of a header and a cipher block, with its digest. -/
def sealEnvelope (header : VaultSyncEnvelopeHeader) (cipher : VaultSyncCipherPayload) :
    VaultSyncEnvelope :=
  { header, cipher, digest := sha256Hex sha256 (createDigestMaterial header cipher) }

theorem buildVaultSyncEnvelope_eq {bundle : LocalConfigBundle} {envelope : VaultSyncEnvelope}
    (h : buildVaultSyncEnvelope sha256 bundle cipher = some envelope) :
    envelope = sealEnvelope sha256 envelope.header cipher := by
  simp only [buildVaultSyncEnvelope, Option.bind_eq_bind, Option.bind_eq_some_iff, Option.pure_def,
    Option.some.injEq] at h
  obtain ⟨vault, -, deletions, -, rfl⟩ := h
  rfl

/-- No other envelope has the digest material, and none that has the digest is inspected as
matching, imported in another way or trusted otherwise, unless the hash collides on the two. -/
def Binds (header : VaultSyncEnvelopeHeader) (cipher : VaultSyncCipherPayload) : Prop :=
  (∀ value other, parseVaultSyncEnvelope value = .ok other →
    createDigestMaterial other.header other.cipher = createDigestMaterial header cipher →
      other.header = header ∧ other.cipher = cipher) ∧
  ∀ value other localContext analysis, parseVaultSyncEnvelope value = .ok other →
    inspectVaultSyncEnvelope sha256 value localContext = .ok analysis →
    NoCollision sha256 (createDigestMaterial other.header other.cipher)
      (createDigestMaterial header cipher) →
    other.digest = (sealEnvelope sha256 header cipher).digest → analysis.digestMatches = true →
      other.header = header ∧ other.cipher = cipher ∧
        analysis.strategy = classifyVaultSyncStrategy header localContext ∧
          ∀ policy now, evaluateVaultSyncEnvelopeTrust other policy now =
            evaluateVaultSyncEnvelopeTrust (sealEnvelope sha256 header cipher) policy now

theorem inspect_eq_ok {value : Value} {envelope : VaultSyncEnvelope}
    {localContext : VaultSyncLocalContext} (h : parseVaultSyncEnvelope value = .ok envelope) :
    inspectVaultSyncEnvelope sha256 value localContext =
      .ok { strategy := classifyVaultSyncStrategy envelope.header localContext
            digestMatches := sha256Hex sha256
              (createDigestMaterial envelope.header envelope.cipher) = envelope.digest
            header := envelope.header } := by
  rw [inspectVaultSyncEnvelope, h, Except.map]

theorem toText_intercalate (separator : JsString) (texts : List JsString) :
    toText (separator.intercalate texts) = (toText separator).intercalate (texts.map toText) := by
  induction texts with
  | nil => rfl
  | cons text texts ih =>
    cases texts with
    | nil => simp
    | cons next texts =>
      rw [List.map_cons] at ih
      simp only [List.intercalate_cons_cons, List.map_cons, toText_append, ih]

theorem Fixed.encoded {c : CodePoint} (h : Fixed c) : Encoded c := by
  obtain ⟨x, hx, -, hne⟩ := h
  exact ⟨x, hx, hne⟩

theorem encoded_material (hs : Separable header cipher) :
    ∀ c ∈ createDigestMaterial header cipher, Encoded c := by
  intro c hc
  obtain hbar | ⟨text, htext, hc⟩ := QuotedWords.mem_intercalate hc
  · exact ⟨'|', List.mem_singleton.mp hbar, by decide⟩
  · rcases mem_fields htext with hfree | hfixed
    · exact hs.encoded text hfree c hc
    · exact (hfixed c hc).encoded

theorem binds_of_separable (hs : Separable header cipher) : Binds sha256 header cipher := by
  refine ⟨fun value other _ h => eq_of_material hs h, ?_⟩
  intro value other localContext analysis hparse hinspect hclean hdigest hmatches
  rw [inspect_eq_ok sha256 hparse] at hinspect
  obtain rfl := Except.ok.inj hinspect
  have hsame := (of_decide_eq_true hmatches).trans hdigest
  have hmaterial := eq_of_toText (encoded_material hs) (hclean.toText hsame)
  obtain ⟨hheader, hcipher⟩ := eq_of_material hs hmaterial
  obtain ⟨otherHeader, otherCipher, digest⟩ := other
  obtain rfl : otherHeader = header := hheader
  obtain rfl : otherCipher = cipher := hcipher
  obtain rfl : digest = (sealEnvelope sha256 otherHeader otherCipher).digest := hdigest
  exact ⟨rfl, rfl, rfl, fun _ _ => rfl⟩

/-- What the binding says of headers and ciphers, whatever value they come from. -/
theorem Binds.eq_of_material (h : Binds sha256 header cipher)
    (hmaterial : createDigestMaterial other otherCipher = createDigestMaterial header cipher) :
    other = header ∧ otherCipher = cipher :=
  h.1 _ _ (parse_envelopeValue ⟨other, otherCipher, []⟩) hmaterial

theorem Binds.eq_of_toText (h : Binds sha256 header cipher)
    (htext : toText (createDigestMaterial other otherCipher) =
      toText (createDigestMaterial header cipher)) : other = header ∧ otherCipher = cipher := by
  have hdigest : sha256Hex sha256 (createDigestMaterial other otherCipher) =
      (sealEnvelope sha256 header cipher).digest := sha256Hex_congr htext
  have hbytes : utf8Bytes (createDigestMaterial other otherCipher) =
      utf8Bytes (createDigestMaterial header cipher) := congrArg Utf8.encode htext
  obtain ⟨hheader, hcipher, -⟩ := h.2 _ _ ⟨[], none⟩ _
    (parse_envelopeValue ⟨other, otherCipher, (sealEnvelope sha256 header cipher).digest⟩)
    (inspect_eq_ok sha256 (parse_envelopeValue _)) (fun _ => hbytes) rfl (decide_eq_true hdigest)
  exact ⟨hheader, hcipher⟩

theorem Binds.eq_of_texts (h : Binds sha256 header cipher)
    (htexts : (fields other otherCipher).map toText = (fields header cipher).map toText) :
    other = header ∧ otherCipher = cipher := by
  refine h.eq_of_toText sha256 ?_
  have hother := toText_intercalate (js "|") (fields other otherCipher)
  rw [htexts, ← toText_intercalate] at hother
  exact hother

/-- Two neighbours are joined to one text whichever bar is taken for the one between them. -/
theorem Binds.eq_of_shift (h : Binds sha256 header cipher) (place : ℕ) (a b next : JsString)
    (other : VaultSyncEnvelopeHeader) (otherCipher : VaultSyncCipherPayload)
    (hfields : fields header cipher = (fields header cipher).take place ++
      (a ++ .scalar '|' :: b) :: next :: (fields header cipher).drop (place + 2))
    (hother : fields other otherCipher = (fields header cipher).take place ++
      a :: (b ++ .scalar '|' :: next) :: (fields header cipher).drop (place + 2)) :
    other = header ∧ otherCipher = cipher := by
  refine h.eq_of_material sha256 ?_
  have hshift := JoinedFields.intercalate_shift (CodePoint.scalar '|')
    ((fields header cipher).take place) ((fields header cipher).drop (place + 2)) a b next
  rw [← hfields, ← hother] at hshift
  exact hshift.symm

theorem Binds.eq_of_shift_back (h : Binds sha256 header cipher) (place : ℕ)
    (a b next : JsString) (other : VaultSyncEnvelopeHeader) (otherCipher : VaultSyncCipherPayload)
    (hfields : fields header cipher = (fields header cipher).take place ++
      a :: (b ++ .scalar '|' :: next) :: (fields header cipher).drop (place + 2))
    (hother : fields other otherCipher = (fields header cipher).take place ++
      (a ++ .scalar '|' :: b) :: next :: (fields header cipher).drop (place + 2)) :
    other = header ∧ otherCipher = cipher := by
  refine h.eq_of_material sha256 ?_
  have hshift := JoinedFields.intercalate_shift (CodePoint.scalar '|')
    ((fields header cipher).take place) ((fields header cipher).drop (place + 2)) a b next
  rw [← hfields, ← hother] at hshift
  exact hshift

/-- A bar in a text can be read as its end, or as the end of the text before it. -/
theorem Binds.whole (h : Binds sha256 header cipher) {base : JsString}
    (hbase : header.baseSnapshotId = some base) :
    ∀ text ∈ freeTexts header cipher, .scalar '|' ∉ text := by
  intro text htext hbar
  obtain ⟨a, b, hcut⟩ := List.append_of_mem hbar
  have hend : a ≠ a ++ .scalar '|' :: b := by simp
  have hstart : b ≠ a ++ .scalar '|' :: b := by
    intro heq
    have hlength := congrArg List.length heq
    simp only [List.length_append, List.length_cons] at hlength
    omega
  have hshown : header.baseSnapshotId.getD [] = base := by rw [hbase, Option.getD_some]
  simp only [freeTexts, List.mem_cons, List.not_mem_nil, or_false] at htext
  rcases htext with rfl | rfl | rfl | rfl | rfl | rfl | rfl | rfl | rfl
  · have hsame := (h.eq_of_shift sha256 3 a b header.sourceDeviceId { header with
      vaultId := a, sourceDeviceId := b ++ .scalar '|' :: header.sourceDeviceId } cipher
      (by rw [← hcut]; rfl) rfl).1
    exact hend ((congrArg (·.vaultId) hsame).trans hcut)
  · have hsame := (h.eq_of_shift sha256 4 a b header.snapshotId { header with
      sourceDeviceId := a, snapshotId := b ++ .scalar '|' :: header.snapshotId } cipher
      (by rw [← hcut]; rfl) rfl).1
    exact hend ((congrArg (·.sourceDeviceId) hsame).trans hcut)
  · have hsame := (h.eq_of_shift sha256 5 a b base { header with
      snapshotId := a, baseSnapshotId := some (b ++ .scalar '|' :: base) } cipher
      (by rw [← hcut, ← hshown]; rfl) rfl).1
    exact hend ((congrArg (·.snapshotId) hsame).trans hcut)
  · have hsame := (h.eq_of_shift sha256 6 a b header.exportedAt { header with
      baseSnapshotId := some a, exportedAt := b ++ .scalar '|' :: header.exportedAt } cipher
      (by rw [← hcut]; rfl) rfl).1
    exact hend ((congrArg (·.baseSnapshotId.getD []) hsame).trans hcut)
  · have hsame := (h.eq_of_shift_back sha256 6 base a b { header with
      baseSnapshotId := some (base ++ .scalar '|' :: a), exportedAt := b } cipher
      (by rw [← hcut, ← hshown]; rfl) rfl).1
    exact hstart ((congrArg (·.exportedAt) hsame).trans hcut)
  · have hsame := (h.eq_of_shift sha256 11 a b cipher.nonce header { cipher with
      keyId := a, nonce := b ++ .scalar '|' :: cipher.nonce } (by rw [← hcut]; rfl) rfl).2
    exact hend ((congrArg (·.keyId) hsame).trans hcut)
  · have hsame := (h.eq_of_shift sha256 12 a b cipher.ciphertext header { cipher with
      nonce := a, ciphertext := b ++ .scalar '|' :: cipher.ciphertext }
      (by rw [← hcut]; rfl) rfl).2
    exact hend ((congrArg (·.nonce) hsame).trans hcut)
  · have hsame := (h.eq_of_shift sha256 13 a b cipher.authTag header { cipher with
      ciphertext := a, authTag := b ++ .scalar '|' :: cipher.authTag }
      (by rw [← hcut]; rfl) rfl).2
    exact hend ((congrArg (·.ciphertext) hsame).trans hcut)
  · have hsame := (h.eq_of_shift_back sha256 13 cipher.ciphertext a b header { cipher with
      ciphertext := cipher.ciphertext ++ .scalar '|' :: a, authTag := b }
      (by rw [← hcut]; rfl) rfl).2
    exact hstart ((congrArg (·.authTag) hsame).trans hcut)

/-- A text that looks like another can be taken for it. -/
theorem Binds.encoded (h : Binds sha256 header cipher) :
    ∀ text ∈ freeTexts header cipher, ∀ c ∈ text, Encoded c := by
  intro text htext c hc
  by_contra hnot
  obtain ⟨t, hne, ht⟩ := exists_lookalike ⟨c, hc, hnot⟩
  simp only [freeTexts, List.mem_cons, List.not_mem_nil, or_false] at htext
  have hheader : ∀ other, (fields other cipher).map toText = (fields header cipher).map toText →
      other = header := fun _ htexts => (h.eq_of_texts sha256 htexts).1
  have hcipher : ∀ other, (fields header other).map toText = (fields header cipher).map toText →
      other = cipher := fun _ htexts => (h.eq_of_texts sha256 htexts).2
  rcases htext with rfl | rfl | rfl | rfl | rfl | rfl | rfl | rfl | rfl
  · exact hne (congrArg (·.vaultId) (hheader { header with vaultId := t } (by simp [fields, ht])))
  · exact hne (congrArg (·.sourceDeviceId)
      (hheader { header with sourceDeviceId := t } (by simp [fields, ht])))
  · exact hne (congrArg (·.snapshotId)
      (hheader { header with snapshotId := t } (by simp [fields, ht])))
  · exact hne (congrArg (·.baseSnapshotId.getD [])
      (hheader { header with baseSnapshotId := some t } (by simp [fields, ht])))
  · exact hne (congrArg (·.exportedAt)
      (hheader { header with exportedAt := t } (by simp [fields, ht])))
  · exact hne (congrArg (·.keyId) (hcipher { cipher with keyId := t } (by simp [fields, ht])))
  · exact hne (congrArg (·.nonce) (hcipher { cipher with nonce := t } (by simp [fields, ht])))
  · exact hne (congrArg (·.ciphertext)
      (hcipher { cipher with ciphertext := t } (by simp [fields, ht])))
  · exact hne (congrArg (·.authTag) (hcipher { cipher with authTag := t } (by simp [fields, ht])))

/-- No base snapshot is written as one without a name. -/
theorem Binds.based (h : Binds sha256 header cipher) :
    ∃ base, base ≠ [] ∧ header.baseSnapshotId = some base := by
  cases hbase : header.baseSnapshotId with
  | none =>
    have hmaterial : createDigestMaterial { header with baseSnapshotId := some [] } cipher =
        createDigestMaterial header cipher := by
      simp [createDigestMaterial, hbase]
    have hsame := (h.eq_of_material sha256 hmaterial).1
    rw [← hsame] at hbase
    cases hbase
  | some base =>
    refine ⟨base, ?_, rfl⟩
    rintro rfl
    have hmaterial : createDigestMaterial { header with baseSnapshotId := none } cipher =
        createDigestMaterial header cipher := by
      simp [createDigestMaterial, hbase]
    have hsame := (h.eq_of_material sha256 hmaterial).1
    rw [← hsame] at hbase
    cases hbase

theorem separable_of_binds (h : Binds sha256 header cipher) : Separable header cipher := by
  obtain ⟨base, hne, hbase⟩ := h.based
  exact ⟨h.whole sha256 hbase, h.encoded sha256, base, hne, hbase⟩

/-- The digest of an envelope binds its header and its cipher block just when no text has a bar
in it or a character that is not encoded as itself, and a base snapshot is named. -/
theorem binds_iff (header : VaultSyncEnvelopeHeader) (cipher : VaultSyncCipherPayload) :
    Binds sha256 header cipher ↔ Separable header cipher :=
  ⟨separable_of_binds sha256, binds_of_separable sha256⟩

/-- A snapshot of a vault with no records, from the device that applied the one before it. -/
def deviceHeader (vaultId sourceDeviceId : JsString) : VaultSyncEnvelopeHeader where
  schema := .terminalWorkspaceSync
  vaultId := vaultId
  sourceDeviceId := sourceDeviceId
  snapshotId := js "snapshot-2"
  baseSnapshotId := some (js "snapshot-1")
  exportedAt := js "2026-03-29T12:00:00.000Z"
  recordCounts := ⟨.zero, .zero, .zero, .zero⟩
  deletionCounts := ⟨.zero, .zero, .zero, .zero⟩

def deviceCipher : VaultSyncCipherPayload where
  algorithm := .aes256Gcm
  keyId := js "vault-key-1"
  nonce := js "bm9uY2U="
  ciphertext := js "Y2lwaGVy"
  authTag := js "dGFn"

/-- A device name with a bar gives its first part away to the vault's name: the edited snapshot
has the digest of the one that was built, and is adopted where that one fast-forwards. -/
theorem device_bar_moves :
    parseVaultSyncEnvelope (envelopeValue
        ⟨deviceHeader (js "vault|laptop") (js "work"), deviceCipher,
          (sealEnvelope id (deviceHeader (js "vault") (js "laptop|work")) deviceCipher).digest⟩) =
      .ok ⟨deviceHeader (js "vault|laptop") (js "work"), deviceCipher,
        (sealEnvelope id (deviceHeader (js "vault") (js "laptop|work")) deviceCipher).digest⟩ ∧
    createDigestMaterial (deviceHeader (js "vault|laptop") (js "work")) deviceCipher =
      createDigestMaterial (deviceHeader (js "vault") (js "laptop|work")) deviceCipher ∧
    classifyVaultSyncStrategy (deviceHeader (js "vault|laptop") (js "work"))
      ⟨js "vault", some (js "snapshot-1")⟩ = .adoptVault ∧
    classifyVaultSyncStrategy (deviceHeader (js "vault") (js "laptop|work"))
      ⟨js "vault", some (js "snapshot-1")⟩ = .fastForward ∧
    ¬Binds id (deviceHeader (js "vault") (js "laptop|work")) deviceCipher := by
  refine ⟨parse_envelopeValue _, rfl, by decide, by decide, fun h => ?_⟩
  exact absurd ((separable_of_binds id h).whole (js "laptop|work") (by simp [freeTexts, deviceHeader])) (by decide)

end Binding

end VaultSync
