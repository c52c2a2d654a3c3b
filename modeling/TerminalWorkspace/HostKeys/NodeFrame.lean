import TerminalWorkspace.HostKeys.NodeStore

/-! What one pin does to the Node store: the frame law of `verifyOrPin`, and the
exact condition on the algorithm name under which it holds. -/
namespace HostKeys
open RecordFile OrderedMap JsText

section Load

/-- The text of a store, empty when there is no file. -/
def storeText : StoreFile → Option JsString
  | .absent => some []
  | .irregular => none
  | .regular bytes => decodeText bytes

theorem loadLines_eq_ok {lines : List JsString} {index : ℕ} {m R : Records} :
    loadLines index m lines = .ok R ↔
      ∃ rs, records nodeAlphabet lines = some rs ∧ R = m.setAll (entries rs) :=
  RecordFile.load_eq_ok fun _ h => splitRuns_trim isSpace h

theorem load_eq_ok {fs : FileSystem} {file : StoreFile} {R : Records} :
    load fs file = .ok R ↔
      fs.opensForReading = true ∧ (file = .absent ∨ fs.reads = true) ∧
      ∃ text rs, storeText file = some text ∧
        records nodeAlphabet (text.splitOn (.scalar '\n')) = some rs ∧ R = ofList (entries rs) := by
  cases hopen : fs.opensForReading with
  | false => simp [load, hopen]
  | true =>
    cases file with
    | absent =>
      have hnil : records nodeAlphabet (([] : JsString).splitOn (.scalar '\n')) = some [] := by
        decide
      have hload : load fs .absent = .ok empty := by simp [load, hopen]
      rw [hload]
      constructor
      · intro h
        exact ⟨rfl, .inl rfl, [], [], rfl, hnil, (Except.ok.inj h).symm⟩
      · rintro ⟨-, -, text, rs, htext, hrs, rfl⟩
        obtain rfl := Option.some.inj htext
        rw [hnil] at hrs
        obtain rfl := Option.some.inj hrs
        rfl
    | irregular => simp [load, hopen, storeText]
    | regular bytes =>
      cases hread : fs.reads with
      | false => simp [load, hopen, hread]
      | true =>
        cases ht : decodeText bytes with
        | none => simp [load, hopen, hread, storeText, ht]
        | some text => simp [load, hopen, hread, storeText, ht, loadLines_eq_ok, ofList]

theorem wellFormed_storeText {file : StoreFile} {text : JsString}
    (h : storeText file = some text) : WellFormed text := by
  cases file with
  | absent => exact (Option.some.inj h) ▸ wellFormed_ofText []
  | irregular => simp [storeText] at h
  | regular bytes =>
    obtain ⟨t, -, rfl⟩ := Option.map_eq_some_iff.mp h
    exact wellFormed_ofText _

/-- Only patterns that have an encoding can be found in a loaded store. -/
theorem wellFormed_of_loaded {fs : FileSystem} {file : StoreFile} {R : Records}
    (h : load fs file = .ok R) {pattern : JsString} (hp : (R.get? pattern).isSome) :
    WellFormed pattern := by
  obtain ⟨-, -, text, rs, htext, hrs, rfl⟩ := load_eq_ok.mp h
  obtain ⟨v, hv⟩ := Option.isSome_iff_exists.mp hp
  rw [ofList, get?_setAll, get?_empty, Option.or_none] at hv
  obtain ⟨r, hr, he⟩ := List.mem_map.mp (lastFor_mem hv)
  obtain ⟨l, hl, hhost, -⟩ := mem_records hrs hr
  have hsub : r.host.Sublist text :=
    (mem_words _ hhost).2.1.trans (mem_splitOnP (· == CodePoint.scalar '\n') hl).1
  obtain rfl : r.host = pattern := (Prod.mk.inj he).1
  exact fun c hc => wellFormed_storeText htext c (hsub.subset hc)

end Load

section Fields

private theorem scalar_not_space {c : Char} (h : c.toNat ∉ spaceCodes) :
    isSpace (.scalar c) = false := by
  simpa [isSpace, isSpaceChar] using h

theorem digits_not_space (n : ℕ) : ∀ c ∈ ofText (Nat.toDigits 10 n), isSpace c = false := by
  intro c hc
  obtain ⟨d, hd, rfl⟩ := List.mem_map.mp hc
  have hdigit := Nat.isDigit_of_mem_toDigits (by decide) (by decide) hd
  simp only [Char.isDigit, ge_iff_le, Bool.and_eq_true, decide_eq_true_eq] at hdigit
  have h1 : 48 ≤ d.toNat := hdigit.1
  have h2 : d.toNat ≤ 57 := hdigit.2
  have hcodes : ∀ n < 58, 48 ≤ n → n ∉ spaceCodes := by decide
  exact scalar_not_space (hcodes _ (by omega) h1)

/-- An accepted hostname and port make one field. -/
theorem isField_pattern {hostname pattern : JsString} {port : Option ℤ}
    (h : knownHostsHostPattern hostname port = .ok pattern) : IsField nodeAlphabet pattern := by
  unfold knownHostsHostPattern at h
  generalize trim isSpace hostname = name at h
  simp only at h
  split_ifs at h with hempty hplain
  simp only [List.any_eq_true, Bool.or_eq_true, decide_eq_true_eq, not_exists, not_and,
    not_or, Bool.not_eq_true] at hplain
  have hhead : name.head? ≠ some (.scalar '#') := fun hh =>
    (hplain _ (List.mem_of_mem_head? hh)).2 rfl
  cases port with
  | none => simp at h
  | some number =>
    simp only at h
    split_ifs at h
    · obtain rfl := Except.ok.inj h
      exact ⟨⟨hempty, fun c hc => (hplain c hc).1⟩, hhead⟩
    · obtain rfl := Except.ok.inj h
      refine ⟨⟨by simp [js, ofText], ?_⟩, by simp [js, ofText, nodeAlphabet]⟩
      intro c hc
      simp only [List.mem_append] at hc
      rcases hc with ((hc | hc) | hc) | hc
      · obtain rfl : c = .scalar '[' := by simpa [js, ofText] using hc
        rfl
      · exact (hplain c hc).1
      · have : c = .scalar ']' ∨ c = .scalar ':' := by simpa [js, ofText] using hc
        rcases this with rfl | rfl <;> rfl
      · exact digits_not_space _ c hc

private theorem base64_not_space {c : Char} (h : Base64.IsBase64Char c) :
    isSpace (.scalar c) = false := by
  have hdigit : ∀ n < 64, isSpace (.scalar (Base64.digit n)) = false := by decide
  rcases h with rfl | ⟨n, hn, rfl⟩
  · decide
  · exact hdigit n hn

theorem isWord_base64Key {keyBlob : List UInt8} (h : keyBlob ≠ []) :
    IsWord nodeAlphabet (base64Key keyBlob) := by
  refine ⟨fun h0 => ?_, fun c hc => ?_⟩
  · have hlen := Base64.length_le_encode keyBlob
    have hkey : (base64Key keyBlob).length = (Base64.encode keyBlob).length := List.length_map _
    rw [h0, List.length_nil] at hkey
    exact h (List.length_eq_zero_iff.mp (by omega))
  · obtain ⟨d, hd, rfl⟩ := List.mem_map.mp hc
    exact base64_not_space (Base64.encode_chars keyBlob d hd)

theorem base64Key_injective : Function.Injective base64Key := by
  intro a b h
  have hinj : Function.Injective CodePoint.scalar := fun _ _ => CodePoint.scalar.inj
  exact Base64.encode_injective (List.map_injective_iff.mpr hinj h)

/-- The algorithm name is read out of the blob, so it is shorter than the key field. -/
theorem algorithm_spec {keyBlob : List UInt8} {algorithm : JsString}
    (h : hostKeyAlgorithmName keyBlob = some algorithm) :
    keyBlob ≠ [] ∧ WellFormed algorithm ∧ algorithm.length < (base64Key keyBlob).length := by
  rw [hostKeyAlgorithmName] at h
  simp only at h
  split_ifs at h with h4 hlen htrim
  obtain rfl := Option.some.inj h
  have hne : keyBlob ≠ [] := by
    rintro rfl
    simp at h4
  refine ⟨hne, wellFormed_ofText _, ?_⟩
  have hdecode := Utf8.decodeLossy_length_le ((keyBlob.drop 4).take (readUInt32BE keyBlob))
  have htake : ((keyBlob.drop 4).take (readUInt32BE keyBlob)).length ≤ keyBlob.length - 4 := by
    rw [List.length_take, List.length_drop]
    exact min_le_right _ _
  have hencode := Base64.length_le_encode keyBlob
  simp only [base64Key, ofText, List.length_map]
  omega

end Fields

section Append
variable {fs : FileSystem} {file file' : StoreFile} {bytes : List UInt8}
  {pattern algorithm key : JsString}

theorem appendPin_eq_ok (h : appendPin fs file pattern algorithm key = (.ok (), file')) :
    file' = .regular (file.bytes ++ pinPayload file.bytes pattern algorithm key) := by
  unfold appendPin at h
  cases hn : fs.write.taken (pinPayload file.bytes pattern algorithm key) with
  | none =>
    simp only [hn] at h
    split_ifs at h <;> simp at h
  | some written =>
    simp only [hn] at h
    split_ifs at h with _ _ _ hlen
    all_goals try simp at h
    rw [← h, WriteAnswer.taken_eq hn (not_not.mp hlen)]

/-- A pin was decided on an unknown pattern and wrote its whole record. -/
theorem checkOrPin_pinned {R : Records} (hload : load fs file = .ok R)
    (h : checkOrPin fs file pattern algorithm key = (.ok .pinned, file')) :
    R.get? pattern = none ∧
      file' = .regular (file.bytes ++ pinPayload file.bytes pattern algorithm key) := by
  rw [checkOrPin, hload] at h
  cases hget : R.get? pattern with
  | some existing =>
    simp only [hget] at h
    have := (Prod.mk.inj h).1
    split_ifs at this <;> simp at this
  | none =>
    simp only [hget] at h
    cases hap : appendPin fs file pattern algorithm key with
    | mk result file₁ =>
      cases result with
      | error e => simp [hap] at h
      | ok u =>
        simp only [hap] at h
        exact ⟨rfl, (Prod.mk.inj h).2 ▸ appendPin_eq_ok hap⟩

theorem readBack_pinBody (pattern algorithm key : JsString) :
    readBack (pinBody pattern algorithm key) =
      recordText nodeAlphabet (readBack pattern) (readBack algorithm) (readBack key) ++
        [.scalar '\n'] := by
  simp [pinBody, recordText, js, nodeAlphabet, ofText]

/-- The mark that decoding drops counts as white space, so no field starts with it. -/
theorem head_ne_bom (h : IsField nodeAlphabet pattern) (rest : JsString) :
    (toText (pattern ++ rest)).head? ≠ some (Char.ofNat 0xFEFF) := by
  obtain ⟨c, pattern, rfl⟩ := List.exists_cons_of_ne_nil h.nonempty
  have hc := h.not_space c List.mem_cons_self
  intro hbom
  have hx : c.toScalar = Char.ofNat 0xFEFF := by simpa [toText] using hbom
  cases c with
  | scalar x =>
    obtain rfl : x = Char.ofNat 0xFEFF := hx
    exact absurd hc (by decide)
  | surrogate u => exact absurd (show Char.ofNat 0xFFFD = Char.ofNat 0xFEFF from hx) (by decide)

/-- The appended record is read behind the records already there, whatever the
file ended in. -/
theorem records_pinPayload {text : JsString} (htext : decodeText bytes = some text)
    (hp : IsField nodeAlphabet pattern) (algorithm key : JsString) :
    ∃ text', decodeText (bytes ++ pinPayload bytes pattern algorithm key) = some text' ∧
      records nodeAlphabet (text'.splitOn (.scalar '\n')) =
        (records nodeAlphabet (text.splitOn (.scalar '\n'))).bind fun rs =>
          (records nodeAlphabet ((recordText nodeAlphabet (readBack pattern) (readBack algorithm)
            (readBack key)).splitOn (.scalar '\n'))).map (rs ++ ·) := by
  have hbody : readBack ((if needsSeparator bytes then js "\n" else []) ++
      pinBody pattern algorithm key) =
      (if needsSeparator bytes then [.scalar '\n'] else []) ++
        (recordText nodeAlphabet (readBack pattern) (readBack algorithm) (readBack key) ++
          [.scalar '\n']) := by
    rw [readBack_append, readBack_pinBody]
    split_ifs <;> rfl
  have hhead : (toText ((if needsSeparator bytes then js "\n" else []) ++
      pinBody pattern algorithm key)).head? ≠ some (Char.ofNat 0xFEFF) := by
    split_ifs
    · simp [js, ofText, toText, CodePoint.toScalar]
    · simpa [pinBody] using head_ne_bom hp (js " " ++ algorithm ++ js " " ++ key ++ js "\n")
  refine ⟨_, decodeText_append htext hhead, ?_⟩
  rw [hbody]
  refine records_append_line (A := nodeAlphabet) _ fun hsep => ?_
  rcases List.eq_nil_or_concat bytes with rfl | ⟨init, last, rfl⟩
  · exact .inl (Option.some.inj htext).symm
  · -- the file already ends in a line break
    have hlast : last = 0x0A := by simpa [needsSeparator] using hsep
    rw [List.concat_eq_append, hlast] at htext
    exact .inr (decodeText_concat_newline htext)

theorem decodeText_bytes {text : JsString} (h : storeText file = some text) :
    decodeText file.bytes = some text := by
  cases file with
  | absent => exact h
  | irregular => simp [storeText] at h
  | regular bytes => exact h

/-- What a store holds after an append: the records before it and the new lines. -/
theorem load_after_pin {fs' : FileSystem} {R R' : Records} (hload : load fs file = .ok R)
    (hp : IsField nodeAlphabet pattern) (algorithm key : JsString)
    (hopen : fs'.opensForReading = true) (hread : fs'.reads = true) :
    load fs' (.regular (file.bytes ++ pinPayload file.bytes pattern algorithm key)) = .ok R' ↔
      ∃ rs, records nodeAlphabet ((recordText nodeAlphabet (readBack pattern) (readBack algorithm)
        (readBack key)).splitOn (.scalar '\n')) = some rs ∧ R' = R.setAll (entries rs) := by
  obtain ⟨-, -, text, rs, htext, hrs, rfl⟩ := load_eq_ok.mp hload
  obtain ⟨text', htext', hrs'⟩ := records_pinPayload (decodeText_bytes htext) hp algorithm key
  rw [hrs, Option.bind_some] at hrs'
  rw [load_eq_ok]
  constructor
  · rintro ⟨-, -, text₁, rs₁, htext₁, hrs₁, rfl⟩
    obtain rfl : text' = text₁ := Option.some.inj (htext'.symm.trans htext₁)
    rw [hrs'] at hrs₁
    obtain ⟨rs₂, hrs₂, rfl⟩ := Option.map_eq_some_iff.mp hrs₁
    exact ⟨rs₂, hrs₂, by rw [ofList, entries_append, setAll_append, ofList]⟩
  · rintro ⟨rs₂, hrs₂, rfl⟩
    exact ⟨hopen, .inr hread, text', rs ++ rs₂, htext', by rw [hrs', hrs₂]; rfl,
      by rw [ofList, ofList, entries_append, setAll_append]⟩

end Append

section Frame
variable {fs : FileSystem} {file file' : StoreFile} {hostname pattern algorithm : JsString}
  {port : Option ℤ} {keyBlob : List UInt8} {R : Records}

/-- Every call needed to look a key up succeeds. -/
structure FileSystem.Readable (fs : FileSystem) : Prop where
  takesLock : fs.takesLock = true
  opensForReading : fs.opensForReading = true
  reads : fs.reads = true
  releasesLock : fs.releasesLock = true

def faultless : FileSystem := ⟨true, true, true, true, true, .whole, true, true⟩

theorem faultless_readable : faultless.Readable := ⟨rfl, rfl, rfl, rfl⟩

/-- The frame law of one pin: the file stays loadable, this pattern alone gets a
new key, and the host is recognised by that key from then on. -/
structure PinFrame (R : Records) (file' : StoreFile) (hostname : JsString) (port : Option ℤ)
    (pattern : JsString) (keyBlob : List UInt8) : Prop where
  frame : ∃ R', (∀ fs : FileSystem, fs.Readable → load fs file' = .ok R') ∧
    (R'.get? pattern).map Prod.snd = some (base64Key keyBlob) ∧
    ∀ q ≠ pattern, R'.get? q = R.get? q
  later : ∀ fs : FileSystem, fs.Readable → ∀ blob, hostKeyAlgorithmName blob ≠ none →
    (verifyOrPin fs file' hostname port blob).1 =
      .ok (if blob = keyBlob then .matched else .mismatch (base64Key keyBlob))

theorem verifyOrPin_pinned (hp : knownHostsHostPattern hostname port = .ok pattern)
    (ha : hostKeyAlgorithmName keyBlob = some algorithm)
    (h : verifyOrPin fs file hostname port keyBlob = (.ok .pinned, file')) :
    checkOrPin fs file pattern algorithm (base64Key keyBlob) = (.ok .pinned, file') := by
  unfold verifyOrPin at h
  simp only [hp, ha] at h
  split_ifs at h <;> simp_all

/-- With a readable store the verdict on a recorded host is the key comparison. -/
theorem verifyOrPin_known {v : JsString × JsString} (hfs : fs.Readable)
    (hload : load fs file = .ok R) (hp : knownHostsHostPattern hostname port = .ok pattern)
    (hget : R.get? pattern = some v) (ha : hostKeyAlgorithmName keyBlob ≠ none) :
    (verifyOrPin fs file hostname port keyBlob).1 =
      .ok (if v.2 = base64Key keyBlob then .matched else .mismatch v.2) := by
  obtain ⟨algorithm, ha⟩ := Option.ne_none_iff_exists'.mp ha
  simp [verifyOrPin, hp, ha, hfs.takesLock, hfs.releasesLock, checkOrPin, hload, hget]

/-- The frame law is a law about the loaded maps; the later verdicts follow from it. -/
theorem pinFrame_iff_loaded (hp : knownHostsHostPattern hostname port = .ok pattern) :
    PinFrame R file' hostname port pattern keyBlob ↔
      ∃ R', (∀ fs : FileSystem, fs.Readable → load fs file' = .ok R') ∧
        (R'.get? pattern).map Prod.snd = some (base64Key keyBlob) ∧
        ∀ q ≠ pattern, R'.get? q = R.get? q := by
  refine ⟨fun h => h.frame, fun h => ⟨h, ?_⟩⟩
  intro fs hfs blob hblob
  obtain ⟨R', hload, hkey, -⟩ := h
  obtain ⟨v, hv, hv2⟩ := Option.map_eq_some_iff.mp hkey
  rw [verifyOrPin_known hfs (hload fs hfs) hp hv hblob, hv2]
  by_cases hb : blob = keyBlob
  · rw [if_pos hb, if_pos (by rw [hb])]
  · rw [if_neg hb, if_neg fun he => hb (base64Key_injective he).symm]

/-- A pin obeys the frame law exactly when the pattern can be encoded and the
algorithm name, which the server chooses, stays inside its field. -/
theorem pinFrame_iff (hload : load fs file = .ok R)
    (hp : knownHostsHostPattern hostname port = .ok pattern)
    (ha : hostKeyAlgorithmName keyBlob = some algorithm)
    (hpin : verifyOrPin fs file hostname port keyBlob = (.ok .pinned, file')) :
    PinFrame R file' hostname port pattern keyBlob ↔
      WellFormed pattern ∧ StaysInField nodeAlphabet R pattern algorithm := by
  obtain ⟨hne, hwf, hlen⟩ := algorithm_spec ha
  have hfield := isField_pattern hp
  obtain ⟨hnone, rfl⟩ := checkOrPin_pinned hload (verifyOrPin_pinned hp ha hpin)
  have hread {fs : FileSystem} (hfs : fs.Readable) {R' : Records} :=
    @load_after_pin _ _ _ fs _ R' hload hfield algorithm (base64Key keyBlob)
      hfs.opensForReading hfs.reads
  rw [readBack_eq_self hwf,
    readBack_eq_self (show WellFormed (base64Key keyBlob) from wellFormed_ofText _)] at hread
  rw [pinFrame_iff_loaded hp]
  by_cases hpat : WellFormed pattern
  · rw [readBack_eq_self hpat] at hread
    rw [← writesOnly_iff hfield (isWord_base64Key hne) hlen hnone]
    constructor
    · rintro ⟨R', hR', hkey, hframe⟩
      obtain ⟨rs, hrs, rfl⟩ := (hread faultless_readable).mp (hR' _ faultless_readable)
      obtain ⟨⟨x, key⟩, hx, rfl⟩ := Option.map_eq_some_iff.mp hkey
      exact ⟨hpat, rs, hrs, ⟨x, hx⟩, hframe⟩
    · rintro ⟨-, rs, hrs, ⟨x, hx⟩, hframe⟩
      exact ⟨R.setAll (entries rs), fun fs hfs => (hread hfs).mpr ⟨rs, hrs, rfl⟩, by rw [hx]; rfl,
        hframe⟩
  · -- the file holds the replacement character instead, under which nothing is looked up
    refine iff_of_false ?_ fun h => hpat h.1
    rintro ⟨R', hR', hkey, -⟩
    refine hpat (wellFormed_of_loaded (hR' _ faultless_readable) ?_)
    cases hget : R'.get? pattern with
    | none => simp [hget] at hkey
    | some v => rfl

/-- The blob of an RSA key as far as the store looks at it. -/
def plainBlob : List UInt8 :=
  [0, 0, 0, 7] ++ Utf8.encode "ssh-rsa".toList ++ [1, 2, 3]

theorem pinFrame_plainBlob :
    PinFrame empty (verifyOrPin faultless .absent (js "h") (some 22) plainBlob).2
      (js "h") (some 22) (js "h") plainBlob :=
  (@pinFrame_iff faultless .absent _ (js "h") (js "h") (js "ssh-rsa") (some 22) plainBlob empty rfl
    (by decide) (by decide) (Prod.ext (by decide) rfl)).mpr
    ⟨wellFormed_ofText _, .inl ⟨by decide, js "ssh-rsa", by decide⟩⟩

/-- A blob whose algorithm name completes this record and starts one for another host. -/
def forgingBlob : List UInt8 :=
  [0, 0, 0, 27] ++ Utf8.encode "ssh-rsa AAAA\nvictim ssh-rsa".toList

theorem not_every_pin_framed :
    ¬ ∀ (fs : FileSystem) (file file' : StoreFile) (hostname : JsString) (port : Option ℤ)
      (keyBlob : List UInt8) (R : Records) (pattern : JsString), load fs file = .ok R →
      knownHostsHostPattern hostname port = .ok pattern → hostKeyAlgorithmName keyBlob ≠ none →
      verifyOrPin fs file hostname port keyBlob = (.ok .pinned, file') →
      PinFrame R file' hostname port pattern keyBlob := by
  intro h
  have hpin := h faultless .absent
    (verifyOrPin faultless .absent (js "h") (some 22) forgingBlob).2 (js "h") (some 22)
    forgingBlob empty (js "h") rfl (by decide) (by decide) (Prod.ext (by decide) rfl)
  obtain ⟨R', hR', -, hframe⟩ := hpin.frame
  have hvictim := hframe (js "victim") (by decide)
  have hload : ((load faultless
      (verifyOrPin faultless .absent (js "h") (some 22) forgingBlob).2).toOption.bind
        (·.get? (js "victim"))).isSome = true := by decide
  rw [hR' _ faultless_readable] at hload
  simp [Except.toOption, hvictim] at hload

end Frame

end HostKeys
