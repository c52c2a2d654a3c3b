import TerminalWorkspace.HostKeys.NativeStore

/-! Trust on first use over runs of the native store: what one pin and every later
call leave behind, and for which hostnames the recorded key is found again. -/
namespace NativeHostKeys
open RecordFile OrderedMap HostKeys

section Reading

def storeText : StoreFile → Option (List Char)
  | .absent => some []
  | .irregular => none
  | .regular bytes => Utf8.decodeStrict bytes

/-- The records of a store, unless it is unreadable or malformed. -/
def storeRecords (file : StoreFile) : Option (List (Record Char)) :=
  (storeText file).bind fun text => records nativeAlphabet (text.splitOn '\n')

theorem words_stripCarriageReturn (line : List Char) :
    words isWhitespace (stripCarriageReturn line) = words isWhitespace line := by
  rw [stripCarriageReturn]
  split_ifs with h
  · obtain ⟨init, rfl⟩ := List.getLast?_eq_some_iff.mp h
    rw [List.dropLast_concat, words_concat_space _ (by decide)]
  · rfl

/-- Reading by `lines` and reading by line breaks find the same records. -/
theorem records_lines (contents : List Char) :
    records nativeAlphabet (lines contents) =
      records nativeAlphabet (contents.splitOn '\n') := by
  have hstrip (ls : List (List Char)) : records nativeAlphabet (ls.map stripCarriageReturn) =
      records nativeAlphabet ls := by
    induction ls with
    | nil => rfl
    | cons l ls ih =>
      rw [List.map_cons, records, records, ih,
        readLine_congr (A := nativeAlphabet) (words_stripCarriageReturn l)]
  obtain ⟨init, last, h⟩ := (List.eq_nil_or_concat (contents.splitOn '\n')).resolve_left
    (List.splitOn_ne_nil _ _)
  rw [List.concat_eq_append] at h
  rw [lines, h]
  cases last with
  | nil =>
    have hnil : records nativeAlphabet ([[]] : List (List Char)) = some [] := by decide
    simp only [List.dropLast_concat, List.getLast?_concat, Option.toList_some]
    rw [records_append, records_append, hstrip, hnil]
    rfl
  | cons c last =>
    simp only [List.dropLast_concat, List.getLast?_concat, Option.toList_some]
    rw [records_append, records_append, hstrip]
    rfl

theorem loadLines_eq_ok {ls : List (List Char)} {index : ℕ} {m R : Records} :
    loadLines index m ls = .ok R ↔
      ∃ rs, records nativeAlphabet ls = some rs ∧ R = m.setAll (entries rs) :=
  RecordFile.load_eq_ok fun s _ => words_trim isWhitespace s

theorem storeRecords_absent : storeRecords .absent = some [] := by decide

theorem load_eq_ok {fs : FileSystem} {file : StoreFile} {R : Records} :
    load fs file = .ok R ↔ fs.stats = true ∧ (file = .absent ∨ fs.reads = true) ∧
      ∃ rs, storeRecords file = some rs ∧ R = ofList (entries rs) := by
  cases hstats : fs.stats with
  | false => simp [load, hstats]
  | true =>
    cases file with
    | absent =>
      rw [storeRecords_absent]
      constructor
      · intro h
        refine ⟨rfl, .inl rfl, [], rfl, ?_⟩
        simpa [load, hstats, ofList] using h.symm
      · rintro ⟨-, -, rs, hrs, rfl⟩
        obtain rfl := Option.some.inj hrs
        simp [load, hstats, ofList]
    | irregular => simp [load, hstats, storeRecords, storeText]
    | regular bytes =>
      cases hread : fs.reads with
      | false => simp [load, hstats, hread]
      | true =>
        cases ht : Utf8.decodeStrict bytes with
        | none => simp [load, hstats, hread, storeRecords, storeText, ht]
        | some text =>
          simp [load, hstats, hread, storeRecords, storeText, ht, loadLines_eq_ok, records_lines,
            ofList]

end Reading

section Hosts
variable {host : BackendHostConnection}

/-- A hostname that the line format carries: no white space, and no comment sign
where it would start the line. -/
structure PlainHost (host : BackendHostConnection) : Prop where
  not_space : ∀ c ∈ host.hostname, isWhitespace c = false
  not_comment : host.port = 22 → host.hostname.head? ≠ some '#'

theorem plainHost_iff : PlainHost host ↔
    host.hostname.all (fun c => !isWhitespace c) = true ∧
      (host.port = 22 → host.hostname.head? ≠ some '#') := by
  simp only [List.all_eq_true, Bool.not_eq_true']
  exact ⟨fun h => ⟨h.not_space, h.not_comment⟩, fun h => ⟨h.1, h.2⟩⟩

instance (host : BackendHostConnection) : Decidable (PlainHost host) :=
  decidable_of_iff _ plainHost_iff.symm

theorem validateHop_of_validate (h : validateSshHost host = .ok ()) :
    validateHop host = .ok () := by
  cases host with
  | mk protocol hostname username port keyPath auth password policy publicKey jump =>
    unfold validateSshHost at h
    cases hv : validateHop ⟨protocol, hostname, username, port, keyPath, auth, password, policy,
        publicKey, jump⟩ with
    | ok u => rfl
    | error e => simp [hv, bind, Except.bind] at h

theorem hostname_of_validate (h : validateSshHost host = .ok ()) : host.hostname ≠ [] := by
  intro h0
  have hhop := validateHop_of_validate h
  unfold validateHop at hhop
  have htrim : trim isWhitespace host.hostname = [] := by rw [h0]; rfl
  by_cases hp : host.protocol = "ssh" <;>
    simp [hp, htrim, bind, Except.bind, throw, throwThe, MonadExceptOf.throw] at hhop

theorem digits_not_space (n : ℕ) : ∀ c ∈ Nat.toDigits 10 n, isWhitespace c = false := by
  intro c hc
  have hdigit := Nat.isDigit_of_mem_toDigits (by decide) (by decide) hc
  simp only [Char.isDigit, ge_iff_le, Bool.and_eq_true, decide_eq_true_eq] at hdigit
  have h1 : 48 ≤ c.toNat := hdigit.1
  have h2 : c.toNat ≤ 57 := hdigit.2
  have hcodes : ∀ n < 58, 48 ≤ n → n ∉ whiteSpaceCodes := by decide
  simpa [isWhitespace] using hcodes _ (by omega) h1

/-- A validated host's pattern is one field of the line format exactly for plain hosts. -/
theorem isField_pattern_iff (h : validateSshHost host = .ok ()) :
    IsField nativeAlphabet (knownHostsHostPattern host) ↔ PlainHost host := by
  have hne := hostname_of_validate h
  unfold knownHostsHostPattern
  split_ifs with h22
  · exact ⟨fun hf => ⟨hf.not_space, fun _ => hf.not_comment⟩,
      fun hp => ⟨⟨hne, hp.not_space⟩, hp.not_comment h22⟩⟩
  · constructor
    · intro hf
      exact ⟨fun c hc => hf.not_space c (by simp [hc]), fun h0 => absurd h0 h22⟩
    · intro hp
      refine ⟨⟨by simp, fun c hc => ?_⟩, by simp⟩
      simp only [List.cons_append, List.mem_cons, List.mem_append] at hc
      rcases hc with rfl | (hc | hc) | hc
      · decide
      · exact hp.not_space c hc
      · have : c = ']' ∨ c = ':' := by simpa using hc
        rcases this with rfl | rfl <;> decide
      · exact digits_not_space _ c hc

end Hosts

section Pin
variable {fs : FileSystem} {file file' : StoreFile} {pattern algorithm key : List Char}

/-- What a file holds once a record has been written behind it. -/
theorem storeRecords_pinPayload {rs : List (Record Char)} (h : storeRecords file = some rs) :
    storeRecords (.regular (file.bytes ++ pinPayload file.bytes pattern algorithm key)) =
      (records nativeAlphabet ((recordText nativeAlphabet pattern algorithm key).splitOn '\n')).map
        (rs ++ ·) := by
  obtain ⟨text, htext, hrs⟩ := Option.bind_eq_some_iff.mp h
  have hbytes : Utf8.decodeStrict file.bytes = some text := by
    cases file with
    | absent => exact htext
    | irregular => simp [storeText] at htext
    | regular bytes => exact htext
  have hline : file.bytes ++ pinPayload file.bytes pattern algorithm key =
      file.bytes ++ Utf8.encode ((if needsSeparator file.bytes then ['\n'] else []) ++
        (recordText nativeAlphabet pattern algorithm key ++ ['\n'])) := rfl
  have hsep : needsSeparator file.bytes = false →
      text = [] ∨ ∃ s, text = s ++ [nativeAlphabet.newline] := by
    intro hsep
    rcases List.eq_nil_or_concat file.bytes with h0 | ⟨init, last, h0⟩
    · rw [h0] at hbytes
      exact .inl (Option.some.inj hbytes).symm
    · have hlast : last = 0x0A := by simpa [needsSeparator, h0] using hsep
      rw [h0, List.concat_eq_append, hlast] at hbytes
      obtain ⟨s, -, rfl⟩ := Utf8.decodeStrict_concat_ascii (by decide) hbytes
      exact .inr ⟨s, rfl⟩
  rw [storeRecords, storeText, hline, Utf8.decodeStrict_append hbytes, Utf8.decodeStrict_encode,
    Option.map_some, Option.bind_some]
  refine (records_append_line (A := nativeAlphabet) _ hsep).trans ?_
  rw [nativeAlphabet_newline, hrs]
  rfl

/-- A plain record is found behind the others. -/
theorem storeRecords_pin {rs : List (Record Char)} (h : storeRecords file = some rs)
    (hp : IsField nativeAlphabet pattern) (ha : IsWord nativeAlphabet algorithm)
    (hk : IsWord nativeAlphabet key) :
    storeRecords (.regular (file.bytes ++ pinPayload file.bytes pattern algorithm key)) =
      some (rs ++ [⟨pattern, algorithm, key⟩]) := by
  have hrecord := records_recordText hp ha hk
  rw [nativeAlphabet_newline] at hrecord
  rw [storeRecords_pinPayload h, hrecord, Option.map_some]

theorem storeRecords_regular_bytes (h : file ≠ .irregular) :
    storeRecords (.regular file.bytes) = storeRecords file := by
  cases file with
  | absent => decide
  | irregular => exact absurd rfl h
  | regular bytes => rfl

/-- An append that is not cut short writes its whole record or nothing. -/
theorem appendPin_cases (hfs : ∀ n, fs.write ≠ .short n) (file : StoreFile)
    (pattern algorithm key : List Char) :
    storeRecords (appendPin fs file pattern algorithm key).2 = storeRecords file ∨
    (appendPin fs file pattern algorithm key).2 =
      .regular (file.bytes ++ pinPayload file.bytes pattern algorithm key) := by
  unfold appendPin
  cases hw : fs.write with
  | short n => exact absurd hw (hfs n)
  | failed =>
    simp only [WriteAnswer.taken]
    split_ifs with _ _ h3
    · exact .inl rfl
    · exact .inl rfl
    · exact .inl rfl
    · exact .inl (storeRecords_regular_bytes h3)
  | whole =>
    simp only [WriteAnswer.taken, ne_eq, not_true_eq_false, if_false]
    split_ifs
    · exact .inl rfl
    · exact .inl rfl
    · exact .inl rfl
    · exact .inr rfl
    · exact .inr rfl

theorem appendPin_ok (h : appendPin fs file pattern algorithm key = (.ok (), file')) :
    file' = .regular (file.bytes ++ pinPayload file.bytes pattern algorithm key) := by
  unfold appendPin at h
  cases hn : fs.write.taken (pinPayload file.bytes pattern algorithm key) with
  | none =>
    simp only [hn] at h
    split_ifs at h <;> simp at h
  | some written =>
    simp only [hn] at h
    split_ifs at h with _ _ _ hlen
    all_goals try simp at h
    rw [← h, WriteAnswer.taken_eq hn (not_not.mp hlen)]

/-- A pin was decided on a pattern the store did not know. -/
theorem verifyOrPin_pinned
    (h : verifyOrPin fs file pattern algorithm key = (.ok .pinned, file')) :
    ∃ R, load fs file = .ok R ∧ R.get? pattern = none ∧
      file' = .regular (file.bytes ++ pinPayload file.bytes pattern algorithm key) := by
  unfold verifyOrPin at h
  split_ifs at h
  · simp at h
  · simp at h
  cases hload : load fs file with
  | error e => simp [hload] at h
  | ok R =>
    simp only [hload] at h
    cases hget : R.get? pattern with
    | some v =>
      simp only [hget] at h
      have := (Prod.mk.inj h).1
      split_ifs at this <;> simp at this
    | none =>
      simp only [hget] at h
      cases hap : appendPin fs file pattern algorithm key with
      | mk result file₁ =>
        cases result with
        | error e => simp [hap] at h
        | ok u =>
          simp only [hap] at h
          exact ⟨R, rfl, hget, (Prod.mk.inj h).2 ▸ appendPin_ok hap⟩

/-- Only a recorded pattern is recognised. -/
theorem verifyOrPin_matched
    (h : (verifyOrPin fs file pattern algorithm key).1 = .ok .matched) :
    ∃ R, load fs file = .ok R ∧ (R.get? pattern).isSome := by
  unfold verifyOrPin at h
  split_ifs at h
  cases hload : load fs file with
  | error e => simp [hload] at h
  | ok R =>
    cases hget : R.get? pattern with
    | some v => exact ⟨R, rfl, by simp [hget]⟩
    | none =>
      simp only [hload, hget] at h
      cases hap : appendPin fs file pattern algorithm key with
      | mk result file₁ => cases result <;> simp [hap] at h

/-- One call adds nothing, or one record for a pattern the store did not know. -/
theorem storeRecords_verifyOrPin {rs : List (Record Char)} (h : storeRecords file = some rs)
    (hfs : ∀ n, fs.write ≠ .short n) (hp : IsField nativeAlphabet pattern)
    (ha : IsWord nativeAlphabet algorithm) (hk : IsWord nativeAlphabet key) :
    storeRecords (verifyOrPin fs file pattern algorithm key).2 = some rs ∨
      (ofList (entries rs)).get? pattern = none ∧
      storeRecords (verifyOrPin fs file pattern algorithm key).2 =
        some (rs ++ [⟨pattern, algorithm, key⟩]) := by
  unfold verifyOrPin
  split_ifs
  · exact .inl h
  · exact .inl h
  cases hload : load fs file with
  | error e => exact .inl h
  | ok R =>
    obtain ⟨-, -, rs', hrs', rfl⟩ := load_eq_ok.mp hload
    obtain rfl : rs = rs' := Option.some.inj (h.symm.trans hrs')
    cases hget : (ofList (entries rs)).get? pattern with
    | some v => exact .inl (by simpa [hget] using h)
    | none =>
      have hcases := appendPin_cases hfs file pattern algorithm key
      have hfile : storeRecords (appendPin fs file pattern algorithm key).2 = some rs ∨
          storeRecords (appendPin fs file pattern algorithm key).2 =
            some (rs ++ [⟨pattern, algorithm, key⟩]) := by
        rcases hcases with hsame | hnew
        · exact .inl (hsame.trans h)
        · exact .inr (hnew ▸ storeRecords_pin h hp ha hk)
      simp only [hget]
      cases hap : appendPin fs file pattern algorithm key with
      | mk result file₁ =>
        rw [hap] at hfile
        cases result with
        | error e => simpa using hfile
        | ok u => simpa using hfile

end Pin

section Runs
variable {fs : FileSystem} {file file' : StoreFile} {host : BackendHostConnection}
  {pattern algorithm key : List Char} {R : Records}

/-- One verification on behalf of a host. -/
structure Call where
  fs : FileSystem
  host : BackendHostConnection
  algorithm : List Char
  presented : List Char

def Call.run (c : Call) (file : StoreFile) : Except StoreError HostKeyVerdict × StoreFile :=
  verifyOrPin c.fs file (knownHostsHostPattern c.host) c.algorithm c.presented

def runCalls (file : StoreFile) (calls : List Call) : StoreFile :=
  calls.foldl (fun file c => (c.run file).2) file

/-- A call for a validated plain host whose append, if any, is not cut short. -/
structure Call.Sound (c : Call) : Prop where
  validated : validateSshHost c.host = .ok ()
  plain : PlainHost c.host
  algorithm_word : IsWord nativeAlphabet c.algorithm
  presented_word : IsWord nativeAlphabet c.presented
  not_short : ∀ n, c.fs.write ≠ .short n

/-- What the store has recorded for a pattern. -/
def Recorded (file : StoreFile) (pattern : List Char) (v : List Char × List Char) : Prop :=
  ∃ rs, storeRecords file = some rs ∧ (ofList (entries rs)).get? pattern = some v

theorem get?_concat (rs : List (Record Char)) (r : Record Char) (q : List Char) :
    (ofList (entries (rs ++ [r]))).get? q =
      if q = r.host then some (r.algorithm, r.key) else (ofList (entries rs)).get? q := by
  rw [ofList, entries_append, setAll_append, ← ofList]
  simp [get?_set]

/-- A sound call keeps what is recorded. -/
theorem Recorded.call {v : List Char × List Char} (h : Recorded file pattern v) {c : Call}
    (hc : c.Sound) : Recorded (c.run file).2 pattern v := by
  obtain ⟨rs, hrs, hv⟩ := h
  rcases storeRecords_verifyOrPin hrs hc.not_short ((isField_pattern_iff hc.validated).mpr hc.plain)
    hc.algorithm_word hc.presented_word with hsame | ⟨hnone, hnew⟩
  · exact ⟨rs, hsame, hv⟩
  · refine ⟨_, hnew, ?_⟩
    rw [get?_concat, if_neg, hv]
    rintro rfl
    simp [hv] at hnone

theorem Recorded.run {v : List Char × List Char} {calls : List Call}
    (hcalls : ∀ c ∈ calls, c.Sound) (h : Recorded file pattern v) :
    Recorded (runCalls file calls) pattern v := by
  induction calls generalizing file with
  | nil => exact h
  | cons c calls ih =>
    exact ih (fun d hd => hcalls d (List.mem_cons_of_mem _ hd))
      (h.call (hcalls c List.mem_cons_self))

/-- Every call needed to look a key up succeeds. -/
structure FileSystem.Readable (fs : FileSystem) : Prop where
  locks : fs.locks = true
  stats : fs.stats = true
  reads : fs.reads = true

/-- A recorded host is recognised by its key, and any other key is a mismatch. -/
theorem Recorded.verifyOrPin (h : Recorded file pattern (algorithm, key)) (hfs : fs.Readable)
    {algorithm' presented : List Char} (ha : IsWord nativeAlphabet algorithm')
    (hk : IsWord nativeAlphabet presented) :
    (verifyOrPin fs file pattern algorithm' presented).1 =
      .ok (if presented = key then .matched else .mismatch key) := by
  obtain ⟨rs, hrs, hv⟩ := h
  have hload : load fs file = .ok (ofList (entries rs)) :=
    load_eq_ok.mpr ⟨hfs.stats, .inr hfs.reads, rs, hrs, rfl⟩
  have ha' : trim isWhitespace algorithm' ≠ [] := ha.trim_ne_nil
  have hk' : trim isWhitespace presented ≠ [] := hk.trim_ne_nil
  simp [NativeHostKeys.verifyOrPin, ha', hk', hfs.locks, hload, hv, eq_comm (a := key)]

/-- Trust on first use after a pin: no other validated host's key has changed, and
whatever sound calls follow, this host is recognised by this key alone. -/
structure TrustOnFirstUse (R : Records) (file' : StoreFile) (host : BackendHostConnection)
    (key : List Char) : Prop where
  frame : ∃ R', (∀ fs : FileSystem, fs.Readable → load fs file' = .ok R') ∧
    ∀ other, validateSshHost other = .ok () →
      knownHostsHostPattern other ≠ knownHostsHostPattern host →
      (R'.get? (knownHostsHostPattern other)).map Prod.snd =
        (R.get? (knownHostsHostPattern other)).map Prod.snd
  recognised : ∀ calls : List Call, (∀ c ∈ calls, c.Sound) → ∀ fs : FileSystem, fs.Readable →
    ∀ algorithm presented, IsWord nativeAlphabet algorithm → IsWord nativeAlphabet presented →
      (verifyOrPin fs (runCalls file' calls) (knownHostsHostPattern host) algorithm presented).1 =
        .ok (if presented = key then .matched else .mismatch key)

def faultless : FileSystem := ⟨true, true, true, true, true, .whole, true⟩

theorem faultless_readable : faultless.Readable := ⟨rfl, rfl, rfl⟩

/-- A pin is trusted from then on exactly when the validated hostname is one that
the line format carries. -/
theorem trustOnFirstUse_iff (hvalid : validateSshHost host = .ok ())
    (ha : IsWord nativeAlphabet algorithm) (hk : IsWord nativeAlphabet key)
    (hload : load fs file = .ok R)
    (hpin : verifyOrPin fs file (knownHostsHostPattern host) algorithm key =
      (.ok .pinned, file')) :
    TrustOnFirstUse R file' host key ↔ PlainHost host := by
  obtain ⟨R₀, hload₀, hnone, rfl⟩ := verifyOrPin_pinned hpin
  obtain rfl : R = R₀ := Except.ok.inj (hload.symm.trans hload₀)
  constructor
  · intro h
    have hmatched := h.recognised [] (by simp) faultless faultless_readable algorithm key ha hk
    rw [if_pos rfl] at hmatched
    obtain ⟨R', hload', hget⟩ := verifyOrPin_matched hmatched
    -- only fields are ever found in a loaded map
    obtain ⟨-, -, rs, hrs, rfl⟩ := load_eq_ok.mp hload'
    obtain ⟨v, hv⟩ := Option.isSome_iff_exists.mp hget
    rw [ofList, get?_setAll, get?_empty, Option.or_none] at hv
    obtain ⟨r, hr, he⟩ := List.mem_map.mp (lastFor_mem hv)
    obtain ⟨text, -, hrecords⟩ := Option.bind_eq_some_iff.mp hrs
    have hfield := isField_of_mem_records hrecords hr
    rw [show r.host = knownHostsHostPattern host from (Prod.mk.inj he).1] at hfield
    exact (isField_pattern_iff hvalid).mp hfield
  · intro hplain
    obtain ⟨-, -, rs, hrs, rfl⟩ := load_eq_ok.mp hload
    have hnew := storeRecords_pin hrs ((isField_pattern_iff hvalid).mpr hplain) ha hk
    refine ⟨⟨_, fun fs hfs => load_eq_ok.mpr ⟨hfs.stats, .inr hfs.reads, _, hnew, rfl⟩, ?_⟩, ?_⟩
    · intro other _ hne
      rw [get?_concat, if_neg hne]
    · intro calls hcalls fs hfs algorithm' presented ha' hk'
      have hrecorded : Recorded (.regular _) (knownHostsHostPattern host) (algorithm, key) :=
        ⟨_, hnew, by rw [get?_concat, if_pos rfl]⟩
      exact (hrecorded.run hcalls).verifyOrPin hfs ha' hk'

/-- A host that allows unknown keys, for a hostname. -/
def unknownKeyHost (hostname : String) : BackendHostConnection where
  protocol := "ssh"
  hostname := hostname.toList
  username := "u".toList
  port := 22
  privateKeyPath := []
  authMethod := "agent"
  password := []
  hostKeyPolicy := some "allowUnknown"
  knownHostPublicKey := none
  jumpHost := none

theorem trustOnFirstUse_plain :
    TrustOnFirstUse empty
      (verifyOrPin faultless .absent "h".toList "ssh-rsa".toList "AAAA".toList).2
      (unknownKeyHost "h") "AAAA".toList :=
  (@trustOnFirstUse_iff faultless .absent _ (unknownKeyHost "h") "ssh-rsa".toList "AAAA".toList
    empty (by decide) (by decide) (by decide) rfl (Prod.ext (by decide) rfl)).mpr (by decide)

/-- The validator lets a blank inside a hostname through, and the record of such a
host is never found again. -/
theorem not_every_host_trusted :
    ¬ ∀ (fs : FileSystem) (file file' : StoreFile) (host : BackendHostConnection)
      (algorithm key : List Char) (R : Records), validateSshHost host = .ok () →
      IsWord nativeAlphabet algorithm → IsWord nativeAlphabet key → load fs file = .ok R →
      verifyOrPin fs file (knownHostsHostPattern host) algorithm key = (.ok .pinned, file') →
      TrustOnFirstUse R file' host key := by
  intro h
  have htrust := h faultless .absent
    (verifyOrPin faultless .absent "a b".toList "ssh-rsa".toList "AAAA".toList).2
    (unknownKeyHost "a b") "ssh-rsa".toList "AAAA".toList empty (by decide)
    (by decide) (by decide) rfl (Prod.ext (by decide) rfl)
  have hagain := htrust.recognised [] (by simp) faultless faultless_readable "ssh-rsa".toList
    "AAAA".toList (by decide) (by decide)
  revert hagain
  decide

end Runs

end NativeHostKeys
