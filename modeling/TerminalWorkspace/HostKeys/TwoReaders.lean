import TerminalWorkspace.Foundation.RecordReaders
import TerminalWorkspace.HostKeys.NativeTrust
import TerminalWorkspace.HostKeys.NodeFrame

/-! The two backends as readers of one store: for which contents they come to the same map from
host pattern to algorithm and key. -/
namespace TwoReaders
open RecordFile OrderedMap JsText HostKeys

/-- The Node store's alphabet over characters. -/
def scriptAlphabet : Alphabet Char where
  space := isSpaceChar
  newline := '\n'
  comment := '#'
  blank := ' '
  newline_space := by decide
  blank_space := by decide
  blank_ne_newline := space_ne_newline
  comment_not_space := by decide

/-- Both loads reject the content, or they accept it with the same map. -/
def ReadersAgree (bytes : List UInt8) : Prop :=
  match load faultless (.regular bytes),
    NativeHostKeys.load NativeHostKeys.faultless (.regular bytes) with
  | .error _, .error _ => True
  | .ok R, .ok S =>
    (∀ pattern, (R.get? pattern).isSome → WellFormed pattern) ∧
      ∀ pattern, R.get? (ofText pattern) =
        (S.get? pattern).map fun v => (ofText v.1, ofText v.2)
  | _, _ => False

theorem renames_scalar : Renames CodePoint.scalar scriptAlphabet nodeAlphabet where
  injective _ _ h := CodePoint.scalar.inj h
  space _ := rfl
  comment := rfl

theorem splitOn_ofText (s : List Char) :
    (ofText s).splitOn (.scalar '\n') = (s.splitOn '\n').map ofText := by
  have hbeq : (fun c : Char => CodePoint.scalar c == .scalar '\n') = (· == '\n') := by
    funext c
    simp [BEq.beq]
  simp only [List.splitOn, ofText, splitOnP_map, hbeq]
  rfl

/-- A byte order mark is white space to the Node store, whether or not decoding drops it. -/
theorem records_dropMark (s : List Char) : records scriptAlphabet
    ((if s.head? = some (Char.ofNat 0xFEFF) then s.tail else s).splitOn '\n') =
      records scriptAlphabet (s.splitOn '\n') := by
  split_ifs with h
  · obtain ⟨t, rfl⟩ : ∃ t, s = Char.ofNat 0xFEFF :: t := by
      cases s with
      | nil => cases h
      | cons c t => exact ⟨t, by rw [Option.some_inj.mp h]⟩
    obtain ⟨line, lines, hlines⟩ := List.exists_cons_of_ne_nil (List.splitOn_ne_nil '\n' t)
    have hmark : (Char.ofNat 0xFEFF :: t).splitOn '\n' =
        (Char.ofNat 0xFEFF :: line) :: lines := by
      rw [List.splitOn] at hlines ⊢
      rw [List.splitOnP_cons_eq_if_modifyHead, if_neg (by decide), hlines]
      rfl
    have hread : readLine scriptAlphabet (Char.ofNat 0xFEFF :: line) =
        readLine scriptAlphabet line :=
      readLine_congr (words_cons_space isSpaceChar (by decide) line)
    rw [hmark, List.tail_cons, hlines, records, records, hread]
  · rfl

/-- What the Node store makes of decoded text. -/
theorem node_records (s : List Char) : records nodeAlphabet
    ((ofText (if s.head? = some (Char.ofNat 0xFEFF) then s.tail else s)).splitOn (.scalar '\n')) =
      (records scriptAlphabet (s.splitOn '\n')).map (List.map (Record.map CodePoint.scalar)) := by
  rw [splitOn_ofText, ← records_dropMark, ← renames_scalar.records]
  rfl

theorem entries_map (rs : List (Record Char)) :
    entries (rs.map (Record.map CodePoint.scalar)) =
      (entries rs).map (Prod.map ofText (Prod.map ofText ofText)) := by
  rw [RecordFile.entries, RecordFile.entries, List.map_map, List.map_map]
  rfl

theorem node_load {bytes : List UInt8} {contents : List Char}
    (hdecode : Utf8.decodeStrict bytes = some contents) :
    match records scriptAlphabet (contents.splitOn '\n') with
    | none => ∃ e, load faultless (.regular bytes) = .error e
    | some rs => load faultless (.regular bytes) =
        .ok (ofList ((entries rs).map (Prod.map ofText (Prod.map ofText ofText)))) := by
  have htext : storeText (.regular bytes) =
      some (ofText (if contents.head? = some (Char.ofNat 0xFEFF) then contents.tail
        else contents)) := by
    rw [storeText, decodeText, hdecode]
    rfl
  have hrecords := node_records contents
  cases hrs : records scriptAlphabet (contents.splitOn '\n') with
  | none =>
    rw [hrs] at hrecords
    cases hload : load faultless (.regular bytes) with
    | error e => exact ⟨e, rfl⟩
    | ok R =>
      obtain ⟨-, -, text, rs, htext', hrs', -⟩ := load_eq_ok.mp hload
      obtain rfl := Option.some_inj.mp (htext.symm.trans htext')
      rw [hrecords] at hrs'
      cases hrs'
  | some rs =>
    rw [hrs] at hrecords
    exact load_eq_ok.mpr ⟨rfl, .inr rfl, _, _, htext, hrecords, by rw [entries_map]⟩

theorem native_load {bytes : List UInt8} {contents : List Char}
    (hdecode : Utf8.decodeStrict bytes = some contents) :
    match records NativeHostKeys.nativeAlphabet (contents.splitOn '\n') with
    | none => ∃ e, NativeHostKeys.load NativeHostKeys.faultless (.regular bytes) = .error e
    | some rs => NativeHostKeys.load NativeHostKeys.faultless (.regular bytes) =
        .ok (ofList (entries rs)) := by
  have hrecords : NativeHostKeys.storeRecords (.regular bytes) =
      records NativeHostKeys.nativeAlphabet (contents.splitOn '\n') := by
    rw [NativeHostKeys.storeRecords, NativeHostKeys.storeText, hdecode]
    rfl
  cases hrs : records NativeHostKeys.nativeAlphabet (contents.splitOn '\n') with
  | none =>
    rw [hrs] at hrecords
    cases hload : NativeHostKeys.load NativeHostKeys.faultless (.regular bytes) with
    | error e => exact ⟨e, rfl⟩
    | ok R =>
      obtain ⟨-, -, rs, hrs', -⟩ := NativeHostKeys.load_eq_ok.mp hload
      rw [hrecords] at hrs'
      cases hrs'
  | some rs =>
    rw [hrs] at hrecords
    exact NativeHostKeys.load_eq_ok.mpr ⟨rfl, .inr rfl, rs, hrecords, rfl⟩

/-- Bytes that are no text are rejected by both. -/
theorem readersAgree_of_undecodable {bytes : List UInt8}
    (hdecode : Utf8.decodeStrict bytes = none) : ReadersAgree bytes := by
  have hnode : load faultless (.regular bytes) = .error .couldNotRead := by
    simp [HostKeys.load, faultless, decodeText, hdecode]
  have hnative : NativeHostKeys.load NativeHostKeys.faultless (.regular bytes) =
      .error .couldNotRead := by
    simp [NativeHostKeys.load, NativeHostKeys.faultless, hdecode]
  rw [ReadersAgree, hnode, hnative]
  trivial

/-- The two maps are the same exactly if every pattern has the same last entry. -/
theorem sameMap_iff (rs ts : List (List Char × (List Char × List Char))) :
    ((∀ pattern, ((ofList (rs.map (Prod.map ofText (Prod.map ofText ofText)))).get?
        pattern).isSome → WellFormed pattern) ∧
      ∀ pattern, (ofList (rs.map (Prod.map ofText (Prod.map ofText ofText)))).get?
        (ofText pattern) = ((ofList ts).get? pattern).map fun v => (ofText v.1, ofText v.2)) ↔
      ∀ pattern, lastFor pattern rs = lastFor pattern ts := by
  have hpair : Function.Injective fun v : List Char × List Char => (ofText v.1, ofText v.2) :=
    ofText_injective.prodMap ofText_injective
  constructor
  · rintro ⟨-, h⟩ pattern
    have hpattern := h pattern
    rw [get?_ofList, get?_ofList, lastFor_map ofText_injective] at hpattern
    exact Option.map_injective hpair hpattern
  · intro h
    constructor
    · intro pattern hsome
      rw [get?_ofList] at hsome
      obtain ⟨v, hv⟩ := Option.isSome_iff_exists.mp hsome
      obtain ⟨e, -, he⟩ := List.mem_map.mp (lastFor_mem hv)
      obtain rfl : ofText e.1 = pattern := (Prod.mk.inj he).1
      exact wellFormed_ofText e.1
    · intro pattern
      rw [get?_ofList, get?_ofList, lastFor_map ofText_injective, h]
      rfl

/-- The two readers agree exactly on the contents whose lines they read alike. -/
theorem readersAgree_iff (bytes : List UInt8) : ReadersAgree bytes ↔
    ∀ contents ∈ Utf8.decodeStrict bytes,
      ReadAlike scriptAlphabet NativeHostKeys.nativeAlphabet (contents.splitOn '\n') := by
  cases hdecode : Utf8.decodeStrict bytes with
  | none => exact iff_of_true (readersAgree_of_undecodable hdecode) nofun
  | some contents =>
    have hnode := node_load hdecode
    have hnative := native_load hdecode
    have hall : (∀ contents' ∈ some contents, ReadAlike scriptAlphabet
        NativeHostKeys.nativeAlphabet (contents'.splitOn '\n')) ↔ ReadAlike scriptAlphabet
          NativeHostKeys.nativeAlphabet (contents.splitOn '\n') := by
      simp
    have hcomment : scriptAlphabet.comment = NativeHostKeys.nativeAlphabet.comment := rfl
    rw [hall, readAlike_iff hcomment]
    cases hrs : records scriptAlphabet (contents.splitOn '\n') with
    | none =>
      rw [hrs] at hnode
      obtain ⟨e, hnode⟩ := hnode
      cases hts : records NativeHostKeys.nativeAlphabet (contents.splitOn '\n') with
      | none =>
        rw [hts] at hnative
        obtain ⟨e', hnative⟩ := hnative
        rw [ReadersAgree, hnode, hnative]
        exact iff_of_true trivial (.inl ⟨rfl, rfl⟩)
      | some ts =>
        rw [hts] at hnative
        rw [ReadersAgree, hnode, hnative]
        simp
    | some rs =>
      rw [hrs] at hnode
      cases hts : records NativeHostKeys.nativeAlphabet (contents.splitOn '\n') with
      | none =>
        rw [hts] at hnative
        obtain ⟨e', hnative⟩ := hnative
        rw [ReadersAgree, hnode, hnative]
        simp
      | some ts =>
        rw [hts] at hnative
        rw [ReadersAgree, hnode, hnative]
        simp only
        rw [sameMap_iff]
        simp

/-- JavaScript and Rust disagree about two characters only. -/
theorem space_eq {c : Char} (hnext : c ≠ Char.ofNat 0x85) (hmark : c ≠ Char.ofNat 0xFEFF) :
    isSpaceChar c = NativeHostKeys.isWhitespace c := by
  have hnext' : c.toNat ≠ 0x85 := fun h => hnext (by rw [← h, Char.ofNat_toNat])
  have hmark' : c.toNat ≠ 0xFEFF := fun h => hmark (by rw [← h, Char.ofNat_toNat])
  simp only [isSpaceChar, NativeHostKeys.isWhitespace, spaceCodes, NativeHostKeys.whiteSpaceCodes,
    List.mem_cons, List.not_mem_nil, or_false, hnext', hmark', false_or]

/-- Contents without U+0085 and U+FEFF are read alike. -/
theorem readAlike_of_plain {contents : List Char}
    (h : ∀ c ∈ contents, c ≠ Char.ofNat 0x85 ∧ c ≠ Char.ofNat 0xFEFF) :
    ReadAlike scriptAlphabet NativeHostKeys.nativeAlphabet (contents.splitOn '\n') := by
  have hcomment : scriptAlphabet.comment = NativeHostKeys.nativeAlphabet.comment := rfl
  refine readAlike_of_eq fun line hline => readLine_eq_of_space hcomment fun c hc => ?_
  have hmem := (mem_splitOnP (· == '\n') hline).1.subset hc
  exact space_eq (h c hmem).1 (h c hmem).2

/-- A store that an editor has saved with a byte order mark. -/
def markedStore : List UInt8 :=
  Utf8.encode (Char.ofNat 0xFEFF :: "example.org ssh-ed25519 AAAA\n".toList)

/-- The Node store trusts the host, the native store does not know it. -/
theorem not_every_store_read_alike : ¬ ReadersAgree markedStore := by
  have hnode : (load faultless (.regular markedStore)).toOption.bind
      (·.get? (ofText "example.org".toList)) = some (js "ssh-ed25519", js "AAAA") := by
    decide +kernel
  have hnative : (NativeHostKeys.load NativeHostKeys.faultless (.regular markedStore)).toOption.bind
      (·.get? "example.org".toList) = none := by
    decide +kernel
  intro hagree
  rw [ReadersAgree] at hagree
  cases hR : load faultless (.regular markedStore) with
  | error e =>
    rw [hR] at hnode
    cases hnode
  | ok R =>
    cases hS : NativeHostKeys.load NativeHostKeys.faultless (.regular markedStore) with
    | error e =>
      rw [hR, hS] at hagree
      exact hagree
    | ok S =>
      rw [hR, hS] at hagree
      rw [hR] at hnode
      rw [hS] at hnative
      have hsame := hagree.2 "example.org".toList
      have hunknown : S.get? "example.org".toList = none := hnative
      rw [hunknown] at hsame
      exact nomatch hsame.symm.trans hnode

end TwoReaders
