import TerminalWorkspace.Foundation.RecordFile

/-! Appending one record to a record file. The algorithm field is untrusted text:
the laws say exactly when the bytes written for it stay inside their field. -/
namespace RecordFile
open OrderedMap

variable {α : Type*} {A : Alphabet α}

/-- Text that is read back as one word. -/
structure IsWord (A : Alphabet α) (w : List α) : Prop where
  nonempty : w ≠ []
  not_space : ∀ c ∈ w, A.space c = false

/-- A word that does not start a comment. -/
structure IsField (A : Alphabet α) (w : List α) : Prop extends IsWord A w where
  not_comment : w.head? ≠ some A.comment

theorem isWord_iff {w : List α} : IsWord A w ↔ w ≠ [] ∧ w.all (fun c => !A.space c) = true := by
  simp only [List.all_eq_true, Bool.not_eq_true']
  exact ⟨fun h => ⟨h.nonempty, h.not_space⟩, fun h => ⟨h.1, h.2⟩⟩

instance [DecidableEq α] (w : List α) : Decidable (IsWord A w) :=
  decidable_of_iff _ isWord_iff.symm

theorem IsWord.trim_ne_nil {w : List α} (h : IsWord A w) : trim A.space w ≠ [] := by
  rw [ne_eq, trim_eq_nil_iff, words_eq_singleton A.space h.nonempty h.not_space]
  simp

/-- The line written for a record, without its line break. -/
def recordText (A : Alphabet α) (host algorithm key : List α) : List α :=
  host ++ A.blank :: (algorithm ++ A.blank :: key)

theorem newline_not_mem {w : List α} (h : ∀ c ∈ w, A.space c = false) : A.newline ∉ w := by
  intro hm
  have := h _ hm
  simp [A.newline_space] at this

theorem words_recordText {host algorithm key : List α} (hh : IsWord A host)
    (hk : IsWord A key) :
    words A.space (recordText A host algorithm key) =
      host :: (words A.space algorithm ++ [key]) := by
  rw [recordText, words_append _ A.blank_space, words_append _ A.blank_space,
    words_eq_singleton _ hh.nonempty hh.not_space, words_eq_singleton _ hk.nonempty hk.not_space]
  rfl

variable [DecidableEq α]

theorem splitOn_append_first {s t w : List α} {a : α} (hs : a ∉ s) {ws : List (List α)}
    (h : t.splitOn a = w :: ws) : (s ++ t).splitOn a = (s ++ w) :: ws := by
  induction s with
  | nil => exact h
  | cons c s ih =>
    simp only [List.mem_cons, not_or] at hs
    rw [List.cons_append, List.splitOn_cons_eq_if_modifyHead, ih hs.2]
    simp [Ne.symm hs.1]

theorem splitOn_append_last {s t : List α} {a : α} (ht : a ∉ t) {init : List (List α)}
    {last : List α} (h : s.splitOn a = init ++ [last]) :
    (s ++ t).splitOn a = init ++ [last ++ t] := by
  induction s generalizing init last with
  | nil =>
    rw [List.splitOn_nil] at h
    have hi : init = [] ∧ last = [] := by
      cases init with
      | nil => simpa using h.symm
      | cons => simp at h
    simp [hi, List.splitOn_eq_singleton ht]
  | cons c s ih =>
    rw [List.splitOn_cons_eq_if_modifyHead] at h
    rw [List.cons_append, List.splitOn_cons_eq_if_modifyHead]
    obtain ⟨pre, l, hs⟩ := (List.eq_nil_or_concat (s.splitOn a)).resolve_left
      (List.splitOn_ne_nil a s)
    rw [List.concat_eq_append] at hs
    rw [ih hs]
    rw [hs] at h
    split_ifs at h ⊢
    · have h' : ([] :: pre) ++ [l] = init ++ [last] := h
      obtain ⟨rfl, hl⟩ := List.append_inj' h' rfl
      obtain rfl := List.cons.inj hl |>.1
      rfl
    · cases pre with
      | nil =>
        have hi : init = [] ∧ last = c :: l := by
          cases init with
          | nil => simpa [eq_comm] using h
          | cons => simp at h
        simp [hi]
      | cons m pre =>
        rw [List.cons_append, List.modifyHead_cons, ← List.cons_append] at h
        obtain ⟨rfl, hl⟩ := List.append_inj' h rfl
        obtain rfl := List.cons.inj hl |>.1
        rfl

/-- A record of three plain words is read back as itself. -/
theorem records_recordText {host algorithm key : List α} (hh : IsField A host)
    (ha : IsWord A algorithm) (hk : IsWord A key) :
    records A ((recordText A host algorithm key).splitOn A.newline) =
      some [⟨host, algorithm, key⟩] := by
  have htext : A.newline ∉ recordText A host algorithm key := by
    simp [recordText, newline_not_mem hh.not_space, newline_not_mem ha.not_space,
      newline_not_mem hk.not_space, A.blank_ne_newline.symm]
  have hwords : words A.space (recordText A host algorithm key) = _ :=
    words_recordText hh.toIsWord hk
  rw [words_eq_singleton _ ha.nonempty ha.not_space] at hwords
  rw [List.splitOn_eq_singleton htext,
    records_cons_record (readLine_of_words hwords hh.not_comment), records]
  rfl

/-- Every host read from a file is a field. -/
theorem isField_of_mem_records {ls : List (List α)} {rs : List (Record α)}
    (h : records A ls = some rs) {r : Record α} (hr : r ∈ rs) : IsField A r.host := by
  induction ls generalizing rs with
  | nil => simp_all [records]
  | cons l ls ih =>
    rcases records_cons_eq_some.mp h with ⟨-, h'⟩ | ⟨r', rs', hl, h', rfl⟩
    · exact ih h' hr
    · rcases List.mem_cons.mp hr with rfl | hr
      · obtain ⟨ws, hws, hc⟩ := readLine_record hl
        have hw := mem_words A.space (s := l) (w := r.host) (by simp [hws])
        exact ⟨⟨hw.1, hw.2.2⟩, hc⟩
      · exact ih h' hr

section Append
variable {R : OrderedMap (List α) (List α × List α)} {host algorithm key : List α}

/-- The algorithm text neither leaves its field nor, where it breaks the line,
says anything that reading the file as a whole would notice: the lines it adds
are records or comments, the last is this host's record again, and no other
host's record changes. -/
def StaysInField (A : Alphabet α) (R : OrderedMap (List α) (List α × List α))
    (host algorithm : List α) : Prop :=
  (A.newline ∉ algorithm ∧ ∃ x, words A.space algorithm = [x]) ∨
  ∃ first mid last x rs, algorithm.splitOn A.newline = first :: (mid ++ [last]) ∧
    2 ≤ (words A.space first).length ∧ words A.space last = [host, x] ∧
    records A mid = some rs ∧
    ∀ q ≠ host, ∀ v, lastFor q (entries rs) = some v → R.get? q = some v

/-- Writing the record changes exactly this host's entry. -/
def WritesOnly (A : Alphabet α) (R : OrderedMap (List α) (List α × List α))
    (host key text : List α) : Prop :=
  ∃ rs, records A (text.splitOn A.newline) = some rs ∧
    (∃ x, (R.setAll (entries rs)).get? host = some (x, key)) ∧
    ∀ q ≠ host, (R.setAll (entries rs)).get? q = R.get? q

theorem lastFor_append (q : List α) (es fs : List (List α × (List α × List α))) :
    lastFor q (es ++ fs) = (lastFor q fs).or (lastFor q es) := by
  simp only [lastFor, List.reverse_append, List.find?_append]
  cases List.find? (fun e => decide (e.1 = q)) fs.reverse <;> simp

theorem lastFor_singleton (q : List α) (e : List α × (List α × List α)) :
    lastFor q [e] = if e.1 = q then some e.2 else none := by
  by_cases h : e.1 = q <;> simp [lastFor, h]

/-- A single-line algorithm text stays in its field exactly when it is one word. -/
theorem writesOnly_line_iff (hh : IsField A host) (hk : IsWord A key)
    (hlen : algorithm.length < key.length) (hnl : A.newline ∉ algorithm) :
    WritesOnly A R host key (recordText A host algorithm key) ↔
      ∃ x, words A.space algorithm = [x] := by
  have htext : (recordText A host algorithm key).splitOn A.newline =
      [recordText A host algorithm key] := by
    apply List.splitOn_eq_singleton
    simp [recordText, newline_not_mem hh.not_space, newline_not_mem hk.not_space, hnl,
      A.blank_ne_newline.symm]
  have hwords : words A.space (recordText A host algorithm key) = _ :=
    words_recordText hh.toIsWord hk
  have hread := readLine_of_words hwords hh.not_comment
  rw [WritesOnly, htext]
  match hw : words A.space algorithm with
  | [] =>
    rw [hw, List.nil_append, ofFields_pair] at hread
    simp [records, hread]
  | [x] =>
    rw [hw, List.singleton_append, ofFields_cons] at hread
    simp only [List.cons.injEq, and_true, exists_eq']
    refine iff_true_intro ⟨[⟨host, x, key⟩], by simp [records, hread], ⟨x, ?_⟩, fun q hq => ?_⟩
    · simp
    · simp [get?_set, hq]
  | x :: y :: ws =>
    rw [hw, List.cons_append, List.cons_append, ofFields_cons] at hread
    have hy : y.length ≤ algorithm.length :=
      (mem_words A.space (s := algorithm) (by simp [hw])).2.1.length_le
    have hne : ¬ y = key := by
      rintro rfl
      omega
    simp [records, hread, hne]

theorem lastFor_cons_ne {q : List α} {e : List α × (List α × List α)} (h : e.1 ≠ q)
    (es : List (List α × (List α × List α))) : lastFor q (e :: es) = lastFor q es := by
  rw [← List.singleton_append, lastFor_append, lastFor_singleton, if_neg h]
  simp

/-- A host's last record has one of the keys of the records. -/
theorem lastFor_key_length_le {rs : List (Record α)} {n : ℕ} (h : ∀ r ∈ rs, r.key.length ≤ n)
    {q x k : List α} (hq : lastFor q (entries rs) = some (x, k)) : k.length ≤ n := by
  obtain ⟨r, hr, he⟩ := List.mem_map.mp (lastFor_mem hq)
  have hkey : r.key = k := (Prod.mk.inj (Prod.mk.inj he).2).2
  exact hkey ▸ h r hr

theorem lines_length_le {s l : List α} {a : α} (h : l ∈ s.splitOn a) : l.length ≤ s.length :=
  (mem_splitOnP (· == a) h).1.length_le

theorem recordText_splitOn {first last : List α} {mid : List (List α)} (hh : IsField A host)
    (hk : IsWord A key) (hsplit : algorithm.splitOn A.newline = first :: (mid ++ [last])) :
    (recordText A host algorithm key).splitOn A.newline =
      (host ++ A.blank :: first) :: (mid ++ [last ++ A.blank :: key]) := by
  have hkey : A.newline ∉ A.blank :: key := by
    simp [A.blank_ne_newline.symm, newline_not_mem hk.not_space]
  have hhost : A.newline ∉ host ++ [A.blank] := by
    simp [A.blank_ne_newline.symm, newline_not_mem hh.not_space]
  have hlines : algorithm.splitOn A.newline = (first :: mid) ++ [last] := hsplit
  have htail := splitOn_append_last hkey hlines
  have htext := splitOn_append_first hhost htail
  simpa [recordText] using htext

/-- Reading the first line of a broken record text. -/
theorem readLine_first (hh : IsField A host) (first : List α) :
    readLine A (host ++ A.blank :: first) = ofFields (host :: words A.space first) := by
  apply readLine_of_words _ hh.not_comment
  rw [words_append _ A.blank_space, words_eq_singleton _ hh.nonempty hh.not_space]
  rfl

omit [DecidableEq α] in
theorem words_last (hk : IsWord A key) (last : List α) :
    words A.space (last ++ A.blank :: key) = words A.space last ++ [key] := by
  rw [words_append _ A.blank_space, words_eq_singleton _ hk.nonempty hk.not_space]

/-- The last line reads as a record of this key only if it says so itself. -/
theorem last_words_of_readLine (hk : IsWord A key) {last : List α} {n : ℕ}
    (hlast : last.length ≤ n) (hlen : n < key.length) {r : Record α}
    (hr : readLine A (last ++ A.blank :: key) = .record r) (hkey : r.key = key) :
    words A.space last = [r.host, r.algorithm] := by
  obtain ⟨ws, hws, -⟩ := readLine_record hr
  rw [words_last hk] at hws
  match hw : words A.space last with
  | [] => simp [hw] at hws
  | [w] => simp [hw] at hws
  | [w, x] =>
    rw [hw] at hws
    simp only [List.cons_append, List.nil_append, List.cons.injEq] at hws
    rw [hws.1, hws.2.1]
  | w :: x :: y :: zs =>
    rw [hw] at hws
    simp only [List.cons_append, List.cons.injEq] at hws
    have hy : y.length ≤ last.length :=
      (mem_words A.space (s := last) (by simp [hw])).2.1.length_le
    rw [hws.2.2.1, hkey] at hy
    omega

/-- A line-breaking algorithm text stays in its field exactly when its last
line completes this host's record and the lines between change nothing. -/
theorem writesOnly_lines_iff (hh : IsField A host) (hk : IsWord A key)
    (hlen : algorithm.length < key.length) (hnone : R.get? host = none)
    {first last : List α} {mid : List (List α)}
    (hsplit : algorithm.splitOn A.newline = first :: (mid ++ [last])) :
    WritesOnly A R host key (recordText A host algorithm key) ↔
      2 ≤ (words A.space first).length ∧ (∃ x, words A.space last = [host, x]) ∧
      ∃ rs, records A mid = some rs ∧
        ∀ q ≠ host, ∀ v, lastFor q (entries rs) = some v → R.get? q = some v := by
  rw [WritesOnly, recordText_splitOn hh hk hsplit]
  have hline : ∀ l ∈ first :: (mid ++ [last]), l.length ≤ algorithm.length :=
    fun l hl => lines_length_le (hsplit ▸ hl)
  have hfirst := readLine_first hh first
  constructor
  · rintro ⟨rs, hrs, ⟨x, hx⟩, hframe⟩
    rcases records_cons_eq_some.mp hrs with ⟨hskip, -⟩ | ⟨r₀, rest, hr₀, hrest, rfl⟩
    · rw [hfirst] at hskip
      match hw : words A.space first with
      | [] => simp [hw] at hskip
      | [u] => simp [hw] at hskip
      | u :: v :: ws => simp [hw] at hskip
    obtain ⟨rs, tl, hmid, htl, rfl⟩ := records_append_eq_some.mp hrest
    have hr₀words : ∃ u v ws, words A.space first = u :: v :: ws ∧ r₀ = ⟨host, u, v⟩ := by
      rw [hfirst] at hr₀
      match hw : words A.space first with
      | [] => simp [hw, ofFields] at hr₀
      | [u] => simp [hw] at hr₀
      | u :: v :: ws =>
        rw [hw, ofFields_cons] at hr₀
        exact ⟨u, v, ws, rfl, (Line.record.inj hr₀).symm⟩
    obtain ⟨u, v, ws, hu, rfl⟩ := hr₀words
    -- no record before the last line can carry the key: it is longer than the text
    have hshort : ∀ r ∈ (⟨host, u, v⟩ : Record α) :: rs, r.key.length ≤ algorithm.length := by
      intro r hr
      rcases List.mem_cons.mp hr with rfl | hr
      · have hv := (mem_words A.space (s := first) (w := v) (by simp [hu])).2.1.length_le
        exact hv.trans (hline first (by simp))
      · obtain ⟨l, hl, -, hkl⟩ := mem_records hmid hr
        exact (mem_words A.space hkl).2.1.length_le.trans (hline l (by simp [hl]))
    have hearly (y : List α) :
        lastFor host (entries ((⟨host, u, v⟩ : Record α) :: rs)) ≠ some (y, key) := by
      intro hy
      have := lastFor_key_length_le hshort hy
      omega
    rw [get?_setAll, hnone, Option.or_none, ← List.cons_append, entries_append,
      lastFor_append] at hx
    obtain ⟨r, hlast, rfl⟩ : ∃ r, readLine A (last ++ A.blank :: key) = .record r ∧ tl = [r] := by
      rcases records_cons_eq_some.mp htl with ⟨-, h0⟩ | ⟨r, tl', hr, h0, rfl⟩
      · obtain rfl := Option.some.inj h0
        exact absurd hx (by simpa [lastFor] using hearly x)
      · exact ⟨r, hr, by rw [← Option.some.inj h0]⟩
    rw [entries_cons, entries_nil, lastFor_singleton] at hx
    have hr : r.host = host ∧ r.key = key := by
      by_cases hhost : r.host = host
      · rw [if_pos (by exact hhost), Option.some_or] at hx
        exact ⟨hhost, (Prod.mk.inj (Option.some.inj hx)).2⟩
      · rw [if_neg (by exact hhost), Option.none_or] at hx
        exact absurd hx (hearly x)
    have hwords := last_words_of_readLine hk (hline last (by simp)) hlen hlast hr.2
    refine ⟨by simp [hu], ⟨r.algorithm, by rw [hwords, hr.1]⟩, rs, hmid, fun q hq y hy => ?_⟩
    have hq' := hframe q hq
    rw [get?_setAll, entries_cons, lastFor_cons_ne (Ne.symm hq), entries_append, entries_cons,
      entries_nil, lastFor_append, lastFor_singleton, hr.1, if_neg (Ne.symm hq), Option.none_or,
      hy] at hq'
    exact hq'.symm
  · rintro ⟨hfw, ⟨x, hx⟩, rs, hmid, hframe⟩
    obtain ⟨u, v, ws, hu⟩ : ∃ u v ws, words A.space first = u :: v :: ws := by
      match hw : words A.space first with
      | [] => simp [hw] at hfw
      | [u] => simp [hw] at hfw
      | u :: v :: ws => exact ⟨u, v, ws, rfl⟩
    have hlast : readLine A (last ++ A.blank :: key) = .record ⟨host, x, key⟩ := by
      have hw := words_last hk last
      rw [hx] at hw
      exact readLine_of_words hw hh.not_comment
    refine ⟨⟨host, u, v⟩ :: (rs ++ [⟨host, x, key⟩]), ?_, ⟨x, ?_⟩, fun q hq => ?_⟩
    · rw [hu, ofFields_cons] at hfirst
      rw [records_cons_record hfirst, records_append, hmid, records_cons_record hlast]
      rfl
    · rw [get?_setAll, ← List.cons_append, entries_append, lastFor_append, entries_cons ⟨host, x, key⟩,
        entries_nil, lastFor_singleton, if_pos rfl]
      rfl
    · rw [get?_setAll, entries_cons, lastFor_cons_ne (Ne.symm hq), entries_append, entries_cons,
        entries_nil, lastFor_append, lastFor_singleton, if_neg (Ne.symm hq), Option.none_or]
      cases hl : lastFor q (entries rs) with
      | none => rfl
      | some y => exact (hframe q hq y hl).symm

/-- Writing a record changes exactly this host's entry when and only when the
algorithm text stays in its field. -/
theorem writesOnly_iff (hh : IsField A host) (hk : IsWord A key)
    (hlen : algorithm.length < key.length) (hnone : R.get? host = none) :
    WritesOnly A R host key (recordText A host algorithm key) ↔
      StaysInField A R host algorithm := by
  obtain ⟨first, rest, hsplit⟩ :=
    List.exists_cons_of_ne_nil (List.splitOn_ne_nil A.newline algorithm)
  rcases List.eq_nil_or_concat rest with rfl | ⟨mid, last, rfl⟩
  · have hnl : A.newline ∉ algorithm := by
      have hj : [A.newline].intercalate (algorithm.splitOn A.newline) = algorithm :=
        List.intercalate_splitOn A.newline
      rw [hsplit, List.intercalate_singleton] at hj
      subst hj
      exact fun hm => by simpa using (mem_splitOnP (· == A.newline)
        (List.mem_of_mem_head? (by rw [← List.splitOn_eq_splitOnP, hsplit]; rfl))).2 _ hm
    rw [writesOnly_line_iff hh hk hlen hnl, StaysInField]
    simp [hnl, hsplit]
  · rw [List.concat_eq_append] at hsplit
    have hnl : A.newline ∈ algorithm := by
      by_contra hnl
      rw [List.splitOn_eq_singleton hnl] at hsplit
      simp at hsplit
    rw [writesOnly_lines_iff hh hk hlen hnone hsplit, StaysInField]
    simp only [hnl, not_true_eq_false, false_and, false_or, hsplit]
    constructor
    · rintro ⟨h1, ⟨x, h2⟩, rs, h3, h4⟩
      exact ⟨first, mid, last, x, rs, rfl, h1, h2, h3, h4⟩
    · rintro ⟨f, m, l, x, rs, heq, h1, h2, h3, h4⟩
      obtain ⟨rfl, hml⟩ := List.cons.inj heq
      obtain ⟨rfl, hl⟩ := List.append_inj' hml rfl
      obtain rfl := (List.cons.inj hl).1
      exact ⟨h1, ⟨x, h2⟩, rs, h3, h4⟩

end Append

end RecordFile
