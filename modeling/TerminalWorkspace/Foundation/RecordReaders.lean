import TerminalWorkspace.Foundation.RecordFile

/-! Two readers of the same record file who disagree about white space: when they come to the
same records for every key. -/
namespace RecordFile

section Rename
variable {α β : Type*} [DecidableEq α] [DecidableEq β]

omit [DecidableEq α] [DecidableEq β] in
theorem splitOnP_map (f : α → β) (p : β → Bool) (s : List α) :
    (s.map f).splitOnP p = (s.splitOnP fun c => p (f c)).map (List.map f) := by
  induction s with
  | nil => rfl
  | cons c s ih =>
    rw [List.map_cons, List.splitOnP_cons_eq_if_modifyHead, List.splitOnP_cons_eq_if_modifyHead, ih]
    split_ifs
    · rfl
    · cases s.splitOnP fun c => p (f c) <;> rfl

omit [DecidableEq α] [DecidableEq β] in
theorem words_map (f : α → β) (p : β → Bool) (s : List α) :
    words p (s.map f) = (words (fun c => p (f c)) s).map (List.map f) := by
  rw [words, splitOnP_map, List.filter_map, words]
  congr 2
  funext w
  simp

def Record.map (f : α → β) (r : Record α) : Record β :=
  ⟨r.host.map f, r.algorithm.map f, r.key.map f⟩

/-- The same alphabet under other characters. -/
structure Renames (f : α → β) (A : Alphabet α) (B : Alphabet β) : Prop where
  injective : Function.Injective f
  space : ∀ c, B.space (f c) = A.space c
  comment : B.comment = f A.comment

variable {f : α → β} {A : Alphabet α} {B : Alphabet β}

omit [DecidableEq α] [DecidableEq β] in
theorem Renames.words (h : Renames f A B) (s : List α) :
    words B.space (s.map f) = (words A.space s).map (List.map f) := by
  rw [words_map]
  simp only [h.space]

theorem Renames.readLine (h : Renames f A B) (line : List α) :
    readLine B (line.map f) =
      match readLine A line with
      | .skip => .skip
      | .record r => .record (r.map f)
      | .malformed => .malformed := by
  have hwords := h.words line
  cases hw : RecordFile.words A.space line with
  | nil =>
    rw [hw] at hwords
    rw [readLine_skip hwords, readLine_skip hw]
  | cons w ws =>
    rw [hw, List.map_cons] at hwords
    by_cases hc : w.head? = some A.comment
    · have hc' : (w.map f).head? = some B.comment := by
        rw [List.head?_map, hc, h.comment]
        rfl
      rw [readLine_comment hwords hc', readLine_comment hw hc]
    · have hc' : (w.map f).head? ≠ some B.comment := by
        rw [List.head?_map, h.comment]
        intro heq
        obtain ⟨c, hhead, hcomment⟩ := Option.map_eq_some_iff.mp heq
        exact hc (h.injective hcomment ▸ hhead)
      rw [readLine_of_words hwords hc', readLine_of_words hw hc]
      match ws with
      | [] => rfl
      | [_] => rfl
      | _ :: _ :: _ => rfl

theorem Renames.records (h : Renames f A B) (lines : List (List α)) :
    records B (lines.map (List.map f)) = (records A lines).map (List.map (Record.map f)) := by
  induction lines with
  | nil => rfl
  | cons line lines ih =>
    rw [List.map_cons, RecordFile.records, RecordFile.records, h.readLine, ih]
    cases RecordFile.readLine A line with
    | skip => rfl
    | malformed => rfl
    | record r => cases RecordFile.records A lines <;> rfl

end Rename

section FirstWord
variable {α : Type*} {p q : α → Bool}

def firstWord (p : α → Bool) (s : List α) : List α := (s.dropWhile p).takeWhile fun c => !p c

theorem firstWord_cons_space {c : α} (h : p c = true) (s : List α) :
    firstWord p (c :: s) = firstWord p s := by
  rw [firstWord, List.dropWhile_cons_of_pos h, firstWord]

theorem firstWord_cons_not_space {c : α} (h : p c = false) (s : List α) :
    firstWord p (c :: s) = c :: s.takeWhile fun c => !p c := by
  rw [firstWord, List.dropWhile_cons_of_neg (by simp [h]), List.takeWhile_cons_of_pos (by simp [h])]

theorem splitOnP_head (s : List α) :
    ∃ ws, s.splitOnP p = (s.takeWhile fun c => !p c) :: ws := by
  induction s with
  | nil => exact ⟨[], rfl⟩
  | cons c s ih =>
    obtain ⟨ws, hs⟩ := ih
    rw [List.splitOnP_cons_eq_if_modifyHead]
    by_cases h : p c = true
    · exact ⟨s.splitOnP p, by simp [h]⟩
    · exact ⟨ws, by simp [h, hs]⟩

/-- The first of the words. -/
theorem words_cons_eq {s w : List α} {ws : List (List α)} (h : words p s = w :: ws) :
    firstWord p s = w := by
  induction s with
  | nil => cases h
  | cons c s ih =>
    by_cases hc : p c = true
    · rw [words_cons_space p hc] at h
      rw [firstWord_cons_space hc, ih h]
    · rw [Bool.not_eq_true] at hc
      obtain ⟨vs, hs⟩ := splitOnP_head (p := p) s
      rw [firstWord_cons_not_space hc]
      rw [words, List.splitOnP_cons_eq_if_modifyHead, hs] at h
      simp only [hc, Bool.false_eq_true, if_false, List.modifyHead_cons] at h
      exact (List.cons.inj h).1

theorem firstWord_eq_nil {s : List α} (h : words p s = []) : firstWord p s = [] := by
  rw [firstWord, List.dropWhile_eq_nil_iff.mpr ((words_eq_nil_iff p).mp h), List.takeWhile_nil]

/-- The first words of two readers agree when neither has white space of the other. -/
theorem firstWord_eq {s : List α} (hp : ∀ c ∈ firstWord p s, q c = false)
    (hq : ∀ c ∈ firstWord q s, p c = false) : firstWord p s = firstWord q s := by
  have htake : ∀ t : List α, (∀ c ∈ t.takeWhile (fun c => !p c), q c = false) →
      (∀ c ∈ t.takeWhile (fun c => !q c), p c = false) →
        t.takeWhile (fun c => !p c) = t.takeWhile fun c => !q c := by
    intro t
    induction t with
    | nil => exact fun _ _ => rfl
    | cons c t ih =>
      intro htp htq
      cases hpc : p c <;> cases hqc : q c <;> simp_all
  induction s with
  | nil => rfl
  | cons c s ih =>
    cases hpc : p c with
    | true =>
      cases hqc : q c with
      | true =>
        rw [firstWord_cons_space hpc] at hp ⊢
        rw [firstWord_cons_space hqc] at hq ⊢
        exact ih hp hq
      | false =>
        have := hq c (by rw [firstWord_cons_not_space hqc]; exact List.mem_cons_self)
        rw [hpc] at this
        cases this
    | false =>
      rw [firstWord_cons_not_space hpc] at hp ⊢
      cases hqc : q c with
      | true =>
        have := hp c List.mem_cons_self
        rw [hqc] at this
        cases this
      | false =>
        rw [firstWord_cons_not_space hqc] at hq ⊢
        rw [htake s (fun d hd => hp d (List.mem_cons_of_mem _ hd))
          fun d hd => hq d (List.mem_cons_of_mem _ hd)]

/-- If the first word has no white space of the other reader, then the other's first word starts
like it or starts with white space of this one. -/
theorem firstWord_head {s : List α} (hp : ∀ c ∈ firstWord p s, q c = false)
    (hne : firstWord p s ≠ []) : ∃ c, (firstWord q s).head? = some c ∧
      ((firstWord p s).head? = some c ∨ p c = true) := by
  induction s with
  | nil => exact absurd rfl hne
  | cons c s ih =>
    cases hpc : p c with
    | true =>
      rw [firstWord_cons_space hpc] at hp hne ⊢
      cases hqc : q c with
      | true =>
        rw [firstWord_cons_space hqc]
        exact ih hp hne
      | false =>
        rw [firstWord_cons_not_space hqc]
        exact ⟨c, rfl, .inr hpc⟩
    | false =>
      rw [firstWord_cons_not_space hpc] at hp ⊢
      have hqc := hp c List.mem_cons_self
      rw [firstWord_cons_not_space hqc]
      exact ⟨c, rfl, .inl rfl⟩

end FirstWord

section Readers
variable {α : Type*} [DecidableEq α]

/-- The host a line is a record for. -/
def Line.host? : Line α → Option (List α)
  | .record r => some r.host
  | _ => none

/-- The records that two readers make of the lines of a file name the same keys: both find a
malformed line; or neither does, each line names the same host to both, and the last line of
each host is the same record to both. -/
def ReadAlike (A B : Alphabet α) (lines : List (List α)) : Prop :=
  ((∃ line ∈ lines, readLine A line = .malformed) ∧ ∃ line ∈ lines, readLine B line = .malformed) ∨
    (∀ line ∈ lines, readLine A line ≠ .malformed ∧ readLine B line ≠ .malformed ∧
      (readLine A line).host? = (readLine B line).host?) ∧
    ∀ before line after, lines = before ++ line :: after →
      (∀ later ∈ after, (readLine A later).host? ≠ (readLine A line).host?) →
        readLine A line = readLine B line

variable {A B : Alphabet α} {lines : List (List α)}

theorem records_eq_none : records A lines = none ↔ ∃ line ∈ lines, readLine A line = .malformed := by
  induction lines with
  | nil => simp [records]
  | cons line lines ih =>
    rw [records]
    cases h : readLine A line with
    | skip => simp [h, ih]
    | malformed => simp [h]
    | record r => simp [h, ih]

theorem mem_records_line {rs : List (Record α)} (h : records A lines = some rs) {r : Record α}
    (hr : r ∈ rs) : ∃ line ∈ lines, readLine A line = .record r := by
  induction lines generalizing rs with
  | nil =>
    obtain rfl := Option.some_inj.mp h
    cases hr
  | cons line lines ih =>
    rcases records_cons_eq_some.mp h with ⟨-, h'⟩ | ⟨r', rs', hline, h', rfl⟩
    · obtain ⟨other, hmem, hread⟩ := ih h' hr
      exact ⟨other, List.mem_cons_of_mem _ hmem, hread⟩
    · rcases List.mem_cons.mp hr with rfl | hr
      · exact ⟨line, List.mem_cons_self, hline⟩
      · obtain ⟨other, hmem, hread⟩ := ih h' hr
        exact ⟨other, List.mem_cons_of_mem _ hmem, hread⟩

/-- The host of a record has no white space of its reader. -/
theorem readLine_host {line : List α} {r : Record α} (h : readLine A line = .record r) :
    firstWord A.space line = r.host ∧ r.host ≠ [] ∧ r.host.head? ≠ some A.comment ∧
      ∀ c ∈ r.host, A.space c = false := by
  obtain ⟨ws, hwords, hcomment⟩ := readLine_record h
  obtain ⟨hne, -, hspace⟩ := mem_words A.space (s := line) (w := r.host) (by simp [hwords])
  exact ⟨words_cons_eq hwords, hne, hcomment, hspace⟩

/-- A line that names a host to one reader names it to the other, if no host has white space of
the other reader. -/
theorem host?_eq_of_record (hcomment : A.comment = B.comment) {line : List α} {r : Record α}
    (hA : readLine A line = .record r) (hspace : ∀ c ∈ r.host, B.space c = false)
    (hB : readLine B line ≠ .malformed)
    (hother : ∀ r', readLine B line = .record r' → ∀ c ∈ r'.host, A.space c = false) :
    (readLine B line).host? = some r.host := by
  obtain ⟨hfirst, hne, hhead, -⟩ := readLine_host hA
  have hstart := firstWord_head (p := A.space) (q := B.space) (s := line)
    (by rw [hfirst]; exact hspace) (by rw [hfirst]; exact hne)
  cases hread : readLine B line with
  | malformed => exact absurd hread hB
  | record r' =>
    obtain ⟨hfirst', -, -, -⟩ := readLine_host hread
    have heq := firstWord_eq (p := A.space) (q := B.space) (s := line)
      (by rw [hfirst]; exact hspace) (by rw [hfirst']; exact hother r' hread)
    rw [hfirst, hfirst'] at heq
    rw [Line.host?, heq]
  | skip =>
    obtain ⟨c, hc, hor⟩ := hstart
    cases hwords : words B.space line with
    | nil =>
      rw [firstWord_eq_nil hwords] at hc
      cases hc
    | cons w ws =>
      have hw : w.head? = some B.comment := by
        by_contra hw
        rw [readLine_of_words hwords hw] at hread
        match ws, hread with
        | _ :: _ :: _, hread => cases hread
      rw [words_cons_eq hwords, hw] at hc
      obtain rfl := Option.some_inj.mp hc
      rcases hor with hor | hor
      · exact absurd (hfirst ▸ hor.trans (congrArg some hcomment.symm)) hhead
      · rw [← hcomment, A.comment_not_space] at hor
        cases hor

/-- The last record of a host. -/
theorem lastFor_records {before after : List (List α)} {line : List α} {r : Record α}
    {rs : List (Record α)} (hrs : records A (before ++ line :: after) = some rs)
    (hline : readLine A line = .record r)
    (hlast : ∀ later ∈ after, (readLine A later).host? ≠ some r.host) :
    OrderedMap.lastFor r.host (entries rs) = some (r.algorithm, r.key) := by
  obtain ⟨rs₁, rs₂, -, hrs₂, rfl⟩ := records_append_eq_some.mp hrs
  rw [records_cons_record hline] at hrs₂
  obtain ⟨rest, hrest, rfl⟩ := Option.map_eq_some_iff.mp hrs₂
  rw [entries_append, entries_cons]
  apply OrderedMap.lastFor_append_cons
  intro e he
  obtain ⟨t, ht, rfl⟩ := List.mem_map.mp he
  intro hhost
  obtain ⟨later, hlater, hread⟩ := mem_records_line hrest ht
  exact hlast later hlater (by rw [hread, Line.host?, ← hhost, Record.entry])

omit [DecidableEq α] in
theorem exists_last {P : List α → Prop} (h : ∃ line ∈ lines, P line) :
    ∃ before line after, lines = before ++ line :: after ∧ P line ∧ ∀ later ∈ after, ¬ P later := by
  induction lines using List.reverseRecOn with
  | nil => simp at h
  | append_singleton lines line ih =>
    by_cases hline : P line
    · exact ⟨lines, line, [], rfl, hline, by simp⟩
    · obtain ⟨other, hmem, hP⟩ := h
      rcases List.mem_append.mp hmem with hmem | hmem
      · obtain ⟨before, last, after, rfl, hlast, hafter⟩ := ih ⟨other, hmem, hP⟩
        refine ⟨before, last, after ++ [line], by simp, hlast, fun later hlater => ?_⟩
        rcases List.mem_append.mp hlater with hlater | hlater
        · exact hafter later hlater
        · exact List.mem_singleton.mp hlater ▸ hline
      · exact absurd (List.mem_singleton.mp hmem ▸ hP) hline

/-- A host with a record in a file has no white space of the file's reader. -/
theorem host_of_lastFor {rs : List (Record α)} (hrs : records A lines = some rs) {host : List α}
    (h : (OrderedMap.lastFor host (entries rs)).isSome) :
    (∃ line ∈ lines, (readLine A line).host? = some host) ∧ ∀ c ∈ host, A.space c = false := by
  obtain ⟨v, hv⟩ := Option.isSome_iff_exists.mp h
  obtain ⟨r, hr, he⟩ := List.mem_map.mp (OrderedMap.lastFor_mem hv)
  obtain rfl : r.host = host := (Prod.mk.inj he).1
  obtain ⟨line, hline, hread⟩ := mem_records_line hrs hr
  exact ⟨⟨line, hline, by rw [hread, Line.host?]⟩, (readLine_host hread).2.2.2⟩

theorem lastFor_isSome {rs : List (Record α)} (hrs : records A lines = some rs) {line : List α}
    (hmem : line ∈ lines) {r : Record α} (hline : readLine A line = .record r) :
    (OrderedMap.lastFor r.host (entries rs)).isSome := by
  obtain ⟨before, last, after, rfl, hlast, hafter⟩ :=
    exists_last (P := fun l => (readLine A l).host? = some r.host)
      ⟨line, hmem, by rw [hline, Line.host?]⟩
  cases hread : readLine A last with
  | record t =>
    rw [hread, Line.host?, Option.some_inj] at hlast
    rw [← hlast] at hafter ⊢
    rw [lastFor_records hrs hread hafter]
    rfl
  | skip =>
    rw [hread] at hlast
    cases hlast
  | malformed =>
    rw [hread] at hlast
    cases hlast

theorem readAlike_of_eq (h : ∀ line ∈ lines, readLine A line = readLine B line) :
    ReadAlike A B lines := by
  by_cases hmalformed : ∃ line ∈ lines, readLine A line = .malformed
  · obtain ⟨line, hmem, hline⟩ := hmalformed
    exact .inl ⟨⟨line, hmem, hline⟩, line, hmem, h line hmem ▸ hline⟩
  · refine .inr ⟨fun line hmem => ?_, ?_⟩
    · have hA : readLine A line ≠ .malformed := fun hline => hmalformed ⟨line, hmem, hline⟩
      exact ⟨hA, h line hmem ▸ hA, by rw [h line hmem]⟩
    · rintro before line after rfl -
      exact h line (List.mem_append_right _ List.mem_cons_self)

/-- A line on whose characters the readers agree. -/
theorem readLine_eq_of_space (hcomment : A.comment = B.comment) {line : List α}
    (h : ∀ c ∈ line, A.space c = B.space c) : readLine A line = readLine B line := by
  have hwords : words A.space line = words B.space line := by
    have hsplit : line.splitOnP A.space = line.splitOnP B.space := by
      induction line with
      | nil => rfl
      | cons c line ih =>
        rw [List.splitOnP_cons_eq_if_modifyHead, List.splitOnP_cons_eq_if_modifyHead,
          h c List.mem_cons_self, ih fun d hd => h d (List.mem_cons_of_mem _ hd)]
    rw [words, words, hsplit]
  cases hB : words B.space line with
  | nil => rw [readLine_skip (hwords.trans hB), readLine_skip hB]
  | cons w ws =>
    by_cases hc : w.head? = some B.comment
    · rw [readLine_comment (hwords.trans hB) (hcomment ▸ hc), readLine_comment hB hc]
    · rw [readLine_of_words (hwords.trans hB) (hcomment ▸ hc), readLine_of_words hB hc]

/-- Two readers come to the same records exactly if they read the lines alike. -/
theorem readAlike_iff (hcomment : A.comment = B.comment) : ReadAlike A B lines ↔
    (records A lines = none ∧ records B lines = none) ∨
      ∃ rs ts, records A lines = some rs ∧ records B lines = some ts ∧
        ∀ host, OrderedMap.lastFor host (entries rs) = OrderedMap.lastFor host (entries ts) := by
  rw [ReadAlike, records_eq_none, records_eq_none]
  refine or_congr Iff.rfl ⟨?_, ?_⟩
  · rintro ⟨hlines, hlast⟩
    have hA : records A lines ≠ none := fun hnone => by
      obtain ⟨line, hmem, hline⟩ := records_eq_none.mp hnone
      exact (hlines line hmem).1 hline
    have hB : records B lines ≠ none := fun hnone => by
      obtain ⟨line, hmem, hline⟩ := records_eq_none.mp hnone
      exact (hlines line hmem).2.1 hline
    obtain ⟨rs, hrs⟩ := Option.ne_none_iff_exists'.mp hA
    obtain ⟨ts, hts⟩ := Option.ne_none_iff_exists'.mp hB
    refine ⟨rs, ts, hrs, hts, fun host => ?_⟩
    by_cases hhost : ∃ line ∈ lines, (readLine A line).host? = some host
    · obtain ⟨before, line, after, rfl, hline, hafter⟩ := exists_last hhost
      have hsame := hlast before line after rfl fun later hlater heq =>
        hafter later hlater (heq.trans hline)
      cases hread : readLine A line with
      | record r =>
        rw [hread, Line.host?, Option.some_inj] at hline
        subst hline
        rw [lastFor_records hrs hread hafter, lastFor_records hts (hsame ▸ hread) fun later hlater =>
          (hlines later (List.mem_append_right _ (List.mem_cons_of_mem _ hlater))).2.2 ▸
            hafter later hlater]
      | skip =>
        rw [hread] at hline
        cases hline
      | malformed =>
        rw [hread] at hline
        cases hline
    · have hnone : ∀ {C : Alphabet α} {us}, records C lines = some us →
          (∀ line ∈ lines, (readLine A line).host? = (readLine C line).host?) →
            OrderedMap.lastFor host (entries us) = none := by
        intro C us hus hsame
        rw [← Option.not_isSome_iff_eq_none]
        intro hsome
        obtain ⟨⟨line, hmem, hline⟩, -⟩ := host_of_lastFor hus hsome
        exact hhost ⟨line, hmem, (hsame line hmem).trans hline⟩
      rw [hnone hrs fun _ _ => rfl, hnone hts fun line hmem => (hlines line hmem).2.2]
  · rintro ⟨rs, ts, hrs, hts, hsame⟩
    have hA : ∀ line ∈ lines, readLine A line ≠ .malformed := fun line hmem hline => by
      have hnone := records_eq_none.mpr ⟨line, hmem, hline⟩
      rw [hrs] at hnone
      cases hnone
    have hB : ∀ line ∈ lines, readLine B line ≠ .malformed := fun line hmem hline => by
      have hnone := records_eq_none.mpr ⟨line, hmem, hline⟩
      rw [hts] at hnone
      cases hnone
    have hspaceB : ∀ line ∈ lines, ∀ r, readLine A line = .record r →
        ∀ c ∈ r.host, B.space c = false := fun line hmem r hline =>
      (host_of_lastFor hts (hsame r.host ▸ lastFor_isSome hrs hmem hline)).2
    have hspaceA : ∀ line ∈ lines, ∀ r, readLine B line = .record r →
        ∀ c ∈ r.host, A.space c = false := fun line hmem r hline =>
      (host_of_lastFor hrs ((hsame r.host).symm ▸ lastFor_isSome hts hmem hline)).2
    have hhosts : ∀ line ∈ lines, (readLine A line).host? = (readLine B line).host? := by
      intro line hmem
      cases hread : readLine A line with
      | record r =>
        rw [host?_eq_of_record hcomment hread (hspaceB line hmem r hread) (hB line hmem)
          (hspaceA line hmem), Line.host?]
      | malformed => exact absurd hread (hA line hmem)
      | skip =>
        cases hread' : readLine B line with
        | record r =>
          have hhost := host?_eq_of_record hcomment.symm hread' (hspaceA line hmem r hread')
            (hA line hmem) (hspaceB line hmem)
          rw [hread] at hhost
          cases hhost
        | malformed => exact absurd hread' (hB line hmem)
        | skip => rfl
    refine ⟨fun line hmem => ⟨hA line hmem, hB line hmem, hhosts line hmem⟩, ?_⟩
    rintro before line after rfl hafter
    have hmem : line ∈ before ++ line :: after := List.mem_append_right _ List.mem_cons_self
    have hhost := hhosts line hmem
    cases hread : readLine A line with
    | malformed => exact absurd hread (hA line hmem)
    | skip =>
      cases hread' : readLine B line with
      | malformed => exact absurd hread' (hB line hmem)
      | skip => rfl
      | record r =>
        rw [hread, hread'] at hhost
        cases hhost
    | record r =>
      cases hread' : readLine B line with
      | malformed => exact absurd hread' (hB line hmem)
      | skip =>
        rw [hread, hread'] at hhost
        cases hhost
      | record t =>
        rw [hread, hread', Line.host?, Line.host?, Option.some_inj] at hhost
        rw [hread, Line.host?] at hafter
        have hlastA := lastFor_records hrs hread hafter
        have hlastB := lastFor_records hts hread' fun later hlater =>
          hhosts later (List.mem_append_right _ (List.mem_cons_of_mem _ hlater)) ▸
            hhost ▸ hafter later hlater
        rw [hsame, hhost, hlastB, Option.some_inj, Prod.mk.injEq] at hlastA
        obtain ⟨host, algorithm, key⟩ := r
        obtain ⟨host', algorithm', key'⟩ := t
        simp_all

end Readers
end RecordFile
