import TerminalWorkspace.Foundation.OrderedMap
import Mathlib.Data.List.DropRight

/-! Record files: one record a line, fields separated by white space, comment
lines, and the last record of a key winning. The alphabet is a parameter, since
platforms disagree about what white space is. -/
namespace RecordFile

structure Alphabet (α : Type*) where
  space : α → Bool
  newline : α
  comment : α
  blank : α
  newline_space : space newline = true
  blank_space : space blank = true
  blank_ne_newline : blank ≠ newline
  comment_not_space : space comment = false

theorem space_ne_newline : ' ' ≠ '\n' := by decide

structure Record (α : Type*) where
  host : List α
  algorithm : List α
  key : List α
  deriving DecidableEq, Repr

inductive Line (α : Type*) where
  | skip
  | record (r : Record α)
  | malformed
  deriving DecidableEq, Repr

section Words
variable {α : Type*} (p : α → Bool)

def trim (s : List α) : List α := (s.dropWhile p).rdropWhile p

theorem mem_of_mem_trim {s : List α} {c : α} (h : c ∈ trim p s) : c ∈ s :=
  (List.dropWhile_suffix _).subset ((List.rdropWhile_prefix _ _).subset h)

theorem trim_trim (s : List α) : trim p (trim p s) = trim p s := by
  have hdrop : (trim p s).dropWhile p = trim p s := by
    cases ht : trim p s with
    | nil => rfl
    | cons c t =>
      obtain ⟨r, hr⟩ : trim p s <+: s.dropWhile p := List.rdropWhile_prefix p _
      rw [ht] at hr
      have hne : s.dropWhile p ≠ [] := hr ▸ List.cons_ne_nil _ _
      have hc := List.head_dropWhile_not p hne
      simp only [← hr, List.cons_append, List.head_cons] at hc
      simp [hc]
  rw [trim, hdrop, trim, List.rdropWhile_idempotent]

theorem trim_concat_space {c : α} (h : p c = true) (s : List α) : trim p (s ++ [c]) = trim p s := by
  rw [trim, trim, List.dropWhile_append]
  cases hs : s.dropWhile p with
  | nil => simp [h]
  | cons d t => exact List.rdropWhile_concat_pos p (d :: t) c h

/-- Maximal runs of non-space characters. -/
def words (s : List α) : List (List α) := (s.splitOnP p).filter (fun w => !w.isEmpty)

@[simp] theorem words_nil : words p ([] : List α) = [] := rfl

theorem words_append {c : α} (h : p c = true) (s t : List α) :
    words p (s ++ c :: t) = words p s ++ words p t := by
  simp [words, List.splitOnP_append_cons s t h]

theorem words_cons_space {c : α} (h : p c = true) (s : List α) :
    words p (c :: s) = words p s := words_append p h [] s

theorem words_concat_space {c : α} (h : p c = true) (s : List α) :
    words p (s ++ [c]) = words p s := by
  simpa using words_append p h s []

theorem words_eq_singleton {s : List α} (hs : s ≠ []) (h : ∀ c ∈ s, p c = false) :
    words p s = [s] := by
  rw [words, List.splitOnP_eq_singleton h]
  cases s with
  | nil => exact absurd rfl hs
  | cons => rfl

/-- The first word of text that starts outside white space starts with the same character. -/
theorem words_cons_not_space {c : α} (h : p c = false) (s : List α) :
    ∃ w ws, words p (c :: s) = (c :: w) :: ws := by
  obtain ⟨w, ws, hs⟩ := List.exists_cons_of_ne_nil (List.splitOnP_ne_nil p s)
  refine ⟨w, ws.filter (fun w => !w.isEmpty), ?_⟩
  simp [words, List.splitOnP_cons_eq_if_modifyHead, h, hs]

theorem words_dropWhile (s : List α) : words p (s.dropWhile p) = words p s := by
  induction s with
  | nil => rfl
  | cons c s ih =>
    by_cases h : p c = true
    · rw [List.dropWhile_cons_of_pos h, ih, words_cons_space p h]
    · rw [List.dropWhile_cons_of_neg h]

theorem words_rdropWhile (s : List α) : words p (s.rdropWhile p) = words p s := by
  induction s using List.reverseRecOn with
  | nil => rfl
  | append_singleton s c ih =>
    by_cases h : p c = true
    · rw [List.rdropWhile_concat_pos p s c h, ih, words_concat_space p h]
    · rw [List.rdropWhile_concat_neg p s c h]

@[simp] theorem words_trim (s : List α) : words p (trim p s) = words p s := by
  rw [trim, words_rdropWhile, words_dropWhile]

theorem mem_splitOnP {s w : List α} (h : w ∈ s.splitOnP p) :
    w.Sublist s ∧ ∀ c ∈ w, p c = false := by
  induction s generalizing w with
  | nil => simp_all
  | cons c s ih =>
    rw [List.splitOnP_cons_eq_if_modifyHead] at h
    split_ifs at h with hc
    · rcases List.mem_cons.mp h with rfl | h
      · simp
      · exact ⟨(ih h).1.cons c, (ih h).2⟩
    · obtain ⟨v, vs, hs⟩ := List.exists_cons_of_ne_nil (List.splitOnP_ne_nil p s)
      rw [hs, List.modifyHead_cons] at h
      rcases List.mem_cons.mp h with rfl | h
      · have hv := ih (w := v) (by simp [hs])
        exact ⟨hv.1.cons_cons c, by simpa [hc] using hv.2⟩
      · have hw := ih (w := w) (by simp [hs, h])
        exact ⟨hw.1.cons c, hw.2⟩

theorem mem_words {s w : List α} (h : w ∈ words p s) :
    w ≠ [] ∧ w.Sublist s ∧ ∀ c ∈ w, p c = false := by
  obtain ⟨h1, h2⟩ := List.mem_filter.mp h
  exact ⟨by simpa using h2, mem_splitOnP p h1⟩

theorem words_eq_nil_iff {s : List α} : words p s = [] ↔ ∀ c ∈ s, p c = true := by
  induction s with
  | nil => simp
  | cons c s ih =>
    by_cases h : p c = true
    · simp [words_cons_space p h, ih, h]
    · obtain ⟨w, ws, hw⟩ := words_cons_not_space p (by simpa using h) s
      simp [hw, h]

/-- What is left after trimming starts where the first word starts. -/
theorem head?_trim (s : List α) : (trim p s).head? = (words p s).head?.bind List.head? := by
  rw [← words_trim]
  cases ht : trim p s with
  | nil => rfl
  | cons c t =>
    have hc : p c = false := by
      have hd : (s.dropWhile p).head? = some c := by
        have hpre : trim p s <+: s.dropWhile p := List.rdropWhile_prefix p _
        obtain ⟨u, hu⟩ := hpre
        rw [← hu, ht]
        rfl
      have hne : s.dropWhile p ≠ [] := by
        intro h0
        simp [h0] at hd
      have hn := List.head_dropWhile_not p hne
      rw [List.head?_eq_some_head hne, Option.some_inj] at hd
      rwa [hd] at hn
    obtain ⟨w, ws, hw⟩ := words_cons_not_space p hc t
    simp [hw]

theorem trim_eq_nil_iff {s : List α} : trim p s = [] ↔ words p s = [] := by
  constructor
  · intro h
    rw [← words_trim, h, words_nil]
  · intro h
    have hh := head?_trim p s
    rw [h] at hh
    simpa using hh

/-- Split at whole runs of white space. Unlike `words` this keeps an empty piece
before a leading run and behind a trailing one. -/
def splitRuns : Bool → List α → List (List α)
  | _, [] => [[]]
  | inside, c :: s =>
    if p c then
      if inside then splitRuns true s else [] :: splitRuns true s
    else (splitRuns false s).modifyHead (c :: ·)

attribute [grind =] splitRuns

theorem splitRuns_ne_nil (b : Bool) (s : List α) : splitRuns p b s ≠ [] := by
  induction s generalizing b with
  | nil => simp [splitRuns]
  | cons c s ih =>
    rw [splitRuns]
    split_ifs
    · exact ih true
    · simp
    · simpa using ih false

private theorem splitRuns_spec (s : List α) :
    (splitRuns p true s).filter (fun w => !w.isEmpty) = words p s ∧
    ∃ w ws vs, splitRuns p false s = w :: ws ∧ s.splitOnP p = w :: vs ∧
      ws.filter (fun w => !w.isEmpty) = vs.filter (fun w => !w.isEmpty) := by
  induction s with
  | nil => exact ⟨rfl, [], [], [], rfl, rfl, rfl⟩
  | cons c s ih =>
    obtain ⟨htrue, w, ws, vs, hrun, hsplit, hfilter⟩ := ih
    by_cases h : p c = true
    · refine ⟨by simp [splitRuns, h, htrue, words_cons_space p h], [], splitRuns p true s,
        s.splitOnP p, by simp [splitRuns, h], ?_, htrue⟩
      simp [List.splitOnP_cons_eq_if_modifyHead, h]
    · refine ⟨?_, c :: w, ws, vs, by simp [splitRuns, h, hrun], ?_, hfilter⟩
      · simp [splitRuns, h, hrun, words, List.splitOnP_cons_eq_if_modifyHead, hsplit, hfilter]
      · simp [List.splitOnP_cons_eq_if_modifyHead, h, hsplit]

theorem splitRuns_filter (s : List α) :
    (splitRuns p false s).filter (fun w => !w.isEmpty) = words p s := by
  obtain ⟨-, w, ws, vs, hrun, hsplit, hfilter⟩ := splitRuns_spec p s
  rw [words, hrun, hsplit]
  simp [List.filter_cons, hfilter]

/-- Only the first piece can be empty when the text does not end in white space. -/
private theorem splitRuns_nonempty {s : List α} {c : α} (hc : p c = false) :
    (∀ w ∈ splitRuns p true (s ++ [c]), w ≠ []) ∧
      ∀ w ∈ (splitRuns p false (s ++ [c])).tail, w ≠ [] := by
  induction s with
  | nil => simp [splitRuns, hc]
  | cons d s ih =>
    obtain ⟨w, ws, hw⟩ := List.exists_cons_of_ne_nil (splitRuns_ne_nil p false (s ++ [c]))
    rw [hw, List.tail_cons] at ih
    by_cases h : p d = true
    · simpa [splitRuns, h] using ih.1
    · simpa [splitRuns, h, hw] using ih.2

/-- On trimmed text the two ways of splitting agree. -/
theorem splitRuns_trim {s : List α} (h : trim p s ≠ []) :
    splitRuns p false (trim p s) = words p s := by
  rw [← words_trim, ← splitRuns_filter, eq_comm, List.filter_eq_self]
  have hlast := List.rdropWhile_last_not p (s.dropWhile p) h
  change ¬ p ((trim p s).getLast h) = true at hlast
  have hhead := head?_trim p s
  obtain ⟨c, t, ht⟩ := List.exists_cons_of_ne_nil h
  have hc : p c = false := by
    obtain ⟨w, ws, hw⟩ := List.exists_cons_of_ne_nil (mt (trim_eq_nil_iff p).mpr h)
    rw [ht, hw] at hhead
    have hm : c ∈ w := List.mem_of_mem_head? (by simpa using hhead.symm)
    exact (mem_words p (s := s) (w := w) (by simp [hw])).2.2 c hm
  have htail : ∀ w ∈ (splitRuns p false (trim p s)).tail, w ≠ [] := by
    rw [← List.dropLast_append_getLast h]
    exact (splitRuns_nonempty p (by simpa using hlast)).2
  obtain ⟨w, ws, hw⟩ := List.exists_cons_of_ne_nil (splitRuns_ne_nil p false t)
  rw [ht, splitRuns, if_neg (by simp [hc]), hw, List.modifyHead_cons] at htail ⊢
  intro v hv
  rcases List.mem_cons.mp hv with rfl | hv
  · rfl
  · simpa using htail v hv

end Words

section Fields
variable {α : Type*}

/-- Fewer than three fields are malformed, more than three are cut. -/
def ofFields : List (List α) → Line α
  | host :: algorithm :: key :: _ => .record ⟨host, algorithm, key⟩
  | _ => .malformed

@[simp] theorem ofFields_cons (host algorithm key : List α) (ws : List (List α)) :
    ofFields (host :: algorithm :: key :: ws) = .record ⟨host, algorithm, key⟩ := rfl

@[simp] theorem ofFields_pair (u v : List α) : ofFields [u, v] = .malformed := rfl

@[simp] theorem ofFields_singleton (u : List α) : ofFields [u] = .malformed := rfl

end Fields

section Records
variable {α : Type*} [DecidableEq α] (A : Alphabet α)

/-- One line: blank and comment lines are skipped. -/
def readLine (line : List α) : Line α :=
  let t := trim A.space line
  if t = [] ∨ t.head? = some A.comment then .skip else ofFields (words A.space t)

/-- The records of a list of lines, unless one of the lines is malformed. -/
def records : List (List α) → Option (List (Record α))
  | [] => some []
  | line :: lines =>
    match readLine A line with
    | .skip => records lines
    | .record r => (records lines).map (r :: ·)
    | .malformed => none

attribute [grind =] records

def Record.entry (r : Record α) : List α × (List α × List α) := (r.host, (r.algorithm, r.key))

def entries (rs : List (Record α)) : List (List α × (List α × List α)) := rs.map Record.entry

omit [DecidableEq α] in
@[simp] theorem entries_nil : entries ([] : List (Record α)) = [] := rfl

omit [DecidableEq α] in
@[simp] theorem entries_cons (r : Record α) (rs : List (Record α)) :
    entries (r :: rs) = (r.host, (r.algorithm, r.key)) :: entries rs := rfl

omit [DecidableEq α] in
@[simp] theorem entries_append (rs ts : List (Record α)) :
    entries (rs ++ ts) = entries rs ++ entries ts := List.map_append

variable {A}

theorem readLine_skip {line : List α} (h : words A.space line = []) :
    readLine A line = .skip := by
  rw [readLine, if_pos (.inl ((trim_eq_nil_iff A.space).mpr h))]

theorem readLine_of_words {line w : List α} {ws : List (List α)}
    (h : words A.space line = w :: ws) (hc : w.head? ≠ some A.comment) :
    readLine A line = ofFields (w :: ws) := by
  have hn : trim A.space line ≠ [] := by simp [trim_eq_nil_iff, h]
  have hd : (trim A.space line).head? ≠ some A.comment := by
    rw [head?_trim, h]
    exact hc
  rw [readLine, if_neg (by simp [hn, hd]), words_trim, h]

theorem readLine_comment {line w : List α} {ws : List (List α)}
    (h : words A.space line = w :: ws) (hc : w.head? = some A.comment) :
    readLine A line = .skip := by
  have hd : (trim A.space line).head? = some A.comment := by
    rw [head?_trim, h]
    exact hc
  rw [readLine, if_pos (.inr hd)]

/-- A record's fields are three successive words of its line. -/
theorem readLine_record {line : List α} {r : Record α} (h : readLine A line = .record r) :
    ∃ ws, words A.space line = r.host :: r.algorithm :: r.key :: ws ∧
      r.host.head? ≠ some A.comment := by
  cases hw : words A.space line with
  | nil => simp [readLine_skip hw] at h
  | cons w ws =>
    by_cases hc : w.head? = some A.comment
    · simp [readLine_comment hw hc] at h
    · rw [readLine_of_words hw hc] at h
      match ws, h with
      | a :: k :: ws, h =>
        obtain rfl := Line.record.inj h
        exact ⟨ws, rfl, hc⟩

theorem records_cons_skip {line : List α} (h : readLine A line = .skip) (ls : List (List α)) :
    records A (line :: ls) = records A ls := by rw [records, h]

theorem records_cons_record {line : List α} {r : Record α} (h : readLine A line = .record r)
    (ls : List (List α)) : records A (line :: ls) = (records A ls).map (r :: ·) := by
  rw [records, h]

theorem records_cons_eq_some {line : List α} {ls : List (List α)} {rs : List (Record α)} :
    records A (line :: ls) = some rs ↔
      (readLine A line = .skip ∧ records A ls = some rs) ∨
      ∃ r rs', readLine A line = .record r ∧ records A ls = some rs' ∧ rs = r :: rs' := by
  rw [records]
  cases h : readLine A line with
  | skip => simp
  | malformed => simp
  | record r => cases records A ls <;> simp [eq_comm]

theorem records_append (ls ms : List (List α)) :
    records A (ls ++ ms) =
      (records A ls).bind fun rs => (records A ms).map (rs ++ ·) := by
  induction ls with
  | nil => simp [records]
  | cons l ls ih =>
    simp only [List.cons_append, records, ih]
    cases readLine A l with
    | skip => rfl
    | malformed => rfl
    | record r => cases records A ls <;> cases records A ms <;> rfl

theorem records_append_eq_some {ls ms : List (List α)} {rs : List (Record α)} :
    records A (ls ++ ms) = some rs ↔
      ∃ rs₁ rs₂, records A ls = some rs₁ ∧ records A ms = some rs₂ ∧ rs = rs₁ ++ rs₂ := by
  rw [records_append]
  cases records A ls <;> cases records A ms <;> simp [eq_comm]

/-- Every field of every record is a word of one of the lines. -/
theorem mem_records {ls : List (List α)} {rs : List (Record α)} (h : records A ls = some rs)
    {r : Record α} (hr : r ∈ rs) :
    ∃ l ∈ ls, r.host ∈ words A.space l ∧ r.key ∈ words A.space l := by
  induction ls generalizing rs with
  | nil => simp_all [records]
  | cons l ls ih =>
    rcases records_cons_eq_some.mp h with ⟨-, h'⟩ | ⟨r', rs', hl, h', rfl⟩
    · obtain ⟨m, hm, hw⟩ := ih h' hr
      exact ⟨m, List.mem_cons_of_mem _ hm, hw⟩
    · rcases List.mem_cons.mp hr with rfl | hr
      · obtain ⟨ws, hws, -⟩ := readLine_record hl
        exact ⟨l, List.mem_cons_self, by simp [hws], by simp [hws]⟩
      · obtain ⟨m, hm, hw⟩ := ih h' hr
        exact ⟨m, List.mem_cons_of_mem _ hm, hw⟩

private theorem splitOnP_newline (s t : List α) :
    (s ++ A.newline :: t).splitOn A.newline = s.splitOn A.newline ++ t.splitOn A.newline :=
  List.splitOn_append_cons_self s t

/-- Text appended behind a line break contributes its own records. -/
theorem records_append_newline (s t : List α) :
    records A ((s ++ A.newline :: t).splitOn A.newline) =
      (records A (s.splitOn A.newline)).bind fun rs =>
        (records A (t.splitOn A.newline)).map (rs ++ ·) := by
  rw [splitOnP_newline, records_append]

/-- A trailing line break adds no record. -/
theorem records_concat_newline (s : List α) :
    records A ((s ++ [A.newline]).splitOn A.newline) = records A (s.splitOn A.newline) := by
  rw [splitOnP_newline, records_append]
  have hnil : records A (([] : List α).splitOn A.newline) = some [] := by
    rw [List.splitOn_nil, records_cons_skip (readLine_skip (words_nil _)), records]
  rw [hnil]
  cases records A (s.splitOn A.newline) <;> simp

/-- The same, at the end of a text that a line break separates from it where needed. -/
theorem records_append_line {text : List α} (line : List α) {separate : Bool}
    (h : separate = false → text = [] ∨ ∃ s, text = s ++ [A.newline]) :
    records A ((text ++ ((if separate then [A.newline] else []) ++ (line ++ [A.newline]))).splitOn
        A.newline) =
      (records A (text.splitOn A.newline)).bind fun rs =>
        (records A (line.splitOn A.newline)).map (rs ++ ·) := by
  cases separate with
  | true =>
    rw [if_pos rfl, List.singleton_append, records_append_newline, records_concat_newline]
  | false =>
    rw [if_neg (by simp), List.nil_append]
    rcases h rfl with rfl | ⟨s, rfl⟩
    · have hnil : records A (([] : List α).splitOn A.newline) = some [] := by
        rw [List.splitOn_nil, records_cons_skip (readLine_skip (words_nil _)), records]
      rw [hnil, List.nil_append, records_concat_newline]
      simp
    · rw [records_concat_newline s, List.append_assoc, List.singleton_append,
        records_append_newline, records_concat_newline]

/-- Lines of the same words read the same. -/
theorem readLine_congr {l m : List α} (h : words A.space l = words A.space m) :
    readLine A l = readLine A m := by
  cases hw : words A.space m with
  | nil => rw [readLine_skip (h.trans hw), readLine_skip hw]
  | cons w ws =>
    by_cases hc : w.head? = some A.comment
    · rw [readLine_comment (h.trans hw) hc, readLine_comment hw hc]
    · rw [readLine_of_words (h.trans hw) hc, readLine_of_words hw hc]

end Records

section Load
variable {α ε : Type*} [DecidableEq α] (A : Alphabet α) (split : List α → List (List α))
  (malformed : ℕ → ε)

/-- The reading loop: records are written into a map as they come, and the first
malformed line is reported by its number. -/
def load : ℕ → OrderedMap (List α) (List α × List α) → List (List α) →
    Except ε (OrderedMap (List α) (List α × List α))
  | _, m, [] => .ok m
  | index, m, raw :: lines =>
    let line := trim A.space raw
    if line = [] ∨ line.head? = some A.comment then load (index + 1) m lines
    else
      match split line with
      | host :: algorithm :: key :: _ => load (index + 1) (m.set host (algorithm, key)) lines
      | _ => .error (malformed (index + 1))

variable {A split malformed}

/-- The loop computes the records of its lines and writes them in order. -/
theorem load_eq_ok (hsplit : ∀ s, trim A.space s ≠ [] → split (trim A.space s) = words A.space s)
    {lines : List (List α)} {index : ℕ} {m R : OrderedMap (List α) (List α × List α)} :
    load A split malformed index m lines = .ok R ↔
      ∃ rs, records A lines = some rs ∧ R = m.setAll (entries rs) := by
  induction lines generalizing index m with
  | nil => simp [load, records, eq_comm]
  | cons raw lines ih =>
    rw [load, records, readLine]
    split_ifs with h
    · exact ih
    · rw [hsplit _ fun h0 => h (.inl h0), words_trim]
      match words A.space raw with
      | [] => simp [ofFields]
      | [_] => simp
      | [_, _] => simp
      | host :: algorithm :: key :: ws =>
        simp only [ofFields_cons, ih]
        cases records A lines <;> simp

end Load

end RecordFile
