import Mathlib.Data.List.Basic

/-! The words of a line, where white space inside quotes belongs to a word. -/
namespace QuotedWords

/-- The characters that are not read for themselves: between words, around a quoted part, before
a comment at the start of a word, and before any character of a quoted part. -/
structure Quoting (α : Type*) where
  space : α → Bool
  quote : α
  comment : α → Bool
  escape : α → Bool

/-- Where the reader stands, with the word that it has read so far. -/
inductive Mode (α : Type*) where
  | between
  | bare (word : List α)
  | quoted (word : List α)
  | escaped (word : List α)
  | commented

variable {α : Type*} [DecidableEq α] (q : Quoting α)

def Mode.next : Mode α → α → Mode α
  | between, c =>
    if q.space c then between else if q.comment c then commented
    else if c = q.quote then quoted [] else bare [c]
  | bare word, c =>
    if q.space c then between else if c = q.quote then quoted word else bare (word ++ [c])
  | quoted word, c =>
    if c = q.quote then bare word else if q.escape c then escaped word else quoted (word ++ [c])
  | escaped word, c => quoted (word ++ [c])
  | commented, _ => commented

/-- The word that ends before a character. -/
def Mode.ended : Mode α → α → List (List α)
  | bare word, c => if q.space c then [word] else []
  | _, _ => []

/-- The word that ends with the line; none when a quoted part is left open. -/
def Mode.finish : Mode α → Option (List (List α))
  | between | commented => some []
  | bare word => some [word]
  | quoted _ | escaped _ => none

def words : Mode α → List α → Option (List (List α))
  | m, [] => m.finish
  | m, c :: rest => (words (m.next q c) rest).map (m.ended q c ++ ·)

attribute [grind =] Mode.next Mode.ended words

/-- A word that reads as itself without quotes. -/
structure Bare (w : List α) : Prop where
  ne_nil : w ≠ []
  not_space : ∀ c ∈ w, q.space c = false
  not_quote : q.quote ∉ w
  not_comment : ∀ c ∈ w.head?, q.comment c = false

instance (w : List α) : Decidable (Bare q w) :=
  decidable_of_iff (w ≠ [] ∧ (∀ c ∈ w, q.space c = false) ∧ q.quote ∉ w ∧
      ∀ c ∈ w.head?, q.comment c = false)
    ⟨fun h => ⟨h.1, h.2.1, h.2.2.1, h.2.2.2⟩,
      fun h => ⟨h.ne_nil, h.not_space, h.not_quote, h.not_comment⟩⟩

section Writing
variable {q}

theorem words_cons_quiet {m : Mode α} {c : α} (h : m.ended q c = []) (rest : List α) :
    words q m (c :: rest) = words q (m.next q c) rest := by
  rw [words, h]
  simp

theorem words_bare_append {w : List α} (hspace : ∀ c ∈ w, q.space c = false)
    (hquote : q.quote ∉ w) (v rest : List α) :
    words q (.bare v) (w ++ rest) = words q (.bare (v ++ w)) rest := by
  induction w generalizing v with
  | nil => simp
  | cons c w ih =>
    obtain ⟨hc, hw⟩ := List.forall_mem_cons.mp hspace
    obtain ⟨hne, hnot⟩ := List.ne_and_not_mem_of_not_mem_cons hquote
    have hnext : (Mode.bare v).next q c = .bare (v ++ [c]) := by
      simp [Mode.next, hc, Ne.symm hne]
    rw [List.cons_append, words_cons_quiet (by simp [Mode.ended, hc]), hnext, ih hw hnot,
      List.append_assoc, List.singleton_append]

/-- Spaces before the first word are skipped. -/
theorem words_space {c : α} (hc : q.space c = true) (rest : List α) :
    words q .between (c :: rest) = words q .between rest := by
  rw [words_cons_quiet rfl]
  simp [Mode.next, hc]

/-- A space ends a word. -/
theorem words_bare_space {c : α} (hc : q.space c = true) (w rest : List α) :
    words q (.bare w) (c :: rest) = (words q .between rest).map (w :: ·) := by
  simp [words, Mode.next, Mode.ended, hc]

theorem Bare.words_append {w : List α} (h : Bare q w) (rest : List α) :
    words q .between (w ++ rest) = words q (.bare w) rest := by
  cases w with
  | nil => exact absurd rfl h.ne_nil
  | cons c w =>
    obtain ⟨hc, hw⟩ := List.forall_mem_cons.mp h.not_space
    obtain ⟨hne, hnot⟩ := List.ne_and_not_mem_of_not_mem_cons h.not_quote
    have hnext : (Mode.between).next q c = .bare [c] := by
      simp [Mode.next, hc, h.not_comment c rfl, Ne.symm hne]
    rw [List.cons_append, words_cons_quiet rfl, hnext, words_bare_append hw hnot,
      List.singleton_append]

theorem Bare.words_eq {w : List α} (h : Bare q w) : words q .between w = some [w] := by
  have hw := h.words_append []
  rwa [List.append_nil] at hw

/-- Two words with white space between them. -/
theorem Bare.words_pair {v w : List α} (hv : Bare q v) (hw : Bare q w) {c : α}
    (hc : q.space c = true) : words q .between (v ++ c :: w) = some [v, w] := by
  rw [hv.words_append, words_bare_space hc, hw.words_eq]
  rfl

end Writing

section Reading
variable {q}

/-- What holds of the modes along a line holds of its words. -/
theorem forall_of_words {P : List α → Prop} {I : Mode α → Prop} {line : List α}
    (hnext : ∀ m, ∀ c ∈ line, I m → I (m.next q c)) (hbare : ∀ w, I (.bare w) → P w)
    {m : Mode α} (hm : I m) {ws : List (List α)} (h : words q m line = some ws) :
    ∀ w ∈ ws, P w := by
  induction line generalizing m ws with
  | nil =>
    cases m with
    | between | commented =>
      cases h
      exact List.forall_mem_nil P
    | bare word =>
      cases h
      exact List.forall_mem_singleton.mpr (hbare word hm)
    | quoted | escaped => cases h
  | cons c rest ih =>
    obtain ⟨ws', hws', rfl⟩ := Option.map_eq_some_iff.mp h
    have hrest := ih (fun m c hc => hnext m c (List.mem_cons_of_mem _ hc))
      (hnext m c List.mem_cons_self hm) hws'
    intro w hw
    rcases List.mem_append.mp hw with hended | hw
    · cases m with
      | bare word =>
        simp only [Mode.ended] at hended
        split at hended
        · obtain rfl := List.mem_singleton.mp hended
          exact hbare w hm
        · cases hended
      | between | quoted | escaped | commented => cases hended
    · exact hrest w hw

def Mode.word : Mode α → List α
  | between | commented => []
  | bare word | quoted word | escaped word => word

/-- The word read so far is given up, left alone, or grows by the character. -/
theorem Mode.word_next (m : Mode α) (c : α) :
    (m.next q c).word = [] ∨ (m.next q c).word = m.word ∨ (m.next q c).word = m.word ++ [c] := by
  cases m with
  | between =>
    simp only [Mode.next]
    split_ifs
    · exact .inl rfl
    · exact .inl rfl
    · exact .inl rfl
    · exact .inr (.inr rfl)
  | bare word =>
    simp only [Mode.next]
    split_ifs
    · exact .inl rfl
    · exact .inr (.inl rfl)
    · exact .inr (.inr rfl)
  | quoted word =>
    simp only [Mode.next]
    split_ifs
    · exact .inr (.inl rfl)
    · exact .inr (.inl rfl)
    · exact .inr (.inr rfl)
  | escaped word => exact .inr (.inr rfl)
  | commented => exact .inl rfl

/-- What a word holds was in the line. -/
theorem mem_line_of_words {line : List α} {ws : List (List α)}
    (h : words q .between line = some ws) : ∀ w ∈ ws, ∀ c ∈ w, c ∈ line := by
  refine forall_of_words (I := fun m => ∀ c ∈ m.word, c ∈ line) ?_ (fun w hw => hw)
    (List.forall_mem_nil _) h
  intro m c hc hm
  obtain hword | hword | hword := m.word_next (q := q) c
  · rw [hword]
    exact List.forall_mem_nil _
  · rwa [hword]
  · rw [hword]
    exact List.forall_mem_append.mpr ⟨hm, List.forall_mem_singleton.mpr hc⟩

/-- Without escapes no word holds a quote. -/
theorem quote_not_mem_words (hescape : ∀ c, q.escape c = false) {line : List α}
    {ws : List (List α)} (h : words q .between line = some ws) : ∀ w ∈ ws, q.quote ∉ w := by
  refine forall_of_words (I := fun m => q.quote ∉ m.word ∧ ∀ w, m ≠ .escaped w) ?_
    (fun w hw => hw.1) ⟨List.not_mem_nil, fun _ hmode => by cases hmode⟩ h
  rintro m c - ⟨hword, hmode⟩
  cases m with
  | between =>
    simp only [Mode.next]
    split_ifs with _ _ hc
    · exact ⟨List.not_mem_nil, nofun⟩
    · exact ⟨List.not_mem_nil, nofun⟩
    · exact ⟨List.not_mem_nil, nofun⟩
    · exact ⟨by simpa [Mode.word] using Ne.symm hc, nofun⟩
  | bare word =>
    simp only [Mode.next]
    split_ifs with _ hc
    · exact ⟨List.not_mem_nil, nofun⟩
    · exact ⟨hword, nofun⟩
    · exact ⟨by simpa [Mode.word, Ne.symm hc] using hword, nofun⟩
  | quoted word =>
    simp only [Mode.next, hescape, Bool.false_eq_true, if_false]
    split_ifs with hc
    · exact ⟨hword, nofun⟩
    · exact ⟨by simpa [Mode.word, Ne.symm hc] using hword, nofun⟩
  | escaped word => exact absurd rfl (hmode word)
  | commented => exact ⟨List.not_mem_nil, nofun⟩

/-- On a line without quotes every word reads as itself. -/
theorem bare_of_words {line : List α} (hline : q.quote ∉ line) {ws : List (List α)}
    (h : words q .between line = some ws) : ∀ w ∈ ws, Bare q w := by
  refine forall_of_words (I := fun m => m = .between ∨ m = .commented ∨
    ∃ w, m = .bare w ∧ Bare q w) ?_ ?_ (.inl rfl) h
  · rintro m c hc (rfl | rfl | ⟨word, rfl, hword⟩)
    · have hne : c ≠ q.quote := ne_of_mem_of_not_mem hc hline
      simp only [Mode.next]
      split_ifs with hspace hcomment
      · exact .inl rfl
      · exact .inr (.inl rfl)
      · exact .inr (.inr ⟨[c], rfl, by simp, by simpa using hspace, by simpa using Ne.symm hne,
          by simpa using hcomment⟩)
    · exact .inr (.inl rfl)
    · have hne : c ≠ q.quote := ne_of_mem_of_not_mem hc hline
      simp only [Mode.next]
      split_ifs with hspace
      · exact .inl rfl
      · refine .inr (.inr ⟨word ++ [c], rfl, by simp, ?_, ?_, ?_⟩)
        · exact List.forall_mem_append.mpr
            ⟨hword.not_space, List.forall_mem_singleton.mpr (by simpa using hspace)⟩
        · simpa [Ne.symm hne] using hword.not_quote
        · rw [List.head?_append_of_ne_nil _ hword.ne_nil]
          exact hword.not_comment
  · rintro w (h | h | ⟨word, h, hword⟩)
    · cases h
    · cases h
    · cases h
      exact hword

end Reading

section Quoted
variable {q} {escaping : α}

/-- A character as it stands between quotes. -/
def escaped (q : Quoting α) (escaping c : α) : List α :=
  if c = q.quote ∨ q.escape c then [escaping, c] else [c]

def quotedText (q : Quoting α) (escaping : α) (text : List α) : List α :=
  q.quote :: (text.flatMap (escaped q escaping) ++ [q.quote])

/-- Between quotes, escaped text is read back as it was. -/
theorem words_escaped (hescape : q.escape escaping = true) (hne : escaping ≠ q.quote)
    (text word rest : List α) :
    words q (.quoted word) (text.flatMap (escaped q escaping) ++ rest) =
      words q (.quoted (word ++ text)) rest := by
  induction text generalizing word with
  | nil => simp
  | cons c text ih =>
    have hnext : (word ++ [c]) ++ text = word ++ c :: text := by simp
    rw [List.flatMap_cons, List.append_assoc, ← hnext, ← ih]
    by_cases hc : c = q.quote ∨ q.escape c
    · have hmode : (Mode.quoted word).next q escaping = .escaped word := by
        simp [Mode.next, hne, hescape]
      rw [escaped, if_pos hc, List.cons_append, List.singleton_append, words_cons_quiet rfl, hmode,
        words_cons_quiet rfl]
      rfl
    · have hmode : (Mode.quoted word).next q c = .quoted (word ++ [c]) := by
        simp only [not_or] at hc
        simp [Mode.next, hc.1, hc.2]
      rw [escaped, if_neg hc, List.singleton_append, words_cons_quiet rfl, hmode]

theorem words_quotedText (hescape : q.escape escaping = true) (hne : escaping ≠ q.quote)
    (hspace : q.space q.quote = false) (hcomment : q.comment q.quote = false)
    (text rest : List α) :
    words q .between (quotedText q escaping text ++ rest) = words q (.bare text) rest := by
  have hopen : (Mode.between).next q q.quote = .quoted [] := by simp [Mode.next, hspace, hcomment]
  have hclose : (Mode.quoted text).next q q.quote = .bare text := by simp [Mode.next]
  rw [quotedText, List.cons_append, words_cons_quiet rfl, hopen, List.append_assoc,
    words_escaped hescape hne, List.nil_append, List.singleton_append, words_cons_quiet rfl,
    hclose]

/-- A word, and then arguments between quotes. -/
theorem words_quotedArguments (hescape : q.escape escaping = true) (hne : escaping ≠ q.quote)
    (hspace : q.space q.quote = false) (hcomment : q.comment q.quote = false) {blank : α}
    (hblank : q.space blank = true) (word : List α) (arguments : List (List α)) :
    words q (.bare word)
        (arguments.flatMap fun argument => blank :: quotedText q escaping argument) =
      some (word :: arguments) := by
  induction arguments generalizing word with
  | nil => rfl
  | cons argument arguments ih =>
    rw [List.flatMap_cons, List.cons_append, words_bare_space hblank,
      words_quotedText hescape hne hspace hcomment, ih]
    rfl

/-- Words, and then arguments between quotes. -/
theorem words_command (hescape : q.escape escaping = true) (hne : escaping ≠ q.quote)
    (hspace : q.space q.quote = false) (hcomment : q.comment q.quote = false) {blank : α}
    (hblank : q.space blank = true) {verb : List (List α)} (hverb : verb ≠ [])
    (hbare : ∀ word ∈ verb, Bare q word) (arguments : List (List α)) :
    words q .between (List.intercalate [blank] verb ++
        arguments.flatMap fun argument => blank :: quotedText q escaping argument) =
      some (verb ++ arguments) := by
  induction verb with
  | nil => exact absurd rfl hverb
  | cons word verb ih =>
    obtain ⟨hword, hbare⟩ := List.forall_mem_cons.mp hbare
    cases verb with
    | nil =>
      rw [List.intercalate_singleton, hword.words_append,
        words_quotedArguments hescape hne hspace hcomment hblank]
      rfl
    | cons next verb =>
      rw [List.intercalate_cons_cons, List.append_assoc, List.append_assoc, hword.words_append,
        List.singleton_append, words_bare_space hblank, ih (List.cons_ne_nil _ _) hbare]
      rfl

end Quoted

/-- What words hold that are joined. -/
theorem mem_intercalate {α : Type*} {separator : List α} {ws : List (List α)} {c : α}
    (h : c ∈ List.intercalate separator ws) : c ∈ separator ∨ ∃ word ∈ ws, c ∈ word := by
  induction ws with
  | nil => cases h
  | cons word ws ih =>
    cases ws with
    | nil =>
      rw [List.intercalate_singleton] at h
      exact .inr ⟨word, List.mem_cons_self, h⟩
    | cons next ws =>
      rw [List.intercalate_cons_cons, List.mem_append, List.mem_append] at h
      rcases h with (h | h) | h
      · exact .inr ⟨word, List.mem_cons_self, h⟩
      · exact .inl h
      · obtain h | ⟨word, hword, h⟩ := ih h
        · exact .inl h
        · exact .inr ⟨word, List.mem_cons_of_mem _ hword, h⟩

end QuotedWords
