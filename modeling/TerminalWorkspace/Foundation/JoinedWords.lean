import Mathlib.Algebra.Order.BigOperators.Group.List
import Mathlib.Data.List.Basic
import Mathlib.Tactic.Ring
import TerminalWorkspace.Foundation.RecordFile

/-! Words joined by one blank, and what is left of such a text when it is cut at a word that
stands between two others. -/
namespace JoinedWords
open RecordFile

section Words
variable {α : Type*} (p : α → Bool)

def IsWord (w : List α) : Prop := w ≠ [] ∧ ∀ c ∈ w, p c = false

/-- The test of a given text. -/
theorem forall_not_of_all {s : List α} (h : (s.all fun c => !p c) = true) : ∀ c ∈ s, p c = false := by
  simpa using h

theorem isWord_of_mem_words {s w : List α} (h : w ∈ words p s) : IsWord p w :=
  ⟨(mem_words p h).1, (mem_words p h).2.2⟩

theorem words_of_isWord {w : List α} (h : IsWord p w) : words p w = [w] :=
  words_eq_singleton p h.1 h.2

theorem flatten_words (s : List α) : (words p s).flatten = s.filter fun c => !p c := by
  rw [words, List.flatten_filter_not_isEmpty]
  induction s with
  | nil => rfl
  | cons c s ih =>
    rw [List.splitOnP_cons_eq_if_modifyHead]
    obtain ⟨w, ws, hs⟩ := List.exists_cons_of_ne_nil (List.splitOnP_ne_nil p s)
    split_ifs with hc
    · simp [hc, ih]
    · rw [hs] at ih ⊢
      simpa [hc] using ih

/-- The last piece of one text goes on in the first piece of the next. -/
theorem splitOnP_append (s t : List α) :
    ∃ earlier before after later, s.splitOnP p = earlier ++ [before] ∧
      t.splitOnP p = after :: later ∧
      (s ++ t).splitOnP p = earlier ++ (before ++ after) :: later := by
  obtain ⟨after, later, hright⟩ := List.exists_cons_of_ne_nil (List.splitOnP_ne_nil p t)
  suffices h : ∃ earlier before, s.splitOnP p = earlier ++ [before] ∧
      (s ++ t).splitOnP p = earlier ++ (before ++ after) :: later by
    obtain ⟨earlier, before, hleft, hboth⟩ := h
    exact ⟨earlier, before, after, later, hleft, hright, hboth⟩
  induction s with
  | nil => exact ⟨[], [], rfl, hright⟩
  | cons c s ih =>
    obtain ⟨earlier, before, hleft, hboth⟩ := ih
    simp only [List.cons_append, List.splitOnP_cons_eq_if_modifyHead, hleft, hboth]
    split_ifs with hc
    · exact ⟨[] :: earlier, before, rfl, rfl⟩
    · cases earlier with
      | nil => exact ⟨[], c :: before, rfl, rfl⟩
      | cons first earlier => exact ⟨(c :: first) :: earlier, before, rfl, rfl⟩

/-- Text in front of a character of the same word. -/
theorem words_append_word {c : α} (hc : p c = false) (s t : List α) :
    ∃ earlier before after later,
      words p (s ++ [c]) = earlier ++ [before ++ [c]] ∧ words p (c :: t) = (c :: after) :: later ∧
        words p (s ++ c :: t) = earlier ++ (before ++ c :: after) :: later := by
  obtain ⟨earlier, before, after, later, hs, ht, hboth⟩ := splitOnP_append p s (c :: t)
  obtain ⟨first, rest, htail⟩ := List.exists_cons_of_ne_nil (List.splitOnP_ne_nil p t)
  have hsplit : (c :: t).splitOnP p = (c :: first) :: rest := by
    rw [List.splitOnP_cons_eq_if_modifyHead, if_neg (by simp [hc]), htail]
    rfl
  obtain ⟨rfl, rfl⟩ := List.cons.inj (ht.symm.trans hsplit)
  have hone : (s ++ [c]).splitOnP p = earlier ++ [before ++ [c]] := by
    obtain ⟨earlier', before', after', later', hs', ht', hboth'⟩ := splitOnP_append p s [c]
    have hlast := List.append_inj' (hs.symm.trans hs') rfl
    obtain ⟨rfl, rfl⟩ := List.cons.inj (ht'.symm.trans (List.splitOnP_eq_singleton (by simpa using hc)))
    rw [hboth', hlast.1, (List.cons.inj hlast.2).1]
  refine ⟨earlier.filter fun w => !w.isEmpty, before, first, later.filter fun w => !w.isEmpty, ?_⟩
  refine ⟨?_, ?_, ?_⟩
  · simp [words, hone]
  · simp [words, hsplit]
  · simp [words, hboth]

end Words

section Joined
variable {α : Type*} (p : α → Bool) (blank : α)

def join (ws : List (List α)) : List α := List.intercalate [blank] ws

theorem join_singleton (w : List α) : join blank [w] = w := List.intercalate_singleton

theorem join_cons_cons (w v : List α) (ws : List (List α)) :
    join blank (w :: v :: ws) = w ++ blank :: join blank (v :: ws) := by
  rw [join, List.intercalate_cons_cons, List.append_assoc]
  rfl

/-- Joined words end with the last of them. -/
theorem join_concat (ws : List (List α)) (w : List α) : ∃ s, join blank (ws ++ [w]) = s ++ w := by
  induction ws with
  | nil => exact ⟨[], join_singleton blank w⟩
  | cons v ws ih =>
    obtain ⟨s, hs⟩ := ih
    obtain ⟨u, us, hus⟩ := List.exists_cons_of_ne_nil (l := ws ++ [w]) (by simp)
    refine ⟨v ++ blank :: s, ?_⟩
    rw [List.cons_append, hus, join_cons_cons, ← hus, hs, List.append_assoc, List.cons_append]

theorem mem_join {c : α} {ws : List (List α)} (h : c ∈ join blank ws) :
    c = blank ∨ ∃ w ∈ ws, c ∈ w := by
  induction ws with
  | nil => cases h
  | cons w ws ih =>
    cases ws with
    | nil => exact .inr ⟨w, List.mem_cons_self, join_singleton blank w ▸ h⟩
    | cons v ws =>
      rw [join_cons_cons, List.mem_append, List.mem_cons] at h
      rcases h with hw | hc | hrest
      · exact .inr ⟨w, List.mem_cons_self, hw⟩
      · exact .inl hc
      · exact (ih hrest).imp_right fun ⟨u, hu, hmem⟩ => ⟨u, List.mem_cons_of_mem w hu, hmem⟩

theorem join_cons_char (c : α) (w : List α) (ws : List (List α)) :
    join blank ((c :: w) :: ws) = c :: join blank (w :: ws) := by
  cases ws with
  | nil => rw [join_singleton, join_singleton]
  | cons v ws => rw [join_cons_cons, join_cons_cons, List.cons_append]

/-- Words behind the place where one of them is broken. -/
theorem join_append_word (earlier : List (List α)) (before : List α) (c : α) (after : List α)
    (later : List (List α)) : ∃ s, join blank (earlier ++ (before ++ c :: after) :: later) =
      s ++ c :: join blank (after :: later) := by
  induction earlier with
  | nil =>
    refine ⟨before, ?_⟩
    cases later with
    | nil => rw [List.nil_append, join_singleton, join_singleton]
    | cons v later => rw [List.nil_append, join_cons_cons, join_cons_cons, List.append_assoc,
        List.cons_append]
  | cons w earlier ih =>
    obtain ⟨s, hs⟩ := ih
    obtain ⟨u, us, hus⟩ := List.exists_cons_of_ne_nil
      (l := earlier ++ (before ++ c :: after) :: later) (by simp)
    refine ⟨w ++ blank :: s, ?_⟩
    rw [List.cons_append, hus, join_cons_cons, ← hus, hs, List.append_assoc, List.cons_append]

theorem words_join (hblank : p blank = true) {ws : List (List α)} (h : ∀ w ∈ ws, IsWord p w) :
    words p (join blank ws) = ws := by
  induction ws with
  | nil => rfl
  | cons w ws ih =>
    have hw := words_of_isWord p (h w List.mem_cons_self)
    have hrest := ih fun v hv => h v (List.mem_cons_of_mem _ hv)
    cases ws with
    | nil => exact (congrArg (words p) List.intercalate_singleton).trans hw
    | cons v ws =>
      rw [join_cons_cons, words_append p hblank, hw, hrest]
      rfl

/-- A word between two blanks is found where the text goes on with that word and a blank. -/
theorem word_prefix_iff {w v s : List α} (hw : blank ∉ w) (hv : blank ∉ v) :
    w ++ [blank] <+: v ++ blank :: s ↔ w = v := by
  induction w generalizing v with
  | nil =>
    cases v with
    | nil => simp
    | cons c v =>
      have hne : blank ≠ c := fun h => hv (h ▸ List.mem_cons_self)
      simp [hne]
  | cons a w ih =>
    rw [List.mem_cons, not_or] at hw
    cases v with
    | nil => simp [Ne.symm hw.1]
    | cons c v =>
      rw [List.mem_cons, not_or] at hv
      simp only [List.cons_append, List.cons_prefix_cons, ih hw.2 hv.2, List.cons.injEq]

theorem spaced_word_not_initial {w v : List α} (hv : blank ∉ v) : ¬ w ++ [blank] <+: v := by
  intro h
  exact hv (h.subset (by simp))

variable [DecidableEq α]

/-- The text before the first occurrence of a pattern; all of it where there is none. -/
def cutBefore (pattern : List α) : List α → List α
  | [] => []
  | c :: s => if pattern <+: c :: s then [] else c :: cutBefore pattern s

/-- What stays of the words behind the first one. -/
def untilInner (w : List α) (rest : List (List α)) : List (List α) :=
  if w ∈ rest.dropLast then rest.takeWhile (· ≠ w) else rest

theorem untilInner_eq_self_iff {w : List α} {rest : List (List α)} :
    untilInner w rest = rest ↔ w ∉ rest.dropLast := by
  rw [untilInner]
  split_ifs with h
  · refine iff_of_false (fun htake => ?_) (not_not_intro h)
    have hall := List.takeWhile_eq_self_iff.mp htake w (List.dropLast_subset rest h)
    simp at hall
  · exact iff_of_true rfl h

theorem takeWhile_append_word (w : List α) (rest later : List (List α)) :
    (rest ++ w :: later).takeWhile (· ≠ w) = rest.takeWhile (· ≠ w) := by
  induction rest with
  | nil => simp
  | cons v rest ih =>
    rw [List.cons_append, List.takeWhile_cons, List.takeWhile_cons, ih]

/-- The word is there between two others. -/
theorem untilInner_append {w : List α} (rest : List (List α)) {later : List (List α)}
    (hlater : later ≠ []) : untilInner w (rest ++ w :: later) = rest.takeWhile (· ≠ w) := by
  have hmem : w ∈ (rest ++ w :: later).dropLast := by
    rw [List.dropLast_append_of_ne_nil (List.cons_ne_nil w later), List.dropLast_cons_of_ne_nil hlater]
    simp
  rw [untilInner, if_pos hmem, takeWhile_append_word]

theorem takeWhile_ne_eq_self_iff {w : List α} {rest : List (List α)} :
    rest.takeWhile (· ≠ w) = rest ↔ w ∉ rest := by
  rw [List.takeWhile_eq_self_iff]
  simp only [ne_eq, decide_not, Bool.not_eq_true', decide_eq_false_iff_not]
  exact ⟨fun h hmem => h w hmem rfl, fun h v hv hvw => h (hvw ▸ hv)⟩

/-- The word is there, and others follow. -/
theorem untilInner_of_mem {w : List α} {rest : List (List α)} (hmem : w ∈ rest)
    {later : List (List α)} (hlater : later ≠ []) :
    untilInner w (rest ++ later) = rest.takeWhile (· ≠ w) := by
  obtain ⟨before, after, rfl⟩ := List.append_of_mem hmem
  rw [List.append_assoc, List.cons_append, untilInner_append before (by simp [hlater]),
    takeWhile_append_word]

/-- Other words stay in front of what stays behind them. -/
theorem untilInner_of_not_mem {w : List α} {rest : List (List α)} (hmem : w ∉ rest)
    (later : List (List α)) : untilInner w (rest ++ later) = rest ++ untilInner w later := by
  cases later with
  | nil =>
    rw [List.append_nil, untilInner_eq_self_iff.mpr fun h => hmem (List.dropLast_subset rest h)]
    exact (List.append_nil rest).symm
  | cons v later =>
    have hinner : w ∈ (rest ++ v :: later).dropLast ↔ w ∈ (v :: later).dropLast := by
      rw [List.dropLast_append_of_ne_nil (List.cons_ne_nil v later), List.mem_append]
      exact or_iff_right hmem
    rw [untilInner, untilInner]
    by_cases h : w ∈ (v :: later).dropLast
    · rw [if_pos (hinner.mpr h), if_pos h,
        List.takeWhile_append_of_pos fun u hu => by simpa using ne_of_mem_of_not_mem hu hmem]
    · rw [if_neg (mt hinner.mp h), if_neg h]

theorem untilInner_concat_ne (w : List α) (rest : List (List α)) :
    untilInner w (rest ++ [w]) ≠ rest := by
  rw [untilInner, List.dropLast_concat, takeWhile_append_word]
  split_ifs with h
  · exact fun heq => takeWhile_ne_eq_self_iff.mp heq h
  · simp

theorem untilInner_subset (w : List α) (rest : List (List α)) : untilInner w rest ⊆ rest := by
  rw [untilInner]
  split_ifs
  · exact List.takeWhile_subset _
  · exact List.Subset.refl rest

theorem cutBefore_append {w s : List α} (pattern : List α) (hw : blank ∉ w) :
    cutBefore (blank :: pattern) (w ++ s) = w ++ cutBefore (blank :: pattern) s := by
  induction w with
  | nil => rfl
  | cons c w ih =>
    rw [List.mem_cons, not_or] at hw
    have hprefix : ¬ blank :: pattern <+: c :: (w ++ s) :=
      fun h => hw.1 (List.cons_prefix_cons.mp h).1
    rw [List.cons_append, cutBefore, if_neg hprefix, ih hw.2, List.cons_append]

theorem untilInner_singleton (w v : List α) : untilInner w [v] = [v] := rfl

theorem untilInner_cons (w v : List α) {rest : List (List α)} (hrest : rest ≠ []) :
    untilInner w (v :: rest) = if w = v then [] else v :: untilInner w rest := by
  rw [untilInner, List.dropLast_cons_of_ne_nil hrest]
  split_ifs with hmem heq heq
  · simp [heq]
  · have hinner : w ∈ rest.dropLast := (List.mem_cons.mp hmem).resolve_left heq
    rw [untilInner, if_pos hinner, List.takeWhile_cons_of_pos (by simpa using Ne.symm heq)]
  · exact absurd (heq ▸ List.mem_cons_self) hmem
  · rw [untilInner, if_neg fun hinner => hmem (List.mem_cons_of_mem _ hinner)]

/-- A pattern of one word in blanks cuts joined words at the first such word that is neither
the first nor the last. -/
theorem cutBefore_join {w first : List α} {rest : List (List α)} (hw : blank ∉ w)
    (h : ∀ v ∈ first :: rest, blank ∉ v) :
    cutBefore (blank :: (w ++ [blank])) (join blank (first :: rest)) =
      join blank (first :: untilInner w rest) := by
  induction rest generalizing first with
  | nil =>
    have hfirst := cutBefore_append blank (s := []) (w ++ [blank]) (h first List.mem_cons_self)
    rw [List.append_nil, cutBefore, List.append_nil] at hfirst
    exact (congrArg _ (join_singleton blank first)).trans
      (hfirst.trans (join_singleton blank first).symm)
  | cons v rest ih =>
    have hv : blank ∉ v := h v (List.mem_cons_of_mem _ List.mem_cons_self)
    have hrest := ih fun u hu => h u (List.mem_cons_of_mem _ hu)
    rw [join_cons_cons, cutBefore_append blank _ (h first List.mem_cons_self), cutBefore]
    simp only [List.cons_prefix_cons, true_and]
    cases rest with
    | nil =>
      rw [join_singleton, if_neg (spaced_word_not_initial blank hv), untilInner_singleton, join_cons_cons,
        join_singleton]
      rw [join_singleton] at hrest
      exact congrArg (fun s => first ++ blank :: s) (hrest.trans (join_singleton blank v))
    | cons u rest =>
      rw [untilInner_cons w v (List.cons_ne_nil u rest), hrest]
      simp only [join_cons_cons blank v u rest, word_prefix_iff blank hw hv]
      split_ifs with heq
      · rw [join_singleton, List.append_nil]
      · rw [join_cons_cons]

end Joined
end JoinedWords

/-! Fields that are joined by a separator. As many fields as there are, none of which has the
separator in it, can be told from the joined text; a separator in a field can as well be read
as the end of that field. -/
namespace JoinedFields
variable {σ : Type*} [DecidableEq σ] (sep : σ)

theorem count_intercalate (fields : List (List σ)) (hne : fields ≠ []) :
    ([sep].intercalate fields).count sep + 1 =
      (fields.map (·.count sep)).sum + fields.length := by
  induction fields with
  | nil => exact absurd rfl hne
  | cons field fields ih =>
    cases fields with
    | nil => simp
    | cons next fields =>
      have hrest := ih (List.cons_ne_nil _ _)
      simp only [List.intercalate_cons_cons, List.append_assoc, List.singleton_append,
        List.count_append, List.count_cons_self, List.map_cons, List.sum_cons,
        List.length_cons] at hrest ⊢
      omega

variable {sep} in
/-- Whole fields are told from the joined text. -/
theorem eq_of_intercalate {fields others : List (List σ)} (hwhole : ∀ field ∈ fields, sep ∉ field)
    (hlength : others.length = fields.length)
    (h : [sep].intercalate others = [sep].intercalate fields) : others = fields := by
  rcases fields.eq_nil_or_concat with rfl | hsome
  · exact List.eq_nil_of_length_eq_zero hlength
  have hne : fields ≠ [] := by
    obtain ⟨init, last, rfl⟩ := hsome
    simp
  have hne' : others ≠ [] := by
    rintro rfl
    exact hne (List.eq_nil_of_length_eq_zero hlength.symm)
  have hzero : (fields.map (·.count sep)).sum = 0 := by
    refine List.sum_eq_zero fun n hn => ?_
    obtain ⟨field, hfield, rfl⟩ := List.mem_map.mp hn
    exact List.count_eq_zero.mpr (hwhole field hfield)
  have hcount := count_intercalate sep fields hne
  rw [← h, count_intercalate sep others hne', hzero, hlength] at hcount
  have hothers : ∀ other ∈ others, sep ∉ other := by
    intro other hother
    have hle := List.single_le_sum (l := others.map (·.count sep)) (fun _ _ => Nat.zero_le _) _
      (List.mem_map_of_mem hother)
    exact List.count_eq_zero.mp (by omega)
  rw [← List.splitOn_intercalate sep hothers hne', h, List.splitOn_intercalate sep hwhole hne]

/-- A separator in a field, or the one that ends it, can be read as the end of the field. -/
theorem intercalate_shift (before after : List (List σ)) (a b next : List σ) :
    [sep].intercalate (before ++ (a ++ sep :: b) :: next :: after) =
      [sep].intercalate (before ++ a :: (b ++ sep :: next) :: after) := by
  induction before with
  | nil =>
    cases after with
    | nil => simp [List.intercalate_cons_cons]
    | cons field after => simp [List.intercalate_cons_cons]
  | cons field before ih =>
    rw [List.cons_append, List.cons_append, List.intercalate_cons_of_ne_nil (by simp),
      List.intercalate_cons_of_ne_nil (by simp), ih]

end JoinedFields
