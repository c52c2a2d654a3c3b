import TerminalWorkspace.Foundation.RecordFile
import Mathlib.Data.List.Basic
import Mathlib.Data.List.DropRight
import Mathlib.Data.List.SplitOn

/-! Lists cut in front of their marked elements, texts as their lines, the scan of a text for the
first place at which it goes on in a given way, and what lists hold up to repetitions. -/
namespace HeadedLists

section Headed
variable {β : Type*} (marked : β → Bool)

/-- What stands before the first marked element, and each marked element with what follows it. -/
def headed : List β → List β × List (β × List β)
  | [] => ([], [])
  | x :: xs =>
    if marked x then ([], (x, (headed xs).1) :: (headed xs).2)
    else (x :: (headed xs).1, (headed xs).2)

attribute [grind =] headed

def unheaded (parts : List (β × List β)) : List β := parts.flatMap fun part => part.1 :: part.2

/-- The heads are marked, and nothing in the bodies is. -/
structure IsCut (parts : List (β × List β)) : Prop where
  heads : ∀ part ∈ parts, marked part.1 = true
  bodies : ∀ part ∈ parts, ∀ x ∈ part.2, marked x = false

variable {marked}

theorem headed_cons_pos {x : β} (h : marked x = true) (xs : List β) :
    headed marked (x :: xs) = ([], (x, (headed marked xs).1) :: (headed marked xs).2) := by
  rw [headed, if_pos h]

theorem headed_cons_neg {x : β} (h : marked x = false) (xs : List β) :
    headed marked (x :: xs) = (x :: (headed marked xs).1, (headed marked xs).2) := by
  rw [headed, if_neg (by simp [h])]

@[simp] theorem unheaded_nil : unheaded ([] : List (β × List β)) = [] := rfl

@[simp] theorem unheaded_cons (part : β × List β) (parts : List (β × List β)) :
    unheaded (part :: parts) = part.1 :: part.2 ++ unheaded parts := rfl

@[simp] theorem unheaded_append (parts more : List (β × List β)) :
    unheaded (parts ++ more) = unheaded parts ++ unheaded more := List.flatMap_append

theorem IsCut.cons {part : β × List β} {parts : List (β × List β)} (hhead : marked part.1 = true)
    (hbody : ∀ x ∈ part.2, marked x = false) (h : IsCut marked parts) :
    IsCut marked (part :: parts) :=
  ⟨List.forall_mem_cons.mpr ⟨hhead, h.heads⟩, List.forall_mem_cons.mpr ⟨hbody, h.bodies⟩⟩

theorem IsCut.of_cons {part : β × List β} {parts : List (β × List β)}
    (h : IsCut marked (part :: parts)) : IsCut marked parts :=
  ⟨fun p hp => h.heads p (List.mem_cons_of_mem _ hp),
    fun p hp => h.bodies p (List.mem_cons_of_mem _ hp)⟩

theorem IsCut.append {parts more : List (β × List β)} (h : IsCut marked parts)
    (hmore : IsCut marked more) : IsCut marked (parts ++ more) := by
  constructor
  · intro part hpart
    exact (List.mem_append.mp hpart).elim (h.heads part) (hmore.heads part)
  · intro part hpart
    exact (List.mem_append.mp hpart).elim (h.bodies part) (hmore.bodies part)

theorem IsCut.subset {parts more : List (β × List β)} (h : IsCut marked parts)
    (hsub : more ⊆ parts) : IsCut marked more :=
  ⟨fun part hpart => h.heads part (hsub hpart), fun part hpart => h.bodies part (hsub hpart)⟩

theorem headed_front (xs : List β) : ∀ x ∈ (headed marked xs).1, marked x = false := by
  induction xs with
  | nil => simp [headed]
  | cons x xs ih =>
    cases hx : marked x with
    | true => simp [headed_cons_pos hx]
    | false =>
      rw [headed_cons_neg hx]
      exact List.forall_mem_cons.mpr ⟨hx, ih⟩

variable (marked) in
theorem isCut_headed (xs : List β) : IsCut marked (headed marked xs).2 := by
  induction xs with
  | nil => exact ⟨by simp [headed], by simp [headed]⟩
  | cons x xs ih =>
    cases hx : marked x with
    | true =>
      rw [headed_cons_pos hx]
      exact IsCut.cons hx (headed_front xs) ih
    | false =>
      rw [headed_cons_neg hx]
      exact ih

variable (marked) in
/-- Cutting leaves nothing out. -/
theorem append_unheaded_headed (xs : List β) :
    (headed marked xs).1 ++ unheaded (headed marked xs).2 = xs := by
  induction xs with
  | nil => rfl
  | cons x xs ih =>
    cases hx : marked x with
    | true =>
      rw [headed_cons_pos hx]
      exact congrArg (x :: ·) ih
    | false =>
      rw [headed_cons_neg hx]
      exact congrArg (x :: ·) ih

theorem headed_append {front : List β} (h : ∀ x ∈ front, marked x = false) (xs : List β) :
    headed marked (front ++ xs) = (front ++ (headed marked xs).1, (headed marked xs).2) := by
  induction front with
  | nil => rfl
  | cons x front ih =>
    obtain ⟨hx, hfront⟩ := List.forall_mem_cons.mp h
    rw [List.cons_append, headed_cons_neg hx, ih hfront]
    rfl

theorem headed_unheaded {parts : List (β × List β)} (h : IsCut marked parts) :
    headed marked (unheaded parts) = ([], parts) := by
  induction parts with
  | nil => rfl
  | cons part parts ih =>
    rw [unheaded_cons, List.cons_append, headed_cons_pos (h.heads part List.mem_cons_self),
      headed_append (h.bodies part List.mem_cons_self), ih h.of_cons, List.append_nil]

/-- A list is cut in one way only. -/
theorem headed_append_unheaded {front : List β} {parts : List (β × List β)}
    (hfront : ∀ x ∈ front, marked x = false) (h : IsCut marked parts) :
    headed marked (front ++ unheaded parts) = (front, parts) := by
  rw [headed_append hfront, headed_unheaded h, List.append_nil]

/-! Unmarked elements of a kind at the end of what each head is followed by. -/

variable {pad : β → Bool}

theorem rdropWhile_cons (x : β) (xs : List β) :
    (x :: xs).rdropWhile pad =
      if xs.rdropWhile pad = [] then if pad x then [] else [x] else x :: xs.rdropWhile pad := by
  induction xs using List.reverseRecOn with
  | nil =>
    rw [List.rdropWhile_nil, if_pos rfl]
    exact List.rdropWhile_singleton pad x
  | append_singleton xs y ih =>
    rw [← List.cons_append]
    by_cases hy : pad y = true
    · rw [List.rdropWhile_concat_pos _ _ _ hy, List.rdropWhile_concat_pos _ _ _ hy, ih]
    · rw [List.rdropWhile_concat_neg _ _ _ hy, List.rdropWhile_concat_neg _ _ _ hy,
        if_neg (by simp), List.cons_append]

theorem rdropWhile_cons_congr {x : β} {xs ys : List β}
    (h : xs.rdropWhile pad = ys.rdropWhile pad) :
    (x :: xs).rdropWhile pad = (x :: ys).rdropWhile pad := by
  rw [rdropWhile_cons, rdropWhile_cons, h]

variable (pad) in
def trimmed (parts : List (β × List β)) : List (β × List β) :=
  parts.map fun part => (part.1, part.2.rdropWhile pad)

variable (marked pad) in
theorem trimmed_headed_concat {y : β} (hy : marked y = false) (hpad : pad y = true)
    (xs : List β) :
    (headed marked (xs ++ [y])).1.rdropWhile pad = (headed marked xs).1.rdropWhile pad ∧
      trimmed pad (headed marked (xs ++ [y])).2 = trimmed pad (headed marked xs).2 := by
  induction xs with
  | nil => simp [headed_cons_neg hy, headed, hpad, trimmed]
  | cons x xs ih =>
    rw [List.cons_append]
    cases hx : marked x with
    | true =>
      rw [headed_cons_pos hx, headed_cons_pos hx]
      refine ⟨rfl, ?_⟩
      simp only [trimmed, List.map_cons, ih.1]
      exact congrArg (_ :: ·) ih.2
    | false =>
      rw [headed_cons_neg hx, headed_cons_neg hx]
      exact ⟨rdropWhile_cons_congr ih.1, ih.2⟩

end Headed

/-! ## Texts by their lines -/

section Lines
variable {α : Type*} (newline : α)

/-- Each line with the end of the line before it. -/
def tailed (lines : List (List α)) : List α := lines.flatMap (newline :: ·)

abbrev unlines (lines : List (List α)) : List α := List.intercalate [newline] lines

variable {newline}

@[simp] theorem tailed_nil : tailed newline ([] : List (List α)) = [] := rfl

@[simp] theorem tailed_cons (line : List α) (lines : List (List α)) :
    tailed newline (line :: lines) = newline :: (line ++ tailed newline lines) := rfl

@[simp] theorem tailed_append (lines more : List (List α)) :
    tailed newline (lines ++ more) = tailed newline lines ++ tailed newline more :=
  List.flatMap_append

theorem tailed_eq_nil_iff {lines : List (List α)} : tailed newline lines = [] ↔ lines = [] := by
  cases lines <;> simp

theorem cons_unlines {lines : List (List α)} (h : lines ≠ []) :
    newline :: unlines newline lines = tailed newline lines := by
  induction lines with
  | nil => exact absurd rfl h
  | cons line lines ih =>
    cases lines with
    | nil => simp
    | cons second lines =>
      rw [tailed_cons, ← ih (List.cons_ne_nil _ _), unlines, List.intercalate_cons_cons]
      simp

variable [DecidableEq α]

variable (newline) in
theorem cons_eq_tailed (text : List α) :
    newline :: text = tailed newline (text.splitOn newline) := by
  rw [← cons_unlines (List.splitOn_ne_nil newline text), unlines, List.intercalate_splitOn]

theorem not_mem_of_mem_splitOn {text line : List α} (h : line ∈ text.splitOn newline) :
    newline ∉ line := by
  intro hmem
  have hne := (RecordFile.mem_splitOnP _ h).2 newline hmem
  simp at hne

/-- A text has one list of lines only. -/
theorem splitOn_eq_of_cons_eq {text : List α} {lines : List (List α)}
    (h : newline :: text = tailed newline lines) (hlines : ∀ line ∈ lines, newline ∉ line) :
    text.splitOn newline = lines := by
  have hne : lines ≠ [] := by
    rintro rfl
    simp at h
  rw [← cons_unlines hne] at h
  rw [List.cons_inj_right newline |>.mp h]
  exact List.splitOn_intercalate newline hlines hne

theorem splitOn_unlines {lines : List (List α)} (h : ∀ line ∈ lines, newline ∉ line)
    (hne : lines ≠ []) : (unlines newline lines).splitOn newline = lines :=
  List.splitOn_intercalate newline h hne

theorem isPrefixOf_line {needle : List α} (line : List α) (lines : List (List α)) (h : newline ∉ needle) :
    needle.isPrefixOf (line ++ tailed newline lines) = needle.isPrefixOf line := by
  rw [Bool.eq_iff_iff, List.isPrefixOf_iff_prefix, List.isPrefixOf_iff_prefix]
  refine ⟨fun hneedle => ?_, fun hneedle => hneedle.trans (List.prefix_append _ _)⟩
  cases lines with
  | nil => simpa using hneedle
  | cons second lines =>
    rcases List.prefix_or_prefix_of_prefix hneedle (List.prefix_append line _) with hle | hle
    · exact hle
    · obtain ⟨more, rfl⟩ := hle
      rw [tailed_cons, List.prefix_append_right_inj] at hneedle
      cases more with
      | nil => simp
      | cons c more =>
        obtain ⟨rfl, -⟩ := List.cons_prefix_cons.mp hneedle
        exact absurd (List.mem_append_right line List.mem_cons_self) h

end Lines

/-! ## The first place at which a text goes on in a given way -/

section Cut
variable {α : Type*} (ends : α → Bool) (starts : List α → Bool)

/-- Only places behind the end of a line count, and the first one where `lineStart` says so. -/
def cutLine : Bool → List α → Option (List α × List α)
  | _, [] => none
  | lineStart, c :: text =>
    if lineStart && starts (c :: text) then some ([], c :: text)
    else (cutLine (ends c) text).map fun cut => (c :: cut.1, cut.2)

/-- All places count. -/
def cutAt : List α → Option (List α × List α)
  | [] => none
  | c :: text =>
    if starts (c :: text) then some ([], c :: text)
    else (cutAt text).map fun cut => (c :: cut.1, cut.2)

attribute [grind =] cutLine cutAt

def prepend (before : List α) (cut : List α × List α) : List α × List α :=
  (before ++ cut.1, cut.2)

variable {ends starts}

theorem map_prepend_nil (cut : Option (List α × List α)) : cut.map (prepend []) = cut := by
  cases cut <;> rfl

theorem map_prepend_append (before more : List α) (cut : Option (List α × List α)) :
    cut.map (prepend (before ++ more)) = (cut.map (prepend more)).map (prepend before) := by
  cases cut <;> simp [prepend]

theorem cutLine_cons_neg {lineStart : Bool} {c : α} {text : List α}
    (h : (lineStart && starts (c :: text)) = false) :
    cutLine ends starts lineStart (c :: text) =
      (cutLine ends starts (ends c) text).map (prepend [c]) := by
  rw [cutLine, if_neg (by simp [h])]
  rfl

theorem cutLine_cons_pos {c : α} {text : List α} (h : starts (c :: text) = true) :
    cutLine ends starts true (c :: text) = some ([], c :: text) := by
  rw [cutLine, if_pos (by simp [h])]

/-- In the middle of a line no place counts. -/
theorem cutLine_false_append {front : List α} (h : ∀ c ∈ front, ends c = false) (text : List α) :
    cutLine ends starts false (front ++ text) =
      (cutLine ends starts false text).map (prepend front) := by
  induction front with
  | nil => exact (map_prepend_nil _).symm
  | cons c front ih =>
    obtain ⟨hc, hfront⟩ := List.forall_mem_cons.mp h
    rw [List.cons_append, cutLine_cons_neg (by simp), hc, ih hfront, ← map_prepend_append]
    rfl

theorem cutLine_eq_some {lineStart : Bool} {text before after : List α}
    (h : cutLine ends starts lineStart text = some (before, after)) :
    text = before ++ after ∧ starts after = true ∧ after ≠ [] ∧
      (before.getLast?.elim lineStart ends = true) := by
  induction text generalizing lineStart before with
  | nil => cases h
  | cons c text ih =>
    by_cases hc : (lineStart && starts (c :: text)) = true
    · rw [cutLine, if_pos hc] at h
      obtain ⟨rfl, rfl⟩ := Prod.mk.inj (Option.some.inj h)
      rw [Bool.and_eq_true] at hc
      exact ⟨rfl, hc.2, List.cons_ne_nil _ _, hc.1⟩
    · rw [cutLine_cons_neg (by simpa using hc)] at h
      obtain ⟨cut, hcut, hpair⟩ := Option.map_eq_some_iff.mp h
      obtain ⟨rfl, rfl⟩ := Prod.mk.inj hpair
      obtain ⟨rfl, hstarts, hne, hlast⟩ := ih hcut
      refine ⟨rfl, hstarts, hne, ?_⟩
      cases hbefore : cut.1 with
      | nil => simpa [hbefore] using hlast
      | cons d before =>
        rw [hbefore] at hlast
        rw [List.singleton_append, List.getLast?_cons_cons]
        exact hlast

/-- Where what a place says is told by the line it stands in, another text may follow the lines
in front of the hit. -/
theorem cutLine_before_of_eq_some {lineStart : Bool} {text before after other : List α}
    (hlocal : ∀ line c rest rest', ends c = true →
      starts (line ++ c :: rest) = starts (line ++ c :: rest'))
    (h : cutLine ends starts lineStart text = some (before, after))
    (hother : starts other = true) (hne : other ≠ []) :
    cutLine ends starts lineStart (before ++ other) = some (before, other) := by
  induction text generalizing lineStart before with
  | nil => cases h
  | cons c text ih =>
    by_cases hc : (lineStart && starts (c :: text)) = true
    · rw [cutLine, if_pos hc] at h
      obtain ⟨rfl, rfl⟩ := Prod.mk.inj (Option.some.inj h)
      obtain ⟨d, other, rfl⟩ := List.exists_cons_of_ne_nil hne
      rw [Bool.and_eq_true] at hc
      rw [hc.1]
      exact cutLine_cons_pos hother
    · have hneg : (lineStart && starts (c :: text)) = false := by simpa using hc
      rw [cutLine_cons_neg hneg] at h
      obtain ⟨cut, hcut, hpair⟩ := Option.map_eq_some_iff.mp h
      obtain ⟨rfl, rfl⟩ := Prod.mk.inj hpair
      have hlast := (cutLine_eq_some hcut).2.2.2
      obtain ⟨rfl, -⟩ := cutLine_eq_some hcut
      change cutLine ends starts lineStart (c :: (cut.1 ++ other)) = some (c :: cut.1, other)
      suffices hstart : (lineStart && starts (c :: (cut.1 ++ other))) = false by
        rw [cutLine_cons_neg hstart, ih hcut]
        rfl
      rw [← hneg]
      -- what stands in front of the hit ends with the end of a line
      cases hbefore : cut.1 using List.reverseRecOn with
      | nil =>
        rw [hbefore, List.getLast?_nil, Option.elim_none] at hlast
        exact congrArg (lineStart && ·) (hlocal [] c _ _ hlast)
      | append_singleton front d =>
        rw [hbefore, List.getLast?_concat, Option.elim_some] at hlast
        have hsame := hlocal (c :: front) d other cut.2 hlast
        simpa using congrArg (lineStart && ·) hsame

theorem cutAt_append {front : List α} (text : List α)
    (h : ∀ before rest, front = before ++ rest → rest ≠ [] → starts (rest ++ text) = false) :
    cutAt starts (front ++ text) = (cutAt starts text).map (prepend front) := by
  induction front with
  | nil => exact (map_prepend_nil _).symm
  | cons c front ih =>
    have hc := h [] (c :: front) rfl (List.cons_ne_nil _ _)
    rw [List.cons_append] at hc ⊢
    rw [cutAt, if_neg (by simp [hc]), ih]
    · cases cutAt starts text <;> rfl
    · intro before rest hfront
      exact h (c :: before) rest (congrArg (c :: ·) hfront)

theorem cutAt_cons_pos {c : α} {text : List α} (h : starts (c :: text) = true) :
    cutAt starts (c :: text) = some ([], c :: text) := by
  rw [cutAt, if_pos h]

theorem cutAt_eq_some {text before after : List α}
    (h : cutAt starts text = some (before, after)) :
    text = before ++ after ∧ starts after = true ∧
      ∀ front rest, before = front ++ rest → rest ≠ [] → starts (rest ++ after) = false := by
  induction text generalizing before with
  | nil => cases h
  | cons c text ih =>
    by_cases hc : starts (c :: text) = true
    · rw [cutAt, if_pos hc] at h
      obtain ⟨rfl, rfl⟩ := Prod.mk.inj (Option.some.inj h)
      refine ⟨rfl, hc, fun front rest heq hne => ?_⟩
      exact absurd (List.append_eq_nil_iff.mp heq.symm).2 hne
    · rw [cutAt, if_neg hc] at h
      obtain ⟨cut, hcut, hpair⟩ := Option.map_eq_some_iff.mp h
      obtain ⟨rfl, rfl⟩ := Prod.mk.inj hpair
      obtain ⟨rfl, hstarts, hfirst⟩ := ih hcut
      refine ⟨rfl, hstarts, fun front rest heq hrest => ?_⟩
      cases front with
      | nil =>
        rw [List.nil_append] at heq
        rw [← heq]
        simpa using hc
      | cons d front => exact hfirst front rest (List.cons.inj heq).2 hrest

theorem cutAt_eq_none {text : List α} (h : cutAt starts text = none) :
    ∀ before after, text = before ++ after → after ≠ [] → starts after = false := by
  induction text with
  | nil =>
    intro before after heq hne
    exact absurd (List.append_eq_nil_iff.mp heq.symm).2 hne
  | cons c text ih =>
    have hc : starts (c :: text) = false := by
      by_contra hc
      rw [cutAt, if_pos (by simpa using hc)] at h
      cases h
    rw [cutAt, if_neg (by simp [hc]), Option.map_eq_none_iff] at h
    intro before after heq hne
    cases before with
    | nil =>
      rw [List.nil_append] at heq
      rw [← heq]
      exact hc
    | cons d before => exact ih h before after (List.cons.inj heq).2 hne

/-- Passed over is what has no place at which the text goes on so. -/
theorem cutLine_append {front : List α} {lineStart : Bool} (text : List α)
    (h : ∀ before rest, front = before ++ rest → rest ≠ [] → starts (rest ++ text) = false) :
    cutLine ends starts lineStart (front ++ text) =
      (cutLine ends starts (front.getLast?.elim lineStart ends) text).map (prepend front) := by
  induction front generalizing lineStart with
  | nil => exact (map_prepend_nil _).symm
  | cons c front ih =>
    have hc := h [] (c :: front) rfl (List.cons_ne_nil _ _)
    have hfront := @ih (ends c) fun before rest heq =>
      h (c :: before) rest (congrArg (c :: ·) heq)
    rw [List.cons_append] at hc ⊢
    rw [cutLine_cons_neg (by simp [hc]), hfront, ← map_prepend_append]
    cases front <;> rfl

/-- A line is passed over where it does not itself start so. -/
theorem cutLine_line {line : List α} {lineStart : Bool} {text : List α}
    (hends : ∀ c ∈ line, ends c = false)
    (hneg : line ≠ [] → (lineStart && starts (line ++ text)) = false) :
    cutLine ends starts lineStart (line ++ text) =
      (cutLine ends starts (line.getLast?.elim lineStart ends) text).map (prepend line) := by
  cases line with
  | nil => exact (map_prepend_nil _).symm
  | cons c line =>
    have hlast : (c :: line).getLast?.elim lineStart ends = false := by
      rw [List.getLast?_eq_some_getLast (List.cons_ne_nil c line)]
      exact hends _ (List.getLast_mem _)
    have hc := hneg (List.cons_ne_nil c line)
    rw [List.cons_append] at hc
    rw [hlast, List.cons_append, cutLine_cons_neg hc, hends c List.mem_cons_self,
      cutLine_false_append fun d hd => hends d (List.mem_cons_of_mem _ hd), ← map_prepend_append]
    rfl

theorem cutLine_eq_none_of_cutAt {starts' : List α → Bool} {lineStart : Bool} {text : List α}
    (himp : ∀ text, starts text = true → starts' text = true)
    (h : cutAt starts' text = none) : cutLine ends starts lineStart text = none := by
  induction text generalizing lineStart with
  | nil => rfl
  | cons c text ih =>
    rw [cutAt] at h
    split_ifs at h with hc
    rw [Option.map_eq_none_iff] at h
    have hneg : starts (c :: text) = false := by
      rw [Bool.eq_false_iff]
      exact fun hstarts => hc (himp _ hstarts)
    rw [cutLine_cons_neg (by simp [hneg]), ih h]
    rfl

end Cut

/-! Where the text goes on so only at the end of a line, and the next line tells whether it
does. -/

section AtLines
variable {α : Type*} {newline : α} {starts marked : List α → Bool}

structure AtLines (newline : α) (starts marked : List α → Bool) : Prop where
  newline_of : ∀ c text, starts (c :: text) = true → c = newline
  next : ∀ line lines, newline ∉ line → starts (tailed newline (line :: lines)) = marked line

theorem AtLines.false_of_mem (h : AtLines newline starts marked) {line before rest : List α}
    (hline : newline ∉ line) (heq : line = before ++ rest) (hne : rest ≠ []) (text : List α) :
    starts (rest ++ text) = false := by
  obtain ⟨c, rest, rfl⟩ := List.exists_cons_of_ne_nil hne
  rw [Bool.eq_false_iff]
  intro hstarts
  obtain rfl := h.newline_of c _ hstarts
  exact hline (heq ▸ List.mem_append_right _ List.mem_cons_self)

theorem AtLines.cutAt_line (h : AtLines newline starts marked) {line : List α}
    (hline : newline ∉ line) (text : List α) :
    cutAt starts (line ++ text) = (cutAt starts text).map (prepend line) :=
  cutAt_append text fun _ _ heq hne => h.false_of_mem hline heq hne text

theorem AtLines.cutAt_append (h : AtLines newline starts marked) {front : List (List α)}
    (hplain : ∀ line ∈ front, newline ∉ line) (hfront : ∀ line ∈ front, marked line = false)
    (lines : List (List α)) :
    cutAt starts (tailed newline (front ++ lines)) =
      (cutAt starts (tailed newline lines)).map (prepend (tailed newline front)) := by
  induction front with
  | nil => exact (map_prepend_nil _).symm
  | cons line front ih =>
    obtain ⟨hline, hplain⟩ := List.forall_mem_cons.mp hplain
    obtain ⟨hmarked, hfront⟩ := List.forall_mem_cons.mp hfront
    have hnext := h.next line (front ++ lines) hline
    rw [List.cons_append, tailed_cons] at *
    rw [cutAt, if_neg (by rw [hnext, hmarked]; simp), h.cutAt_line hline, ih hplain hfront,
      tailed_cons]
    cases cutAt starts (tailed newline lines) with
    | none => rfl
    | some cut => simp [prepend]

theorem AtLines.cutAt_head (h : AtLines newline starts marked) {line : List α}
    (hline : newline ∉ line) (hmarked : marked line = true) (lines : List (List α)) :
    cutAt starts (tailed newline (line :: lines)) = some ([], tailed newline (line :: lines)) := by
  have hnext := h.next line lines hline
  rw [tailed_cons] at *
  exact cutAt_cons_pos (hnext.trans hmarked)

theorem AtLines.cutAt_none (h : AtLines newline starts marked) {front : List (List α)}
    (hplain : ∀ line ∈ front, newline ∉ line) (hfront : ∀ line ∈ front, marked line = false) :
    cutAt starts (tailed newline front) = none := by
  have happend := h.cutAt_append hplain hfront []
  rw [List.append_nil] at happend
  rw [happend]
  rfl

theorem atLines_isPrefixOf [DecidableEq α] (needle : List α) (h : newline ∉ needle) :
    AtLines newline (newline :: needle).isPrefixOf needle.isPrefixOf := by
  constructor
  · intro c text hstarts
    exact (List.cons_prefix_cons.mp (List.isPrefixOf_iff_prefix.mp hstarts)).1.symm
  · intro line lines _
    rw [tailed_cons, List.isPrefixOf_cons_cons, isPrefixOf_line _ _ h]
    simp

end AtLines

/-! ## Up to repetitions -/

section Distinct
variable {β : Type*} [BEq β] [LawfulBEq β]

theorem eraseDups_filter (p : β → Bool) (l : List β) :
    (l.filter p).eraseDups = l.eraseDups.filter p := by
  induction h : l.length using Nat.strongRecOn generalizing l with
  | ind n ih =>
    subst h
    cases l with
    | nil => rfl
    | cons a l =>
      have hlt : (l.filter fun b => !b == a).length < (a :: l).length :=
        Nat.lt_succ_of_le (List.length_filter_le _ _)
      have hrest := ih _ hlt _ rfl
      rw [List.eraseDups_cons]
      by_cases ha : p a = true
      · rw [List.filter_cons_of_pos ha, List.filter_cons_of_pos ha, List.eraseDups_cons, ← hrest,
          List.filter_filter, List.filter_filter]
        simp only [Bool.and_comm]
      · rw [List.filter_cons_of_neg ha, List.filter_cons_of_neg ha, ← hrest, List.filter_filter]
        congr 1
        refine List.filter_congr fun b _ => ?_
        by_cases hb : b = a
        · simp [hb, ha]
        · simp [hb]

theorem nodup_eraseDups (l : List β) : l.eraseDups.Nodup := by
  induction h : l.length using Nat.strongRecOn generalizing l with
  | ind n ih =>
    subst h
    cases l with
    | nil => exact List.nodup_nil
    | cons a l =>
      have hlt : (l.filter fun b => !b == a).length < (a :: l).length :=
        Nat.lt_succ_of_le (List.length_filter_le _ _)
      rw [List.eraseDups_cons, List.nodup_cons]
      refine ⟨fun hmem => ?_, ih _ hlt _ rfl⟩
      simpa using (List.mem_filter.mp (List.mem_eraseDups.mp hmem)).2

theorem eraseDups_of_nodup {l : List β} (h : l.Nodup) : l.eraseDups = l := by
  induction l with
  | nil => rfl
  | cons a l ih =>
    obtain ⟨ha, hl⟩ := List.nodup_cons.mp h
    have hfilter : l.filter (fun b => !b == a) = l := by
      refine List.filter_eq_self.mpr fun b hb => ?_
      have hne : b ≠ a := fun heq => ha (heq ▸ hb)
      simpa using hne
    rw [List.eraseDups_cons, hfilter, ih hl]

@[simp] theorem eraseDups_eraseDups (l : List β) : l.eraseDups.eraseDups = l.eraseDups :=
  eraseDups_of_nodup (nodup_eraseDups l)

theorem eraseDups_append_congr {as as' bs bs' : List β} (h : as.eraseDups = as'.eraseDups)
    (hb : bs.eraseDups = bs'.eraseDups) : (as ++ bs).eraseDups = (as' ++ bs').eraseDups := by
  have hmem : ∀ b, as.elem b = as'.elem b := by
    intro b
    rw [Bool.eq_iff_iff, List.elem_iff, List.elem_iff, ← List.mem_eraseDups, h, List.mem_eraseDups]
  rw [List.eraseDups_append, List.eraseDups_append, h, List.removeAll, List.removeAll,
    eraseDups_filter, eraseDups_filter, hb]
  simp only [hmem]

/-- What is added without repeating what is there. -/
theorem eraseDups_append_new (as bs : List β) :
    (as ++ bs.eraseDups.filter fun b => !as.contains b).eraseDups = (as ++ bs).eraseDups := by
  rw [List.eraseDups_append, List.eraseDups_append, List.removeAll, List.removeAll,
    List.filter_filter, eraseDups_filter, eraseDups_eraseDups, eraseDups_filter]
  simp only [List.elem_eq_contains, Bool.and_self]

end Distinct
end HeadedLists
