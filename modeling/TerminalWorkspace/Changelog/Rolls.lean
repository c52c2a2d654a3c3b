import TerminalWorkspace.Changelog.ReadBack
import TerminalWorkspace.Changelog.Releases

/-! What a roll makes of a ledger: the release is put in the place of those of its version, or in
front of all, and everything else stays. -/
namespace Changelog
open HeadedLists JsText RecordFile

/-! ## Where the ledger is cut -/

def isNumbered (line : Line) : Bool := isHeadline line && (line.drop 3).head?.any Char.isDigit

theorem atLines_startsNumbered : AtLines '\n' startsNumbered isNumbered := by
  constructor
  · intro c text hstarts
    exact atLines_startsRelease.newline_of c text (Bool.and_eq_true_iff.mp hstarts).1
  · intro line lines hline
    rw [startsNumbered, atLines_startsRelease.next line lines hline, isNumbered]
    by_cases hhead : isHeadline line = true
    · obtain ⟨rest, rfl⟩ := headline_cons hhead
      rw [tailed_cons]
      cases rest with
      | nil => cases lines <;> simp
      | cons c rest => simp
    · simp [hhead]

theorem isHeadline_of_isNumbered {line : Line} (h : isNumbered line = true) :
    isHeadline line = true := (Bool.and_eq_true_iff.mp h).1

theorem not_mem_marker {c : Char} (h : isLineTerminator c = true) : c ∉ marker := by
  have hnone : ∀ d ∈ marker, isLineTerminator d = false := forall_mem_of_all (by decide)
  intro hmem
  rw [hnone c hmem] at h
  cases h

/-- Whether the heading stands somewhere is told by the rest of the line. -/
theorem headsUnreleased_local (line : Line) (c : Char) (rest rest' : List Char)
    (h : isLineTerminator c = true) :
    headsUnreleased (line ++ c :: rest) = headsUnreleased (line ++ c :: rest') := by
  have hmarker : ∀ rest, marker.isPrefixOf (line ++ c :: rest) = marker.isPrefixOf line := by
    intro rest
    have hline := isPrefixOf_line line [rest] (not_mem_marker h)
    simpa using hline
  rw [headsUnreleased, headsUnreleased, hmarker, hmarker]
  by_cases hbegins : marker.isPrefixOf line = true
  · obtain ⟨more, rfl⟩ := List.isPrefixOf_iff_prefix.mp hbegins
    rw [List.append_assoc, List.drop_left, List.append_assoc, List.drop_left,
      List.dropWhile_append, List.dropWhile_append]
    split_ifs with hempty
    · have hblank : (decide (c = ' ') || decide (c = '\t')) = false := by
        rw [Bool.eq_false_iff]
        intro hc
        rcases Bool.or_eq_true_iff.mp hc with hc | hc
        · rw [of_decide_eq_true hc] at h
          exact absurd h (by decide)
        · rw [of_decide_eq_true hc] at h
          exact absurd h (by decide)
      simp only [List.dropWhile_cons, hblank, Bool.false_eq_true, if_false, List.head?_cons]
    · obtain ⟨d, more', hmore⟩ := List.exists_cons_of_ne_nil
        (l := more.dropWhile fun c => c = ' ' || c = '\t') (by simpa using hempty)
      rw [hmore]
      rfl
  · simp [hbegins]

def skeletonLines : List Line :=
  [] :: LABELS.flatMap fun label => [label.heading, [], placeholder, []]

theorem skeleton_eq : skeleton = marker ++ tailed '\n' skeletonLines := by decide +kernel

theorem skeletonLines_plain : ∀ line ∈ skeletonLines, '\n' ∉ line ∧ isNumbered line = false :=
  forall_mem_of_all (by decide +kernel)

theorem assertSkeletonOnly_skeleton :
    assertSkeletonOnly (tailed '\n' skeletonLines ++ ['\n']) = .ok () := by decide +kernel

/-- The ledger is cut above its heading and above its first numbered release. -/
theorem unreleasedSplit_eq_some {changelog above tail : List Char}
    (h : unreleasedSplit changelog = .ok (some (above, tail))) :
    (∃ found, cutLine isLineTerminator headsUnreleased true changelog = some (above, found)) ∧
      (tail = [] ∨ ∃ line lines, tail.splitOn '\n' = line :: lines ∧ isNumbered line = true) := by
  unfold unreleasedSplit at h
  cases hcut : cutLine isLineTerminator headsUnreleased true changelog with
  | none =>
    rw [hcut] at h
    cases h
  | some cut =>
    rw [hcut] at h
    dsimp only at h
    cases hnumbered : cutAt startsNumbered (cut.2.drop marker.length) with
    | none =>
      rw [hnumbered] at h
      dsimp only at h
      cases hassert : assertSkeletonOnly (cut.2.drop marker.length) with
      | error error =>
        rw [hassert] at h
        cases h
      | ok =>
        rw [hassert] at h
        obtain ⟨rfl, rfl⟩ := Prod.mk.inj (Option.some.inj (Except.ok.inj h))
        exact ⟨⟨cut.2, rfl⟩, .inl rfl⟩
    | some parts =>
      rw [hnumbered] at h
      dsimp only at h
      cases hassert : assertSkeletonOnly (parts.1 ++ ['\n']) with
      | error error =>
        rw [hassert] at h
        cases h
      | ok =>
        rw [hassert] at h
        obtain ⟨rfl, rfl⟩ := Prod.mk.inj (Option.some.inj (Except.ok.inj h))
        refine ⟨⟨cut.2, rfl⟩, .inr ?_⟩
        have hstarts := (cutAt_eq_some hnumbered).2.1
        cases hnext : parts.2 with
        | nil =>
          rw [hnext] at hstarts
          exact absurd hstarts (by decide)
        | cons c next =>
          rw [hnext] at hstarts
          obtain rfl := atLines_startsNumbered.newline_of c next hstarts
          obtain ⟨line, lines, hlines⟩ :=
            List.exists_cons_of_ne_nil (List.splitOn_ne_nil '\n' next)
          refine ⟨line, lines, hlines, ?_⟩
          have hmem : line ∈ next.splitOn '\n' := hlines ▸ List.mem_cons_self
          have hplain : '\n' ∉ line := not_mem_of_mem_splitOn hmem
          rw [← atLines_startsNumbered.next line lines hplain, ← hlines, ← cons_eq_tailed]
          exact hstarts

/-- What a roll writes is cut at the same places. -/
theorem unreleasedSplit_skeleton {changelog above found tail : List Char} {line : Line}
    {lines : List Line}
    (h : cutLine isLineTerminator headsUnreleased true changelog = some (above, found))
    (htail : tail.splitOn '\n' = line :: lines) (hline : isNumbered line = true) :
    unreleasedSplit (above ++ skeleton ++ '\n' :: tail) = .ok (some (above, tail)) := by
  have hall : skeleton ++ '\n' :: tail =
      marker ++ tailed '\n' (skeletonLines ++ tail.splitOn '\n') := by
    rw [skeleton_eq, tailed_append, ← cons_eq_tailed, List.append_assoc]
  have hheads : headsUnreleased (skeleton ++ '\n' :: tail) = true := by
    rw [hall, headsUnreleased, List.drop_left,
      List.isPrefixOf_iff_prefix.mpr (List.prefix_append _ _)]
    rfl
  have hcut : cutLine isLineTerminator headsUnreleased true (above ++ (skeleton ++ '\n' :: tail)) =
      some (above, skeleton ++ '\n' :: tail) :=
    cutLine_before_of_eq_some headsUnreleased_local h hheads (by simp)
  have hmem : line ∈ tail.splitOn '\n' := htail ▸ List.mem_cons_self
  have hplain : '\n' ∉ line := not_mem_of_mem_splitOn hmem
  have hnumbered : cutAt startsNumbered (tailed '\n' (skeletonLines ++ tail.splitOn '\n')) =
      some (tailed '\n' skeletonLines, '\n' :: tail) := by
    rw [atLines_startsNumbered.cutAt_append (fun l hl => (skeletonLines_plain l hl).1)
      (fun l hl => (skeletonLines_plain l hl).2), htail,
      atLines_startsNumbered.cutAt_head hplain hline, ← htail, ← cons_eq_tailed]
    simp [prepend]
  unfold unreleasedSplit
  rw [List.append_assoc, hcut, hall]
  dsimp only
  rw [List.drop_left, hnumbered]
  dsimp only
  rw [assertSkeletonOnly_skeleton]
  rfl

/-! ## The section of a roll -/

/-- The release a run makes of the fragments. -/
structure Roll where
  version : List Char
  date : List Char
  entries : Entries
  version_ok : isVersion version = true
  date_ok : isDate date = true
  entries_ok : ∀ label, ∀ text ∈ entries label, '\n' ∉ text

namespace Roll
variable (roll : Roll)

def block (label : Label) : Option Block :=
  if roll.entries label = [] then none
  else some ⟨some label, label.heading, (roll.entries label).map bullet⟩

def newSection : Section := ⟨versionHeading roll.version roll.date, [], LABELS.filterMap roll.block⟩

def rendered : List Char := renderSection roll.version roll.date roll.entries

theorem rendered_eq : roll.rendered = renderBlocks roll.newSection := by
  have hblocks : ∀ labels : List Label, labels.flatMap (renderEntries roll.entries) =
      (labels.filterMap roll.block).flatMap renderBlock := by
    intro labels
    induction labels with
    | nil => rfl
    | cons label labels ih =>
      rw [List.flatMap_cons, ih, renderEntries]
      by_cases hnone : roll.entries label = []
      · rw [if_pos hnone, List.filterMap_cons_none (by rw [block, if_pos hnone])]
        rfl
      · rw [if_neg hnone, List.filterMap_cons_some (by rw [block, if_neg hnone]),
          List.flatMap_cons, renderBlock, if_neg (by simpa using hnone)]
        simp
  rw [rendered, renderSection, hblocks, renderBlocks, Section.rendered]
  rfl

theorem mem_blocks {b : Block} (h : b ∈ roll.newSection.blocks) :
    ∃ label, roll.entries label ≠ [] ∧
      b = ⟨some label, label.heading, (roll.entries label).map bullet⟩ := by
  obtain ⟨label, -, hlabel⟩ := List.mem_filterMap.mp h
  unfold block at hlabel
  split_ifs at hlabel with hnone
  exact ⟨label, hnone, (Option.some.inj hlabel).symm⟩

theorem block_mem {label : Label} (h : roll.entries label ≠ []) :
    ⟨some label, label.heading, (roll.entries label).map bullet⟩ ∈ roll.newSection.blocks := by
  refine List.mem_filterMap.mpr ⟨label, ?_, if_neg h⟩
  cases label <;> decide

theorem labelOf_heading (label : Label) : labelOf (trimEnd label.heading) = some label := by
  cases label <;> decide +kernel

theorem trimEnd_heading (label : Label) : trimEnd label.heading = label.heading := by
  cases label <;> decide +kernel

theorem newSection_shaped : roll.newSection.Shaped := by
  constructor
  · simp [newSection]
  · intro b hb
    obtain ⟨label, -, rfl⟩ := roll.mem_blocks hb
    refine ⟨labelOf_heading label, fun _ => trimEnd_heading label, isSubheading_heading label, ?_⟩
    intro line hline
    obtain ⟨text, -, rfl⟩ := List.mem_map.mp hline
    rfl

theorem newSection_trimmed : roll.newSection.trimmed = roll.newSection := by
  have hblocks : roll.newSection.blocks.map Block.trimmed = roll.newSection.blocks := by
    conv_rhs => rw [← List.map_id roll.newSection.blocks]
    refine List.map_congr_left fun b hb => ?_
    obtain ⟨label, -, rfl⟩ := roll.mem_blocks hb
    refine congrArg (Block.mk _ _) (trimEdges_of_ne_nil fun line hline => ?_)
    obtain ⟨text, -, rfl⟩ := List.mem_map.mp hline
    exact List.cons_ne_nil _ _
  rw [Section.trimmed, hblocks]
  rfl

theorem mem_of_mem_splitOn (sep : Char) {text : List Char} {c : Char} (h : c ∈ text) :
    c = sep ∨ ∃ part ∈ text.splitOn sep, c ∈ part := by
  have hmem : c ∈ tailed sep (text.splitOn sep) := by
    rw [← cons_eq_tailed]
    exact List.mem_cons_of_mem _ h
  obtain ⟨part, hpart, hc⟩ := List.mem_flatMap.mp hmem
  exact (List.mem_cons.mp hc).imp_right fun hc => ⟨part, hpart, hc⟩

theorem newline_not_mem_version : '\n' ∉ roll.version := by
  intro hmem
  have hparts := (Bool.and_eq_true_iff.mp roll.version_ok).2
  rcases mem_of_mem_splitOn '.' hmem with heq | ⟨part, hpart, hc⟩
  · exact absurd heq (by decide)
  · have hdigits := (Bool.and_eq_true_iff.mp (List.all_eq_true.mp hparts part hpart)).2
    exact absurd (List.all_eq_true.mp hdigits _ hc) (by decide)

theorem newline_not_mem_date : '\n' ∉ roll.date := by
  intro hmem
  have hparts := (Bool.and_eq_true_iff.mp roll.date_ok).2
  rcases mem_of_mem_splitOn '-' hmem with heq | ⟨part, hpart, hc⟩
  · exact absurd heq (by decide)
  · exact absurd (List.all_eq_true.mp (List.all_eq_true.mp hparts part hpart) _ hc) (by decide)

/-- A version starts with a digit. -/
theorem exists_version_cons : ∃ d rest, roll.version = d :: rest ∧ d.isDigit = true := by
  obtain ⟨part, parts, hparts⟩ :=
    List.exists_cons_of_ne_nil (List.splitOn_ne_nil '.' roll.version)
  have hall := (Bool.and_eq_true_iff.mp roll.version_ok).2
  have hpart := Bool.and_eq_true_iff.mp (List.all_eq_true.mp hall part (hparts ▸ List.mem_cons_self))
  have htext := cons_eq_tailed '.' roll.version
  rw [hparts, tailed_cons] at htext
  cases part with
  | nil => exact absurd hpart.1 (by decide)
  | cons d part =>
    refine ⟨d, part ++ tailed '.' parts, (List.cons_inj_right '.').mp htext, ?_⟩
    exact List.all_eq_true.mp hpart.2 d List.mem_cons_self

end Roll

/-! ## The section that is written -/

/-- Neither the end of a line nor a second release. -/
structure Section.Good (s : Section) : Prop where
  shaped : s.Shaped
  heading : '\n' ∉ s.heading
  below : ∀ line ∈ s.lines, '\n' ∉ line ∧ isHeadline line = false

theorem Section.Good.plain {s : Section} (h : s.Good) : s.Plain :=
  List.forall_mem_cons.mpr ⟨h.heading, fun line hline => (h.below line hline).1⟩

theorem heading_plain (label : Label) :
    '\n' ∉ label.heading ∧ isHeadline label.heading = false := by
  cases label <;> decide +kernel

theorem Roll.newSection_good (roll : Roll) : roll.newSection.Good := by
  refine ⟨roll.newSection_shaped, ?_, fun line hline => ?_⟩
  · change '\n' ∉ versionHeading roll.version roll.date
    have hversion := roll.newline_not_mem_version
    have hdate := roll.newline_not_mem_date
    simp [versionHeading, hversion, hdate]
  · obtain ⟨b, hb, hline⟩ := List.mem_flatMap.mp (List.mem_append.mp hline |>.resolve_left (by
      simp [newSection]))
    obtain ⟨label, -, rfl⟩ := roll.mem_blocks hb
    rcases List.mem_cons.mp hline with rfl | hline
    · exact heading_plain label
    · obtain ⟨text, htext, rfl⟩ := List.mem_map.mp hline
      have hplain := roll.entries_ok label text htext
      exact ⟨by simpa [bullet] using hplain, rfl⟩

def sectionOf (release : Release) : Section := splitSection (textOf release)

theorem splitOn_textOf {release : Release} {rest : List Release}
    (h : Releases (release :: rest)) :
    (textOf release).splitOn '\n' = release.1 :: release.2 := by
  refine splitOn_eq_of_cons_eq rfl ?_
  exact List.forall_mem_cons.mpr h.plain_release

theorem isHeadline_trimEnd {line : Line} (h : isHeadline line = false) :
    isHeadline (trimEnd line) = false := by
  rw [Bool.eq_false_iff] at h ⊢
  intro hhead
  refine h (List.isPrefixOf_iff_prefix.mpr ?_)
  exact (List.isPrefixOf_iff_prefix.mp hhead).trans (List.rdropWhile_prefix _ _)

theorem heading_sectionOf {release : Release} {rest : List Release}
    (h : Releases (release :: rest)) : (sectionOf release).heading = release.1 := by
  rw [sectionOf, splitSection]
  dsimp only
  rw [splitOn_textOf h]
  rfl

theorem sectionOf_good {release : Release} {rest : List Release}
    (h : Releases (release :: rest)) : (sectionOf release).Good := by
  refine ⟨splitSection_shaped _, ?_, fun line hline => ?_⟩
  · rw [heading_sectionOf h]
    exact h.plain_release.1
  · obtain ⟨whole, hwhole, hline⟩ := mem_lines_splitSection hline
    rw [splitOn_textOf h, List.tail_cons] at hwhole
    have hplain := h.plain_release.2 whole hwhole
    have hhead := h.cut.bodies release List.mem_cons_self whole hwhole
    rcases hline with rfl | rfl
    · exact ⟨hplain, hhead⟩
    · exact ⟨fun hmem => hplain (mem_trimEnd hmem), isHeadline_trimEnd hhead⟩

def absorb (s t : Section) : Section := mergeSections s.trimmed t

theorem shaped_trimmed {s : Section} (h : s.Shaped) : s.trimmed.Shaped := by
  refine ⟨fun line hline => h.preamble line (mem_trimEdges hline), fun b hb => ?_⟩
  obtain ⟨block, hblock, rfl⟩ := List.mem_map.mp hb
  exact (h.blocks block hblock).with_lines fun line hline =>
    (h.blocks block hblock).lines line (mem_trimEdges hline)

theorem mem_lines_trimmed {s : Section} {line : Line} (h : line ∈ s.trimmed.lines) :
    line ∈ s.lines := by
  rcases List.mem_append.mp h with h | h
  · exact List.mem_append_left _ (mem_trimEdges h)
  · refine List.mem_append_right _ ?_
    obtain ⟨b, hb, hline⟩ := List.mem_flatMap.mp h
    obtain ⟨block, hblock, rfl⟩ := List.mem_map.mp hb
    refine List.mem_flatMap.mpr ⟨block, hblock, ?_⟩
    exact List.mem_cons.mpr ((List.mem_cons.mp hline).imp_right mem_trimEdges)

theorem Section.Good.absorb {s t : Section} (hs : s.Good) (ht : t.Good) : (absorb s t).Good := by
  refine ⟨mergeSections_shaped (shaped_trimmed hs.shaped) ht.shaped, hs.heading, ?_⟩
  intro line hline
  rcases mem_lines_mergeSections hline with hline | hline
  · exact hs.below line (mem_lines_trimmed hline)
  · exact ht.below line hline

theorem foldl_absorb_good {sections : List Section} {s : Section} (hs : s.Good)
    (h : ∀ t ∈ sections, t.Good) : (sections.foldl absorb s).Good := by
  induction sections generalizing s with
  | nil => exact hs
  | cons t sections ih =>
    obtain ⟨ht, hsections⟩ := List.forall_mem_cons.mp h
    exact ih (hs.absorb ht) hsections

theorem heading_foldl_absorb (sections : List Section) (s : Section) :
    (sections.foldl absorb s).heading = s.heading := by
  induction sections generalizing s with
  | nil => rfl
  | cons t sections ih => exact ih (absorb s t)

/-- The new section is merged into the first release of the version, and the others after it. -/
def writtenSection (new : Section) : List Release → Section
  | [] => new
  | first :: duplicates => (new :: duplicates.map sectionOf).foldl absorb (sectionOf first)

theorem writtenSection_good {new : Section} (hnew : new.Good) {held : List Release}
    (h : Releases held) : (writtenSection new held).Good := by
  cases held with
  | nil => exact hnew
  | cons first duplicates =>
    refine foldl_absorb_good (sectionOf_good h) (List.forall_mem_cons.mpr ⟨hnew, ?_⟩)
    intro t ht
    obtain ⟨release, hrelease, rfl⟩ := List.mem_map.mp ht
    have hone : Releases [release] := h.subset (by simpa using .inr hrelease)
    exact sectionOf_good hone

theorem mergeSection_renderBlocks {s : Section} (hs : s.Good) (release : Release) :
    mergeSection (renderBlocks s) (textOf release) = renderBlocks (absorb s (sectionOf release)) := by
  rw [mergeSection, splitSection_renderBlocks hs.shaped hs.plain]
  rfl

theorem foldl_mergeSection {s : Section} (hs : s.Good) {duplicates : List Release}
    (h : Releases duplicates) :
    (duplicates.map textOf).foldl mergeSection (renderBlocks s) =
      renderBlocks ((duplicates.map sectionOf).foldl absorb s) := by
  induction duplicates generalizing s with
  | nil => rfl
  | cons release rest ih =>
    rw [List.map_cons, List.foldl_cons, mergeSection_renderBlocks hs, List.map_cons,
      List.foldl_cons]
    exact ih (hs.absorb (sectionOf_good h)) h.of_cons

theorem mergeSection_textOf {new : Section} (hnew : new.Good) (hblank : new.trimmed = new)
    (release : Release) :
    mergeSection (textOf release) (renderBlocks new) =
      renderBlocks (absorb (sectionOf release) new) := by
  have htrimmed : (sectionOf release).trimmed = sectionOf release := splitSection_trimmed _
  rw [mergeSection, splitSection_renderBlocks hnew.shaped hnew.plain, hblank, absorb, htrimmed]
  rfl

/-! ## What a roll does to the list of releases -/

section PutInPlace
variable {β : Type*} (mine : β → Bool) (new : β)

def renewed : List β → List β
  | [] => []
  | b :: rest => if mine b then new :: rest.filter fun b => !mine b else b :: renewed rest

/-- The new element takes the place of the first of its kind, and the others of its kind go; it is
put in front of a list that has none. -/
def putInPlace (l : List β) : List β := if l.any mine then renewed mine new l else new :: l

variable {mine new}

variable (mine) in
theorem exists_first (l : List β) : (∀ b ∈ l, mine b = false) ∨
    ∃ front b back, l = front ++ b :: back ∧ (∀ x ∈ front, mine x = false) ∧ mine b = true := by
  induction l with
  | nil => exact .inl (by simp)
  | cons b l ih =>
    by_cases hb : mine b = true
    · exact .inr ⟨[], b, l, rfl, by simp, hb⟩
    · rw [Bool.not_eq_true] at hb
      rcases ih with hnone | ⟨front, x, back, rfl, hfront, hx⟩
      · exact .inl (List.forall_mem_cons.mpr ⟨hb, hnone⟩)
      · exact .inr ⟨b :: front, x, back, rfl, List.forall_mem_cons.mpr ⟨hb, hfront⟩, hx⟩

theorem putInPlace_of_none {l : List β} (h : ∀ b ∈ l, mine b = false) :
    putInPlace mine new l = new :: l := if_neg (by simpa using h)

theorem putInPlace_append {front back : List β} {b : β} (h : ∀ x ∈ front, mine x = false)
    (hb : mine b = true) : putInPlace mine new (front ++ b :: back) =
      front ++ new :: back.filter fun b => !mine b := by
  rw [putInPlace, if_pos (by simp [hb])]
  induction front with
  | nil => exact if_pos hb
  | cons x front ih =>
    obtain ⟨hx, hfront⟩ := List.forall_mem_cons.mp h
    rw [List.cons_append, renewed, if_neg (by simp [hx]), ih hfront]
    rfl

theorem filter_front {front : List β} (h : ∀ x ∈ front, mine x = false) :
    front.filter mine = [] ∧ front.filter (fun b => !mine b) = front :=
  ⟨List.filter_eq_nil_iff.mpr fun x hx => by simp [h x hx],
    List.filter_eq_self.mpr fun x hx => by simp [h x hx]⟩

/-- One of the kind is left. -/
theorem filter_putInPlace (hnew : mine new = true) (l : List β) :
    (putInPlace mine new l).filter mine = [new] := by
  rcases exists_first mine l with hnone | ⟨front, b, back, rfl, hfront, hb⟩
  · rw [putInPlace_of_none hnone, List.filter_cons_of_pos hnew, (filter_front hnone).1]
  · rw [putInPlace_append hfront hb, List.filter_append, (filter_front hfront).1,
      List.filter_cons_of_pos hnew, List.filter_filter]
    simp

/-- The others are left as they were. -/
theorem filter_not_putInPlace (hnew : mine new = true) (l : List β) :
    (putInPlace mine new l).filter (fun b => !mine b) = l.filter fun b => !mine b := by
  rcases exists_first mine l with hnone | ⟨front, b, back, rfl, hfront, hb⟩
  · rw [putInPlace_of_none hnone, List.filter_cons_of_neg (by simp [hnew])]
  · rw [putInPlace_append hfront hb, List.filter_append, List.filter_append,
      List.filter_cons_of_neg (by simp [hnew]), List.filter_cons_of_neg (by simp [hb]),
      List.filter_filter]
    simp

theorem mem_putInPlace {l : List β} {b : β} (h : b ∈ putInPlace mine new l) :
    b = new ∨ b ∈ l := by
  rcases exists_first mine l with hnone | ⟨front, x, back, rfl, hfront, hx⟩
  · rw [putInPlace_of_none hnone] at h
    exact List.mem_cons.mp h
  · rw [putInPlace_append hfront hx] at h
    rcases List.mem_append.mp h with h | h
    · exact .inr (List.mem_append_left _ h)
    · refine (List.mem_cons.mp h).imp_right fun h => ?_
      exact List.mem_append_right _ (List.mem_cons_of_mem _ (List.mem_filter.mp h).1)

variable (mine) in
theorem map_putInPlace {γ : Type*} (mine' : γ → Bool) (new : β) (f : β → γ)
    (h : ∀ b, mine' (f b) = mine b) (l : List β) :
    (putInPlace mine new l).map f = putInPlace mine' (f new) (l.map f) := by
  rcases exists_first mine l with hnone | ⟨front, b, back, rfl, hfront, hb⟩
  · rw [putInPlace_of_none hnone, putInPlace_of_none (by simpa [h] using hnone), List.map_cons]
  · rw [putInPlace_append hfront hb, List.map_append, List.map_append, List.map_cons, List.map_cons,
      putInPlace_append (by simpa [h] using hfront) ((h b).trans hb), List.filter_map]
    simp only [Function.comp_def, h]

end PutInPlace

def releaseOf (s : Section) : Release := (s.heading, [] :: s.body)

theorem textOf_releaseOf (s : Section) : textOf (releaseOf s) = renderBlocks s := by
  have hcons : '\n' :: unlines '\n' s.rendered = tailed '\n' s.rendered :=
    cons_unlines (List.cons_ne_nil _ _)
  rw [rendered_eq, tailed_cons] at hcons
  rw [renderBlocks, rendered_eq, (List.cons_inj_right '\n').mp hcons]
  rfl

theorem Section.Good.releases {s : Section} (h : s.Good) (hhead : isHeadline s.heading = true) :
    Releases [releaseOf s] := by
  have hbody : ∀ line ∈ [] :: s.body, '\n' ∉ line ∧ isHeadline line = false := by
    refine List.forall_mem_cons.mpr ⟨⟨List.not_mem_nil, rfl⟩, fun line hline => ?_⟩
    rcases mem_body hline with rfl | hline
    · exact ⟨List.not_mem_nil, rfl⟩
    · exact h.below line hline
  refine ⟨IsCut.cons hhead (fun line hline => (hbody line hline).2) ⟨by simp, by simp⟩, ?_⟩
  rw [unheaded_cons, unheaded_nil, List.append_nil]
  exact List.forall_mem_cons.mpr ⟨h.heading, fun line hline => (hbody line hline).1⟩

namespace Roll
variable (roll : Roll)

def mine : Release → Bool := ofVersion roll.version

/-- The section that the roll writes into a list of releases. -/
def written (parts : List Release) : Section :=
  writtenSection roll.newSection (parts.filter roll.mine)

def after (parts : List Release) : List Release :=
  putInPlace roll.mine (releaseOf (roll.written parts)) parts

theorem ofVersion_versionHeading :
    ofVersion roll.version (versionHeading roll.version roll.date, []) = true := by
  have hheading : versionHeading roll.version roll.date =
      needle roll.version ++ (" — ".toList ++ roll.date) := by
    rw [versionHeading, needle, List.append_assoc]
  rw [ofVersion, hheading, List.drop_left, List.isPrefixOf_iff_prefix.mpr (List.prefix_append _ _)]
  rfl

theorem isNumbered_versionHeading : isNumbered (versionHeading roll.version roll.date) = true := by
  obtain ⟨d, rest, hversion, hd⟩ := roll.exists_version_cons
  rw [versionHeading, hversion]
  simp [isNumbered, isHeadline, hd]

theorem releases_held {parts : List Release} (h : Releases parts) :
    Releases (parts.filter roll.mine) := h.subset fun _ hmem => (List.mem_filter.mp hmem).1

theorem written_good {parts : List Release} (h : Releases parts) : (roll.written parts).Good :=
  writtenSection_good roll.newSection_good (roll.releases_held h)

/-- The heading is that of the first release of the version, or the new one. -/
theorem heading_written {parts : List Release} (h : Releases parts) :
    (∃ first duplicates, parts.filter roll.mine = first :: duplicates ∧
        (roll.written parts).heading = first.1) ∨
      parts.filter roll.mine = [] ∧ roll.written parts = roll.newSection := by
  have hreleases := roll.releases_held h
  unfold written
  cases hheld : parts.filter roll.mine with
  | nil => exact .inr ⟨rfl, rfl⟩
  | cons first duplicates =>
    rw [hheld] at hreleases
    refine .inl ⟨first, duplicates, rfl, ?_⟩
    rw [writtenSection, heading_foldl_absorb, heading_sectionOf hreleases]

theorem ofVersion_written {parts : List Release} (h : Releases parts) :
    roll.mine (releaseOf (roll.written parts)) = true := by
  rcases roll.heading_written h with ⟨first, duplicates, hheld, hheading⟩ | ⟨-, hnew⟩
  · have hfirst : first ∈ parts.filter roll.mine := hheld ▸ List.mem_cons_self
    have hmine := (List.mem_filter.mp hfirst).2
    rwa [mine, ofVersion, releaseOf, hheading]
  · rw [hnew]
    exact roll.ofVersion_versionHeading

theorem releases_written {parts : List Release} (h : Releases parts) :
    Releases [releaseOf (roll.written parts)] :=
  (roll.written_good h).releases (isHeadline_of_ofVersion (roll.ofVersion_written h))

theorem releases_after {parts : List Release} (h : Releases parts) :
    Releases (roll.after parts) := by
  refine (h.append (roll.releases_written h)).subset fun release hrelease => ?_
  rcases mem_putInPlace hrelease with rfl | hrelease
  · exact List.mem_append_right _ List.mem_cons_self
  · exact List.mem_append_left _ hrelease

/-- The list starts with a numbered release still. -/
theorem isNumbered_head_after {parts : List Release} (h : Releases parts)
    (hhead : ∀ first ∈ parts.head?, isNumbered first.1 = true) :
    ∃ first rest, roll.after parts = first :: rest ∧ isNumbered first.1 = true := by
  unfold after
  rcases exists_first roll.mine parts with hnone | ⟨front, b, back, hparts, hfront, hb⟩
  · rw [putInPlace_of_none hnone]
    refine ⟨_, _, rfl, ?_⟩
    rcases roll.heading_written h with ⟨first, duplicates, hheld, -⟩ | ⟨-, hnew⟩
    · rw [(filter_front hnone).1] at hheld
      cases hheld
    · rw [hnew]
      exact roll.isNumbered_versionHeading
  · have hmap := congrArg (putInPlace roll.mine (releaseOf (roll.written parts))) hparts
    rw [hmap, putInPlace_append hfront hb]
    cases front with
    | nil =>
      refine ⟨_, _, rfl, ?_⟩
      rcases roll.heading_written h with ⟨first, duplicates, hheld, hheading⟩ | ⟨hheld, -⟩
      · rw [hparts, List.nil_append, List.filter_cons_of_pos hb] at hheld
        obtain ⟨rfl, -⟩ := List.cons.inj hheld
        rw [releaseOf, hheading]
        exact hhead b (by rw [hparts]; rfl)
      · rw [hparts, List.nil_append, List.filter_cons_of_pos hb] at hheld
        cases hheld
    | cons first front =>
      exact ⟨first, _, rfl, hhead first (by rw [hparts]; rfl)⟩

theorem rolledSection_joined {parts : List Release} (h : Releases parts) :
    rolledSection (joined parts) roll.rendered roll.version =
      (foundAll roll.version parts, renderBlocks (roll.written parts)) := by
  have htexts := foundAll_texts roll.version parts
  have hreleases := roll.releases_held h
  unfold rolledSection written mine at *
  rw [findReleases_joined roll.newline_not_mem_version h]
  dsimp only
  cases hheld : parts.filter (ofVersion roll.version) with
  | nil =>
    rw [hheld, List.map_nil, List.map_eq_nil_iff] at htexts
    rw [htexts, rendered_eq]
    rfl
  | cons first duplicates =>
    rw [hheld] at htexts hreleases
    cases hfound : (foundAll roll.version parts).1 with
    | nil =>
      rw [hfound] at htexts
      cases htexts
    | cons found rest =>
      rw [hfound, List.map_cons, List.map_cons] at htexts
      obtain ⟨hfirst, hrest⟩ := List.cons.inj htexts
      have hfold : ∀ text, rest.foldl (fun text duplicate => mergeSection text duplicate.2) text =
          (rest.map Prod.snd).foldl mergeSection text := by
        intro text
        rw [List.foldl_map]
      dsimp only
      rw [hfold, hrest, hfirst, rendered_eq,
        mergeSection_textOf roll.newSection_good roll.newSection_trimmed]
      have hgood := (sectionOf_good hreleases).absorb roll.newSection_good
      rw [foldl_mergeSection hgood hreleases.of_cons]
      rfl

/-- The text below the skeleton. -/
def spliced (tail : List Char) : List Char :=
  let rolled := rolledSection tail roll.rendered roll.version
  match rolled.1.1 with
  | [] => roll.rendered ++ '\n' :: tail
  | (gap, _) :: duplicates => gap ++ rolled.2 ++ withoutDuplicates duplicates rolled.1.2

theorem insertRelease_of_split {changelog above tail : List Char}
    (h : unreleasedSplit changelog = .ok (some (above, tail))) :
    insertRelease changelog roll.rendered roll.version =
      .ok (above ++ skeleton ++ '\n' :: roll.spliced tail) := by
  unfold insertRelease spliced
  rw [h]
  dsimp only [bind, Except.bind]
  cases (rolledSection tail roll.rendered roll.version).1.1 with
  | nil => simp [pure, Except.pure]
  | cons found duplicates => simp [pure, Except.pure]

theorem exists_split_of_ok {changelog rendered version result : List Char}
    (h : insertRelease changelog rendered version = .ok result) :
    ∃ above tail, unreleasedSplit changelog = .ok (some (above, tail)) := by
  unfold insertRelease at h
  cases hsplit : unreleasedSplit changelog with
  | error error =>
    rw [hsplit] at h
    cases h
  | ok cut =>
    cases cut with
    | none =>
      rw [hsplit] at h
      cases h
    | some cut => exact ⟨cut.1, cut.2, rfl⟩

theorem previewSection_joined {changelog above : List Char} {parts : List Release}
    (h : unreleasedSplit changelog = .ok (some (above, joined parts))) (hparts : Releases parts) :
    previewSection changelog roll.rendered roll.version = .ok (renderBlocks (roll.written parts)) := by
  unfold previewSection
  rw [h]
  dsimp only [bind, Except.bind]
  rw [roll.rolledSection_joined hparts]
  rfl

theorem foundAll_append {version : List Char} {front back : List Release} {b : Release}
    (hfront : ∀ x ∈ front, ofVersion version x = false) (hb : ofVersion version b = true) :
    foundAll version (front ++ b :: back) =
      ((if front = [] then [] else joined front ++ ['\n'], textOf b) ::
        (foundIn version [] back).1, (foundIn version [] back).2) := by
  cases front with
  | nil => exact if_pos hb
  | cons first front =>
    obtain ⟨hfirst, hfront⟩ := List.forall_mem_cons.mp hfront
    rw [List.cons_append, foundAll, if_neg (by simp [hfirst]), foundIn_of_others hfront, foundIn,
      if_pos hb, if_neg (List.cons_ne_nil _ _), joined_cons]

/-- The text that is written is that of the releases after the roll. -/
theorem spliced_joined {parts : List Release} (h : Releases parts) :
    ∃ extra, (extra = [] ∨ extra = ['\n']) ∧
      roll.spliced (joined parts) = joined (roll.after parts) ++ extra := by
  unfold spliced after
  rw [roll.rolledSection_joined h]
  dsimp only
  rcases exists_first roll.mine parts with hnone | ⟨front, b, back, hparts, hfront, hb⟩
  · have htexts := foundAll_texts roll.version parts
    have hheld : parts.filter (ofVersion roll.version) = [] := (filter_front hnone).1
    rw [hheld, List.map_nil, List.map_eq_nil_iff] at htexts
    have hnew : roll.written parts = roll.newSection := by
      unfold written mine
      rw [hheld]
      rfl
    rw [htexts, putInPlace_of_none hnone, joined_cons, textOf_releaseOf, hnew, ← rendered_eq]
    dsimp only
    by_cases hne : parts = []
    · exact ⟨['\n'], .inr rfl, by rw [hne]; simp [joined]⟩
    · exact ⟨[], .inl rfl, by rw [cons_joined hne, List.append_nil]⟩
  · have hback : Releases back := h.subset (by rw [hparts]; simp)
    obtain ⟨extra, hextra, hrest⟩ :=
      withoutDuplicates_foundIn roll.version Releases.nil hback
    rw [written_nil, List.nil_append] at hrest
    have hmap := congrArg (putInPlace roll.mine (releaseOf (roll.written parts))) hparts
    have hfound := (congrArg (foundAll roll.version) hparts).trans (foundAll_append hfront hb)
    refine ⟨extra, hextra, ?_⟩
    rw [hmap, putInPlace_append hfront hb, hfound]
    dsimp only
    rw [hrest]
    cases front with
    | nil =>
      rw [if_pos rfl, List.nil_append, List.nil_append, joined_cons, textOf_releaseOf]
      simp [mine]
    | cons first front =>
      rw [if_neg (List.cons_ne_nil _ _), List.cons_append, joined_cons, joined_cons,
        written_append, written_cons, textOf_releaseOf]
      simp [mine]

end Roll

end Changelog
