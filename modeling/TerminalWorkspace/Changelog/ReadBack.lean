import TerminalWorkspace.Changelog.Merging

/-! A rendered section read back, and what holds of whole sections that are merged. -/
namespace Changelog
open HeadedLists JsText RecordFile

/-! ## Reading back -/

/-- The subheading is written as it is read. -/
structure Block.Shaped (block : Block) : Prop where
  label : labelOf (trimEnd block.raw) = block.label
  raw : block.label ≠ none → trimEnd block.raw = block.raw
  subheading : isSubheading block.raw = true
  lines : ∀ line ∈ block.lines, isSubheading line = false

structure Section.Shaped (s : Section) : Prop where
  preamble : ∀ line ∈ s.preamble, isSubheading line = false
  blocks : ∀ block ∈ s.blocks, block.Shaped

/-- The lines below the heading that are not separators. -/
def Section.lines (s : Section) : List Line :=
  s.preamble ++ s.blocks.flatMap fun block => block.raw :: block.lines

def Section.trimmed (s : Section) : Section :=
  { s with preamble := trimEdges s.preamble, blocks := s.blocks.map Block.trimmed }

theorem mem_trimEdges {lines : List Line} {line : Line} (h : line ∈ trimEdges lines) :
    line ∈ lines := mem_of_mem_trim _ h

theorem labelOf_eq_some {text : Line} {label : Label} (h : labelOf text = some label) :
    text = label.heading := by
  simpa using List.find?_some h

theorem isSubheading_heading (label : Label) : isSubheading label.heading = true := by
  cases label <;> decide

theorem trimEnd_trimEnd (line : Line) : trimEnd (trimEnd line) = trimEnd line :=
  List.rdropWhile_idempotent _ _

theorem mem_trimEnd {line : Line} {c : Char} (h : c ∈ trimEnd line) : c ∈ line :=
  (List.rdropWhile_prefix _ _).subset h

theorem opened_shaped {line : Line} {lines : List Line} (h : isSubheading line = true)
    (hlines : ∀ x ∈ lines, isSubheading x = false) : (Block.opened line lines).Shaped := by
  cases hlabel : labelOf (trimEnd line) with
  | none =>
    have hopened : Block.opened line lines = ⟨none, line, lines⟩ := by
      simp [Block.opened, hlabel]
    rw [hopened]
    exact ⟨hlabel, fun hne => absurd rfl hne, h, hlines⟩
  | some label =>
    have hopened : Block.opened line lines = ⟨some label, trimEnd line, lines⟩ := by
      simp [Block.opened, hlabel]
    rw [hopened]
    refine ⟨?_, fun _ => trimEnd_trimEnd line, ?_, hlines⟩
    · rw [trimEnd_trimEnd, hlabel]
    · rw [labelOf_eq_some hlabel]
      exact isSubheading_heading label

theorem Block.Shaped.opened_raw {block : Block} (h : block.Shaped) (lines : List Line) :
    Block.opened block.raw lines = { block with lines } := by
  unfold Block.opened
  dsimp only
  rw [h.label]
  cases hlabel : block.label with
  | none => rfl
  | some label =>
    rw [Option.isSome_some, if_pos rfl, h.raw (by simp [hlabel])]

theorem splitSection_shaped (text : List Char) : (splitSection text).Shaped := by
  have hcut := isCut_headed isSubheading (belowHeading (text.splitOn '\n'))
  constructor
  · intro line hline
    exact headed_front _ line (mem_trimEdges hline)
  · intro block hblock
    obtain ⟨part, hpart, rfl⟩ := List.mem_map.mp hblock
    exact opened_shaped (hcut.heads part hpart) fun x hx =>
      hcut.bodies part hpart x (mem_trimEdges hx)

theorem mem_unheaded_iff {β : Type*} {parts : List (β × List β)} {x : β} :
    x ∈ unheaded parts ↔ ∃ part ∈ parts, x = part.1 ∨ x ∈ part.2 := by
  simp [unheaded, List.mem_flatMap]

/-- A section has no lines but those of its text, less what a label heading ends in. -/
theorem mem_lines_splitSection {text : List Char} {line : Line}
    (h : line ∈ (splitSection text).lines) :
    ∃ whole ∈ (text.splitOn '\n').tail, line = whole ∨ line = trimEnd whole := by
  have hbelow : ∀ x ∈ belowHeading (text.splitOn '\n'), x ∈ (text.splitOn '\n').tail := by
    intro x hx
    unfold belowHeading at hx
    split_ifs at hx
    · exact List.mem_of_mem_tail hx
    · exact hx
  have hall := append_unheaded_headed isSubheading
    (belowHeading (text.splitOn '\n'))
  rcases List.mem_append.mp h with hpre | hblocks
  · refine ⟨line, hbelow line ?_, .inl rfl⟩
    rw [← hall]
    exact List.mem_append_left _ (mem_trimEdges hpre)
  · obtain ⟨block, hblock, hline⟩ := List.mem_flatMap.mp hblocks
    obtain ⟨part, hpart, rfl⟩ := List.mem_map.mp hblock
    rcases List.mem_cons.mp hline with rfl | hline
    · refine ⟨part.1, hbelow _ ?_, ?_⟩
      · rw [← hall]
        exact List.mem_append_right _ (mem_unheaded_iff.mpr ⟨part, hpart, .inl rfl⟩)
      · unfold Block.opened
        dsimp only
        split_ifs
        · exact .inr rfl
        · exact .inl rfl
    · refine ⟨line, hbelow line ?_, .inl rfl⟩
      rw [← hall]
      exact List.mem_append_right _
        (mem_unheaded_iff.mpr ⟨part, hpart, .inr (mem_trimEdges hline)⟩)

theorem trimEdges_renderPreamble (preamble : List Line) :
    trimEdges (renderPreamble preamble) = trimEdges preamble := by
  unfold renderPreamble
  split_ifs with h
  · rw [h]
  · exact trim_concat_space _ rfl _

/-- What a block is read back from. -/
def Block.part (block : Block) : Line × List Line :=
  (block.raw, [] :: if block.lines = [] then [] else block.lines ++ [[]])

theorem trimEdges_part (block : Block) : trimEdges block.part.2 = trimEdges block.lines := by
  have hcons : ∀ lines : List Line, trimEdges ([] :: lines) = trimEdges lines := by
    intro lines
    rw [trimEdges, trim, List.dropWhile_cons_of_pos (by rfl)]
    rfl
  rw [Block.part, hcons]
  split_ifs with h
  · rw [h]
  · exact trim_concat_space _ rfl _

def Section.body (s : Section) : List Line :=
  renderPreamble s.preamble ++ unheaded (s.blocks.map Block.part)

theorem rendered_eq (s : Section) : s.rendered = s.heading :: [] :: s.body := by
  have hblocks : s.blocks.flatMap renderBlock = unheaded (s.blocks.map Block.part) := by
    rw [unheaded, List.flatMap_map]
    rfl
  rw [Section.rendered, Section.body, hblocks]
  rfl

theorem mem_body {s : Section} {line : Line} (h : line ∈ s.body) : line = [] ∨ line ∈ s.lines := by
  rcases List.mem_append.mp h with hpre | hblocks
  · unfold renderPreamble at hpre
    split_ifs at hpre
    · cases hpre
    · rcases List.mem_append.mp hpre with hpre | hpre
      · exact .inr (List.mem_append_left _ hpre)
      · exact .inl (List.mem_singleton.mp hpre)
  · obtain ⟨part, hpart, hline⟩ := mem_unheaded_iff.mp hblocks
    obtain ⟨block, hblock, rfl⟩ := List.mem_map.mp hpart
    have hin : ∀ x ∈ block.raw :: block.lines, x ∈ s.lines := fun x hx =>
      List.mem_append_right _ (List.mem_flatMap.mpr ⟨block, hblock, hx⟩)
    rcases hline with rfl | hline
    · exact .inr (hin _ List.mem_cons_self)
    · rcases List.mem_cons.mp hline with rfl | hline
      · exact .inl rfl
      · split_ifs at hline
        · cases hline
        · rcases List.mem_append.mp hline with hline | hline
          · exact .inr (hin _ (List.mem_cons_of_mem _ hline))
          · exact .inl (List.mem_singleton.mp hline)

/-- The lines of the section's text are those it is written with. -/
def Section.Plain (s : Section) : Prop := ∀ line ∈ s.heading :: s.lines, '\n' ∉ line

theorem splitOn_renderBlocks {s : Section} (h : s.Plain) :
    (renderBlocks s).splitOn '\n' = s.heading :: [] :: s.body := by
  rw [renderBlocks, rendered_eq]
  refine splitOn_unlines (fun line hline => ?_) (List.cons_ne_nil _ _)
  obtain ⟨hheading, hlines⟩ := List.forall_mem_cons.mp h
  rcases List.mem_cons.mp hline with rfl | hline
  · exact hheading
  · rcases List.mem_cons.mp hline with rfl | hline
    · exact List.not_mem_nil
    · rcases mem_body hline with rfl | hline
      · exact List.not_mem_nil
      · exact hlines line hline

theorem headed_body {s : Section} (h : s.Shaped) :
    headed isSubheading s.body = (renderPreamble s.preamble, s.blocks.map Block.part) := by
  have hblank : isSubheading [] = false := rfl
  refine headed_append_unheaded (fun line hline => ?_) ⟨fun part hpart => ?_, fun part hpart => ?_⟩
  · unfold renderPreamble at hline
    split_ifs at hline
    · cases hline
    · rcases List.mem_append.mp hline with hline | hline
      · exact h.preamble line hline
      · rw [List.mem_singleton.mp hline, hblank]
  · obtain ⟨block, hblock, rfl⟩ := List.mem_map.mp hpart
    exact (h.blocks block hblock).subheading
  · obtain ⟨block, hblock, rfl⟩ := List.mem_map.mp hpart
    have hlines := (h.blocks block hblock).lines
    refine List.forall_mem_cons.mpr ⟨hblank, fun line hline => ?_⟩
    split_ifs at hline
    · cases hline
    · rcases List.mem_append.mp hline with hline | hline
      · exact hlines line hline
      · rw [List.mem_singleton.mp hline, hblank]

/-- Reading a rendered section gives it back without the blank lines at its edges. -/
theorem splitSection_renderBlocks {s : Section} (h : s.Shaped) (hplain : s.Plain) :
    splitSection (renderBlocks s) = s.trimmed := by
  have hbelow : belowHeading (s.heading :: [] :: s.body) = s.body := rfl
  unfold splitSection
  dsimp only
  rw [splitOn_renderBlocks hplain, hbelow, headed_body h]
  dsimp only
  rw [trimEdges_renderPreamble, List.map_map, Section.trimmed]
  refine congrArg (Section.mk s.heading (trimEdges s.preamble)) ?_
  refine List.map_congr_left fun block hblock => ?_
  rw [Function.comp_apply, trimEdges_part]
  exact (h.blocks block hblock).opened_raw _

/-! ## Whole sections -/

theorem mergePreamble_spec (preamble incoming : List Line) :
    preamble <+: mergePreamble preamble incoming ∧
      (contentOf (mergePreamble preamble incoming)).eraseDups =
        (contentOf preamble ++ contentOf incoming).eraseDups ∧
      ∀ line ∈ mergePreamble preamble incoming, line ∈ preamble ∨ line ∈ incoming := by
  induction incoming generalizing preamble with
  | nil => exact ⟨List.prefix_rfl, by rw [contentOf_nil, List.append_nil]; rfl, fun _ h => .inl h⟩
  | cons line incoming ih =>
    rw [mergePreamble, List.foldl_cons]
    by_cases hadds : (isContent line && !preamble.contains line) = true
    · rw [if_pos hadds]
      rw [Bool.and_eq_true] at hadds
      obtain ⟨hfirst, heq, hmem⟩ := ih (preamble ++ [line])
      have hline : contentOf [line] = [line] := List.filter_cons_of_pos hadds.1
      refine ⟨(List.prefix_append _ _).trans hfirst, heq.trans ?_, fun x hx => ?_⟩
      · rw [contentOf_append, List.append_assoc, ← contentOf_append]
        rfl
      · rcases hmem x hx with hx | hx
        · exact (List.mem_append.mp hx).imp_right fun hx =>
            List.mem_cons.mpr (.inl (List.mem_singleton.mp hx))
        · exact .inr (List.mem_cons_of_mem _ hx)
    · rw [if_neg hadds]
      obtain ⟨hfirst, heq, hmem⟩ := ih preamble
      refine ⟨hfirst, heq.trans ?_, fun x hx => (hmem x hx).imp_right (List.mem_cons_of_mem _)⟩
      by_cases hcontent : isContent line = true
      · have hin : line ∈ contentOf preamble := by
          refine mem_contentOf.mpr ⟨?_, hcontent⟩
          simpa [hcontent] using hadds
        have hcons : contentOf (line :: incoming) = [line] ++ contentOf incoming :=
          List.filter_cons_of_pos hcontent
        have hnothing : (contentOf preamble ++ [line]).eraseDups =
            (contentOf preamble).eraseDups := by
          rw [List.eraseDups_append]
          simp [List.removeAll, hin]
        rw [hcons, ← List.append_assoc]
        exact eraseDups_append_congr hnothing.symm rfl
      · have hcons : contentOf (line :: incoming) = contentOf incoming :=
          List.filter_cons_of_neg hcontent
        rw [hcons]

theorem mergePreamble_eq_self {preamble incoming : List Line}
    (h : contentOf incoming ⊆ preamble) : mergePreamble preamble incoming = preamble := by
  induction incoming with
  | nil => rfl
  | cons line incoming ih =>
    rw [mergePreamble, List.foldl_cons]
    have hskip : (isContent line && !preamble.contains line) = false := by
      by_cases hcontent : isContent line = true
      · have hin : line ∈ preamble := h (mem_contentOf.mpr ⟨List.mem_cons_self, hcontent⟩)
        simp [hin]
      · simp [hcontent]
    rw [hskip]
    refine ih fun x hx => h ?_
    obtain ⟨hx, hcontent⟩ := mem_contentOf.mp hx
    exact mem_contentOf.mpr ⟨List.mem_cons_of_mem _ hx, hcontent⟩

theorem mem_mergeBlock {blocks : List Block} {block b : Block} (h : b ∈ mergeBlock blocks block) :
    b ∈ blocks ∨ (∃ x ∈ blocks, b = addLines block.lines x) ∨ b = block.cleared := by
  rcases mergeBlock_cases blocks block with
    ⟨before, x, after, hcase⟩ | hcase | ⟨before, after, hcase⟩
  · rw [hcase.merged_eq] at h
    rw [hcase.blocks_eq]
    rcases List.mem_append.mp h with hfront | hback
    · exact .inl (List.mem_append_left _ hfront)
    · rcases List.mem_cons.mp hback with rfl | hback
      · exact .inr (.inl ⟨x, List.mem_append_right _ List.mem_cons_self, rfl⟩)
      · exact .inl (List.mem_append_right _ (List.mem_cons_of_mem _ hback))
  · rw [hcase.merged_eq] at h
    exact .inl h
  · rw [hcase.merged_eq] at h
    rw [hcase.blocks_eq]
    rcases List.mem_append.mp h with hfront | hback
    · exact .inl (List.mem_append_left _ hfront)
    · rcases List.mem_cons.mp hback with rfl | hback
      · exact .inr (.inr rfl)
      · exact .inl (List.mem_append_right _ hback)

theorem Block.Shaped.with_lines {block : Block} (h : block.Shaped) {lines : List Line}
    (hlines : ∀ line ∈ lines, isSubheading line = false) :
    Block.Shaped { block with lines } := ⟨h.label, h.raw, h.subheading, hlines⟩

theorem shaped_mergeBlock {blocks : List Block} {block : Block}
    (h : ∀ b ∈ blocks, b.Shaped) (hblock : block.Shaped) :
    ∀ b ∈ mergeBlock blocks block, b.Shaped := by
  intro b hb
  rcases mem_mergeBlock hb with hb | ⟨x, hx, rfl⟩ | rfl
  · exact h b hb
  · rw [addLines_eq]
    refine (h x hx).with_lines fun line hline => ?_
    exact (mem_lines_addLines hline).elim ((h x hx).lines line) (hblock.lines line)
  · exact hblock.with_lines fun line hline => hblock.lines line (List.mem_filter.mp hline).1

theorem mem_lines_mergeBlock {blocks : List Block} {block : Block} {line : Line}
    (h : line ∈ (mergeBlock blocks block).flatMap fun b => b.raw :: b.lines) :
    line ∈ (blocks.flatMap fun b => b.raw :: b.lines) ∨ line ∈ block.raw :: block.lines := by
  obtain ⟨b, hb, hline⟩ := List.mem_flatMap.mp h
  rcases mem_mergeBlock hb with hb | ⟨x, hx, rfl⟩ | rfl
  · exact .inl (List.mem_flatMap.mpr ⟨b, hb, hline⟩)
  · rw [raw_addLines] at hline
    have hin : ∀ y ∈ x.raw :: x.lines, y ∈ blocks.flatMap fun b => b.raw :: b.lines :=
      fun y hy => List.mem_flatMap.mpr ⟨x, hx, hy⟩
    rcases List.mem_cons.mp hline with rfl | hline
    · exact .inl (hin _ List.mem_cons_self)
    · exact (mem_lines_addLines hline).imp (fun hline => hin _ (List.mem_cons_of_mem _ hline))
        (List.mem_cons_of_mem _)
  · refine .inr ?_
    rcases List.mem_cons.mp hline with rfl | hline
    · exact List.mem_cons_self
    · exact List.mem_cons_of_mem _ (List.mem_filter.mp hline).1

theorem shaped_foldl {incoming blocks : List Block} (h : ∀ b ∈ blocks, b.Shaped)
    (hincoming : ∀ b ∈ incoming, b.Shaped) : ∀ b ∈ incoming.foldl mergeBlock blocks, b.Shaped := by
  induction incoming generalizing blocks with
  | nil => exact h
  | cons block incoming ih =>
    obtain ⟨hblock, hincoming⟩ := List.forall_mem_cons.mp hincoming
    exact ih (shaped_mergeBlock h hblock) hincoming

theorem mergeSections_shaped {s r : Section} (hs : s.Shaped) (hr : r.Shaped) :
    (mergeSections s r).Shaped := by
  constructor
  · intro line hline
    exact ((mergePreamble_spec s.preamble r.preamble).2.2 line hline).elim
      (hs.preamble line) (hr.preamble line)
  · exact shaped_foldl hs.blocks hr.blocks

theorem mem_lines_mergeSections {s r : Section} {line : Line}
    (h : line ∈ (mergeSections s r).lines) : line ∈ s.lines ∨ line ∈ r.lines := by
  have hblocks : ∀ incoming blocks : List Block,
      (line ∈ (incoming.foldl mergeBlock blocks).flatMap fun b => b.raw :: b.lines) →
      (line ∈ blocks.flatMap fun b => b.raw :: b.lines) ∨
        line ∈ incoming.flatMap fun b => b.raw :: b.lines := by
    intro incoming
    induction incoming with
    | nil => exact fun blocks h => .inl h
    | cons block incoming ih =>
      intro blocks h
      rw [List.flatMap_cons]
      rcases ih _ h with h | h
      · exact (mem_lines_mergeBlock h).imp_right (List.mem_append_left _)
      · exact .inr (List.mem_append_right _ h)
  rcases List.mem_append.mp h with h | h
  · exact ((mergePreamble_spec s.preamble r.preamble).2.2 line h).imp
      (List.mem_append_left _) (List.mem_append_left _)
  · exact (hblocks r.blocks s.blocks h).imp (List.mem_append_right _) (List.mem_append_right _)

section Trimmed
variable {key : Label ⊕ Line} (s : Section)

@[simp] theorem firstUnder_trimmed :
    firstUnder key s.trimmed.blocks = firstUnder key s.blocks := by
  rw [Section.trimmed, firstUnder, List.find?_map, firstUnder]
  have hsame : (fun b : Block => decide (b.key = key)) ∘ Block.trimmed =
      fun b => decide (b.key = key) := rfl
  rw [hsame]
  cases s.blocks.find? fun b => b.key = key with
  | none => rfl
  | some b => exact contentOf_trimEdges b.lines

@[simp] theorem under_trimmed : under key s.trimmed.blocks = under key s.blocks := by
  unfold Section.trimmed
  dsimp only
  induction s.blocks with
  | nil => rfl
  | cons b blocks ih =>
    rw [List.map_cons, under_cons, under_cons b, ih]
    congr 1
    by_cases hb : b.key = key
    · rw [under_singleton_pos (b := b.trimmed) hb, under_singleton_pos hb]
      exact contentOf_trimEdges b.lines
    · rw [under_singleton_neg (b := b.trimmed) hb, under_singleton_neg hb]

theorem labelsInOrder_trimmed_iff : LabelsInOrder s.trimmed.blocks ↔ LabelsInOrder s.blocks := by
  have hlabels : s.trimmed.blocks.filterMap Block.label = s.blocks.filterMap Block.label := by
    rw [Section.trimmed, List.filterMap_map]
    rfl
  rw [LabelsInOrder, hlabels, LabelsInOrder]

end Trimmed

theorem Holds.trimmed {s : Section} {block : Block} (h : Holds s.blocks block) :
    Holds s.trimmed.blocks block := by
  refine ⟨by rw [firstUnder_trimmed]; exact h.1, fun hnew => h.2 fun b hb => ?_⟩
  exact hnew b.trimmed (List.mem_map_of_mem hb)

/-- Merging the same section again finds everything there. -/
theorem mergeSections_again (s r : Section) :
    mergeSections (mergeSections s r).trimmed r = (mergeSections s r).trimmed := by
  have hpreamble : mergePreamble (mergeSections s r).trimmed.preamble r.preamble =
      (mergeSections s r).trimmed.preamble := by
    refine mergePreamble_eq_self fun line hline => ?_
    have heq := (mergePreamble_spec s.preamble r.preamble).2.1
    have hin : line ∈ contentOf (mergePreamble s.preamble r.preamble) := by
      rw [← List.mem_eraseDups, heq, List.mem_eraseDups]
      exact List.mem_append_right _ hline
    rw [← contentOf_trimEdges] at hin
    exact (mem_contentOf.mp hin).1
  have hblocks : r.blocks.foldl mergeBlock (mergeSections s r).trimmed.blocks =
      (mergeSections s r).trimmed.blocks :=
    foldl_mergeBlock_eq_self fun block hblock => (holds_foldl hblock s.blocks).trimmed
  rw [mergeSections, hpreamble, hblocks]

theorem trimEdges_trimEdges (lines : List Line) :
    trimEdges (trimEdges lines) = trimEdges lines := trim_trim _ lines

theorem trimEdges_of_ne_nil {lines : List Line} (h : ∀ line ∈ lines, line ≠ []) :
    trimEdges lines = lines := by
  have hdrop : ∀ more : List Line, (∀ line ∈ more, line ≠ []) →
      more.dropWhile List.isEmpty = more := by
    intro more hmore
    cases more with
    | nil => rfl
    | cons line more =>
      have hline := hmore line List.mem_cons_self
      exact List.dropWhile_cons_of_neg (by simpa using hline)
  rw [trimEdges, trim, hdrop lines h, List.rdropWhile, hdrop _ (by simpa using h),
    List.reverse_reverse]

theorem Section.trimmed_trimmed (s : Section) : s.trimmed.trimmed = s.trimmed := by
  rw [Section.trimmed, Section.trimmed]
  simp only [trimEdges_trimEdges, List.map_map]
  refine congrArg (Section.mk _ _) (List.map_congr_left fun b _ => ?_)
  simp [Block.trimmed, trimEdges_trimEdges]

/-- What has been read has no blank lines at its edges. -/
theorem splitSection_trimmed (text : List Char) :
    (splitSection text).trimmed = splitSection text := by
  rw [Section.trimmed, splitSection]
  dsimp only
  rw [trimEdges_trimEdges, List.map_map]
  refine congrArg (Section.mk _ _) (List.map_congr_left fun part _ => ?_)
  unfold Block.opened Block.trimmed
  simp [trimEdges_trimEdges]

/-! Blank lines at the end of a section are not read. -/

theorem trimEdges_rdropWhile (lines : List Line) :
    trimEdges (lines.rdropWhile List.isEmpty) = trimEdges lines := by
  induction lines using List.reverseRecOn with
  | nil => rfl
  | append_singleton lines line ih =>
    by_cases hline : line.isEmpty = true
    · rw [List.rdropWhile_concat_pos _ _ _ hline, ih, trimEdges, trimEdges,
        trim_concat_space _ hline]
    · rw [List.rdropWhile_concat_neg _ _ _ hline]

theorem trimEdges_congr {lines lines' : List Line}
    (h : lines.rdropWhile List.isEmpty = lines'.rdropWhile List.isEmpty) :
    trimEdges lines = trimEdges lines' := by
  rw [← trimEdges_rdropWhile, h, trimEdges_rdropWhile]

def sectionOfLines (lines : List Line) : Section :=
  let cut := headed isSubheading (belowHeading lines)
  { heading := lines.headD []
    preamble := trimEdges cut.1
    blocks := cut.2.map fun part => .opened part.1 (trimEdges part.2) }

theorem splitSection_eq (text : List Char) :
    splitSection text = sectionOfLines (text.splitOn '\n') := rfl

theorem map_opened_trimmed (parts : List (Line × List Line)) :
    (trimmed List.isEmpty parts).map (fun part => Block.opened part.1 (trimEdges part.2)) =
      parts.map fun part => Block.opened part.1 (trimEdges part.2) := by
  rw [trimmed, List.map_map]
  refine List.map_congr_left fun part _ => ?_
  rw [Function.comp_apply, trimEdges_rdropWhile]

theorem sectionOfLines_concat (heading : Line) (body : List Line) :
    sectionOfLines (heading :: (body ++ [[]])) = sectionOfLines (heading :: body) := by
  have hbelow : body = [] ∨ belowHeading (heading :: (body ++ [[]])) =
      belowHeading (heading :: body) ++ [[]] := by
    cases body with
    | nil => exact .inl rfl
    | cons line body =>
      refine .inr ?_
      unfold belowHeading
      by_cases hline : line = []
      · simp [hline]
      · simp [hline]
  rcases hbelow with rfl | hbelow
  · rfl
  · obtain ⟨hfront, hparts⟩ := trimmed_headed_concat isSubheading List.isEmpty
      (by rfl : isSubheading [] = false) (by rfl) (belowHeading (heading :: body))
    unfold sectionOfLines
    dsimp only
    rw [hbelow, trimEdges_congr hfront, ← map_opened_trimmed, hparts, map_opened_trimmed]
    rfl

theorem sectionOfLines_rdropWhile (heading : Line) (body : List Line) :
    sectionOfLines (heading :: body.rdropWhile List.isEmpty) =
      sectionOfLines (heading :: body) := by
  induction body using List.reverseRecOn with
  | nil => rfl
  | append_singleton body line ih =>
    by_cases hline : line.isEmpty = true
    · rw [List.rdropWhile_concat_pos _ _ _ hline, ih]
      rw [List.isEmpty_iff.mp hline, sectionOfLines_concat]
    · rw [List.rdropWhile_concat_neg _ _ _ hline]

end Changelog
