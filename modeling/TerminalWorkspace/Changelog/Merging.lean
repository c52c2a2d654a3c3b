import TerminalWorkspace.Changelog.Ledger

/-! What merging one section into another keeps and adds. -/
namespace Changelog
open HeadedLists JsText RecordFile

/-! ## Content lines -/

def contentOf (lines : List Line) : List Line := lines.filter isContent

@[simp] theorem contentOf_nil : contentOf [] = [] := rfl

@[simp] theorem contentOf_append (lines more : List Line) :
    contentOf (lines ++ more) = contentOf lines ++ contentOf more := List.filter_append ..

@[simp] theorem contentOf_placeholder : contentOf [placeholder] = [] := by decide

theorem mem_contentOf {lines : List Line} {line : Line} :
    line ∈ contentOf lines ↔ line ∈ lines ∧ isContent line = true := List.mem_filter

theorem filter_dropWhile_isEmpty (lines : List Line) :
    contentOf (lines.dropWhile List.isEmpty) = contentOf lines := by
  induction lines with
  | nil => rfl
  | cons line lines ih =>
    cases line with
    | nil =>
      rw [List.dropWhile_cons_of_pos (by rfl), ih]
      rfl
    | cons c line => rw [List.dropWhile_cons_of_neg (by simp)]

@[simp] theorem contentOf_trimEdges (lines : List Line) :
    contentOf (trimEdges lines) = contentOf lines := by
  rw [trimEdges, trim, List.rdropWhile, contentOf, List.filter_reverse]
  have h := filter_dropWhile_isEmpty (lines.dropWhile List.isEmpty).reverse
  rw [contentOf] at h
  rw [h, contentOf, List.filter_reverse, List.reverse_reverse]
  exact filter_dropWhile_isEmpty lines

theorem contentOf_filter (lines : List Line) :
    contentOf (lines.filter (· ≠ placeholder)) = contentOf lines := by
  rw [contentOf, List.filter_filter]
  refine List.filter_congr fun line _ => ?_
  by_cases h : line = placeholder <;> simp [isContent, h]

theorem contentOf_eq_nil_iff {lines : List Line} :
    contentOf lines = [] ↔ lines.any isContent = false := by
  simp [contentOf, List.filter_eq_nil_iff]

/-! ## One block -/

/-- Label blocks are told apart by their label, others by their subheading. -/
def Block.key (block : Block) : Label ⊕ Line :=
  match block.label with
  | some label => .inl label
  | none => .inr block.raw

theorem sameBlock_iff {block b : Block} : sameBlock block b = true ↔ b.key = block.key := by
  unfold sameBlock Block.key
  cases b.label <;> cases block.label <;> simp

def Block.cleared (block : Block) : Block :=
  { block with lines := block.lines.filter (· ≠ placeholder) }

def Block.trimmed (block : Block) : Block := { block with lines := trimEdges block.lines }

@[simp] theorem Block.key_cleared (block : Block) : block.cleared.key = block.key := rfl

@[simp] theorem Block.key_trimmed (block : Block) : block.trimmed.key = block.key := rfl

theorem addLines_eq (incoming : List Line) (block : Block) :
    addLines incoming block = { block with lines := (addLines incoming block).lines } := by
  unfold addLines
  dsimp only
  split_ifs <;> rfl

@[simp] theorem label_addLines (incoming : List Line) (block : Block) :
    (addLines incoming block).label = block.label := by rw [addLines_eq]

@[simp] theorem raw_addLines (incoming : List Line) (block : Block) :
    (addLines incoming block).raw = block.raw := by rw [addLines_eq]

@[simp] theorem key_addLines (incoming : List Line) (block : Block) :
    (addLines incoming block).key = block.key := by
  rw [addLines_eq]
  rfl

theorem mem_addedLines {block : Block} {incoming : List Line} {line : Line} :
    line ∈ addedLines block incoming ↔
      line ∈ incoming ∧ isContent line = true ∧ line ∉ block.lines := by
  simp [addedLines, and_assoc]

theorem contentOf_addedLines (block : Block) (incoming : List Line) :
    contentOf (addedLines block incoming) = addedLines block incoming :=
  List.filter_eq_self.mpr fun _ hline => (mem_addedLines.mp hline).2.1

theorem contentOf_addLines (incoming : List Line) (block : Block) :
    contentOf (addLines incoming block).lines =
      contentOf block.lines ++ addedLines block incoming := by
  unfold addLines
  dsimp only
  split_ifs with hnone hlone
  · rw [hnone, List.append_nil]
  · rw [hlone, List.nil_append, contentOf_addedLines, contentOf_placeholder, List.nil_append]
  · rw [contentOf_append, contentOf_addedLines]

theorem addedLines_eq (block : Block) (incoming : List Line) :
    addedLines block incoming = (contentOf incoming).eraseDups.filter fun line =>
      !(contentOf block.lines).contains line := by
  refine List.filter_congr fun line hline => ?_
  have hcontent : isContent line = true :=
    (List.mem_filter.mp (List.mem_eraseDups.mp hline)).2
  have hiff : line ∈ block.lines ↔ line ∈ contentOf block.lines := by
    rw [mem_contentOf, and_iff_left hcontent]
  simp [hiff]

theorem addLines_eq_self {incoming : List Line} {block : Block}
    (h : contentOf incoming ⊆ contentOf block.lines) : addLines incoming block = block := by
  have hnone : addedLines block incoming = [] := by
    refine List.eq_nil_iff_forall_not_mem.mpr fun line hline => ?_
    obtain ⟨hin, hcontent, hnot⟩ := mem_addedLines.mp hline
    exact hnot (mem_contentOf.mp (h (mem_contentOf.mpr ⟨hin, hcontent⟩))).1
  exact if_pos hnone

theorem mem_lines_addLines {incoming : List Line} {block : Block} {line : Line}
    (h : line ∈ (addLines incoming block).lines) : line ∈ block.lines ∨ line ∈ incoming := by
  unfold addLines at h
  dsimp only at h
  split_ifs at h with hnone hlone
  · exact .inl h
  · rw [List.nil_append] at h
    exact .inr (mem_addedLines.mp h).1
  · exact (List.mem_append.mp h).imp_right fun h => (mem_addedLines.mp h).1

/-! ## What a step of a merge can do -/

section First
variable {β : Type*} {p : β → Bool} {f : β → β}

theorem exists_insertBefore (x : β) (l : List β) :
    ∃ before after, l = before ++ after ∧ insertBefore p x l = before ++ x :: after ∧
      (∀ b ∈ before, p b = false) ∧ ∀ b ∈ after.head?, p b = true := by
  induction l with
  | nil => exact ⟨[], [], rfl, rfl, by simp, by simp⟩
  | cons b l ih =>
    rw [insertBefore]
    split_ifs with hb
    · exact ⟨[], b :: l, rfl, rfl, by simp, by simpa using hb⟩
    · obtain ⟨before, after, hl, hinsert, hbefore, hafter⟩ := ih
      exact ⟨b :: before, after, congrArg (b :: ·) hl, congrArg (b :: ·) hinsert,
        List.forall_mem_cons.mpr ⟨by simpa using hb, hbefore⟩, hafter⟩

theorem updateFirst_eq_none {l : List β} (h : updateFirst p f l = none) :
    ∀ b ∈ l, p b = false := by
  induction l with
  | nil => simp
  | cons b l ih =>
    rw [updateFirst] at h
    split_ifs at h with hb
    exact List.forall_mem_cons.mpr ⟨by simpa using hb, ih (Option.map_eq_none_iff.mp h)⟩

theorem updateFirst_eq_some {l l' : List β} (h : updateFirst p f l = some l') :
    ∃ before b after, l = before ++ b :: after ∧ (∀ x ∈ before, p x = false) ∧ p b = true ∧
      l' = before ++ f b :: after := by
  induction l generalizing l' with
  | nil => cases h
  | cons b l ih =>
    rw [updateFirst] at h
    split_ifs at h with hb
    · exact ⟨[], b, l, rfl, by simp, hb, (Option.some.inj h).symm⟩
    · obtain ⟨rest, hrest, rfl⟩ := Option.map_eq_some_iff.mp h
      obtain ⟨before, x, after, rfl, hbefore, hx, rfl⟩ := ih hrest
      exact ⟨b :: before, x, after, rfl,
        List.forall_mem_cons.mpr ⟨by simpa using hb, hbefore⟩, hx, rfl⟩

end First

/-- The first block of the kind takes the lines it has not. -/
structure Extended (blocks : List Block) (block : Block) (merged : List Block)
    (before : List Block) (b : Block) (after : List Block) : Prop where
  blocks_eq : blocks = before ++ b :: after
  before_ne : ∀ x ∈ before, x.key ≠ block.key
  key : b.key = block.key
  merged_eq : merged = before ++ addLines block.lines b :: after

/-- The block is put in, without placeholders. -/
structure Inserted (blocks : List Block) (block : Block) (merged : List Block)
    (before after : List Block) : Prop where
  blocks_eq : blocks = before ++ after
  new : ∀ b ∈ blocks, b.key ≠ block.key
  merged_eq : merged = before ++ block.cleared :: after
  unlabelled : block.label = none → after = []
  smaller : ∀ label ∈ block.label, ∀ b ∈ before, ∀ other ∈ b.label, rank other ≤ rank label
  larger : ∀ label ∈ block.label, ∀ b ∈ after.head?, ∃ other ∈ b.label, rank label < rank other

/-- The block has a label and nothing to bring under it. -/
structure Skipped (blocks : List Block) (block : Block) (merged : List Block) : Prop where
  new : ∀ b ∈ blocks, b.key ≠ block.key
  labelled : block.label ≠ none
  nothing : contentOf block.lines = []
  merged_eq : merged = blocks

theorem insertBlock_spec {blocks : List Block} {block : Block}
    (hnew : ∀ b ∈ blocks, b.key ≠ block.key) :
    ∃ before after, Inserted blocks block (insertBlock blocks block.cleared) before after := by
  cases hlabel : block.label with
  | none =>
    have hinsert : insertBlock blocks block.cleared = blocks ++ [block.cleared] := by
      rw [insertBlock, Block.cleared, hlabel]
    exact ⟨blocks, [], (List.append_nil _).symm, hnew, hinsert, fun _ => rfl, by simp [hlabel],
      by simp⟩
  | some label =>
    have hinsert : insertBlock blocks block.cleared = insertBefore
        (fun b => b.label.any fun other => rank label < rank other) block.cleared blocks := by
      rw [insertBlock, Block.cleared, hlabel]
    obtain ⟨before, after, hblocks, heq, hbefore, hafter⟩ := exists_insertBefore
      (p := fun b => b.label.any fun other => rank label < rank other) block.cleared blocks
    refine ⟨before, after, hblocks, hnew, hinsert.trans heq, by simp [hlabel], ?_, ?_⟩
    · intro other hother b hb second hsecond
      obtain rfl := Option.some.inj (hlabel.symm.trans hother)
      have hnot := hbefore b hb
      rw [Option.mem_def.mp hsecond, Option.any_some, decide_eq_false_iff_not] at hnot
      exact Nat.not_lt.mp hnot
    · intro other hother b hb
      obtain rfl := Option.some.inj (hlabel.symm.trans hother)
      have hyes := hafter b hb
      cases hb' : b.label with
      | none => rw [hb'] at hyes; cases hyes
      | some second =>
        rw [hb', Option.any_some, decide_eq_true_eq] at hyes
        exact ⟨second, rfl, hyes⟩

theorem mergeBlock_cases (blocks : List Block) (block : Block) :
    (∃ before b after, Extended blocks block (mergeBlock blocks block) before b after) ∨
      Skipped blocks block (mergeBlock blocks block) ∨
      ∃ before after, Inserted blocks block (mergeBlock blocks block) before after := by
  unfold mergeBlock
  cases hupdate : updateFirst (sameBlock block) (addLines block.lines) blocks with
  | some merged =>
    obtain ⟨before, b, after, hblocks, hbefore, hb, rfl⟩ := updateFirst_eq_some hupdate
    refine .inl ⟨before, b, after, hblocks, fun x hx hkey => ?_, sameBlock_iff.mp hb, rfl⟩
    have hsame := sameBlock_iff.mpr hkey
    rw [hbefore x hx] at hsame
    cases hsame
  | none =>
    have hnew : ∀ b ∈ blocks, b.key ≠ block.key := by
      intro b hb hkey
      have hsame := sameBlock_iff.mpr hkey
      rw [updateFirst_eq_none hupdate b hb] at hsame
      cases hsame
    dsimp only
    split_ifs with hskip
    · refine .inr (.inl ⟨hnew, hskip.1, ?_, rfl⟩)
      rw [← contentOf_filter, contentOf_eq_nil_iff]
      exact hskip.2
    · exact .inr (.inr (insertBlock_spec hnew))

/-! ## What stands under a subheading -/

section Under
variable (key : Label ⊕ Line)

/-- The content of the first block with the key. -/
def firstUnder (blocks : List Block) : List Line :=
  (blocks.find? fun b => b.key = key).elim [] fun b => contentOf b.lines

/-- The content of all blocks with the key. -/
def under (blocks : List Block) : List Line :=
  (blocks.filter fun b => b.key = key).flatMap fun b => contentOf b.lines

variable {key}

@[simp] theorem under_nil : under key [] = [] := rfl

@[simp] theorem under_append (blocks more : List Block) :
    under key (blocks ++ more) = under key blocks ++ under key more := by
  simp [under]

theorem under_cons (b : Block) (blocks : List Block) :
    under key (b :: blocks) = under key [b] ++ under key blocks :=
  under_append [b] blocks

theorem under_singleton_pos {b : Block} (h : b.key = key) : under key [b] = contentOf b.lines := by
  simp [under, h]

theorem under_singleton_neg {b : Block} (h : b.key ≠ key) : under key [b] = [] := by
  simp [under, h]

theorem firstUnder_of_ne {before after : List Block} {b : Block} (h : b.key ≠ key) :
    firstUnder key (before ++ b :: after) = firstUnder key (before ++ after) := by
  simp [firstUnder, List.find?_append, h]

theorem firstUnder_of_first {before after : List Block} {b : Block} (hb : b.key = key)
    (hbefore : ∀ x ∈ before, x.key ≠ key) :
    firstUnder key (before ++ b :: after) = contentOf b.lines := by
  have hnone : before.find? (fun x => x.key = key) = none :=
    List.find?_eq_none.mpr fun x hx => by simpa using hbefore x hx
  simp [firstUnder, List.find?_append, hnone, hb]

theorem firstUnder_of_new {blocks : List Block} (h : ∀ b ∈ blocks, b.key ≠ key) :
    firstUnder key blocks = [] := by
  have hnone : blocks.find? (fun x => x.key = key) = none :=
    List.find?_eq_none.mpr fun x hx => by simpa using h x hx
  rw [firstUnder, hnone]
  rfl

theorem firstUnder_prefix_under (blocks : List Block) :
    firstUnder key blocks <+: under key blocks := by
  induction blocks with
  | nil => exact List.nil_prefix
  | cons b blocks ih =>
    by_cases hb : b.key = key
    · rw [← List.nil_append (b :: blocks), firstUnder_of_first hb (by simp), List.nil_append,
        under_cons, under_singleton_pos hb]
      exact List.prefix_append _ _
    · rw [under_cons, under_singleton_neg hb, List.nil_append]
      have hskip : firstUnder key ([] ++ b :: blocks) = firstUnder key ([] ++ blocks) :=
        firstUnder_of_ne hb
      rw [List.nil_append, List.nil_append] at hskip
      rwa [hskip]

variable (key) in
/-- What one incoming block adds under a key. -/
theorem firstUnder_mergeBlock (blocks : List Block) (block : Block) :
    firstUnder key blocks <+: firstUnder key (mergeBlock blocks block) ∧
      (firstUnder key (mergeBlock blocks block)).eraseDups =
        (firstUnder key blocks ++ under key [block]).eraseDups := by
  rcases mergeBlock_cases blocks block with
    ⟨before, b, after, h⟩ | h | ⟨before, after, h⟩
  · rw [h.merged_eq, h.blocks_eq]
    by_cases hkey : block.key = key
    · have hb : b.key = key := h.key.trans hkey
      have hbefore : ∀ x ∈ before, x.key ≠ key := fun x hx => hkey ▸ h.before_ne x hx
      rw [firstUnder_of_first ((key_addLines _ _).trans hb) hbefore,
        firstUnder_of_first hb hbefore, contentOf_addLines, under_singleton_pos hkey]
      refine ⟨List.prefix_append _ _, ?_⟩
      rw [addedLines_eq, eraseDups_append_new]
    · have hb : b.key ≠ key := fun hb => hkey (h.key.symm.trans hb)
      have hadded : (addLines block.lines b).key ≠ key := by rwa [key_addLines]
      rw [firstUnder_of_ne hadded, firstUnder_of_ne hb, under_singleton_neg hkey,
        List.append_nil]
      exact ⟨List.prefix_rfl, rfl⟩
  · rw [h.merged_eq]
    have hnothing : under key [block] = [] := by
      by_cases hkey : block.key = key
      · rw [under_singleton_pos hkey, h.nothing]
      · exact under_singleton_neg hkey
    rw [hnothing, List.append_nil]
    exact ⟨List.prefix_rfl, rfl⟩
  · by_cases hkey : block.key = key
    · have hnew : ∀ b ∈ blocks, b.key ≠ key := fun b hb => hkey ▸ h.new b hb
      have hbefore : ∀ b ∈ before, b.key ≠ key := fun b hb =>
        hnew b (h.blocks_eq ▸ List.mem_append_left _ hb)
      rw [h.merged_eq, firstUnder_of_new hnew, firstUnder_of_first (b := block.cleared) hkey
        hbefore, under_singleton_pos hkey, Block.cleared, contentOf_filter]
      exact ⟨List.nil_prefix, rfl⟩
    · rw [h.merged_eq, h.blocks_eq, firstUnder_of_ne (b := block.cleared) hkey,
        under_singleton_neg hkey, List.append_nil]
      exact ⟨List.prefix_rfl, rfl⟩

theorem mem_under_mergeBlock {blocks : List Block} {block : Block} {line : Line} :
    line ∈ under key (mergeBlock blocks block) ↔
      line ∈ under key blocks ∨ line ∈ under key [block] := by
  rcases mergeBlock_cases blocks block with
    ⟨before, b, after, h⟩ | h | ⟨before, after, h⟩
  · rw [h.merged_eq, h.blocks_eq, under_append, under_append, under_cons, under_cons b]
    simp only [List.mem_append]
    by_cases hkey : block.key = key
    · have hb : b.key = key := h.key.trans hkey
      rw [under_singleton_pos ((key_addLines _ _).trans hb), under_singleton_pos hb,
        under_singleton_pos hkey, contentOf_addLines, addedLines_eq, List.mem_append,
        List.mem_filter, List.mem_eraseDups]
      by_cases hline : line ∈ contentOf b.lines <;> simp [hline]
      tauto
    · have hb : b.key ≠ key := fun hb => hkey (h.key.symm.trans hb)
      rw [under_singleton_neg (by rwa [key_addLines]), under_singleton_neg hb,
        under_singleton_neg hkey]
      simp
  · rw [h.merged_eq]
    by_cases hkey : block.key = key
    · rw [under_singleton_pos hkey, h.nothing]
      simp
    · rw [under_singleton_neg hkey]
      simp
  · rw [h.merged_eq, h.blocks_eq, under_append, under_append, under_cons]
    by_cases hkey : block.key = key
    · rw [under_singleton_pos (b := block.cleared) hkey, under_singleton_pos hkey, Block.cleared,
        contentOf_filter]
      simp only [List.mem_append]
      tauto
    · rw [under_singleton_neg (b := block.cleared) hkey, under_singleton_neg hkey]
      simp

variable (key) in
theorem firstUnder_foldl (incoming blocks : List Block) :
    firstUnder key blocks <+: firstUnder key (incoming.foldl mergeBlock blocks) ∧
      (firstUnder key (incoming.foldl mergeBlock blocks)).eraseDups =
        (firstUnder key blocks ++ under key incoming).eraseDups := by
  induction incoming generalizing blocks with
  | nil => simp
  | cons block incoming ih =>
    obtain ⟨hfirst, hadds⟩ := firstUnder_mergeBlock key blocks block
    obtain ⟨hrest, heq⟩ := ih (mergeBlock blocks block)
    rw [List.foldl_cons]
    refine ⟨hfirst.trans hrest, heq.trans ?_⟩
    rw [under_cons, ← List.append_assoc]
    exact eraseDups_append_congr hadds rfl

theorem mem_under_foldl {incoming blocks : List Block} {line : Line} :
    line ∈ under key (incoming.foldl mergeBlock blocks) ↔
      line ∈ under key blocks ∨ line ∈ under key incoming := by
  induction incoming generalizing blocks with
  | nil => simp
  | cons block incoming ih =>
    rw [List.foldl_cons, ih, mem_under_mergeBlock, under_cons block incoming, List.mem_append,
      or_assoc]

end Under

/-! ## The order of the labels -/

def LabelsInOrder (blocks : List Block) : Prop :=
  (blocks.filterMap Block.label).Pairwise fun label other => rank label < rank other

theorem rank_injective {label other : Label} (h : rank label = rank other) : label = other := by
  cases label <;> cases other <;> first | rfl | exact absurd h (by decide)

theorem labelsInOrder_mergeBlock {blocks : List Block} (h : LabelsInOrder blocks)
    (block : Block) : LabelsInOrder (mergeBlock blocks block) := by
  rcases mergeBlock_cases blocks block with
    ⟨before, b, after, hcase⟩ | hcase | ⟨before, after, hcase⟩
  · rw [LabelsInOrder, hcase.blocks_eq] at h
    rw [LabelsInOrder, hcase.merged_eq]
    simpa [List.filterMap_cons] using h
  · rwa [hcase.merged_eq]
  · rw [LabelsInOrder, hcase.blocks_eq, List.filterMap_append] at h
    rw [LabelsInOrder, hcase.merged_eq, List.filterMap_append]
    cases hlabel : block.label with
    | none =>
      have hcleared : block.cleared.label = none := hlabel
      rwa [List.filterMap_cons_none hcleared]
    | some label =>
      have hcleared : block.cleared.label = some label := hlabel
      rw [List.filterMap_cons_some hcleared]
      obtain ⟨hfront, hback, hacross⟩ := List.pairwise_append.mp h
      have hsmaller : ∀ other ∈ before.filterMap Block.label, rank other < rank label := by
        intro other hother
        obtain ⟨b, hb, hbother⟩ := List.mem_filterMap.mp hother
        refine lt_of_le_of_ne (hcase.smaller label hlabel b hb other hbother) fun heq => ?_
        refine hcase.new b (hcase.blocks_eq ▸ List.mem_append_left _ hb) ?_
        rw [Block.key, Block.key, hbother, hlabel, rank_injective heq]
      have hlarger : ∀ other ∈ after.filterMap Block.label, rank label < rank other := by
        cases after with
        | nil => simp
        | cons b after =>
          obtain ⟨second, hsecond, hlt⟩ := hcase.larger label hlabel b rfl
          rw [List.filterMap_cons_some hsecond] at hback ⊢
          refine List.forall_mem_cons.mpr ⟨hlt, fun other hother => ?_⟩
          exact hlt.trans ((List.pairwise_cons.mp hback).1 other hother)
      refine List.pairwise_append.mpr ⟨hfront, List.pairwise_cons.mpr ⟨hlarger, hback⟩, ?_⟩
      intro other hother
      exact List.forall_mem_cons.mpr ⟨hsmaller other hother, hacross other hother⟩

theorem labelsInOrder_foldl {incoming blocks : List Block} (h : LabelsInOrder blocks) :
    LabelsInOrder (incoming.foldl mergeBlock blocks) := by
  induction incoming generalizing blocks with
  | nil => exact h
  | cons block incoming ih => exact ih (labelsInOrder_mergeBlock h block)

/-! ## Merging the same again -/

theorem addLines_trimmed {incoming : List Line} {block : Block}
    (h : contentOf incoming ⊆ contentOf block.lines) :
    addLines incoming block.trimmed = block.trimmed :=
  addLines_eq_self (by rwa [Block.trimmed, contentOf_trimEdges])

/-- The section holds all that the block would bring. -/
def Holds (blocks : List Block) (block : Block) : Prop :=
  contentOf block.lines ⊆ firstUnder block.key blocks ∧
    ((∀ b ∈ blocks, b.key ≠ block.key) → block.label ≠ none)

theorem mergeBlock_eq_self {blocks : List Block} {block : Block} (h : Holds blocks block) :
    mergeBlock blocks block = blocks := by
  rcases mergeBlock_cases blocks block with
    ⟨before, b, after, hcase⟩ | hcase | ⟨before, after, hcase⟩
  · have hsub := h.1
    rw [hcase.blocks_eq, firstUnder_of_first hcase.key hcase.before_ne] at hsub
    rw [hcase.merged_eq, addLines_eq_self hsub, hcase.blocks_eq]
  · exact hcase.merged_eq
  · -- a block that is not there and has no content is only put in without a label
    have hsub := h.1
    rw [firstUnder_of_new hcase.new, List.subset_nil] at hsub
    unfold mergeBlock
    cases hupdate : updateFirst (sameBlock block) (addLines block.lines) blocks with
    | some merged =>
      obtain ⟨front, b, back, hblocks, -, hb, -⟩ := updateFirst_eq_some hupdate
      refine absurd (sameBlock_iff.mp hb) (hcase.new b ?_)
      rw [hblocks]
      exact List.mem_append_right _ List.mem_cons_self
    | none =>
      dsimp only
      rw [if_pos]
      refine ⟨h.2 hcase.new, ?_⟩
      rw [← contentOf_eq_nil_iff, contentOf_filter, hsub]

theorem holds_mergeBlock_self (blocks : List Block) (block : Block) :
    Holds (mergeBlock blocks block) block := by
  constructor
  · intro line hline
    have hadds := (firstUnder_mergeBlock block.key blocks block).2
    rw [← List.mem_eraseDups, hadds, List.mem_eraseDups, under_singleton_pos rfl]
    exact List.mem_append_right _ hline
  · intro hnew
    rcases mergeBlock_cases blocks block with
      ⟨before, b, after, hcase⟩ | hcase | ⟨before, after, hcase⟩
    · refine absurd ((key_addLines block.lines b).trans hcase.key) (hnew _ ?_)
      rw [hcase.merged_eq]
      exact List.mem_append_right _ List.mem_cons_self
    · exact hcase.labelled
    · refine absurd block.key_cleared (hnew _ ?_)
      rw [hcase.merged_eq]
      exact List.mem_append_right _ List.mem_cons_self

theorem exists_key_mergeBlock {blocks : List Block} (block : Block) {b : Block}
    (hb : b ∈ blocks) : ∃ merged ∈ mergeBlock blocks block, merged.key = b.key := by
  rcases mergeBlock_cases blocks block with
    ⟨before, x, after, hcase⟩ | hcase | ⟨before, after, hcase⟩
  · rw [hcase.blocks_eq] at hb
    rw [hcase.merged_eq]
    rcases List.mem_append.mp hb with hfront | hback
    · exact ⟨b, List.mem_append_left _ hfront, rfl⟩
    · rcases List.mem_cons.mp hback with rfl | hback
      · exact ⟨_, List.mem_append_right _ List.mem_cons_self, key_addLines _ _⟩
      · exact ⟨b, List.mem_append_right _ (List.mem_cons_of_mem _ hback), rfl⟩
  · rw [hcase.merged_eq]
    exact ⟨b, hb, rfl⟩
  · rw [hcase.blocks_eq] at hb
    rw [hcase.merged_eq]
    rcases List.mem_append.mp hb with hfront | hback
    · exact ⟨b, List.mem_append_left _ hfront, rfl⟩
    · exact ⟨b, List.mem_append_right _ (List.mem_cons_of_mem _ hback), rfl⟩

theorem Holds.merged {blocks : List Block} {held : Block} (h : Holds blocks held)
    (block : Block) : Holds (mergeBlock blocks block) held := by
  refine ⟨List.Subset.trans h.1 (firstUnder_mergeBlock _ blocks block).1.subset,
    fun hnew => h.2 ?_⟩
  intro b hb hkey
  obtain ⟨merged, hmerged, hsame⟩ := exists_key_mergeBlock block hb
  exact hnew merged hmerged (hsame.trans hkey)

theorem Holds.foldl {blocks : List Block} {held : Block} (h : Holds blocks held)
    (incoming : List Block) : Holds (incoming.foldl mergeBlock blocks) held := by
  induction incoming generalizing blocks with
  | nil => exact h
  | cons block incoming ih => exact ih (h.merged block)

theorem holds_foldl {incoming : List Block} {block : Block} (h : block ∈ incoming)
    (blocks : List Block) : Holds (incoming.foldl mergeBlock blocks) block := by
  induction incoming generalizing blocks with
  | nil => cases h
  | cons first incoming ih =>
    rw [List.foldl_cons]
    rcases List.mem_cons.mp h with rfl | h
    · exact (holds_mergeBlock_self blocks block).foldl incoming
    · exact ih h _

theorem foldl_mergeBlock_eq_self {incoming blocks : List Block}
    (h : ∀ block ∈ incoming, Holds blocks block) : incoming.foldl mergeBlock blocks = blocks := by
  induction incoming with
  | nil => rfl
  | cons block incoming ih =>
    obtain ⟨hblock, hincoming⟩ := List.forall_mem_cons.mp h
    rw [List.foldl_cons, mergeBlock_eq_self hblock]
    exact ih hincoming

end Changelog
