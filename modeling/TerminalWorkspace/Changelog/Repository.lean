import TerminalWorkspace.Changelog.Rolls
import TerminalWorkspace.Foundation.Runs

/-! What a roll keeps and adds, what rolling again changes, and that over all runs no entry gets
lost between the fragments and the ledger. -/
namespace Changelog
open HeadedLists JsText RecordFile

/-! ## The ledger by its releases -/

def trimRelease (release : Release) : Release := (release.1, release.2.rdropWhile List.isEmpty)

theorem trimmed_eq (parts : List Release) :
    trimmed List.isEmpty parts = parts.map trimRelease := rfl

theorem sectionOf_eq {release : Release} {rest : List Release}
    (h : Releases (release :: rest)) :
    sectionOf release = sectionOfLines (release.1 :: release.2) := by
  rw [sectionOf, splitSection_eq, splitOn_textOf h]

theorem releases_trimRelease {release : Release} {rest : List Release}
    (h : Releases (release :: rest)) : Releases [trimRelease release] := by
  have hsub : ∀ line ∈ release.2.rdropWhile List.isEmpty, line ∈ release.2 := fun line hline =>
    (List.rdropWhile_prefix _ _).subset hline
  obtain ⟨hhead, hbody⟩ := h.plain_release
  refine ⟨IsCut.cons (h.cut.heads release List.mem_cons_self) (fun line hline => ?_)
    ⟨by simp, by simp⟩, ?_⟩
  · exact h.cut.bodies release List.mem_cons_self line (hsub line hline)
  · rw [unheaded_cons, unheaded_nil, List.append_nil]
    exact List.forall_mem_cons.mpr ⟨hhead, fun line hline => hbody line (hsub line hline)⟩

/-- Blank lines at the end of a release are not read. -/
theorem sectionOf_trimRelease {release : Release} {rest : List Release}
    (h : Releases (release :: rest)) : sectionOf (trimRelease release) = sectionOf release := by
  rw [sectionOf_eq (releases_trimRelease h), sectionOf_eq h]
  exact sectionOfLines_rdropWhile release.1 release.2

theorem writtenSection_trimmed (new : Section) {held : List Release} (h : Releases held) :
    writtenSection new (held.map trimRelease) = writtenSection new held := by
  have hsections : ∀ parts : List Release, Releases parts →
      (parts.map trimRelease).map sectionOf = parts.map sectionOf := by
    intro parts hparts
    induction parts with
    | nil => rfl
    | cons release rest ih =>
      rw [List.map_cons, List.map_cons, List.map_cons, sectionOf_trimRelease hparts,
        ih hparts.of_cons]
  cases held with
  | nil => rfl
  | cons first duplicates =>
    rw [List.map_cons, writtenSection, writtenSection, hsections duplicates h.of_cons,
      sectionOf_trimRelease h]

namespace Roll
variable (roll : Roll)

theorem filter_trimmed (parts : List Release) :
    (parts.map trimRelease).filter roll.mine = (parts.filter roll.mine).map trimRelease := by
  rw [List.filter_map]
  rfl

theorem written_trimmed {parts : List Release} (h : Releases parts) :
    roll.written (parts.map trimRelease) = roll.written parts := by
  rw [written, filter_trimmed, writtenSection_trimmed _ (roll.releases_held h), written]

/-- The release that the roll leaves of its version. -/
def newRelease (parts : List Release) : Release := trimRelease (releaseOf (roll.written parts))

theorem map_after {parts : List Release} (h : Releases parts) :
    (roll.after parts).map trimRelease =
      putInPlace roll.mine (roll.newRelease (parts.map trimRelease)) (parts.map trimRelease) := by
  have hmap := map_putInPlace roll.mine roll.mine (releaseOf (roll.written parts)) trimRelease
    (fun _ => rfl) parts
  rw [after, hmap, newRelease, roll.written_trimmed h]

end Roll

theorem exists_parts {changelog above tail : List Char}
    (h : unreleasedSplit changelog = .ok (some (above, tail))) :
    ∃ parts, Releases parts ∧ tail = joined parts ∧
      releases tail = parts.map trimRelease ∧
      ∀ first ∈ parts.head?, isNumbered first.1 = true := by
  rcases (unreleasedSplit_eq_some h).2 with rfl | ⟨line, lines, hlines, hline⟩
  · exact ⟨[], Releases.nil, rfl, rfl, by simp⟩
  · obtain ⟨body, rest, hparts, htail⟩ := exists_joined hlines (isHeadline_of_isNumbered hline)
    refine ⟨_, hparts, htail, ?_, by simpa using hline⟩
    have hreleases := releases_joined hparts (List.cons_ne_nil _ _) (.inl rfl)
    rw [List.append_nil, ← htail] at hreleases
    exact hreleases

theorem releases_renderBlocks {s : Section} (h : Releases [releaseOf s]) :
    releases (renderBlocks s) = [trimRelease (releaseOf s)] := by
  have hreleases := releases_joined h (List.cons_ne_nil _ _) (.inl rfl)
  rw [List.append_nil, joined_cons, textOf_releaseOf, written_nil, List.append_nil] at hreleases
  exact hreleases

theorem releases_map_trimRelease {parts : List Release} (h : Releases parts) :
    Releases (parts.map trimRelease) := by
  induction parts with
  | nil => exact Releases.nil
  | cons release rest ih => exact (releases_trimRelease h).append (ih h.of_cons)

theorem Roll.mine_newRelease (roll : Roll) {parts : List Release} (h : Releases parts) :
    roll.mine (roll.newRelease parts) = true := roll.ofVersion_written h

/-- What a roll that is accepted does to the two parts of the ledger. -/
structure Rolled (roll : Roll) (changelog result above tail tail' : List Char) : Prop where
  split : unreleasedSplit changelog = .ok (some (above, tail))
  split_after : unreleasedSplit result = .ok (some (above, tail'))
  result_eq : result = above ++ skeleton ++ '\n' :: tail'
  releases : Releases (releases tail)
  releases_after : Changelog.releases tail' =
    putInPlace roll.mine (roll.newRelease (Changelog.releases tail)) (Changelog.releases tail)
  preview : previewSection changelog roll.rendered roll.version =
    .ok (renderBlocks (roll.written (Changelog.releases tail)))

theorem exists_rolled (roll : Roll) {changelog result : List Char}
    (h : insertRelease changelog roll.rendered roll.version = .ok result) :
    ∃ above tail tail', Rolled roll changelog result above tail tail' := by
  obtain ⟨above, tail, hsplit⟩ := Roll.exists_split_of_ok h
  obtain ⟨⟨found, hcut⟩, -⟩ := unreleasedSplit_eq_some hsplit
  obtain ⟨parts, hparts, rfl, htail, hhead⟩ := exists_parts hsplit
  rw [roll.insertRelease_of_split hsplit] at h
  obtain ⟨extra, hextra, hspliced⟩ := roll.spliced_joined hparts
  obtain ⟨first, rest, hafter, hnumbered⟩ := roll.isNumbered_head_after hparts hhead
  have hreleases := roll.releases_after hparts
  have hne : roll.after parts ≠ [] := by rw [hafter]; exact List.cons_ne_nil _ _
  -- the text that is written starts with a numbered headline, where it is cut again
  have hline : ∃ lines, (joined (roll.after parts) ++ extra).splitOn '\n' = first.1 :: lines := by
    rcases splitOn_joined hreleases hne hextra with heq | heq
    · exact ⟨first.2 ++ unheaded rest, by rw [heq, hafter]; rfl⟩
    · exact ⟨first.2 ++ unheaded rest ++ [[]], by rw [heq, hafter]; rfl⟩
  obtain ⟨lines, hline⟩ := hline
  refine ⟨above, joined parts, joined (roll.after parts) ++ extra, hsplit, ?_, ?_, ?_, ?_, ?_⟩
  · rw [← Except.ok.inj h, hspliced]
    exact unreleasedSplit_skeleton hcut hline hnumbered
  · rw [← Except.ok.inj h, hspliced]
  · rw [htail]
    exact releases_map_trimRelease hparts
  · rw [releases_joined hreleases hne hextra, trimmed_eq, roll.map_after hparts, htail]
  · rw [htail, roll.written_trimmed hparts]
    exact roll.previewSection_joined hsplit hparts

/-- A roll keeps what stands above, puts one release in the place of those of its version, keeps
the others in their order, and prints the same release on a dry run. -/
theorem insertRelease_keeps_ledger (roll : Roll) {changelog result : List Char}
    (h : insertRelease changelog roll.rendered roll.version = .ok result) :
    ∃ above tail tail' text release,
      unreleasedSplit changelog = .ok (some (above, tail)) ∧
      unreleasedSplit result = .ok (some (above, tail')) ∧
      result = above ++ skeleton ++ '\n' :: tail' ∧
      previewSection changelog roll.rendered roll.version = .ok text ∧
      releases text = [release] ∧
      releases tail' = putInPlace roll.mine release (releases tail) ∧
      (releases tail').filter roll.mine = [release] ∧
      (releases tail').filter (fun r => !roll.mine r) =
        (releases tail).filter fun r => !roll.mine r := by
  obtain ⟨above, tail, tail', hrolled⟩ := exists_rolled roll h
  have hmine := roll.mine_newRelease hrolled.releases
  refine ⟨above, tail, tail', renderBlocks (roll.written (releases tail)),
    roll.newRelease (releases tail), hrolled.split, hrolled.split_after, hrolled.result_eq,
    hrolled.preview, releases_renderBlocks (roll.releases_written hrolled.releases),
    hrolled.releases_after, ?_, ?_⟩
  · rw [hrolled.releases_after, filter_putInPlace hmine]
  · rw [hrolled.releases_after, filter_not_putInPlace hmine]

/-! A ledger with one release, and a roll for it. -/

def shortRoll : Roll where
  version := "1.0.0".toList
  date := "2026-01-01".toList
  entries := fun label => if label = .fix then ["b".toList] else []
  version_ok := by decide
  date_ok := by decide
  entries_ok := by
    intro label
    cases label <;> decide

def shortTail : List Char := "## 1.0.0 — x\n\n### [FIX]\n\n- a\n".toList

def shortLedger : List Char := marker ++ "\n\n".toList ++ shortTail

theorem unreleasedSplit_shortLedger :
    unreleasedSplit shortLedger = .ok (some ([], shortTail)) := by decide +kernel

theorem insertRelease_keeps_shortLedger : ∃ result above tail' release,
    insertRelease shortLedger shortRoll.rendered shortRoll.version = .ok result ∧
    unreleasedSplit result = .ok (some (above, tail')) ∧
    (releases tail').filter shortRoll.mine = [release] := by
  have h := shortRoll.insertRelease_of_split unreleasedSplit_shortLedger
  obtain ⟨above, tail, tail', text, release, -, hsplit, -, -, -, -, hone, -⟩ :=
    insertRelease_keeps_ledger shortRoll h
  exact ⟨_, above, tail', release, h, hsplit, hone⟩

/-! ## What the release holds -/

section Content
variable {key : Label ⊕ Line}

variable (key) in
theorem firstUnder_absorb (s t : Section) :
    firstUnder key s.blocks <+: firstUnder key (absorb s t).blocks ∧
      (firstUnder key (absorb s t).blocks).eraseDups =
        (firstUnder key s.blocks ++ under key t.blocks).eraseDups := by
  have hfold := firstUnder_foldl key t.blocks s.trimmed.blocks
  rwa [firstUnder_trimmed] at hfold

theorem firstUnder_foldl_absorb (sections : List Section) (s : Section) :
    firstUnder key s.blocks <+: firstUnder key (sections.foldl absorb s).blocks ∧
      (firstUnder key (sections.foldl absorb s).blocks).eraseDups =
        (firstUnder key s.blocks ++ sections.flatMap fun t => under key t.blocks).eraseDups := by
  induction sections generalizing s with
  | nil => simp
  | cons t sections ih =>
    obtain ⟨hfirst, hadds⟩ := firstUnder_absorb key s t
    obtain ⟨hrest, heq⟩ := ih (absorb s t)
    rw [List.foldl_cons, List.flatMap_cons, ← List.append_assoc]
    exact ⟨hfirst.trans hrest, heq.trans (eraseDups_append_congr hadds rfl)⟩

theorem mem_under_foldl_absorb {sections : List Section} {s : Section} {line : Line} :
    line ∈ under key (sections.foldl absorb s).blocks ↔
      line ∈ under key s.blocks ∨ ∃ t ∈ sections, line ∈ under key t.blocks := by
  induction sections generalizing s with
  | nil => simp
  | cons t sections ih =>
    have hone : line ∈ under key (absorb s t).blocks ↔
        line ∈ under key s.blocks ∨ line ∈ under key t.blocks := by
      rw [← under_trimmed s]
      exact mem_under_foldl
    rw [List.foldl_cons, ih, hone, List.exists_mem_cons_iff, or_assoc]

theorem labelsInOrder_foldl_absorb {sections : List Section} {s : Section}
    (h : LabelsInOrder s.blocks) : LabelsInOrder (sections.foldl absorb s).blocks := by
  induction sections generalizing s with
  | nil => exact h
  | cons t sections ih =>
    exact ih (labelsInOrder_foldl ((labelsInOrder_trimmed_iff s).mpr h))

theorem mem_under {blocks : List Block} {line : Line} :
    line ∈ under key blocks ↔ ∃ b ∈ blocks, b.key = key ∧ line ∈ contentOf b.lines := by
  simp [under, and_assoc]

end Content

namespace Roll
variable (roll : Roll)

theorem sectionOf_newRelease {parts : List Release} (h : Releases parts) :
    sectionOf (roll.newRelease parts) = (roll.written parts).trimmed := by
  have hgood := roll.written_good h
  rw [newRelease, sectionOf_trimRelease (roll.releases_written h), sectionOf, textOf_releaseOf,
    splitSection_renderBlocks hgood.shaped hgood.plain]

/-- What a roll brings under a label. -/
def brought (label : Label) : List Line := contentOf ((roll.entries label).map bullet)

theorem mem_under_newSection {label : Label} {line : Line} :
    line ∈ under (.inl label) roll.newSection.blocks ↔ line ∈ roll.brought label := by
  rw [mem_under]
  constructor
  · rintro ⟨b, hb, hkey, hline⟩
    obtain ⟨other, -, rfl⟩ := roll.mem_blocks hb
    obtain rfl := Sum.inl.inj hkey
    exact hline
  · intro hline
    have hne : roll.entries label ≠ [] := by
      intro hnone
      rw [brought, hnone] at hline
      cases hline
    exact ⟨_, roll.block_mem hne, rfl, hline⟩

end Roll

/-- Releases of the version are merged under the heading of the first: each subheading keeps the
content it has there and goes on with what the roll and the duplicates bring, once and in order. -/
theorem insertRelease_merges_content (roll : Roll) {changelog result above tail : List Char}
    {first : Release} {duplicates : List Release}
    (h : insertRelease changelog roll.rendered roll.version = .ok result)
    (hsplit : unreleasedSplit changelog = .ok (some (above, tail)))
    (hheld : (releases tail).filter roll.mine = first :: duplicates) :
    ∃ tail' release,
      unreleasedSplit result = .ok (some (above, tail')) ∧
      (releases tail').filter roll.mine = [release] ∧
      release.1 = first.1 ∧
      (LabelsInOrder (sectionOf first).blocks → LabelsInOrder (sectionOf release).blocks) ∧
      ∀ key, firstUnder key (sectionOf first).blocks <+:
          firstUnder key (sectionOf release).blocks ∧
        (firstUnder key (sectionOf release).blocks).eraseDups =
          (firstUnder key (sectionOf first).blocks ++
            (roll.newSection :: duplicates.map sectionOf).flatMap fun t =>
              under key t.blocks).eraseDups := by
  obtain ⟨above', tail', after, hrolled⟩ := exists_rolled roll h
  obtain ⟨rfl, rfl⟩ := Prod.mk.inj
    (Option.some.inj (Except.ok.inj (hsplit.symm.trans hrolled.split)))
  have hwritten : roll.written (releases tail) =
      (roll.newSection :: duplicates.map sectionOf).foldl absorb (sectionOf first) := by
    rw [Roll.written, hheld]
    rfl
  refine ⟨after, roll.newRelease (releases tail), hrolled.split_after, ?_, ?_, ?_, ?_⟩
  · rw [hrolled.releases_after, filter_putInPlace (roll.mine_newRelease hrolled.releases)]
  · have hheading : (sectionOf first).heading = first.1 := by
      have hreleases := roll.releases_held hrolled.releases
      rw [hheld] at hreleases
      exact heading_sectionOf hreleases
    rw [← hheading, ← heading_foldl_absorb _ (sectionOf first), ← hwritten]
    rfl
  · intro horder
    rw [roll.sectionOf_newRelease hrolled.releases, labelsInOrder_trimmed_iff, hwritten]
    exact labelsInOrder_foldl_absorb horder
  · intro key
    rw [roll.sectionOf_newRelease hrolled.releases, firstUnder_trimmed, hwritten]
    exact firstUnder_foldl_absorb _ _

theorem insertRelease_merges_shortLedger : ∃ result tail' release,
    insertRelease shortLedger shortRoll.rendered shortRoll.version = .ok result ∧
    unreleasedSplit result = .ok (some ([], tail')) ∧
    (releases tail').filter shortRoll.mine = [release] ∧ release.1 = "## 1.0.0 — x".toList := by
  have h := shortRoll.insertRelease_of_split unreleasedSplit_shortLedger
  have hheld : (releases shortTail).filter shortRoll.mine =
      [("## 1.0.0 — x".toList, [[], "### [FIX]".toList, [], "- a".toList])] := by decide +kernel
  obtain ⟨tail', release, hsplit, hone, hheading, -⟩ :=
    insertRelease_merges_content shortRoll h unreleasedSplit_shortLedger hheld
  exact ⟨_, tail', release, h, hsplit, hone, hheading⟩

/-! ## Rolling again -/

theorem Holds.mono {blocks : List Block} {b b' : Block} (h : Holds blocks b)
    (hkey : b'.key = b.key) (hlabel : b'.label = b.label)
    (hsub : contentOf b'.lines ⊆ contentOf b.lines) : Holds blocks b' := by
  refine ⟨hkey ▸ List.Subset.trans hsub h.1, fun hnew => ?_⟩
  rw [hlabel]
  exact h.2 (hkey ▸ hnew)

namespace Roll
variable (roll : Roll)

theorem firstUnder_newSection (label : Label) :
    firstUnder (.inl label) roll.newSection.blocks = roll.brought label := by
  have hlabels : LABELS.find? (fun other => other = label) = some label := by
    cases label <;> decide
  rw [firstUnder, newSection, List.find?_filterMap]
  by_cases hnone : roll.entries label = []
  · have hfind : LABELS.find? (fun other =>
        (roll.block other).any fun b => b.key = .inl label) = none := by
      refine List.find?_eq_none.mpr fun other _ => ?_
      unfold block
      split_ifs with hother
      · simp
      · intro hkey
        have heq : other = label := by simpa [Block.key] using hkey
        exact hother (heq ▸ hnone)
    rw [hfind, brought, hnone]
    rfl
  · have hfind : LABELS.find? (fun other =>
        (roll.block other).any fun b => b.key = .inl label) = some label := by
      rw [← hlabels]
      congr 1
      funext other
      unfold block
      split_ifs with hother
      · have hne : other ≠ label := fun heq => hnone (heq ▸ hother)
        simp [hne]
      · simp [Block.key]
    rw [hfind, Option.bind_some, block, if_neg hnone]
    rfl

/-- The section that is written holds all that the roll brings. -/
theorem holds_written (parts : List Release) {b : Block} (hb : b ∈ roll.newSection.blocks) :
    Holds (roll.written parts).blocks b := by
  unfold written
  cases parts.filter roll.mine with
  | nil =>
    obtain ⟨label, -, rfl⟩ := roll.mem_blocks hb
    refine ⟨?_, fun _ => by simp⟩
    rw [writtenSection]
    change _ ⊆ firstUnder (.inl label) roll.newSection.blocks
    rw [firstUnder_newSection]
    exact List.Subset.refl _
  | cons first duplicates =>
    rw [writtenSection, List.foldl_cons]
    have hfirst : Holds (absorb (sectionOf first) roll.newSection).blocks b :=
      holds_foldl hb (sectionOf first).trimmed.blocks
    generalize absorb (sectionOf first) roll.newSection = s at hfirst ⊢
    generalize duplicates.map sectionOf = sections
    induction sections generalizing s with
    | nil => exact hfirst
    | cons t sections ih => exact ih _ (hfirst.trimmed.foldl t.blocks)

end Roll

theorem putInPlace_idem {β : Type*} {mine : β → Bool} {new : β} (hnew : mine new = true)
    (l : List β) : putInPlace mine new (putInPlace mine new l) = putInPlace mine new l := by
  rcases exists_first mine l with hnone | ⟨front, b, back, rfl, hfront, hb⟩
  · have hstart : putInPlace mine new ([] ++ new :: l) =
        [] ++ new :: l.filter fun b => !mine b := putInPlace_append (by simp) hnew
    rw [putInPlace_of_none hnone, ← List.nil_append (new :: l), hstart, (filter_front hnone).2]
  · rw [putInPlace_append hfront hb, putInPlace_append hfront hnew, List.filter_filter]
    simp

def nonblank (lines : List Line) : List Line := lines.filter fun line => !line.isEmpty

/-- A release without its blank lines. -/
def compact (release : Release) : Release := (release.1, nonblank release.2)

@[simp] theorem nonblank_append (lines more : List Line) :
    nonblank (lines ++ more) = nonblank lines ++ nonblank more := List.filter_append ..

theorem nonblank_dropWhile (lines : List Line) :
    nonblank (lines.dropWhile List.isEmpty) = nonblank lines := by
  induction lines with
  | nil => rfl
  | cons line lines ih =>
    cases line with
    | nil =>
      rw [List.dropWhile_cons_of_pos (by rfl), ih]
      rfl
    | cons c line => rw [List.dropWhile_cons_of_neg (by simp)]

theorem nonblank_rdropWhile (lines : List Line) :
    nonblank (lines.rdropWhile List.isEmpty) = nonblank lines := by
  have hdrop := nonblank_dropWhile lines.reverse
  unfold nonblank at hdrop ⊢
  rw [List.rdropWhile, List.filter_reverse, hdrop, List.filter_reverse, List.reverse_reverse]

theorem nonblank_trimEdges (lines : List Line) : nonblank (trimEdges lines) = nonblank lines := by
  rw [trimEdges, trim, nonblank_rdropWhile, nonblank_dropWhile]

theorem compact_trimRelease (release : Release) :
    compact (trimRelease release) = compact release :=
  congrArg (Prod.mk release.1) (nonblank_rdropWhile release.2)

theorem nonblank_body (s : Section) : nonblank s.body =
    nonblank s.preamble ++ s.blocks.flatMap fun b => nonblank (b.raw :: b.lines) := by
  have hpreamble : nonblank (renderPreamble s.preamble) = nonblank s.preamble := by
    unfold renderPreamble
    split_ifs with h
    · rw [h]
    · rw [nonblank_append]
      exact List.append_nil _
  have hpart : ∀ b : Block, nonblank (b.part.1 :: b.part.2) = nonblank (b.raw :: b.lines) := by
    intro b
    unfold Block.part
    dsimp only
    split_ifs with h
    · rw [h]
      rfl
    · simp [nonblank, List.filter_cons]
  rw [Section.body, nonblank_append, hpreamble]
  congr 1
  induction s.blocks with
  | nil => rfl
  | cons b blocks ih =>
    rw [List.map_cons, unheaded_cons, nonblank_append, ih, hpart, List.flatMap_cons]

theorem compact_releaseOf_trimmed (s : Section) :
    compact (releaseOf s.trimmed) = compact (releaseOf s) := by
  have hblock : ∀ b : Block, nonblank (b.raw :: trimEdges b.lines) =
      nonblank (b.raw :: b.lines) := by
    intro b
    rw [← List.singleton_append, nonblank_append, nonblank_trimEdges, ← nonblank_append]
    rfl
  have hbody : nonblank s.trimmed.body = nonblank s.body := by
    rw [nonblank_body, nonblank_body, Section.trimmed]
    dsimp only
    rw [nonblank_trimEdges, List.flatMap_map]
    simp only [Block.trimmed, hblock]
  exact congrArg (Prod.mk s.heading) hbody

/-- Rolling the same entries again for the version, or some of them, is accepted and changes
nothing but blank lines. -/
theorem insertRelease_again (roll again : Roll) {changelog result : List Char}
    (hversion : again.version = roll.version)
    (hentries : ∀ label, again.entries label ⊆ roll.entries label)
    (h : insertRelease changelog roll.rendered roll.version = .ok result) :
    ∃ second above tail tail',
      insertRelease result again.rendered again.version = .ok second ∧
      unreleasedSplit result = .ok (some (above, tail)) ∧
      unreleasedSplit second = .ok (some (above, tail')) ∧
      (releases tail').map compact = (releases tail).map compact := by
  obtain ⟨above, before, tail, hfirst⟩ := exists_rolled roll h
  have hsecond := again.insertRelease_of_split hfirst.split_after
  obtain ⟨above', tail₁, tail', hrolled⟩ := exists_rolled again hsecond
  obtain ⟨rfl, rfl⟩ := Prod.mk.inj
    (Option.some.inj (Except.ok.inj (hfirst.split_after.symm.trans hrolled.split)))
  refine ⟨_, above, tail, tail', hsecond, hfirst.split_after, hrolled.split_after, ?_⟩
  have hmine : again.mine = roll.mine := by rw [Roll.mine, hversion, Roll.mine]
  have hnew := roll.mine_newRelease hfirst.releases
  -- the section that is there holds all blocks of the second roll
  have hheld : (releases tail).filter again.mine = [roll.newRelease (releases before)] := by
    rw [hmine, hfirst.releases_after, filter_putInPlace hnew]
  have hholds : ∀ b ∈ again.newSection.blocks, Holds (roll.written (releases before)).blocks b := by
    intro b hb
    obtain ⟨label, hne, rfl⟩ := again.mem_blocks hb
    obtain ⟨text, htext⟩ := List.exists_mem_of_ne_nil _ hne
    have hthere := roll.block_mem (List.ne_nil_of_mem (hentries label htext))
    refine (roll.holds_written _ hthere).mono rfl rfl fun line hline => ?_
    obtain ⟨hline, hcontent⟩ := mem_contentOf.mp hline
    exact mem_contentOf.mpr ⟨List.map_subset bullet (hentries label) hline, hcontent⟩
  have hwritten : again.written (releases tail) = (roll.written (releases before)).trimmed := by
    rw [Roll.written, hheld, writtenSection, List.map_nil, List.foldl_cons, List.foldl_nil,
      roll.sectionOf_newRelease hfirst.releases, absorb, Section.trimmed_trimmed, mergeSections,
      foldl_mergeBlock_eq_self fun b hb => (hholds b hb).trimmed]
    rfl
  have hsame : compact (again.newRelease (releases tail)) =
      compact (roll.newRelease (releases before)) := by
    rw [Roll.newRelease, hwritten, compact_trimRelease, compact_releaseOf_trimmed,
      Roll.newRelease, compact_trimRelease]
  have hmap : ∀ new parts, (putInPlace roll.mine new parts).map compact =
      putInPlace roll.mine (compact new) (parts.map compact) := fun new parts =>
    map_putInPlace roll.mine roll.mine new compact (fun _ => rfl) parts
  rw [hrolled.releases_after, hmine, hmap, hsame, hfirst.releases_after, hmap]
  have hcompact : roll.mine (compact (roll.newRelease (releases before))) = true := hnew
  exact putInPlace_idem hcompact _

theorem insertRelease_again_shortLedger : ∃ result second above tail tail',
    insertRelease shortLedger shortRoll.rendered shortRoll.version = .ok result ∧
    insertRelease result shortRoll.rendered shortRoll.version = .ok second ∧
    unreleasedSplit result = .ok (some (above, tail)) ∧
    unreleasedSplit second = .ok (some (above, tail')) ∧
    (releases tail').map compact = (releases tail).map compact := by
  have h := shortRoll.insertRelease_of_split unreleasedSplit_shortLedger
  obtain ⟨second, above, tail, tail', hsecond⟩ :=
    insertRelease_again shortRoll shortRoll rfl (fun _ => List.Subset.refl _) h
  exact ⟨_, second, above, tail, tail', h, hsecond⟩

/-! ## Fragments and ledger over time -/

/-- The ledger file, and the files of `changelog.d`. -/
structure Repo where
  ledger : Option (List Char)
  dir : List (Line × List Char)
  deriving DecidableEq, Repr

/-- A change adds a fragment, or the script is run. A run that rolls is cut off once it has removed
so many of the files that it has read; one that ends has removed them all. -/
inductive Act where
  | write (file : Line) (text : List Char)
  | run (version date : List Char) (dryRun : Bool) (removed : ℕ)

def Repo.rolled (repo : Repo) (removed : ℕ) : Outcome → Repo
  | .rolled ledger =>
    let gone := (readFragmentFiles repo.dir).take removed
    { ledger := some ledger, dir := repo.dir.filter fun file => !gone.any (·.1 = file.1) }
  | _ => repo

def Repo.step (repo : Repo) : Act → Repo
  | .write file text =>
    if repo.dir.any (·.1 = file) then repo else { repo with dir := repo.dir ++ [(file, text)] }
  | .run version date dryRun removed =>
    repo.rolled removed (runScript version date dryRun (readFragmentFiles repo.dir) repo.ledger)

/-- One of the lines of a fragment. -/
def IsEntry (contents : List Char) (label : Label) (text : Line) : Prop :=
  ∃ raw ∈ contents.splitOn '\n', matchFragmentLine (trim isSpaceChar raw) = some (label, text)

/-- A fragment holds the entry. -/
def Pending (repo : Repo) (label : Label) (text : Line) : Prop :=
  ∃ file ∈ readFragmentFiles repo.dir, IsEntry file.2 label text

/-- A release of the version holds the entry, under its label. -/
def Recorded (repo : Repo) (version : List Char) (label : Label) (text : Line) : Prop :=
  ∃ changelog above tail, repo.ledger = some changelog ∧
    unreleasedSplit changelog = .ok (some (above, tail)) ∧
    ∃ release ∈ releases tail, ofVersion version release = true ∧
      bullet text ∈ under (.inl label) (sectionOf release).blocks

/-! What the fragments are read as. -/

theorem matchFragmentLine_plain {line : Line} {label : Label} {text : Line}
    (h : matchFragmentLine line = some (label, text)) : '\n' ∉ text := by
  obtain ⟨other, -, hother⟩ := List.exists_of_findSome?_eq_some h
  dsimp only at hother
  split_ifs at hother with hmatch
  obtain ⟨rfl, rfl⟩ := Prod.mk.inj (Option.some.inj hother)
  rw [Bool.and_eq_true] at hmatch
  intro hmem
  have hnone := hmatch.2
  rw [Bool.not_eq_true', List.any_eq_false] at hnone
  exact hnone _ hmem (by decide)

theorem mem_push {entries : Entries} {label other : Label} {text new : Line} :
    text ∈ entries.push other new label ↔ text ∈ entries label ∨ (other, new) = (label, text) := by
  unfold Entries.push
  by_cases h : label = other
  · subst h
    rw [Function.update_self, List.mem_append, List.mem_singleton]
    simp [eq_comm]
  · rw [Function.update_of_ne h]
    have hne : other ≠ label := fun heq => h heq.symm
    simp [hne]

theorem mem_collectLines {file : Line} {lines : List Line} {entries collected : Entries}
    (h : collectLines file entries lines = .ok collected) {label : Label} {text : Line} :
    text ∈ collected label ↔ text ∈ entries label ∨
      ∃ raw ∈ lines, matchFragmentLine (trim isSpaceChar raw) = some (label, text) := by
  induction lines generalizing entries with
  | nil =>
    obtain rfl := Except.ok.inj h
    simp
  | cons raw lines ih =>
    rw [collectLines] at h
    split_ifs at h with hblank
    · have hnone : matchFragmentLine (trim isSpaceChar raw) = none := by
        rw [hblank]
        decide
      rw [ih h, List.exists_mem_cons_iff, hnone]
      simp
    · cases hmatch : matchFragmentLine (trim isSpaceChar raw) with
      | none =>
        rw [hmatch] at h
        cases h
      | some entry =>
        rw [hmatch] at h
        rw [ih h, List.exists_mem_cons_iff, hmatch, mem_push, or_assoc, Option.some.injEq]

theorem mem_collectFiles {files : List (Line × List Char)} {entries collected : Entries}
    (h : collectFiles entries files = .ok collected) {label : Label} {text : Line} :
    text ∈ collected label ↔ text ∈ entries label ∨
      ∃ file ∈ files, IsEntry file.2 label text := by
  induction files generalizing entries with
  | nil =>
    obtain rfl := Except.ok.inj h
    simp
  | cons file files ih =>
    rw [collectFiles] at h
    cases hlines : collectLines file.1 entries (file.2.splitOn '\n') with
    | error error =>
      rw [hlines] at h
      cases h
    | ok middle =>
      rw [hlines] at h
      rw [ih h, mem_collectLines hlines, List.exists_mem_cons_iff, or_assoc]
      rfl

theorem mem_collectFragments {files : List (Line × List Char)} {entries : Entries}
    (h : collectFragments files = .ok entries) {label : Label} {text : Line} :
    text ∈ entries label ↔ ∃ file ∈ files, IsEntry file.2 label text := by
  rw [mem_collectFiles h]
  simp

/-- A run that rolls is a roll of what the fragments hold. -/
theorem exists_roll {version date : List Char} {dryRun : Bool} {files : List (Line × List Char)}
    {ledger : Option (List Char)} {result : List Char}
    (h : runScript version date dryRun files ledger = .rolled result) :
    ∃ (roll : Roll) (changelog : List Char), roll.version = version ∧ roll.date = date ∧
      collectFragments files = .ok roll.entries ∧ ledger = some changelog ∧
      insertRelease changelog roll.rendered roll.version = .ok result := by
  unfold runScript at h
  by_cases husage : (!isVersion version || !isDate date) = true
  · rw [if_pos husage] at h
    cases h
  · rw [if_neg husage] at h
    simp only [Bool.or_eq_true, Bool.not_eq_true', not_or, Bool.not_eq_false] at husage
    cases hentries : collectFragments files with
    | error error =>
      rw [hentries] at h
      cases h
    | ok entries =>
      rw [hentries] at h
      dsimp only at h
      by_cases hnothing : files = [] ∨ ∀ label ∈ LABELS, entries label = []
      · rw [if_pos hnothing] at h
        cases h
      · rw [if_neg hnothing] at h
        cases ledger with
        | none => cases h
        | some changelog =>
          dsimp only at h
          cases dryRun with
          | true =>
            rw [if_pos rfl] at h
            cases hpreview : previewSection changelog (renderSection version date entries) version
            all_goals
              rw [hpreview] at h
              cases h
          | false =>
            rw [if_neg (by simp)] at h
            cases hinsert : insertRelease changelog (renderSection version date entries) version with
            | error error =>
              rw [hinsert] at h
              cases h
            | ok inserted =>
              rw [hinsert] at h
              obtain rfl := Outcome.rolled.inj h
              refine ⟨⟨version, date, entries, husage.1, husage.2, ?_⟩, changelog, rfl, rfl,
                rfl, rfl, hinsert⟩
              intro label text htext
              obtain ⟨file, -, raw, -, hmatch⟩ := (mem_collectFragments hentries).mp htext
              exact matchFragmentLine_plain hmatch

/-! A heading names one version. -/

theorem version_chars {version : List Char} (h : isVersion version = true) :
    ∀ c ∈ version, (isSpaceChar c || c = '—') = false := by
  intro c hc
  have hparts := (Bool.and_eq_true_iff.mp h).2
  rcases Roll.mem_of_mem_splitOn '.' hc with rfl | ⟨part, hpart, hmem⟩
  · decide
  · have hdigits := (Bool.and_eq_true_iff.mp (List.all_eq_true.mp hparts part hpart)).2
    have hdigit : 48 ≤ c.toNat ∧ c.toNat ≤ 57 := by
      simpa [Char.isDigit, UInt32.le_iff_toNat_le] using List.all_eq_true.mp hdigits c hmem
    rw [Bool.or_eq_false_iff]
    constructor
    · simp only [isSpaceChar, spaceCodes, decide_eq_false_iff_not, List.mem_cons,
        List.not_mem_nil, or_false]
      omega
    · refine decide_eq_false fun heq => ?_
      rw [heq] at hdigit
      exact absurd hdigit (by decide)

theorem version_unique {version other : List Char} (h : isVersion version = true)
    (hother : isVersion other = true) {release : Release}
    (hmine : ofVersion version release = true) (hmine' : ofVersion other release = true) :
    version = other := by
  have hle : ∀ first second : List Char, isVersion second = true → first <+: second →
      ofVersion first release = true → ofVersion second release = true → first = second := by
    rintro first _ hsecond ⟨more, rfl⟩ hfirst hrelease
    rw [ofVersion, Bool.and_eq_true] at hfirst hrelease
    obtain ⟨rest, hrest⟩ := List.isPrefixOf_iff_prefix.mp hrelease.1
    have hends := hfirst.2
    have hneedle : needle (first ++ more) ++ rest = needle first ++ (more ++ rest) := by
      simp [needle]
    rw [← hrest, hneedle, List.drop_left] at hends
    cases more with
    | nil => simp
    | cons c more =>
      have hchar := version_chars hsecond c (by simp)
      rw [List.cons_append, endsVersion, hchar] at hends
      cases hends
  obtain ⟨rest, hrest⟩ := List.isPrefixOf_iff_prefix.mp (Bool.and_eq_true_iff.mp hmine).1
  obtain ⟨rest', hrest'⟩ := List.isPrefixOf_iff_prefix.mp (Bool.and_eq_true_iff.mp hmine').1
  have hsame : version ++ rest = other ++ rest' := by
    have heq := hrest.trans hrest'.symm
    rw [needle, needle, List.append_assoc, List.append_assoc] at heq
    exact List.append_cancel_left heq
  rcases List.prefix_or_prefix_of_prefix (List.prefix_append version rest)
    (hsame ▸ List.prefix_append other rest') with hbegins | hbegins
  · exact hle version other hother hbegins hmine hmine'
  · exact (hle other version h hbegins hmine' hmine).symm

/-! What a step keeps. -/

theorem Roll.mem_under_written (roll : Roll) {parts : List Release} {key : Label ⊕ Line}
    {line : Line} : line ∈ under key (roll.written parts).blocks ↔
      (∃ release ∈ parts, roll.mine release = true ∧
        line ∈ under key (sectionOf release).blocks) ∨
      line ∈ under key roll.newSection.blocks := by
  have hheld : (∃ release ∈ parts, roll.mine release = true ∧
        line ∈ under key (sectionOf release).blocks) ↔
      ∃ release ∈ parts.filter roll.mine, line ∈ under key (sectionOf release).blocks := by
    simp [and_assoc]
  rw [hheld, written]
  cases parts.filter roll.mine with
  | nil => simp [writtenSection]
  | cons first duplicates =>
    rw [writtenSection, mem_under_foldl_absorb]
    simp only [List.exists_mem_cons_iff, List.mem_map, exists_exists_and_eq_and]
    rw [or_assoc]
    exact or_congr Iff.rfl or_comm

theorem mem_releases_after {roll : Roll} {changelog result above tail tail' : List Char}
    (h : Rolled roll changelog result above tail tail') {release : Release} :
    release ∈ releases tail' ↔ release = roll.newRelease (releases tail) ∨
      release ∈ releases tail ∧ roll.mine release = false := by
  have hmine := roll.mine_newRelease h.releases
  have hheld := filter_putInPlace hmine (releases tail)
  have hothers := filter_not_putInPlace hmine (releases tail)
  rw [← h.releases_after] at hheld hothers
  cases hrelease : roll.mine release with
  | true =>
    have hiff : release ∈ releases tail' ↔ release ∈ (releases tail').filter roll.mine := by
      simp [hrelease]
    rw [hiff, hheld]
    simp
  | false =>
    have hiff : release ∈ releases tail' ↔
        release ∈ (releases tail').filter fun r => !roll.mine r := by simp [hrelease]
    have hne : release ≠ roll.newRelease (releases tail) := by
      rintro rfl
      rw [hmine] at hrelease
      cases hrelease
    rw [hiff, hothers]
    simp [hrelease, hne]

theorem bullet_injective : Function.Injective bullet := fun _ _ h => List.append_cancel_left h

/-- What a release of the version holds after a roll: what one held before, and what the roll
brings to its own. -/
theorem recorded_after {roll : Roll} {changelog result : List Char} {repo repo' : Repo}
    (hledger : repo.ledger = some changelog) (hledger' : repo'.ledger = some result)
    (h : insertRelease changelog roll.rendered roll.version = .ok result)
    {version : List Char} (hversion : isVersion version = true) {label : Label} {text : Line} :
    Recorded repo' version label text ↔ Recorded repo version label text ∨
      version = roll.version ∧ text ∈ roll.entries label ∧ isContent (bullet text) = true := by
  obtain ⟨above, tail, tail', hrolled⟩ := exists_rolled roll h
  have hmine := roll.mine_newRelease hrolled.releases
  have hsection := roll.sectionOf_newRelease hrolled.releases
  have hbrought : bullet text ∈ under (.inl label) roll.newSection.blocks ↔
      text ∈ roll.entries label ∧ isContent (bullet text) = true := by
    rw [roll.mem_under_newSection, Roll.brought, mem_contentOf,
      List.mem_map_of_injective bullet_injective]
  constructor
  · rintro ⟨_, above', tail₁, hresult, hsplit, release, hrelease, hof, hmem⟩
    obtain rfl := Option.some.inj (hledger'.symm.trans hresult)
    obtain ⟨rfl, rfl⟩ := Prod.mk.inj
      (Option.some.inj (Except.ok.inj (hrolled.split_after.symm.trans hsplit)))
    rcases (mem_releases_after hrolled).mp hrelease with rfl | ⟨hthere, -⟩
    · have hsame := version_unique hversion roll.version_ok hof hmine
      rw [hsection, under_trimmed, roll.mem_under_written] at hmem
      rcases hmem with ⟨old, hold, hown, hmem⟩ | hmem
      · refine .inl ⟨changelog, above, tail, hledger, hrolled.split, old, hold, ?_, hmem⟩
        rw [hsame]
        exact hown
      · exact .inr ⟨hsame, hbrought.mp hmem⟩
    · exact .inl ⟨changelog, above, tail, hledger, hrolled.split, release, hthere, hof, hmem⟩
  · have hnew : ∀ line, line ∈ under (.inl label) (roll.written (releases tail)).blocks →
        line ∈ under (.inl label) (sectionOf (roll.newRelease (releases tail))).blocks := by
      intro line hline
      rwa [hsection, under_trimmed]
    rintro (⟨_, above', tail₁, hold, hsplit, release, hrelease, hof, hmem⟩ | ⟨rfl, htext⟩)
    · obtain rfl := Option.some.inj (hledger.symm.trans hold)
      obtain ⟨rfl, rfl⟩ := Prod.mk.inj
        (Option.some.inj (Except.ok.inj (hrolled.split.symm.trans hsplit)))
      cases hown : roll.mine release with
      | false =>
        exact ⟨result, above, tail', hledger', hrolled.split_after, release,
          (mem_releases_after hrolled).mpr (.inr ⟨hrelease, hown⟩), hof, hmem⟩
      | true =>
        have hsame := version_unique hversion roll.version_ok hof hown
        refine ⟨result, above, tail', hledger', hrolled.split_after, _,
          (mem_releases_after hrolled).mpr (.inl rfl), ?_, hnew _ ?_⟩
        · rw [hsame]
          exact hmine
        · exact roll.mem_under_written.mpr (.inl ⟨release, hrelease, hown, hmem⟩)
    · exact ⟨result, above, tail', hledger', hrolled.split_after, _,
        (mem_releases_after hrolled).mpr (.inl rfl), hmine,
        hnew _ (roll.mem_under_written.mpr (.inr (hbrought.mpr htext)))⟩

theorem mem_readFragmentFiles {dir : List (Line × List Char)} {file : Line × List Char} :
    file ∈ readFragmentFiles dir ↔ file ∈ dir ∧ ".md".toList.isSuffixOf file.1 = true := by
  rw [readFragmentFiles, List.mem_mergeSort, List.mem_filter]

/-- Where a step leads: nothing happens, a fragment is added, or a roll is written and some of its
fragments go. -/
theorem step_cases (repo : Repo) (act : Act) :
    repo.step act = repo ∨
      (∃ file text, act = .write file text ∧
        repo.step act = { repo with dir := repo.dir ++ [(file, text)] }) ∨
      ∃ (roll : Roll) (changelog result : List Char),
        (∃ dryRun removed, act = .run roll.version roll.date dryRun removed) ∧
        collectFragments (readFragmentFiles repo.dir) = .ok roll.entries ∧
        repo.ledger = some changelog ∧ (repo.step act).ledger = some result ∧
        insertRelease changelog roll.rendered roll.version = .ok result ∧
        ∀ file ∈ (repo.step act).dir, file ∈ repo.dir := by
  cases act with
  | write file text =>
    rw [Repo.step]
    split_ifs with hthere
    · exact .inl rfl
    · exact .inr (.inl ⟨file, text, rfl, rfl⟩)
  | run version date dryRun removed =>
    rw [Repo.step]
    cases houtcome : runScript version date dryRun (readFragmentFiles repo.dir) repo.ledger with
    | rolled result =>
      obtain ⟨roll, changelog, rfl, rfl, hentries, hledger, hinsert⟩ := exists_roll houtcome
      refine .inr (.inr ⟨roll, changelog, result, ⟨dryRun, removed, rfl⟩, hentries, hledger, rfl,
        hinsert, fun file hfile => ?_⟩)
      exact (List.mem_filter.mp hfile).1
    | usage => exact .inl rfl
    | nothingToRoll => exact .inl rfl
    | failed error => exact .inl rfl
    | printed text => exact .inl rfl

theorem Pending.isEntry_or {repo : Repo} {act : Act} {label : Label} {text : Line}
    (h : Pending (repo.step act) label text) :
    Pending repo label text ∨ ∃ file contents, act = .write file contents ∧
      IsEntry contents label text := by
  obtain ⟨file, hfile, hentry⟩ := h
  obtain ⟨hfile, hname⟩ := mem_readFragmentFiles.mp hfile
  rcases step_cases repo act with hsame | ⟨new, contents, hact, hstep⟩ |
    ⟨roll, changelog, result, -, -, -, -, -, hdir⟩
  · rw [hsame] at hfile
    exact .inl ⟨file, mem_readFragmentFiles.mpr ⟨hfile, hname⟩, hentry⟩
  · rw [hstep] at hfile
    rcases List.mem_append.mp hfile with hfile | hfile
    · exact .inl ⟨file, mem_readFragmentFiles.mpr ⟨hfile, hname⟩, hentry⟩
    · obtain rfl := List.mem_singleton.mp hfile
      exact .inr ⟨new, contents, hact, hentry⟩
  · exact .inl ⟨file, mem_readFragmentFiles.mpr ⟨hdir file hfile, hname⟩, hentry⟩

section Steps
variable {repo : Repo} {act : Act} {version : List Char} {label : Label} {text : Line}

theorem Recorded.step (hversion : isVersion version = true)
    (h : Recorded repo version label text) : Recorded (repo.step act) version label text := by
  rcases step_cases repo act with hsame | ⟨new, contents, -, hstep⟩ |
    ⟨roll, changelog, result, -, -, hledger, hledger', hinsert, -⟩
  · rwa [hsame]
  · rw [hstep]
    exact h
  · exact (recorded_after hledger hledger' hinsert hversion).mpr (.inl h)

theorem Recorded.of_step (hversion : isVersion version = true)
    (h : Recorded (repo.step act) version label text) :
    Recorded repo version label text ∨ Pending repo label text := by
  rcases step_cases repo act with hsame | ⟨new, contents, -, hstep⟩ |
    ⟨roll, changelog, result, -, hentries, hledger, hledger', hinsert, -⟩
  · rw [hsame] at h
    exact .inl h
  · rw [hstep] at h
    exact .inl h
  · refine ((recorded_after hledger hledger' hinsert hversion).mp h).imp_right ?_
    rintro ⟨-, htext, -⟩
    exact (mem_collectFragments hentries).mp htext

/-- An entry that is not a placeholder stays in the fragments or gets into a release. -/
theorem Pending.step (hcontent : isContent (bullet text) = true) (h : Pending repo label text) :
    Pending (repo.step act) label text ∨
      ∃ version, isVersion version = true ∧ Recorded (repo.step act) version label text := by
  rcases step_cases repo act with hsame | ⟨new, contents, -, hstep⟩ |
    ⟨roll, changelog, result, -, hentries, hledger, hledger', hinsert, -⟩
  · rw [hsame]
    exact .inl h
  · obtain ⟨file, hfile, hentry⟩ := h
    obtain ⟨hfile, hname⟩ := mem_readFragmentFiles.mp hfile
    rw [hstep]
    exact .inl ⟨file, mem_readFragmentFiles.mpr ⟨List.mem_append_left _ hfile, hname⟩, hentry⟩
  · refine .inr ⟨roll.version, roll.version_ok, ?_⟩
    refine (recorded_after hledger hledger' hinsert roll.version_ok).mpr (.inr ⟨rfl, ?_, hcontent⟩)
    exact (mem_collectFragments hentries).mpr h

end Steps

open Runs in
/-- Over all runs of changes and of the script, cut off anywhere: what a release holds it keeps,
an entry that is written down is in a fragment or a release from then on, and a release holds
nothing that was not there or in a fragment. -/
theorem run_keeps_entries (repo : Repo) (acts : List Act) (label : Label) (text : Line) :
    (∀ version, isVersion version = true → Recorded repo version label text →
      Recorded (run Repo.step repo acts) version label text) ∧
    (text ≠ "None.".toList → Pending repo label text →
      Pending (run Repo.step repo acts) label text ∨ ∃ version, isVersion version = true ∧
        Recorded (run Repo.step repo acts) version label text) ∧
    ∀ version, isVersion version = true →
      Recorded (run Repo.step repo acts) version label text →
        Recorded repo version label text ∨ Pending repo label text ∨
          ∃ file contents, .write file contents ∈ acts ∧ IsEntry contents label text := by
  induction acts generalizing repo with
  | nil => exact ⟨fun _ _ h => h, fun _ h => .inl h, fun _ _ h => .inl h⟩
  | cons act acts ih =>
    obtain ⟨hkept, hpending, hsource⟩ := ih (repo.step act)
    rw [run_cons]
    refine ⟨fun version hversion h => hkept version hversion (h.step hversion), ?_, ?_⟩
    · intro htext h
      have hcontent : isContent (bullet text) = true := by
        have hne : bullet text ≠ placeholder := fun heq => htext (bullet_injective heq)
        have hnil : bullet text ≠ [] := List.cons_ne_nil _ _
        simp [isContent, hne, hnil]
      rcases h.step hcontent with h | ⟨version, hversion, h⟩
      · exact hpending htext h
      · exact .inr ⟨version, hversion, hkept version hversion h⟩
    · intro version hversion h
      have hlater : (∃ file contents, .write file contents ∈ acts ∧
          IsEntry contents label text) → ∃ file contents, .write file contents ∈ act :: acts ∧
            IsEntry contents label text := by
        rintro ⟨file, contents, hmem, hentry⟩
        exact ⟨file, contents, List.mem_cons_of_mem _ hmem, hentry⟩
      rcases hsource version hversion h with h | h | h
      · exact (h.of_step hversion).imp_right .inl
      · rcases h.isEntry_or with h | ⟨file, contents, rfl, hentry⟩
        · exact .inr (.inl h)
        · exact .inr (.inr ⟨file, contents, List.mem_cons_self, hentry⟩)
      · exact .inr (.inr (hlater h))

end Changelog
