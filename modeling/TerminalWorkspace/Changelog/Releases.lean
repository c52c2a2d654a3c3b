import TerminalWorkspace.Changelog.Ledger

/-! The releases of a ledger by its lines, and that the search through the text finds them. -/
namespace Changelog
open HeadedLists JsText RecordFile

/-- The heading and the lines below it. -/
abbrev Release := Line × List Line

def isHeadline (line : Line) : Bool := "## ".toList.isPrefixOf line

def ofVersion (version : List Char) (release : Release) : Bool :=
  (needle version).isPrefixOf release.1 &&
    endsVersion (release.1.drop (needle version).length)

def textOf (release : Release) : List Char := release.1 ++ tailed '\n' release.2

/-- Each release behind the end of a line. -/
def written (releases : List Release) : List Char := tailed '\n' (unheaded releases)

/-- The releases of a text, without the blank lines they end in. -/
def releases (tail : List Char) : List Release :=
  trimmed List.isEmpty (headed isHeadline (tail.splitOn '\n')).2

/-- What the releases of a text are made of. -/
structure Releases (parts : List Release) : Prop where
  cut : IsCut isHeadline parts
  plain : ∀ line ∈ unheaded parts, '\n' ∉ line

@[simp] theorem written_nil : written [] = [] := rfl

@[simp] theorem written_cons (release : Release) (rest : List Release) :
    written (release :: rest) = '\n' :: (textOf release ++ written rest) := by
  simp [written, textOf]

@[simp] theorem written_append (parts rest : List Release) :
    written (parts ++ rest) = written parts ++ written rest := by
  simp [written]

theorem written_eq_nil_iff {parts : List Release} : written parts = [] ↔ parts = [] := by
  cases parts <;> simp

theorem Releases.nil : Releases [] := ⟨⟨by simp, by simp⟩, by simp⟩

theorem Releases.of_cons {release : Release} {rest : List Release}
    (h : Releases (release :: rest)) : Releases rest :=
  ⟨h.cut.of_cons, fun line hline => h.plain line (List.mem_append_right _ hline)⟩

theorem Releases.plain_release {release : Release} {rest : List Release}
    (h : Releases (release :: rest)) : '\n' ∉ release.1 ∧ ∀ line ∈ release.2, '\n' ∉ line :=
  ⟨h.plain _ List.mem_cons_self, fun line hline =>
    h.plain line (List.mem_cons_of_mem _ (List.mem_append_left _ hline))⟩

theorem Releases.append {parts rest : List Release} (h : Releases parts)
    (hrest : Releases rest) : Releases (parts ++ rest) := by
  refine ⟨h.cut.append hrest.cut, fun line hline => ?_⟩
  rw [unheaded_append] at hline
  exact (List.mem_append.mp hline).elim (h.plain line) (hrest.plain line)

theorem Releases.subset {parts rest : List Release} (h : Releases parts) (hsub : rest ⊆ parts) :
    Releases rest := by
  refine ⟨h.cut.subset hsub, fun line hline => h.plain line ?_⟩
  obtain ⟨part, hpart, hmem⟩ := List.mem_flatMap.mp hline
  exact List.mem_flatMap.mpr ⟨part, hsub hpart, hmem⟩

theorem releases_headed (tail : List Char) :
    Releases (headed isHeadline (tail.splitOn '\n')).2 := by
  refine ⟨isCut_headed _ _, fun line hline => ?_⟩
  have hmem : line ∈ tail.splitOn '\n' := by
    rw [← append_unheaded_headed isHeadline (tail.splitOn '\n')]
    exact List.mem_append_right _ hline
  exact not_mem_of_mem_splitOn hmem

theorem headline_cons {line : Line} (h : isHeadline line = true) :
    ∃ rest, line = '#' :: '#' :: ' ' :: rest := by
  obtain ⟨rest, hrest⟩ := List.isPrefixOf_iff_prefix.mp h
  exact ⟨rest, hrest.symm⟩

/-! ## One release cut off -/

theorem atLines_startsRelease : AtLines '\n' startsRelease isHeadline :=
  atLines_isPrefixOf "## ".toList (by decide)

theorem cutRelease_textOf {release : Release} {rest : List Release}
    (h : Releases (release :: rest)) :
    cutRelease (textOf release ++ written rest) = (textOf release, written rest) := by
  have hbodies := h.cut.bodies release List.mem_cons_self
  obtain ⟨hhead, hbody⟩ := h.plain_release
  have htail : cutAt startsRelease (tailed '\n' (release.2 ++ unheaded rest)) =
      (cutAt startsRelease (written rest)).map (prepend (tailed '\n' release.2)) :=
    atLines_startsRelease.cutAt_append hbody hbodies (unheaded rest)
  rw [cutRelease, textOf, List.append_assoc, written, ← tailed_append,
    atLines_startsRelease.cutAt_line hhead, htail, ← map_prepend_append]
  cases rest with
  | nil => simp [written, cutAt]
  | cons second rest =>
    have hsecond := h.of_cons.cut.heads second List.mem_cons_self
    have hcut := atLines_startsRelease.cutAt_head h.of_cons.plain_release.1 hsecond
      (second.2 ++ unheaded rest)
    have hwritten : written (second :: rest) =
        tailed '\n' (second.1 :: (second.2 ++ unheaded rest)) := by simp [written]
    rw [hwritten, hcut]
    simp [prepend, written]

/-! ## The search -/

section Search
variable {version : List Char}

def startsVersion (version text : List Char) : Bool :=
  (needle version).isPrefixOf text && endsVersion (text.drop (needle version).length)

def isNewline (c : Char) : Bool := c = '\n'

abbrev cutVersion (version : List Char) : Bool → List Char → Option (List Char × List Char) :=
  cutLine isNewline (startsVersion version)

theorem needle_cons (version : List Char) : needle version = '#' :: '#' :: ' ' :: version := rfl

theorem not_mem_needle (h : '\n' ∉ version) : '\n' ∉ needle version := by
  rw [needle_cons]
  simpa using h

theorem atLineStart_append (before text : List Char) :
    atLineStart (before ++ text) = text.getLast?.elim (atLineStart before) isNewline := by
  cases text using List.reverseRecOn with
  | nil => simp
  | append_singleton text c => simp [atLineStart, ← List.append_assoc, isNewline]

theorem startsVersion_line (h : '\n' ∉ version) (line : Line) (lines body : List Line) :
    startsVersion version (line ++ tailed '\n' lines) = ofVersion version (line, body) := by
  rw [startsVersion, isPrefixOf_line _ _ (not_mem_needle h), ofVersion]
  by_cases hbegins : (needle version).isPrefixOf line = true
  · obtain ⟨rest, rfl⟩ := List.isPrefixOf_iff_prefix.mp hbegins
    rw [List.append_assoc, List.drop_left, List.drop_left]
    cases rest with
    | nil =>
      cases lines with
      | nil => rfl
      | cons second lines => rfl
    | cons c rest => rfl
  · simp [hbegins]

theorem startsVersion_cons {c : Char} {text : List Char}
    (h : startsVersion version (c :: text) = true) : c = '#' := by
  rw [startsVersion, Bool.and_eq_true, needle_cons] at h
  exact (List.cons_prefix_cons.mp (List.isPrefixOf_iff_prefix.mp h.1)).1.symm

theorem length_cutRelease {found : List Char} (h : (needle version).isPrefixOf found = true) :
    (cutRelease found).2.length < found.length := by
  obtain ⟨rest, rfl⟩ := List.isPrefixOf_iff_prefix.mp h
  rw [needle_cons] at *
  rw [cutRelease]
  cases hcut : cutAt startsRelease ('#' :: '#' :: ' ' :: version ++ rest) with
  | none => simp
  | some cut =>
    obtain ⟨before, after⟩ := cut
    obtain ⟨heq, hstarts, -⟩ := cutAt_eq_some hcut
    cases before with
    | nil =>
      rw [List.nil_append] at heq
      rw [← heq] at hstarts
      cases atLines_startsRelease.newline_of _ _ hstarts
    | cons c before =>
      rw [heq, Option.getD_some, List.length_append, List.length_cons]
      exact Nat.lt_add_of_pos_left (Nat.succ_pos _)

theorem findFrom_fuel {fuel fuel' : ℕ} {before gap text : List Char} (h : text.length < fuel)
    (h' : text.length < fuel') :
    findFrom version fuel before gap text = findFrom version fuel' before gap text := by
  induction fuel generalizing fuel' before gap text with
  | zero => exact absurd h (Nat.not_lt_zero _)
  | succ fuel ih =>
    obtain ⟨fuel', rfl⟩ : ∃ n, fuel' = n + 1 := ⟨fuel' - 1, by omega⟩
    unfold findFrom
    cases hcut : cutAt (needle version).isPrefixOf text with
    | none => rfl
    | some cut =>
      obtain ⟨skipped, found⟩ := cut
      obtain ⟨rfl, hfound, -⟩ := cutAt_eq_some hcut
      have hlength := length_cutRelease hfound
      have hdrop : (found.drop (needle version).length).length < found.length := by
        obtain ⟨rest, rfl⟩ := List.isPrefixOf_iff_prefix.mp hfound
        rw [needle_cons]
        simp
        omega
      rw [List.length_append] at h h'
      dsimp only
      split_ifs with hhit
      · rw [@ih fuel' _ _ _ (by omega) (by omega)]
      · exact ih (by omega) (by omega)

/-- The search from one place on. -/
def scan (version before gap text : List Char) : Found :=
  findFrom version (text.length + 1) before gap text

theorem findFrom_eq_scan {fuel : ℕ} {before gap text : List Char} (h : text.length < fuel) :
    findFrom version fuel before gap text = scan version before gap text :=
  findFrom_fuel h (Nat.lt_succ_self _)

theorem scan_of_cutAt_none {before gap text : List Char}
    (h : cutAt (needle version).isPrefixOf text = none) :
    scan version before gap text = ([], gap ++ text) := by
  rw [scan, findFrom, h]

/-- Neither the text up to an occurrence of the needle nor the needle itself holds a place at which
a release of the version starts. -/
theorem cutVersion_of_cutAt {text skipped found : List Char} (before : List Char)
    (h : cutAt (needle version).isPrefixOf text = some (skipped, found)) :
    cutVersion version (atLineStart before) text =
      (cutVersion version (atLineStart (before ++ skipped)) found).map (prepend skipped) := by
  obtain ⟨rfl, -, hfirst⟩ := cutAt_eq_some h
  rw [atLineStart_append]
  refine cutLine_append found fun front rest heq hne => ?_
  rw [startsVersion, hfirst front rest heq hne]
  rfl

theorem cutVersion_needle (hversion : '\n' ∉ version) {lineStart : Bool} {after : List Char}
    (h : (lineStart && endsVersion after) = false) :
    cutVersion version lineStart (needle version ++ after) =
      (cutVersion version false after).map (prepend (needle version)) := by
  have hneg : (lineStart && startsVersion version (needle version ++ after)) = false := by
    rw [startsVersion, List.drop_left, List.isPrefixOf_iff_prefix.mpr (List.prefix_append _ _)]
    simpa using h
  have hrest : ∀ c ∈ '#' :: ' ' :: version, isNewline c = false := by
    intro c hc
    refine decide_eq_false fun heq => not_mem_needle hversion ?_
    rw [← heq]
    exact List.mem_cons_of_mem _ hc
  have hcons : needle version ++ after = '#' :: (('#' :: ' ' :: version) ++ after) := rfl
  rw [hcons] at hneg ⊢
  rw [cutVersion, cutLine_cons_neg hneg]
  have hhash : isNewline '#' = false := by decide
  rw [hhash, cutLine_false_append hrest, ← map_prepend_append]
  rfl

/-- The search goes on behind the release that it has found. -/
def scanBehind (version before gap text : List Char) : Option (List Char × List Char) → Found
  | none => ([], gap ++ text)
  | some (skipped, found) =>
    let release := cutRelease found
    let later := scan version (before ++ skipped ++ release.1) [] release.2
    ((gap ++ skipped, release.1) :: later.1, later.2)

/-- The search goes from each line that starts a release of the version to the end of that
release. -/
theorem scan_spec (hversion : '\n' ∉ version) (before gap text : List Char) :
    scan version before gap text = scanBehind version before gap text
      (cutVersion version (atLineStart before) text) := by
  induction h : text.length using Nat.strongRecOn generalizing before gap text with
  | ind n ih =>
    subst h
    cases hcut : cutAt (needle version).isPrefixOf text with
    | none =>
      have hnone : cutVersion version (atLineStart before) text = none :=
        cutLine_eq_none_of_cutAt (fun s hs => (Bool.and_eq_true_iff.mp hs).1) hcut
      rw [scan_of_cutAt_none hcut, hnone]
      rfl
    | some cut =>
      obtain ⟨skipped, found⟩ := cut
      have hpassed := cutVersion_of_cutAt before hcut
      obtain ⟨rfl, hfound, -⟩ := cutAt_eq_some hcut
      have hlength := length_cutRelease hfound
      rw [hpassed, scan, findFrom, hcut]
      dsimp only
      obtain ⟨after, rfl⟩ := List.isPrefixOf_iff_prefix.mp hfound
      rw [List.drop_left]
      by_cases hhit : (atLineStart (before ++ skipped) && endsVersion after) = true
      · have hstart : cutVersion version (atLineStart (before ++ skipped))
            (needle version ++ after) = some ([], needle version ++ after) := by
          rw [Bool.and_eq_true] at hhit
          rw [hhit.1]
          refine cutLine_cons_pos (c := '#') ?_
          have hdrop : endsVersion ((needle version ++ after).drop (needle version).length) =
              true := by rw [List.drop_left, hhit.2]
          exact Bool.and_eq_true_iff.mpr ⟨hfound, hdrop⟩
        rw [if_pos hhit, hstart, findFrom_eq_scan (by rw [List.length_append]; omega)]
        simp [prepend, scanBehind]
      · have hmiss : (atLineStart (before ++ skipped) && endsVersion after) = false := by
          simpa using hhit
        have hlast : atLineStart (before ++ (skipped ++ needle version)) = false := by
          rw [← List.append_assoc, atLineStart_append]
          have hne : needle version ≠ [] := List.cons_ne_nil _ _
          rw [List.getLast?_eq_some_getLast hne, Option.elim_some]
          refine decide_eq_false fun heq => not_mem_needle hversion ?_
          rw [← heq]
          exact List.getLast_mem hne
        have hshort : after.length < (skipped ++ (needle version ++ after)).length := by
          rw [needle_cons]
          simp
          omega
        rw [if_neg hhit, cutVersion_needle hversion hmiss, ← map_prepend_append,
          findFrom_eq_scan (by omega), ih _ hshort _ _ _ rfl, hlast]
        cases cutVersion version false after with
        | none => simp [scanBehind]
        | some cut => simp [prepend, scanBehind]

/-- The search through releases, each behind the end of a line. -/
def foundIn (version : List Char) : List Char → List Release → Found
  | gap, [] => ([], gap)
  | gap, release :: rest =>
    if ofVersion version release then
      ((gap ++ ['\n'], textOf release) :: (foundIn version [] rest).1, (foundIn version [] rest).2)
    else foundIn version (gap ++ '\n' :: textOf release) rest

/-- No release of the version starts in the front part. -/
def Passed (version : List Char) (lineStart : Bool) (front text : List Char) : Prop :=
  cutVersion version lineStart (front ++ text) =
    (cutVersion version (front.getLast?.elim lineStart isNewline) text).map (prepend front)

theorem Passed.append {lineStart : Bool} {front more text : List Char}
    (h : Passed version lineStart front (more ++ text))
    (hmore : Passed version (front.getLast?.elim lineStart isNewline) more text) :
    Passed version lineStart (front ++ more) text := by
  have hlast : (front ++ more).getLast?.elim lineStart isNewline =
      more.getLast?.elim (front.getLast?.elim lineStart isNewline) isNewline := by
    cases more using List.reverseRecOn with
    | nil => simp
    | append_singleton more c => simp [← List.append_assoc]
  rw [Passed, List.append_assoc, h, hmore, hlast, map_prepend_append]

theorem passed_newline (lineStart : Bool) (text : List Char) :
    Passed version lineStart ['\n'] text := by
  refine cutLine_cons_neg (c := '\n') ?_
  have hneg : startsVersion version ('\n' :: text) = false := by
    rw [Bool.eq_false_iff]
    intro hstarts
    exact absurd (startsVersion_cons hstarts) (by decide)
  change (lineStart && startsVersion version ('\n' :: text)) = false
  rw [hneg, Bool.and_false]

theorem passed_line (hversion : '\n' ∉ version) {line : Line} (hline : '\n' ∉ line)
    (hother : ofVersion version (line, []) = false) (lineStart : Bool) (lines : List Line) :
    Passed version lineStart line (tailed '\n' lines) := by
  refine cutLine_line (fun c hc => decide_eq_false fun heq => hline (heq ▸ hc)) fun _ => ?_
  rw [startsVersion_line hversion line lines [], hother, Bool.and_false]

theorem passed_tailed (hversion : '\n' ∉ version) {lines : List Line}
    (h : ∀ line ∈ lines, '\n' ∉ line ∧ ofVersion version (line, []) = false)
    (lineStart : Bool) (more : List Line) :
    Passed version lineStart (tailed '\n' lines) (tailed '\n' more) := by
  induction lines generalizing lineStart with
  | nil => exact (map_prepend_nil _).symm
  | cons line lines ih =>
    obtain ⟨hline, hlines⟩ := List.forall_mem_cons.mp h
    have hrest := passed_line hversion hline.1 hline.2 true (lines ++ more)
    rw [tailed_append] at hrest
    exact (passed_newline lineStart _).append (hrest.append (ih hlines _))

/-- Only a headline heads a release. -/
theorem isHeadline_of_ofVersion {release : Release} (h : ofVersion version release = true) :
    isHeadline release.1 = true := by
  rw [ofVersion, Bool.and_eq_true] at h
  obtain ⟨rest, hrest⟩ := List.isPrefixOf_iff_prefix.mp h.1
  rw [isHeadline, ← hrest, needle, List.append_assoc]
  exact List.isPrefixOf_iff_prefix.mpr (List.prefix_append _ _)

theorem ofVersion_of_not_headline {line : Line} (h : isHeadline line = false) :
    ofVersion version (line, []) = false := by
  rw [Bool.eq_false_iff]
  intro hmine
  rw [isHeadline_of_ofVersion hmine] at h
  cases h

theorem passed_textOf (hversion : '\n' ∉ version) {release : Release} {rest : List Release}
    (h : Releases (release :: rest)) (hother : ofVersion version release = false)
    (lineStart : Bool) : Passed version lineStart (textOf release) (written rest) := by
  obtain ⟨hhead, hbody⟩ := h.plain_release
  have hbodies := h.cut.bodies release List.mem_cons_self
  have hheading := passed_line hversion hhead (hother : ofVersion version (release.1, []) = false)
    lineStart (release.2 ++ unheaded rest)
  rw [tailed_append] at hheading
  refine hheading.append (passed_tailed hversion (fun line hline => ?_) _ _)
  exact ⟨hbody line hline, ofVersion_of_not_headline (hbodies line hline)⟩

theorem cutVersion_textOf (hversion : '\n' ∉ version) {release : Release}
    (hmine : ofVersion version release = true) (rest : List Release) :
    cutVersion version true (textOf release ++ written rest) =
      some ([], textOf release ++ written rest) := by
  obtain ⟨more, hmore⟩ := headline_cons (isHeadline_of_ofVersion hmine)
  have hstarts := startsVersion_line hversion release.1 (release.2 ++ unheaded rest)
    release.2
  rw [hmine, tailed_append, ← List.append_assoc] at hstarts
  change startsVersion version (textOf release ++ written rest) = true at hstarts
  have hcons : textOf release ++ written rest =
      '#' :: '#' :: ' ' :: (more ++ tailed '\n' release.2 ++ written rest) := by
    rw [textOf, hmore]
    rfl
  rw [hcons] at hstarts ⊢
  exact cutLine_cons_pos hstarts

theorem scan_of_passed (hversion : '\n' ∉ version) {before gap front text : List Char}
    (h : Passed version (atLineStart before) front text) :
    scan version before gap (front ++ text) =
      scan version (before ++ front) (gap ++ front) text := by
  rw [scan_spec hversion, scan_spec hversion, h, atLineStart_append]
  cases cutVersion version (front.getLast?.elim (atLineStart before) isNewline) text with
  | none => simp [scanBehind]
  | some cut => simp [scanBehind, prepend]

theorem scan_textOf (hversion : '\n' ∉ version) {release : Release} {rest : List Release}
    (h : Releases (release :: rest)) (hmine : ofVersion version release = true)
    {before : List Char} (hbefore : atLineStart before = true) (gap : List Char) :
    scan version before gap (textOf release ++ written rest) =
      let later := scan version (before ++ textOf release) [] (written rest)
      ((gap, textOf release) :: later.1, later.2) := by
  rw [scan_spec hversion, hbefore, cutVersion_textOf hversion hmine, scanBehind,
    cutRelease_textOf h]
  simp

/-- The search finds the releases by their headings. -/
theorem scan_written (hversion : '\n' ∉ version) {parts : List Release} (h : Releases parts)
    (before gap : List Char) :
    scan version before gap (written parts) = foundIn version gap parts := by
  induction parts generalizing before gap with
  | nil =>
    rw [written_nil, scan_spec hversion]
    simp [cutVersion, cutLine, scanBehind, foundIn]
  | cons release rest ih =>
    have hnewline : scan version before gap (written (release :: rest)) =
        scan version (before ++ ['\n']) (gap ++ ['\n']) (textOf release ++ written rest) := by
      rw [written_cons]
      exact scan_of_passed hversion (passed_newline (atLineStart before) _)
    have hstart : atLineStart (before ++ ['\n']) = true := by
      rw [atLineStart_append]
      rfl
    rw [hnewline, foundIn]
    split_ifs with hmine
    · rw [scan_textOf hversion h hmine hstart]
      dsimp only
      rw [ih h.of_cons]
    · rw [scan_of_passed hversion (passed_textOf hversion h (by simpa using hmine) _),
        ih h.of_cons, List.append_assoc]
      rfl

/-- A text that starts with a release. -/
def foundAll (version : List Char) : List Release → Found
  | [] => ([], [])
  | release :: rest =>
    if ofVersion version release then
      (([], textOf release) :: (foundIn version [] rest).1, (foundIn version [] rest).2)
    else foundIn version (textOf release) rest

theorem findReleases_textOf (hversion : '\n' ∉ version) {release : Release}
    {rest : List Release} (h : Releases (release :: rest)) :
    findReleases (textOf release ++ written rest) version = foundAll version (release :: rest) := by
  change scan version [] [] (textOf release ++ written rest) = _
  rw [foundAll]
  split_ifs with hmine
  · rw [scan_textOf hversion h hmine rfl]
    dsimp only
    rw [scan_written hversion h.of_cons]
  · rw [scan_of_passed hversion (passed_textOf hversion h (by simpa using hmine) _),
      scan_written hversion h.of_cons]
    rfl

/-! ## What is found, and what is left without the duplicates -/

theorem foundIn_of_others {front : List Release}
    (h : ∀ release ∈ front, ofVersion version release = false) (gap : List Char)
    (rest : List Release) :
    foundIn version gap (front ++ rest) = foundIn version (gap ++ written front) rest := by
  induction front generalizing gap with
  | nil => simp
  | cons release front ih =>
    obtain ⟨hrelease, hfront⟩ := List.forall_mem_cons.mp h
    rw [List.cons_append, foundIn, if_neg (by simp [hrelease]), ih hfront, written_cons]
    simp

variable (version) in
theorem foundIn_texts (gap : List Char) (parts : List Release) :
    (foundIn version gap parts).1.map Prod.snd =
      (parts.filter (ofVersion version)).map textOf := by
  induction parts generalizing gap with
  | nil => rfl
  | cons release rest ih =>
    rw [foundIn]
    split_ifs with hmine
    · rw [List.map_cons, ih, List.filter_cons_of_pos hmine, List.map_cons]
    · rw [ih, List.filter_cons_of_neg hmine]

variable (version) in
theorem foundAll_texts (parts : List Release) :
    (foundAll version parts).1.map Prod.snd = (parts.filter (ofVersion version)).map textOf := by
  cases parts with
  | nil => rfl
  | cons release rest =>
    rw [foundAll]
    split_ifs with hmine
    · rw [List.map_cons, foundIn_texts, List.filter_cons_of_pos hmine, List.map_cons]
    · rw [foundIn_texts, List.filter_cons_of_neg hmine]

variable (version) in
theorem flatten_foundIn (gap : List Char) (parts : List Release) :
    (foundIn version gap parts).1.flatMap (fun found => found.1 ++ found.2) ++
      (foundIn version gap parts).2 = gap ++ written parts := by
  induction parts generalizing gap with
  | nil => simp [foundIn]
  | cons release rest ih =>
    have hnil := ih []
    rw [List.nil_append] at hnil
    rw [foundIn]
    split_ifs with hmine
    · rw [List.flatMap_cons, List.append_assoc, hnil]
      simp
    · rw [ih, written_cons]
      simp

theorem not_all_space_written {parts : List Release} (h : Releases parts) (hne : parts ≠ [])
    (text : List Char) : (written parts ++ text).all isSpaceChar = false := by
  obtain ⟨release, rest, rfl⟩ := List.exists_cons_of_ne_nil hne
  obtain ⟨more, hmore⟩ := headline_cons (h.cut.heads release List.mem_cons_self)
  have hhash : isSpaceChar '#' = false := by decide
  rw [written_cons, textOf, hmore]
  simp [hhash]

variable (version) in
/-- Only the releases of the version go, and a separator may stay behind. -/
theorem withoutDuplicates_foundIn {others parts : List Release} (hothers : Releases others)
    (h : Releases parts) :
    ∃ extra, (extra = [] ∨ extra = ['\n']) ∧
      withoutDuplicates (foundIn version (written others) parts).1
          (foundIn version (written others) parts).2 =
        written (others ++ parts.filter fun release => !ofVersion version release) ++ extra := by
  induction parts generalizing others with
  | nil => exact ⟨[], .inl rfl, by simp [foundIn, withoutDuplicates]⟩
  | cons release rest ih =>
    rw [foundIn]
    split_ifs with hmine
    · obtain ⟨extra, hextra, hrest⟩ := ih Releases.nil h.of_cons
      rw [written_nil, List.nil_append] at hrest
      rw [withoutDuplicates, hrest, List.filter_cons_of_neg (by simp [hmine])]
      have hflat := flatten_foundIn version [] rest
      rw [hflat, List.nil_append]
      by_cases hnone : others = []
      · have hspace : (written others ++ ['\n']).all isSpaceChar = true := by
          rw [hnone]
          decide
        rw [if_pos hspace, hnone]
        exact ⟨extra, hextra, rfl⟩
      · rw [if_neg (by rw [not_all_space_written hothers hnone]; simp)]
        split_ifs with hlast
        · obtain rfl := written_eq_nil_iff.mp hlast
          have hdone : written (List.filter (fun release => !ofVersion version release) []) ++
              extra = [] := hrest.symm
          refine ⟨['\n'], .inr rfl, ?_⟩
          rw [hdone]
          simp
        · refine ⟨extra, hextra, ?_⟩
          rw [List.dropLast_concat, written_append, List.append_assoc]
    · have hnext : written others ++ '\n' :: textOf release = written (others ++ [release]) := by
        simp
      have hone : Releases [release] := h.subset (by simp)
      obtain ⟨extra, hextra, hrest⟩ := ih (hothers.append hone) h.of_cons
      refine ⟨extra, hextra, ?_⟩
      rw [hnext, hrest, List.filter_cons_of_pos (by simpa using hmine)]
      simp

end Search

/-! ## The releases of a text -/

/-- The releases one below the other. -/
def joined (parts : List Release) : List Char := (written parts).tail

theorem cons_joined {parts : List Release} (h : parts ≠ []) : '\n' :: joined parts = written parts := by
  obtain ⟨release, rest, rfl⟩ := List.exists_cons_of_ne_nil h
  rw [joined, written_cons]
  rfl

theorem joined_cons (release : Release) (rest : List Release) :
    joined (release :: rest) = textOf release ++ written rest := by
  rw [joined, written_cons, List.tail_cons]

theorem findReleases_joined {version : List Char} (hversion : '\n' ∉ version)
    {parts : List Release} (h : Releases parts) :
    findReleases (joined parts) version = foundAll version parts := by
  cases parts with
  | nil => rfl
  | cons release rest =>
    rw [joined_cons]
    exact findReleases_textOf hversion h

theorem releases_of_splitOn {tail : List Char} {parts : List Release} (h : Releases parts)
    (hlines : tail.splitOn '\n' = unheaded parts ∨ tail.splitOn '\n' = unheaded parts ++ [[]]) :
    releases tail = trimmed List.isEmpty parts := by
  rcases hlines with hlines | hlines
  · rw [releases, hlines, headed_unheaded h.cut]
  · have hblank := (trimmed_headed_concat isHeadline List.isEmpty
      (by rfl : isHeadline [] = false) (by rfl) (unheaded parts)).2
    rw [releases, hlines, hblank, headed_unheaded h.cut]

theorem splitOn_joined {parts : List Release} (h : Releases parts) (hne : parts ≠ [])
    {extra : List Char} (hextra : extra = [] ∨ extra = ['\n']) :
    (joined parts ++ extra).splitOn '\n' = unheaded parts ∨
      (joined parts ++ extra).splitOn '\n' = unheaded parts ++ [[]] := by
  rcases hextra with rfl | rfl
  · refine .inl (splitOn_eq_of_cons_eq ?_ h.plain)
    rw [List.append_nil, cons_joined hne]
    rfl
  · refine .inr (splitOn_eq_of_cons_eq ?_ fun line hline => ?_)
    · rw [← List.cons_append, cons_joined hne, written, tailed_append]
      rfl
    · rcases List.mem_append.mp hline with hline | hline
      · exact h.plain line hline
      · rw [List.mem_singleton.mp hline]
        exact List.not_mem_nil

theorem releases_joined {parts : List Release} (h : Releases parts) (hne : parts ≠ [])
    {extra : List Char} (hextra : extra = [] ∨ extra = ['\n']) :
    releases (joined parts ++ extra) = trimmed List.isEmpty parts :=
  releases_of_splitOn h (splitOn_joined h hne hextra)

/-- A text whose first line is a headline is made of releases. -/
theorem exists_joined {tail : List Char} {line : Line} {lines : List Line}
    (hlines : tail.splitOn '\n' = line :: lines) (hline : isHeadline line = true) :
    ∃ body rest, Releases ((line, body) :: rest) ∧ tail = joined ((line, body) :: rest) := by
  have hall := releases_headed tail
  have hcut := append_unheaded_headed isHeadline (tail.splitOn '\n')
  rw [hlines, headed_cons_pos hline] at hall
  rw [hlines, headed_cons_pos hline, List.nil_append] at hcut
  refine ⟨_, _, hall, ?_⟩
  have htext := cons_eq_tailed '\n' tail
  rw [hlines, ← hcut] at htext
  exact List.cons_inj_right '\n' |>.mp (htext.trans (cons_joined (List.cons_ne_nil _ _)).symm)

end Changelog
