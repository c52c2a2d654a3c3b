import TerminalWorkspace.LegacyDatabase.Processes

/-! The database is published once and whole; when attempts do not overlap its sidecars are
those of the same moment; and an attempt that is left alone completes. -/
namespace LegacyDatabase
open HardLinks Runs

/-! ## Attempts one after another -/

section Sidecars
variable {δ : Type*} {legacy : Legacy δ} {pid : ℕ} {store store' : Store NewFile δ} {stage : Stage}

def Copy.remaining : Copy → List Suffix
  | .sidecar suffix later => suffix :: later
  | .main => []

/-- The sidecars that are still to be copied or removed. -/
def Stage.remaining : Stage → Option (List Suffix)
  | .inspectSidecar suffix later => some (suffix :: later)
  | .removeSidecar suffix later => some (suffix :: later)
  | .create copy => some copy.remaining
  | .fill copy _ => some copy.remaining
  | .sync copy => some copy.remaining
  | .publish => some []
  | _ => none

/-- The sidecar is the legacy one's safe copy, and absent where there is no legacy one. -/
def Copied (legacy : Legacy δ) (store : Store NewFile δ) (suffix : Suffix) : Prop :=
  store.read (.sidecar suffix) = (legacy.sidecar suffix).map (.whole · true)

/-- With the database its sidecars are there, and they are as safe. -/
structure SafeSidecars (store : Store NewFile δ) : Prop where
  lasting : ∀ names ∈ store.earlier, names .database ≠ none →
    ∀ suffix, names (.sidecar suffix) = store.names (.sidecar suffix)
  whole : store.names .database ≠ none → ∀ suffix content,
    store.read (.sidecar suffix) = some content → ∃ data, content = .whole data true

/-- What a process relies on when no other is under way. -/
structure HoldsAlone (legacy : Legacy δ) (pid : ℕ) (store : Store NewFile δ) (stage : Stage) :
    Prop where
  absent : stage.copying = true → store.names .database = none
  copied : ∀ left, stage.remaining = some left → ∀ suffix, suffix ∉ left →
    Copied legacy store suffix
  missing : ∀ suffix later, stage = .removeSidecar suffix later → legacy.sidecar suffix = none
  opened : ∀ suffix later i, stage = .fill (.sidecar suffix later) i →
    store.names (.sidecar suffix) = some i ∧ store.read (.sidecar suffix) = some (.opened pid)
  filled : ∀ suffix later, stage = .sync (.sidecar suffix later) → ∃ data synced,
    store.read (.sidecar suffix) = some (.whole data synced) ∧ legacy.sidecar suffix = some data

theorem holdsAlone_of_none (hcopying : stage.copying = false) (hremaining : stage.remaining = none) :
    HoldsAlone legacy pid store stage := by
  refine ⟨fun h => absurd h (Bool.eq_false_iff.mp hcopying), fun left h => ?_, fun _ _ h => ?_,
    fun _ _ _ h => ?_, fun _ _ h => ?_⟩
  · rw [hremaining] at h
    cases h
  all_goals
    subst h
    cases hcopying

theorem holdsAlone_of_inactive (h : stage.active = false) : HoldsAlone legacy pid store stage := by
  cases stage <;> cases h <;> exact holdsAlone_of_none rfl rfl

theorem holdsAlone_of_copying (habsent : store.names .database = none) {left : List Suffix}
    (hremaining : stage.remaining = some left)
    (hcopied : ∀ suffix, suffix ∉ left → Copied legacy store suffix)
    (hremove : ∀ suffix later, stage ≠ .removeSidecar suffix later)
    (hfill : ∀ suffix later i, stage ≠ .fill (.sidecar suffix later) i)
    (hsync : ∀ suffix later, stage ≠ .sync (.sidecar suffix later)) :
    HoldsAlone legacy pid store stage := by
  refine ⟨fun _ => habsent, fun rest hrest => ?_, fun s later h => absurd h (hremove s later),
    fun s later i h => absurd h (hfill s later i), fun s later h => absurd h (hsync s later)⟩
  rw [hremaining, Option.some.injEq] at hrest
  exact hrest ▸ hcopied

theorem holdsAlone_afterSidecars (habsent : store.names .database = none) {later : List Suffix}
    (hcopied : ∀ suffix, suffix ∉ later → Copied legacy store suffix) :
    HoldsAlone legacy pid store (afterSidecars later) := by
  cases later <;>
    exact holdsAlone_of_copying habsent rfl hcopied (fun _ _ h => by cases h)
      (fun _ _ _ h => by cases h) fun _ _ h => by cases h

/-- A sidecar that was copied stays so while another file is written. -/
theorem Copied.of_leaves {f : NewFile} {suffix : Suffix} (h : Copied legacy store suffix)
    (hleaves : Leaves f store store') (hne : NewFile.sidecar suffix ≠ f) :
    Copied legacy store' suffix := by
  rw [Copied, hleaves.reads _ hne]
  exact h

theorem sidecar_ne_target {copy : Copy} {suffix : Suffix} (h : suffix ∉ copy.remaining) :
    NewFile.sidecar suffix ≠ copy.target pid := by
  intro heq
  cases copy with
  | sidecar first later =>
    cases heq
    exact h List.mem_cons_self
  | main => cases heq

/-- One more sidecar is done. -/
theorem copied_of_done {suffix : Suffix} {later : List Suffix}
    (h : ∀ s, s ∉ suffix :: later → Copied legacy store s)
    (hleaves : Leaves (.sidecar suffix) store store') (hdone : Copied legacy store' suffix) :
    ∀ s, s ∉ later → Copied legacy store' s := by
  intro s hs
  by_cases hsuffix : s = suffix
  · exact hsuffix ▸ hdone
  · refine (h s ?_).of_leaves hleaves fun heq => hsuffix (NewFile.sidecar.inj heq)
    rw [List.mem_cons, not_or]
    exact ⟨hsuffix, hs⟩

namespace SafeSidecars

theorem of_absent (hfiles : Files store) (habsent : store.names .database = none) :
    SafeSidecars store := by
  refine ⟨fun names hnames hpresent => ?_, fun hpresent => absurd habsent hpresent⟩
  exact absurd (hfiles.absent_earlier habsent hnames) hpresent

theorem of_leaves (h : SafeSidecars store) (hleaves : Leaves (.temp pid) store store') :
    SafeSidecars store' := by
  have hne : ∀ suffix, NewFile.sidecar suffix ≠ .temp pid := fun _ heq => by cases heq
  refine ⟨fun names hnames hpresent suffix => ?_, fun hpresent suffix => ?_⟩
  · rw [hleaves.names _ (hne suffix)]
    rcases List.mem_cons.mp (hleaves.earlier names hnames) with rfl | hnames
    · rfl
    · exact h.lasting names hnames hpresent suffix
  · rw [hleaves.names _ fun heq => by cases heq] at hpresent
    rw [hleaves.reads _ (hne suffix)]
    exact h.whole hpresent suffix

theorem of_link (hfiles : Files store) (habsent : store.names .database = none)
    (hcopied : ∀ suffix, Copied legacy store suffix) :
    SafeSidecars (store.link (.temp pid) .database) := by
  have hne : ∀ suffix, NewFile.sidecar suffix ≠ .database := fun _ heq => by cases heq
  refine ⟨fun names hnames hpresent => ?_, fun _ suffix content hcontent => ?_⟩
  · rcases List.mem_cons.mp hnames with rfl | hnames
    · exact absurd habsent hpresent
    · exact absurd (hfiles.absent_earlier habsent hnames) hpresent
  · rw [read_link_of_ne (hne suffix), hcopied suffix] at hcontent
    obtain ⟨data, -, rfl⟩ := Option.map_eq_some_iff.mp hcontent
    exact ⟨data, rfl⟩

/-- The sidecars are still there after a power cut that leaves the database. -/
theorem read_cut (h : SafeSidecars store) (hfiles : Files store) {spared : ℕ → Bool} {lost : ℕ}
    (hpresent : (store.cut spared lost).names .database ≠ none) (suffix : Suffix) :
    (store.cut spared lost).read (.sidecar suffix) = store.read (.sidecar suffix) := by
  obtain ⟨i, hi⟩ := Option.ne_none_iff_exists'.mp hpresent
  have hnow := hfiles.database_cut hi
  refine read_cut_of_synced spared lost ?_ (h.whole (by simp [hnow]) suffix)
  rcases List.mem_cons.mp (@names_cut_mem _ _ _ store spared lost) with heq | hmem
  · rw [heq]
  · exact h.lasting _ hmem hpresent suffix

theorem of_cut (h : SafeSidecars store) (hfiles : Files store) (spared : ℕ → Bool) (lost : ℕ) :
    SafeSidecars (store.cut spared lost) := by
  refine ⟨fun names hnames => absurd hnames List.not_mem_nil, fun hpresent suffix => ?_⟩
  obtain ⟨i, hi⟩ := Option.ne_none_iff_exists'.mp hpresent
  have hnow := hfiles.database_cut hi
  rw [h.read_cut hfiles hpresent suffix]
  exact h.whole (by simp [hnow]) suffix

end SafeSidecars

theorem advance_safeSidecars (hfiles : Files store) (h : Holds legacy pid store stage)
    (hsafe : SafeSidecars store) (halone : HoldsAlone legacy pid store stage) :
    SafeSidecars (advance legacy pid store stage).1 := by
  rcases advance_store hfiles h with ⟨f, hmine, hleaves, hname⟩ | ⟨hstage, habsent, heq⟩
  · cases hcopying : stage.copying with
    | false => exact hsafe.of_leaves (hname hcopying ▸ hleaves)
    | true =>
      refine .of_absent (advance_files hfiles h) ?_
      rw [hleaves.names _ hmine.database_ne]
      exact halone.absent hcopying
  · rw [heq]
    refine .of_link hfiles habsent fun suffix => halone.copied [] ?_ suffix List.not_mem_nil
    rw [hstage]
    rfl

theorem advance_holdsAlone (hfiles : Files store) (h : Holds legacy pid store stage)
    (halone : HoldsAlone legacy pid store stage) :
    HoldsAlone legacy pid (advance legacy pid store stage).1 (advance legacy pid store stage).2 := by
  cases stage with
  | inspectDatabase =>
    rw [advance]
    split_ifs with hhas
    · exact holdsAlone_of_inactive rfl
    · exact ⟨fun _ => has_eq_false.mp (Bool.eq_false_iff.mpr hhas), fun _ h => (by cases h),
        fun _ _ h => (by cases h), fun _ _ _ h => (by cases h), fun _ _ h => (by cases h)⟩
  | inspectLegacy =>
    rw [advance]
    split_ifs
    · exact holdsAlone_afterSidecars (halone.absent rfl) fun suffix hnot =>
        absurd (mem_suffixes suffix) hnot
    · exact holdsAlone_of_inactive rfl
  | inspectSidecar suffix later =>
    rw [advance]
    have habsent := halone.absent rfl
    have hcopied := halone.copied _ rfl
    split_ifs with hsidecar
    · exact holdsAlone_of_copying habsent rfl hcopied (fun _ _ h => by cases h)
        (fun _ _ _ h => by cases h) fun _ _ h => by cases h
    · refine ⟨fun _ => habsent, fun left hleft => ?_, fun s rest hstage => ?_,
        fun _ _ _ h => (by cases h), fun _ _ h => (by cases h)⟩
      · cases hleft
        exact hcopied
      · cases hstage
        exact Option.not_isSome_iff_eq_none.mp hsidecar
  | removeSidecar suffix later =>
    have hleaves := leaves_remove (.sidecar suffix) store
    have habsent : (store.remove (.sidecar suffix)).names .database = none :=
      (hleaves.names _ (mine_sidecar pid suffix).database_ne).trans (halone.absent rfl)
    have hdone : Copied legacy (store.remove (.sidecar suffix)) suffix := by
      rw [Copied, read_remove_self, halone.missing suffix later rfl]
      rfl
    exact holdsAlone_afterSidecars habsent (copied_of_done (halone.copied _ rfl) hleaves hdone)
  | create copy =>
    rw [advance]
    split_ifs with hsource
    · have hmine := mine_target pid copy
      have hleaves := h.leaves_create hfiles rfl copy
      refine ⟨fun _ => ?_, fun left hleft s hs => ?_, fun _ _ h => (by cases h),
        fun s rest i hstage => ?_, fun _ _ h => (by cases h)⟩
      · rw [hleaves.names _ hmine.database_ne]
        exact halone.absent rfl
      · cases hleft
        exact (halone.copied _ rfl s hs).of_leaves hleaves (sidecar_ne_target hs)
      · cases hstage
        exact ⟨names_create_self, read_create_self⟩
    · exact holdsAlone_of_inactive rfl
  | fill copy file =>
    rw [advance]
    cases hsource : copy.source legacy with
    | none => exact holdsAlone_of_inactive rfl
    | some data =>
      have hleaves : Leaves (copy.target pid) store (store.fill pid file data) :=
        h.leaves_fill hfiles
      refine ⟨fun _ => halone.absent rfl, fun left hleft s hs => ?_, fun _ _ h => (by cases h),
        fun _ _ _ h => (by cases h), fun s rest hstage => ?_⟩
      · cases hleft
        exact (halone.copied _ rfl s hs).of_leaves hleaves (sidecar_ne_target hs)
      · cases hstage
        obtain ⟨hname, hread⟩ := halone.opened s rest file rfl
        exact ⟨data, false, read_fill_self hname (contents_of_read hname hread), hsource⟩
  | sync copy =>
    rw [advance]
    split_ifs with hhas
    · have hleaves := h.leaves_sync hfiles rfl copy
      have habsent : (store.sync (copy.target pid)).names .database = none := by
        rw [names_sync]
        exact halone.absent rfl
      cases copy with
      | sidecar suffix later =>
        obtain ⟨data, synced, hread, hlegacy⟩ := halone.filled suffix later rfl
        have hdone : Copied legacy (store.sync (.sidecar suffix)) suffix := by
          rw [Copied, read_sync_self hread, hlegacy]
          rfl
        exact holdsAlone_afterSidecars habsent (copied_of_done (halone.copied _ rfl) hleaves hdone)
      | main =>
        refine holdsAlone_of_copying habsent rfl (fun s hs => ?_) (fun _ _ h => by cases h)
          (fun _ _ _ h => by cases h) fun _ _ h => by cases h
        exact (halone.copied _ rfl s hs).of_leaves hleaves fun heq => by cases heq
    · exact holdsAlone_of_inactive rfl
  | publish =>
    rw [advance]
    split_ifs <;> exact holdsAlone_of_none rfl rfl
  | discard => exact holdsAlone_of_none rfl rfl
  | abandon => exact holdsAlone_of_none rfl rfl
  | removeTemp => exact holdsAlone_of_none rfl rfl
  | syncDirectory => exact holdsAlone_of_none rfl rfl
  | idle => exact halone
  | done => exact halone
  | failed error => exact halone

end Sidecars
/-! ## The system -/

section System
variable {δ : Type*} {w : World δ} {event : Event δ} {events : List (Event δ)} {pid : ℕ}

/-- The event is the step by which a process publishes in `w`, where no database was there, and
the database of `later` is the safe copy of the legacy one of that moment. -/
def PublishedBy (w : World δ) (event : Event δ) (later : World δ) : Prop :=
  ∃ pid data, event = .advance pid ∧ w.stages pid = .publish ∧
    w.store.read .database = none ∧ w.legacy.main = some data ∧
    later.store.read .database = some (.whole data true)

def PublishedWithSidecars (w : World δ) (event : Event δ) (later : World δ) : Prop :=
  PublishedBy w event later ∧ ∀ suffix, Copied w.legacy later.store suffix

/-- A database that is there after a step has just been published, or was there before. -/
theorem Sound.database_step (h : Sound w) {i : ℕ}
    (hi : (w.step event).store.names .database = some i) :
    PublishedBy w event (w.step event) ∨ w.store.names .database = some i ∧
      (w.step event).store.read .database = w.store.read .database := by
  cases event with
  | start pid =>
    rw [World.step] at hi ⊢
    split_ifs at hi ⊢ <;> exact .inr ⟨hi, rfl⟩
  | advance pid =>
    rcases advance_store h.files (h.stages pid) with
      ⟨f, hmine, hleaves, -⟩ | ⟨hstage, habsent, heq⟩
    · exact .inr ⟨(hleaves.names _ hmine.database_ne).symm.trans hi,
        hleaves.reads _ hmine.database_ne⟩
    · obtain ⟨data, htemp, hmain⟩ := (h.stages pid).synced hstage
      refine .inl ⟨pid, data, rfl, hstage, read_eq_none.mpr habsent, hmain, ?_⟩
      rw [World.step, store_goes, heq, read_link_self, htemp]
  | fail pid => exact .inr ⟨hi, rfl⟩
  | crash pid => exact .inr ⟨hi, rfl⟩
  | powerCut spared lost => exact .inr ⟨h.files.database_cut hi, h.files.read_cut hi⟩
  | legacyWrites legacy => exact .inr ⟨hi, rfl⟩

/-- Whoever goes on to open the database finds one, unless there was none to migrate. -/
theorem Sound.done_step (h : Sound w) (hnot : w.stages pid ≠ .done)
    (hdone : (w.step event).stages pid = .done) :
    (∃ i, (w.step event).store.names .database = some i) ∨ w.legacy.main = none := by
  have hgoes : ∀ {other : ℕ} {store : Store NewFile δ} {stage : Stage},
      (w.goes other store stage).stages pid = .done → other = pid ∧ stage = .done := by
    intro other store stage hstage
    by_cases hother : pid = other
    · subst hother
      exact ⟨rfl, stages_goes_self.symm.trans hstage⟩
    · exact absurd ((stages_goes_of_ne hother).symm.trans hstage) hnot
  cases event with
  | start other =>
    rw [World.step] at hdone
    split_ifs at hdone
    · exact absurd hdone hnot
    · cases (hgoes hdone).2
  | advance other =>
    obtain ⟨rfl, hstage⟩ := hgoes hdone
    exact advance_done (h.stages other) hnot hstage
  | fail other =>
    obtain ⟨rfl, hstage⟩ := hgoes hdone
    exact .inl (failing_done (h.stages other) hnot hstage)
  | crash other => cases (hgoes hdone).2
  | powerCut spared lost => cases hdone
  | legacyWrites legacy => exact absurd hdone hnot

/-- What holds besides when no two attempts overlap. -/
structure SoundAlone (w : World δ) : Prop extends Sound w where
  safe : SafeSidecars w.store
  one : ∀ pid other, (w.stages pid).active = true → (w.stages other).active = true → pid = other
  alone : ∀ pid, HoldsAlone w.legacy pid w.store (w.stages pid)

theorem Sound.alone (h : Sound w) (habsent : w.store.names .database = none)
    (hidle : ∀ pid, (w.stages pid).active = false) : SoundAlone w where
  toSound := h
  safe := .of_absent h.files habsent
  one := fun pid _ hpid _ => absurd hpid (Bool.eq_false_iff.mp (hidle pid))
  alone := fun pid => holdsAlone_of_inactive (hidle pid)

theorem SoundAlone.goes (h : SoundAlone w) {store : Store NewFile δ} {stage : Stage}
    (hsound : Sound (w.goes pid store stage)) (hsafe : SafeSidecars store)
    (hpid : HoldsAlone w.legacy pid store stage)
    (hothers : ∀ other, other ≠ pid → HoldsAlone w.legacy other store (w.stages other))
    (hactive : stage.active = true →
      (w.stages pid).active = true ∨ ∀ other, (w.stages other).active = false) :
    SoundAlone (w.goes pid store stage) := by
  have hclash : ∀ other, other ≠ pid → stage.active = true → (w.stages other).active = true →
      False := by
    intro other hother hstage hactiveOther
    rcases hactive hstage with hbefore | hnone
    · exact hother (h.one other pid hactiveOther hbefore)
    · exact absurd hactiveOther (Bool.eq_false_iff.mp (hnone other))
  refine ⟨hsound, hsafe, fun first second hfirst hsecond => ?_, fun other => ?_⟩
  · by_cases hf : first = pid
    · by_cases hs : second = pid
      · rw [hf, hs]
      · rw [hf, stages_goes_self] at hfirst
        rw [stages_goes_of_ne hs] at hsecond
        exact (hclash second hs hfirst hsecond).elim
    · rw [stages_goes_of_ne hf] at hfirst
      by_cases hs : second = pid
      · rw [hs, stages_goes_self] at hsecond
        exact (hclash first hf hsecond hfirst).elim
      · rw [stages_goes_of_ne hs] at hsecond
        exact h.one first second hfirst hsecond
  · by_cases hother : other = pid
    · subst hother
      rw [stages_goes_self]
      exact hpid
    · rw [stages_goes_of_ne hother]
      exact hothers other hother

theorem advance_of_inactive {legacy : Legacy δ} {store : Store NewFile δ} {stage : Stage}
    (h : stage.active = false) : advance legacy pid store stage = (store, stage) := by
  cases stage <;> first | rfl | cases h

theorem failing_of_active {stage : Stage} (h : (failing pid stage).active = true) :
    stage.active = true := by
  cases stage <;> first | rfl | cases h

theorem failing_holdsAlone {legacy : Legacy δ} {store : Store NewFile δ} (stage : Stage) :
    HoldsAlone legacy pid store (failing pid stage) := by
  cases stage <;> exact holdsAlone_of_none rfl rfl

theorem SoundAlone.step (h : SoundAlone w) (hkept : LegacyKept w event) (halone : Alone w event) :
    SoundAlone (w.step event) := by
  have hsound := h.toSound.step hkept
  cases event with
  | start pid =>
    have hnone := halone pid rfl
    rw [World.step, if_neg (Bool.eq_false_iff.mp (hnone pid))] at hsound ⊢
    exact h.goes hsound h.safe (holdsAlone_of_none rfl rfl)
      (fun other _ => holdsAlone_of_inactive (hnone other)) fun _ => .inr hnone
  | advance pid =>
    have hsafe := advance_safeSidecars h.files (h.stages pid) h.safe (h.alone pid)
    have hpid := advance_holdsAlone h.files (h.stages pid) (h.alone pid)
    cases hactive : (w.stages pid).active with
    | false =>
      have hsame : advance w.legacy pid w.store (w.stages pid) = (w.store, w.stages pid) :=
        advance_of_inactive hactive
      refine h.goes hsound hsafe hpid (fun other _ => ?_) fun hstage => .inl ?_
      · rw [hsame]
        exact h.alone other
      · rwa [hsame] at hstage
    | true =>
      refine h.goes hsound hsafe hpid (fun other hother => ?_) fun _ => .inl hactive
      refine holdsAlone_of_inactive (Bool.eq_false_iff.mpr fun hactiveOther => ?_)
      exact hother (h.one other pid hactiveOther hactive)
  | fail pid =>
    exact h.goes hsound h.safe (failing_holdsAlone _) (fun other _ => h.alone other)
      fun hstage => .inl (failing_of_active hstage)
  | crash pid =>
    exact h.goes hsound h.safe (holdsAlone_of_inactive rfl) (fun other _ => h.alone other)
      fun hstage => by cases hstage
  | powerCut spared lost =>
    exact ⟨hsound, h.safe.of_cut h.files spared lost, fun _ _ hactive _ => (by cases hactive),
      fun _ => holdsAlone_of_inactive rfl⟩
  | legacyWrites legacy =>
    have hnone := hkept legacy rfl
    exact ⟨hsound, h.safe, h.one, fun pid => holdsAlone_of_inactive (hnone pid)⟩

/-- The sidecars stay what they were when the database was published. -/
theorem SoundAlone.sidecars_step (h : SoundAlone w)
    (hpresent : (w.step event).store.names .database ≠ none) :
    PublishedWithSidecars w event (w.step event) ∨ w.store.names .database ≠ none ∧
      (w.step event).store.read .database = w.store.read .database ∧
      ∀ suffix, (w.step event).store.read (.sidecar suffix) = w.store.read (.sidecar suffix) := by
  cases event with
  | start pid =>
    rw [World.step] at hpresent ⊢
    split_ifs at hpresent ⊢ <;> exact .inr ⟨hpresent, rfl, fun _ => rfl⟩
  | advance pid =>
    rcases advance_store h.files (h.stages pid) with
      ⟨f, hmine, hleaves, hname⟩ | ⟨hstage, habsent, heq⟩
    · have hbefore : w.store.names .database ≠ none := by
        rw [← hleaves.names _ hmine.database_ne]
        exact hpresent
      have hcopying : (w.stages pid).copying = false :=
        Bool.eq_false_iff.mpr fun hcopying => hbefore ((h.alone pid).absent hcopying)
      refine .inr ⟨hbefore, hleaves.reads _ hmine.database_ne, fun suffix => ?_⟩
      refine hleaves.reads _ ?_
      rw [hname hcopying]
      exact fun heq => by cases heq
    · obtain ⟨data, htemp, hmain⟩ := (h.stages pid).synced hstage
      have hafter : (w.step (.advance pid)).store = w.store.link (.temp pid) .database := by
        rw [World.step, store_goes, heq]
      refine .inl ⟨⟨pid, data, rfl, hstage, read_eq_none.mpr habsent, hmain, ?_⟩, fun suffix => ?_⟩
      · rw [hafter, read_link_self, htemp]
      · rw [Copied, hafter, read_link_of_ne fun heq => by cases heq]
        refine (h.alone pid).copied [] ?_ suffix List.not_mem_nil
        rw [hstage]
        rfl
  | fail pid => exact .inr ⟨hpresent, rfl, fun _ => rfl⟩
  | crash pid => exact .inr ⟨hpresent, rfl, fun _ => rfl⟩
  | powerCut spared lost =>
    obtain ⟨i, hi⟩ := Option.ne_none_iff_exists'.mp hpresent
    refine .inr ⟨?_, h.files.read_cut hi, fun suffix => h.safe.read_cut h.files hpresent suffix⟩
    rw [h.files.database_cut hi]
    exact Option.some_ne_none i
  | legacyWrites legacy => exact .inr ⟨hpresent, rfl, fun _ => rfl⟩

theorem SoundAlone.published (h : SoundAlone w) (habsent : w.store.names .database = none)
    (hkept : Allowed World.step LegacyKept w events)
    (halone : Allowed World.step Alone w events) :
    (run World.step w events).store.read .database = none ∨ ∃ first event rest,
      events = first ++ event :: rest ∧
        PublishedWithSidecars (run World.step w first) event (run World.step w events) := by
  by_cases hpresent : (run World.step w events).store.names .database = none
  · exact .inl (read_eq_none.mpr hpresent)
  · refine .inr (exists_origin (P := fun v => v.store.names .database ≠ none)
      (fun v e hv he => hv.step he.1 he.2) (fun v e hv _ hafter => ?_) h (fun hnot => hnot habsent)
      (hkept.and halone) hpresent)
    rcases hv.sidecars_step hafter with hnow | ⟨hbefore, hdatabase, hsidecars⟩
    · exact .inl hnow
    · refine .inr ⟨hbefore, fun t b hpublished => ?_⟩
      obtain ⟨⟨pid, data, hb, hstage, hnone, hmain, hread⟩, hcopied⟩ := hpublished
      refine ⟨⟨pid, data, hb, hstage, hnone, hmain, hdatabase.trans hread⟩, fun suffix => ?_⟩
      exact (hsidecars suffix).trans (hcopied suffix)

end System

/-! ## An attempt that is left alone -/

section Attempt
variable {δ : Type*} {w : World δ} {pid : ℕ}

/-- Where an undisturbed attempt can be, and that every file it is about to open is there. -/
def Going (legacy : Legacy δ) (pid : ℕ) (store : Store NewFile δ) : Stage → Prop
  | .inspectSidecar _ _ => legacy.main.isSome = true
  | .removeSidecar _ _ => legacy.main.isSome = true
  | .create copy => legacy.main.isSome = true ∧ (copy.source legacy).isSome = true
  | .fill copy _ => legacy.main.isSome = true ∧ (copy.source legacy).isSome = true ∧
      store.has (copy.target pid) = true
  | .sync copy => legacy.main.isSome = true ∧ store.has (copy.target pid) = true
  | .publish => store.has (.temp pid) = true
  | .done => (∃ i, store.names .database = some i) ∨ legacy.main = none
  | .idle => False
  | .abandon => False
  | .failed _ => False
  | _ => True

/-- The operations that a copy still takes when its file is there. -/
def Copy.rest : Copy → ℕ
  | .sidecar _ later => 4 * later.length + 3
  | .main => 0

/-- A bound on the operations that are left. -/
def Stage.rank : Stage → ℕ
  | .inspectDatabase => 20
  | .inspectLegacy => 19
  | .inspectSidecar _ later => 4 * later.length + 10
  | .removeSidecar _ later => 4 * later.length + 7
  | .create copy => copy.rest + 6
  | .fill copy _ => copy.rest + 5
  | .sync copy => copy.rest + 4
  | .publish => 3
  | .removeTemp => 2
  | .discard => 1
  | .abandon => 1
  | .syncDirectory => 1
  | _ => 0

theorem rank_afterSidecars (later : List Suffix) :
    (afterSidecars later).rank = 4 * later.length + 6 := by
  cases later with
  | nil => rfl
  | cons suffix later =>
    rw [List.length_cons, afterSidecars, Stage.rank]
    omega

theorem rank_next_lt (copy : Copy) : copy.next.rank < copy.rest + 4 := by
  cases copy with
  | sidecar suffix later =>
    rw [Copy.next, rank_afterSidecars, Copy.rest]
    omega
  | main => decide

theorem going_afterSidecars {legacy : Legacy δ} {store : Store NewFile δ}
    (hmain : legacy.main.isSome = true) (later : List Suffix) :
    Going legacy pid store (afterSidecars later) := by
  cases later with
  | nil => exact ⟨hmain, hmain⟩
  | cons suffix later => exact hmain

variable {legacy : Legacy δ} {store : Store NewFile δ} {stage : Stage}

/-- An operation of an undisturbed attempt succeeds, and leaves fewer to do. -/
theorem advance_going (h : Holds legacy pid store stage) (hgoing : Going legacy pid store stage)
    (hnot : stage ≠ .done) :
    Going legacy pid (advance legacy pid store stage).1 (advance legacy pid store stage).2 ∧
      (advance legacy pid store stage).2.rank < stage.rank := by
  have hdone := fun heq => advance_done h hnot heq
  cases stage with
  | inspectDatabase =>
    cases hhas : store.has .database with
    | true =>
      have heq : advance legacy pid store .inspectDatabase = (store, .done) := by simp [advance, hhas]
      rw [heq] at hdone ⊢
      exact ⟨hdone rfl, Nat.zero_lt_succ _⟩
    | false =>
      have heq : advance legacy pid store .inspectDatabase = (store, .inspectLegacy) := by
        simp [advance, hhas]
      rw [heq]
      exact ⟨trivial, Nat.lt_succ_self _⟩
  | inspectLegacy =>
    cases hmain : legacy.main.isSome with
    | true =>
      have heq : advance legacy pid store .inspectLegacy = (store, afterSidecars suffixes) := by
        simp [advance, hmain]
      rw [heq]
      refine ⟨going_afterSidecars hmain suffixes, ?_⟩
      rw [rank_afterSidecars]
      exact Nat.lt_succ_self _
    | false =>
      have heq : advance legacy pid store .inspectLegacy = (store, .done) := by
        simp [advance, hmain]
      rw [heq] at hdone ⊢
      exact ⟨hdone rfl, Nat.zero_lt_succ _⟩
  | inspectSidecar suffix later =>
    rw [advance]
    split_ifs with hsidecar
    · exact ⟨⟨hgoing, hsidecar⟩, Nat.lt_succ_self _⟩
    · refine ⟨hgoing, ?_⟩
      rw [Stage.rank, Stage.rank]
      omega
  | removeSidecar suffix later =>
    refine ⟨going_afterSidecars hgoing later, ?_⟩
    rw [advance, rank_afterSidecars]
    exact Nat.lt_succ_self _
  | create copy =>
    have hname := @names_create_self _ _ _ store (copy.target pid) pid
    rw [advance, if_pos hgoing.2]
    exact ⟨⟨hgoing.1, hgoing.2, has_eq_true.mpr ⟨_, hname⟩⟩, Nat.lt_succ_self _⟩
  | fill copy file =>
    obtain ⟨data, hdata⟩ := Option.isSome_iff_exists.mp hgoing.2.1
    rw [advance, hdata]
    exact ⟨⟨hgoing.1, hgoing.2.2⟩, Nat.lt_succ_self _⟩
  | sync copy =>
    have hsynced : (store.sync (copy.target pid)).has (copy.target pid) = true := by
      rw [Store.has, names_sync]
      exact hgoing.2
    rw [advance, if_pos hgoing.2]
    refine ⟨?_, rank_next_lt copy⟩
    cases copy with
    | sidecar suffix later => exact going_afterSidecars hgoing.1 later
    | main => exact hsynced
  | publish =>
    have htemp : store.has (.temp pid) = true := hgoing
    rw [advance, if_pos htemp]
    split_ifs
    · exact ⟨trivial, (by decide : 1 < 3)⟩
    · exact ⟨trivial, (by decide : 2 < 3)⟩
  | discard => exact ⟨hdone rfl, Nat.zero_lt_one⟩
  | removeTemp => exact ⟨trivial, Nat.lt_succ_self _⟩
  | syncDirectory => exact ⟨hdone rfl, Nat.zero_lt_one⟩
  | done => exact absurd rfl hnot
  | idle => exact hgoing.elim
  | abandon => exact hgoing.elim
  | failed error => exact hgoing.elim

def World.attempt (w : World δ) (pid n : ℕ) : World δ :=
  run World.step w (.start pid :: List.replicate n (.advance pid))

theorem ne_legacyWrites_of_mem_attempt {n : ℕ} {event : Event δ} {legacy : Legacy δ}
    (h : event ∈ .start pid :: List.replicate n (.advance pid)) : event ≠ .legacyWrites legacy := by
  rcases List.mem_cons.mp h with rfl | h
  · exact fun heq => by cases heq
  · rw [List.eq_of_mem_replicate h]
    exact fun heq => by cases heq

theorem legacyKept_attempt (pid n : ℕ) :
    Allowed World.step LegacyKept w (.start pid :: List.replicate n (.advance pid)) := by
  have hgood : Allowed World.step (fun _ event => ∀ legacy, event ≠ .legacyWrites legacy) w
      (.start pid :: List.replicate n (.advance pid)) :=
    allowed_of_forall (fun _ hevent _ => ne_legacyWrites_of_mem_attempt hevent) w
  exact hgood.imp fun _ _ hnot legacy heq => absurd heq (hnot legacy)

theorem alone_attempt (hidle : ∀ other, (w.stages other).active = false) (pid n : ℕ) :
    Allowed World.step Alone w (.start pid :: List.replicate n (.advance pid)) := by
  have hgood : Allowed World.step (fun _ event => ∀ other, event ≠ .start other)
      (w.step (.start pid)) (List.replicate n (.advance pid)) := by
    refine allowed_of_forall (fun event hevent other => ?_) _
    rw [List.eq_of_mem_replicate hevent]
    exact fun heq => by cases heq
  exact ⟨fun _ _ => hidle, hgood.imp fun _ _ hnot other heq => absurd heq (hnot other)⟩

theorem legacy_step {event : Event δ} (h : ∀ legacy, event ≠ .legacyWrites legacy) :
    (w.step event).legacy = w.legacy := by
  cases event with
  | start pid =>
    rw [World.step]
    split_ifs <;> rfl
  | legacyWrites legacy => exact absurd rfl (h legacy)
  | _ => rfl

theorem legacy_run {events : List (Event δ)}
    (h : ∀ event ∈ events, ∀ legacy, event ≠ .legacyWrites legacy) :
    (run World.step w events).legacy = w.legacy := by
  induction events generalizing w with
  | nil => rfl
  | cons event events ih =>
    obtain ⟨hevent, hevents⟩ := List.forall_mem_cons.mp h
    rw [run_cons, ih hevents, legacy_step hevent]

/-- The rank bounds the operations up to the end, which is never a failure. -/
theorem exists_done (h : Sound w) (hgoing : Going w.legacy pid w.store (w.stages pid)) :
    ∃ n ≤ (w.stages pid).rank,
      (run World.step w (List.replicate n (.advance pid))).stages pid = .done ∧
      ((∃ i, (run World.step w (List.replicate n (.advance pid))).store.names .database = some i) ∨
        w.legacy.main = none) := by
  induction hrank : (w.stages pid).rank using Nat.strong_induction_on generalizing w with
  | _ rank ih =>
    by_cases hdone : w.stages pid = .done
    · rw [hdone] at hgoing
      exact ⟨0, Nat.zero_le _, hdone, hgoing⟩
    · obtain ⟨hafter, hless⟩ := advance_going (h.stages pid) hgoing hdone
      have hstage : (w.step (.advance pid)).stages pid =
          (advance w.legacy pid w.store (w.stages pid)).2 := stages_goes_self
      rw [← hstage] at hafter hless
      have hsound : Sound (w.step (.advance pid)) := h.step fun _ heq => by cases heq
      obtain ⟨n, hn, hend⟩ := ih _ (hrank ▸ hless) hsound hafter rfl
      refine ⟨n + 1, ?_, ?_⟩
      · omega
      · rw [List.replicate_succ, run_cons]
        exact hend

/-- It starts with the inspection of the database. -/
theorem attempt_done (h : Sound w) (hidle : (w.stages pid).active = false) :
    ∃ n ≤ 20, (w.attempt pid n).stages pid = .done ∧
      ((∃ i, (w.attempt pid n).store.names .database = some i) ∨ w.legacy.main = none) := by
  have hstart : w.step (.start pid) = w.goes pid w.store .inspectDatabase := by
    rw [World.step, if_neg (Bool.eq_false_iff.mp hidle)]
  have hsound : Sound (w.step (.start pid)) := h.step fun _ heq => by cases heq
  have hstage : (w.step (.start pid)).stages pid = .inspectDatabase := by
    rw [hstart, stages_goes_self]
  have hgoing : Going (w.step (.start pid)).legacy pid (w.step (.start pid)).store
      ((w.step (.start pid)).stages pid) := by
    rw [hstage]
    trivial
  obtain ⟨n, hn, hend⟩ := exists_done hsound hgoing
  rw [hstage] at hn
  rw [legacy_step fun _ heq => by cases heq] at hend
  exact ⟨n, hn, hend⟩

/-- Where a database is, an attempt changes no file. -/
theorem attempt_present {i : ℕ} (hpresent : w.store.names .database = some i)
    (hidle : (w.stages pid).active = false) :
    (w.attempt pid 1).stages pid = .done ∧ (w.attempt pid 1).store = w.store := by
  have hstart : w.step (.start pid) = w.goes pid w.store .inspectDatabase := by
    rw [World.step, if_neg (Bool.eq_false_iff.mp hidle)]
  have hrun : w.attempt pid 1 = (w.step (.start pid)).step (.advance pid) := rfl
  have hadvance : advance w.legacy pid w.store .inspectDatabase = (w.store, .done) := by
    rw [advance, if_pos (has_eq_true.mpr ⟨i, hpresent⟩)]
  rw [hrun, hstart, World.step, stages_goes_self, stages_goes_self, store_goes, store_goes,
    legacy_goes, hadvance]
  exact ⟨rfl, rfl⟩

end Attempt

/-! ## The results -/

section Results
variable {δ : Type*} {w : World δ} {event : Event δ} {events : List (Event δ)}

/-- Every directory that the disk may have has the database. -/
def Durable (store : Store NewFile δ) : Prop :=
  ∀ names ∈ store.directories, names .database ≠ none

theorem durable_step (h : Sound w) (hdurable : Durable w.store) :
    Durable (w.step event).store ∧
      (w.step event).store.read .database = w.store.read .database := by
  have hpresent : w.store.names .database ≠ none := hdurable _ names_mem_directories
  cases event with
  | start pid =>
    rw [World.step]
    split_ifs <;> exact ⟨hdurable, rfl⟩
  | advance pid =>
    rcases advance_store h.files (h.stages pid) with ⟨f, hmine, hleaves, -⟩ | ⟨-, habsent, -⟩
    · refine ⟨fun names hnames => ?_, hleaves.reads _ hmine.database_ne⟩
      rcases List.mem_cons.mp hnames with rfl | hnames
      · exact fun hnone => hpresent ((hleaves.names _ hmine.database_ne).symm.trans hnone)
      · exact hdurable names (hleaves.earlier names hnames)
    · exact absurd habsent hpresent
  | fail pid => exact ⟨hdurable, rfl⟩
  | crash pid => exact ⟨hdurable, rfl⟩
  | powerCut spared lost =>
    have hafter := hdurable _ (@names_cut_mem _ _ _ w.store spared lost)
    obtain ⟨i, hi⟩ := Option.ne_none_iff_exists'.mp hafter
    refine ⟨fun names hnames => ?_, h.files.read_cut hi⟩
    rw [List.mem_singleton.mp hnames]
    exact hafter
  | legacyWrites legacy => exact ⟨hdurable, rfl⟩

theorem durable_run (h : Sound w) (hdurable : Durable w.store)
    (hkept : Allowed World.step LegacyKept w events) :
    (run World.step w events).store.read .database = w.store.read .database := by
  induction events generalizing w with
  | nil => rfl
  | cons event events ih =>
    obtain ⟨hafter, hread⟩ := @durable_step δ w event h hdurable
    rw [run_cons, ih (h.step hkept.1) hafter hkept.2, hread]

theorem Sound.run (h : Sound w) (hkept : Allowed World.step LegacyKept w events) :
    Sound (Runs.run World.step w events) :=
  run_invariant (fun _ _ hsound hevent => hsound.step hevent) h hkept

theorem allowed_append {allowed : World δ → Event δ → Prop} {first rest : List (Event δ)}
    (h : Allowed World.step allowed w (first ++ rest)) :
    Allowed World.step allowed (run World.step w first) rest := by
  induction first generalizing w with
  | nil => exact h
  | cons event first ih => exact ih h.2

/-- Whatever order any number of processes take their steps in, and wherever they fail, are
killed or the power is cut: the database is absent, or it is the safe copy of a whole legacy
database, published by one step where none was; a process that goes on to open the database
finds one if there was one to migrate; and once the directory is safe too, the database stays. -/
theorem published_once (hfresh : w.Fresh) (hkept : Allowed World.step LegacyKept w events) :
    ((run World.step w events).store.read .database = none ∨ ∃ first event rest,
      events = first ++ event :: rest ∧
        PublishedBy (run World.step w first) event (run World.step w events)) ∧
    (∀ first event pid, first ++ [event] <+: events →
      (run World.step w first).stages pid ≠ .done →
      (run World.step w (first ++ [event])).stages pid = .done →
      (run World.step w (first ++ [event])).store.has .database = true ∨
        (run World.step w first).legacy.main = none) ∧
    ∀ first rest, events = first ++ rest → Durable (run World.step w first).store →
      (run World.step w events).store.read .database =
        (run World.step w first).store.read .database := by
  refine ⟨?_, fun first event pid hfirst hnot hdone => ?_, fun first rest heq hdurable => ?_⟩
  · by_cases habsent : (run World.step w events).store.names .database = none
    · exact .inl (read_eq_none.mpr habsent)
    · refine .inr (exists_origin (P := fun v => v.store.names .database ≠ none)
        (fun v e hv he => hv.step he) (fun v e hv _ hafter => ?_) hfresh.sound
        (fun hnot => hnot hfresh.absent) hkept habsent)
      obtain ⟨i, hi⟩ := Option.ne_none_iff_exists'.mp hafter
      rcases hv.database_step hi with hnow | ⟨hbefore, hread⟩
      · exact .inl hnow
      · refine .inr ⟨by simp [hbefore], fun t b hpublished => ?_⟩
        obtain ⟨pid, data, hb, hstage, hnone, hmain, hdata⟩ := hpublished
        exact ⟨pid, data, hb, hstage, hnone, hmain, hread.trans hdata⟩
  · have hbefore := hfresh.sound.run
      (hkept.of_prefix ((List.prefix_append first [event]).trans hfirst))
    rw [run_append] at hdone ⊢
    exact (hbefore.done_step hnot hdone).imp has_eq_true.mpr id
  · subst heq
    rw [run_append]
    exact durable_run (hfresh.sound.run (hkept.of_prefix (List.prefix_append first rest)))
      hdurable (allowed_append hkept)

/-- The legacy database with a write-ahead log. -/
def firstLaunch : World ℕ where
  legacy := ⟨some 7, fun suffix => if suffix = .wal then some 8 else none⟩
  store := .empty
  stages := fun _ => .idle

theorem firstLaunch_fresh : firstLaunch.Fresh := by
  refine ⟨fun _ => rfl, rfl, rfl, fun names hnames f i h => ?_, fun f g i h => ?_⟩
  · rw [List.mem_singleton.mp hnames] at h
    cases h
  · cases h

/-- Two processes migrate step by step in turn. -/
def raceOfTwo : List (Event ℕ) :=
  [.start 1, .start 2] ++ (List.replicate 16 [.advance 1, .advance 2]).flatten

theorem published_once_raceOfTwo :
    (run World.step firstLaunch raceOfTwo).store.read .database = some (.whole 7 true) ∧
      ∃ first event rest, raceOfTwo = first ++ event :: rest ∧
        PublishedBy (run World.step firstLaunch first) event
          (run World.step firstLaunch raceOfTwo) := by
  have hread : (run World.step firstLaunch raceOfTwo).store.read .database =
      some (.whole 7 true) := by decide +kernel
  have hkept : Allowed World.step LegacyKept firstLaunch raceOfTwo := by
    simp [raceOfTwo, Allowed, LegacyKept, List.replicate]
  refine ⟨hread, ?_⟩
  rcases (published_once firstLaunch_fresh hkept).1 with hnone | hpublished
  · rw [hread] at hnone
    cases hnone
  · exact hpublished

/-- When no two attempts overlap, the sidecars beside the database are the safe copies of those
that the legacy database had when it was published, and there is none that it had not. -/
theorem published_with_sidecars (hfresh : w.Fresh)
    (hkept : Allowed World.step LegacyKept w events) (halone : Allowed World.step Alone w events) :
    (run World.step w events).store.read .database = none ∨ ∃ first event rest,
      events = first ++ event :: rest ∧
        PublishedWithSidecars (run World.step w first) event (run World.step w events) := by
  have hidle : ∀ pid, (w.stages pid).active = false := fun pid => by rw [hfresh.idle pid]; rfl
  exact (hfresh.sound.alone hfresh.absent hidle).published hfresh.absent hkept halone

/-- The power fails in the middle of the copy of the main file. -/
def powerFailure : List (Event ℕ) :=
  .start 1 :: (List.replicate 11 (.advance 1) ++ [.powerCut (fun _ => false) 2])

/-- The old application runs once more, and the next launch migrates what it left. -/
def nextLaunch : List (Event ℕ) :=
  powerFailure ++ .legacyWrites ⟨some 9, fun _ => none⟩ :: .start 2 ::
    List.replicate 16 (.advance 2)

theorem published_with_sidecars_nextLaunch :
    (run World.step firstLaunch nextLaunch).store.read .database = some (.whole 9 true) ∧
      ∃ first event rest, nextLaunch = first ++ event :: rest ∧
        PublishedWithSidecars (run World.step firstLaunch first) event
          (run World.step firstLaunch nextLaunch) := by
  have hread : (run World.step firstLaunch nextLaunch).store.read .database =
      some (.whole 9 true) := by decide +kernel
  have hkept : Allowed World.step LegacyKept firstLaunch nextLaunch := by
    simp [nextLaunch, powerFailure, Allowed, LegacyKept, List.replicate]
    exact fun _ => rfl
  have halone : Allowed World.step Alone firstLaunch nextLaunch := by
    simp [nextLaunch, powerFailure, Allowed, Alone, List.replicate]
    exact ⟨fun _ => rfl, fun _ => rfl⟩
  refine ⟨hread, ?_⟩
  rcases published_with_sidecars firstLaunch_fresh hkept halone with hnone | hpublished
  · rw [hread] at hnone
    cases hnone
  · exact hpublished

/-- After any such history, when nothing is under way, an attempt that is left alone succeeds
within twenty operations. A database that is there is left as it is; else the legacy database is
there under the new name, whole and safe, with its sidecars and no other. -/
theorem attempt_completes (hfresh : w.Fresh) (hkept : Allowed World.step LegacyKept w events)
    (hidle : ∀ pid, ((run World.step w events).stages pid).active = false) (pid : ℕ) :
    ∃ n ≤ 20, ((run World.step w events).attempt pid n).stages pid = .done ∧
      ((run World.step w events).store.has .database = true →
        ((run World.step w events).attempt pid n).store = (run World.step w events).store) ∧
      ∀ data, (run World.step w events).store.has .database = false →
        (run World.step w events).legacy.main = some data →
        ((run World.step w events).attempt pid n).store.read .database =
          some (.whole data true) ∧
        ∀ suffix, Copied (run World.step w events).legacy
          ((run World.step w events).attempt pid n).store suffix := by
  have hsound := hfresh.sound.run hkept
  generalize run World.step w events = v at hidle hsound
  cases hdatabase : v.store.has .database with
  | true =>
    obtain ⟨i, hi⟩ := has_eq_true.mp hdatabase
    obtain ⟨hdone, hstore⟩ := attempt_present hi (hidle pid)
    exact ⟨1, by decide, hdone, fun _ => hstore, fun _ h => by cases h⟩
  | false =>
    have habsent := has_eq_false.mp hdatabase
    obtain ⟨n, hn, hdone, hfound⟩ := attempt_done hsound (hidle pid)
    refine ⟨n, hn, hdone, fun h => (by cases h), fun data _ hmain => ?_⟩
    have hpublished := (hsound.alone habsent hidle).published habsent (legacyKept_attempt pid n)
      (alone_attempt hidle pid n)
    rcases hpublished with hnone | ⟨first, event, rest, hevents, hby, hcopied⟩
    · rcases hfound with ⟨i, hi⟩ | hnothing
      · rw [World.attempt, read_eq_none.mp hnone] at hi
        cases hi
      · rw [hmain] at hnothing
        cases hnothing
    · have hlegacy : (run World.step v first).legacy = v.legacy := by
        refine legacy_run fun event hevent legacy => ?_
        have hmem : event ∈ Event.start pid :: List.replicate n (Event.advance pid) := by
          rw [hevents]
          exact List.mem_append_left _ hevent
        exact ne_legacyWrites_of_mem_attempt hmem
      obtain ⟨-, found, -, -, -, hfoundMain, hread⟩ := hby
      rw [hlegacy, hmain, Option.some.injEq] at hfoundMain
      rw [hlegacy] at hcopied
      exact ⟨hfoundMain ▸ hread, hcopied⟩

theorem attempt_completes_powerFailure :
    ∃ n ≤ 20, ((run World.step firstLaunch powerFailure).attempt 2 n).stages 2 = .done ∧
      ((run World.step firstLaunch powerFailure).attempt 2 n).store.read .database =
        some (.whole 7 true) := by
  have hkept : Allowed World.step LegacyKept firstLaunch powerFailure := by
    simp [powerFailure, Allowed, LegacyKept, List.replicate]
  have habsent : (run World.step firstLaunch powerFailure).store.has .database = false := by
    decide +kernel
  obtain ⟨n, hn, hdone, -, hcopied⟩ :=
    attempt_completes firstLaunch_fresh hkept (fun _ => rfl) 2
  exact ⟨n, hn, hdone, (hcopied 7 habsent (by decide +kernel)).1⟩

end Results
end LegacyDatabase
