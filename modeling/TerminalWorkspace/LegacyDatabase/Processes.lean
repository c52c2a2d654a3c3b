import TerminalWorkspace.LegacyDatabase.Migration

/-! What the files and the processes keep up, in whatever order the processes take their
steps and wherever they are cut off. -/
namespace LegacyDatabase
open HardLinks Runs

section Files
variable {δ : Type*} {pid other i : ℕ} {store store' : Store NewFile δ} {f : NewFile}

/-- Only the database and a temporary file may be names of one file. -/
def OwnFiles (names : NewFile → Option ℕ) : Prop :=
  ∀ f g i, f ≠ g → names f = some i → names g = some i →
    f = .database ∧ (∃ pid, g = .temp pid) ∨ g = .database ∧ ∃ pid, f = .temp pid

/-- In every directory that the disk may have, the database is the one that is there now, if
it is there. -/
structure Files (store : Store NewFile δ) : Prop where
  numbered : store.Numbered
  ownFiles : ∀ names ∈ store.directories, OwnFiles names
  lasting : ∀ names ∈ store.earlier, ∀ i, names .database = some i →
    store.names .database = some i
  published : ∀ content, store.read .database = some content → ∃ data, content = .whole data true

/-- The names that the process writes under. -/
def Mine (pid : ℕ) (f : NewFile) : Prop := f = .temp pid ∨ ∃ suffix, f = .sidecar suffix

/-- The database is not the process's temporary file, as it is between publishing and the
removal of that name. -/
def Unlinked (pid : ℕ) (store : Store NewFile δ) : Prop :=
  ∀ i, store.names .database = some i → store.names (.temp pid) ≠ some i

theorem mine_temp (pid : ℕ) : Mine pid (.temp pid) := .inl rfl

theorem mine_sidecar (pid : ℕ) (suffix : Suffix) : Mine pid (.sidecar suffix) := .inr ⟨suffix, rfl⟩

theorem mine_target (pid : ℕ) (copy : Copy) : Mine pid (copy.target pid) := by
  cases copy with
  | sidecar suffix later => exact mine_sidecar pid suffix
  | main => exact mine_temp pid

theorem Mine.database_ne (h : Mine pid f) : NewFile.database ≠ f := by
  rcases h with rfl | ⟨suffix, rfl⟩ <;> exact fun heq => by cases heq

theorem Mine.temp_ne (h : Mine pid f) (hne : other ≠ pid) : NewFile.temp other ≠ f := by
  rcases h with rfl | ⟨suffix, rfl⟩
  · exact fun heq => hne (NewFile.temp.inj heq)
  · exact fun heq => by cases heq

namespace Files

theorem own (h : Files store) : OwnFiles store.names := h.ownFiles _ names_mem_directories

/-- A database that is not there was never there. -/
theorem absent_earlier (h : Files store) (habsent : store.names .database = none)
    {names : NewFile → Option ℕ} (hnames : names ∈ store.earlier) : names .database = none := by
  refine Option.eq_none_iff_forall_ne_some.mpr fun i hi => ?_
  rw [h.lasting names hnames i hi] at habsent
  cases habsent

/-- While the process has not published, its files have no other name. -/
theorem unshared (h : Files store) (hunlinked : Unlinked pid store) (hmine : Mine pid f) :
    ∀ g, g ≠ f → ∀ i, store.names f = some i → store.names g ≠ some i := by
  intro g hgf i hf hg
  rcases h.own g f i hgf hg hf with ⟨rfl, other, rfl⟩ | ⟨rfl, -⟩
  · rcases hmine with heq | ⟨suffix, heq⟩
    · cases heq
      exact hunlinked i hg hf
    · cases heq
  · exact hmine.database_ne rfl

theorem of_leaves (h : Files store) (hmine : Mine pid f) (hleaves : Leaves f store store') :
    Files store' := by
  have hdatabase := hleaves.names .database hmine.database_ne
  have hnew : OwnFiles store'.names := by
    -- the new file of `f` has no other name, as its number is new
    have hfresh : ∀ g i, g ≠ f → store'.names f = some i → store'.names g = some i →
        store.names f = some i := by
      intro g i hgf hf hg
      rcases hleaves.file i hf with hold | ⟨rfl, -⟩
      · exact hold
      · rw [hleaves.names g hgf] at hg
        exact absurd (names_lt_next h.numbered hg) (Nat.lt_irrefl _)
    intro g k i hgk hg hk
    by_cases hgf : g = f
    · subst hgf
      have hold := hfresh k i (Ne.symm hgk) hg hk
      rw [hleaves.names k (Ne.symm hgk)] at hk
      exact h.own g k i hgk hold hk
    · by_cases hkf : k = f
      · subst hkf
        have hold := hfresh g i hgf hk hg
        rw [hleaves.names g hgf] at hg
        exact h.own g k i hgk hg hold
      · rw [hleaves.names g hgf] at hg
        rw [hleaves.names k hkf] at hk
        exact h.own g k i hgk hg hk
  refine ⟨hleaves.numbered h.numbered, fun names hnames => ?_, fun names hnames i hi => ?_, ?_⟩
  · rcases List.mem_cons.mp hnames with rfl | hnames
    · exact hnew
    · exact h.ownFiles names (hleaves.earlier names hnames)
  · rw [hdatabase]
    rcases List.mem_cons.mp (hleaves.earlier names hnames) with rfl | hnames
    · exact hi
    · exact h.lasting names hnames i hi
  · rw [hleaves.reads .database hmine.database_ne]
    exact h.published

theorem of_link {data : δ} (h : Files store)
    (htemp : store.read (.temp pid) = some (.whole data true))
    (habsent : store.names .database = none) : Files (store.link (.temp pid) .database) := by
  have hnew : OwnFiles (store.link (.temp pid) .database).names := by
    -- the database gets the file of one temporary name, and that of no other
    have hother : ∀ g i, g ≠ .database → store.names (.temp pid) = some i →
        store.names g = some i → g = .temp pid := by
      intro g i hg hpid hgi
      by_contra hne
      rcases h.own g (.temp pid) i hne hgi hpid with ⟨hdatabase, -⟩ | ⟨hdatabase, -⟩
      · exact hg hdatabase
      · cases hdatabase
    intro f g i hfg hf hg
    by_cases hfd : f = .database
    · subst hfd
      rw [names_link_self] at hf
      rw [names_link_of_ne (Ne.symm hfg)] at hg
      exact .inl ⟨rfl, pid, hother g i (Ne.symm hfg) hf hg⟩
    · rw [names_link_of_ne hfd] at hf
      by_cases hgd : g = .database
      · subst hgd
        rw [names_link_self] at hg
        exact .inr ⟨rfl, pid, hother f i hfd hg hf⟩
      · rw [names_link_of_ne hgd] at hg
        exact h.own f g i hfg hf hg
  refine ⟨numbered_link h.numbered, fun names hnames => ?_, fun names hnames i hi => ?_, ?_⟩
  · rcases List.mem_cons.mp hnames with rfl | hnames
    · exact hnew
    · exact h.ownFiles names hnames
  · rcases List.mem_cons.mp hnames with rfl | hnames
    · rw [habsent] at hi
      cases hi
    · rw [h.absent_earlier habsent hnames] at hi
      cases hi
  · rw [read_link_self, htemp]
    intro content hcontent
    exact ⟨data, (Option.some.inj hcontent).symm⟩

/-- The directory after a power cut is one of those that the disk might have, and the database
of any of these is safe. -/
theorem database_cut (h : Files store) {spared : ℕ → Bool} {lost : ℕ}
    (hi : (store.cut spared lost).names .database = some i) :
    store.names .database = some i := by
  rcases List.mem_cons.mp (@names_cut_mem _ _ _ store spared lost) with heq | hmem
  · rwa [heq] at hi
  · exact h.lasting _ hmem i hi

theorem read_cut (h : Files store) {spared : ℕ → Bool} {lost : ℕ}
    (hi : (store.cut spared lost).names .database = some i) :
    (store.cut spared lost).read .database = store.read .database :=
  read_cut_of_synced spared lost (hi.trans (h.database_cut hi).symm) h.published

theorem of_cut (h : Files store) (spared : ℕ → Bool) (lost : ℕ) :
    Files (store.cut spared lost) := by
  refine ⟨numbered_cut h.numbered spared lost, fun names hnames => ?_,
    fun names hnames => absurd hnames List.not_mem_nil, fun content hcontent => ?_⟩
  · rw [List.mem_singleton.mp hnames]
    exact h.ownFiles _ (names_cut_mem spared lost)
  · obtain ⟨i, hi, -⟩ := Option.map_eq_some_iff.mp hcontent
    rw [h.read_cut hi] at hcontent
    exact h.published content hcontent

end Files

end Files

section Stages
variable {δ : Type*} {legacy : Legacy δ} {pid other : ℕ} {store store' : Store NewFile δ}
  {stage : Stage} {f : NewFile}

/-- The database was absent and the process has yet to publish. -/
def Stage.copying : Stage → Bool
  | .inspectLegacy => true
  | .inspectSidecar _ _ => true
  | .removeSidecar _ _ => true
  | .create _ => true
  | .fill _ _ => true
  | .sync _ => true
  | .publish => true
  | _ => false

/-- The process has published or found that another did. -/
def Stage.settled : Stage → Bool
  | .discard => true
  | .removeTemp => true
  | .syncDirectory => true
  | _ => false

/-- What a process relies on at each stage. Of a sidecar it holds only this much, as another
process may write the same one. -/
structure Holds (legacy : Legacy δ) (pid : ℕ) (store : Store NewFile δ) (stage : Stage) : Prop where
  unlinked : stage.copying = true → Unlinked pid store
  held : ∀ suffix later i, stage = .fill (.sidecar suffix later) i →
    i < store.next ∧ ∀ g, g ≠ .sidecar suffix → store.names g ≠ some i
  opened : ∀ i, stage = .fill .main i →
    store.names (.temp pid) = some i ∧ store.read (.temp pid) = some (.opened pid)
  filled : stage = .sync .main → ∃ data synced,
    store.read (.temp pid) = some (.whole data synced) ∧ legacy.main = some data
  synced : stage = .publish → ∃ data,
    store.read (.temp pid) = some (.whole data true) ∧ legacy.main = some data
  found : stage.settled = true → ∃ i, store.names .database = some i

theorem holds_of_copied (hcopying : stage.copying = false)
    (hfound : stage.settled = true → ∃ i, store.names .database = some i) :
    Holds legacy pid store stage := by
  refine ⟨fun h => absurd h (Bool.eq_false_iff.mp hcopying), fun _ _ _ h => ?_, fun _ h => ?_,
    fun h => ?_, fun h => ?_, hfound⟩
  all_goals
    subst h
    cases hcopying

theorem holds_of_inactive (h : stage.active = false) : Holds legacy pid store stage := by
  cases stage <;> cases h <;> exact holds_of_copied rfl fun h => by cases h

theorem holds_of_unlinked (hunlinked : Unlinked pid store)
    (hfill : ∀ copy i, stage ≠ .fill copy i) (hsync : stage ≠ .sync .main)
    (hpublish : stage ≠ .publish) (hsettled : stage.settled = false) :
    Holds legacy pid store stage :=
  ⟨fun _ => hunlinked, fun _ _ i h => absurd h (hfill _ i), fun i h => absurd h (hfill _ i),
    fun h => absurd h hsync, fun h => absurd h hpublish,
    fun h => absurd h (Bool.eq_false_iff.mp hsettled)⟩

theorem holds_afterSidecars (hunlinked : Unlinked pid store) (later : List Suffix) :
    Holds legacy pid store (afterSidecars later) := by
  cases later <;>
    exact holds_of_unlinked hunlinked (fun _ _ h => by cases h) (fun h => by cases h)
      (fun h => by cases h) rfl

theorem holds_of_settled (hfound : ∃ i, store.names .database = some i)
    (h : stage.settled = true) : Holds legacy pid store stage := by
  cases stage <;> cases h <;> exact holds_of_copied rfl fun _ => hfound

namespace Holds

/-- What another process does under its names or the shared ones. -/
theorem of_leaves (h : Holds legacy other store stage) (hfiles : Files store)
    (hmine : Mine pid f) (hne : other ≠ pid) (hleaves : Leaves f store store') :
    Holds legacy other store' stage := by
  have hdatabase := hleaves.names .database hmine.database_ne
  have htemp := hleaves.names (.temp other) (hmine.temp_ne hne)
  have hread := hleaves.reads (.temp other) (hmine.temp_ne hne)
  refine ⟨fun hcopying i hi => ?_, fun suffix later i hstage => ?_, fun i hstage => ?_,
    fun hstage => ?_, fun hstage => ?_, fun hsettled => ?_⟩
  · rw [hdatabase] at hi
    rw [htemp]
    exact h.unlinked hcopying i hi
  · obtain ⟨hlt, hapart⟩ := h.held suffix later i hstage
    refine ⟨Nat.lt_of_lt_of_le hlt hleaves.next_le, fun g hg hgi => ?_⟩
    by_cases hgf : g = f
    · subst hgf
      rcases hleaves.file i hgi with hold | ⟨rfl, -⟩
      · exact hapart g hg hold
      · exact Nat.lt_irrefl _ hlt
    · rw [hleaves.names g hgf] at hgi
      exact hapart g hg hgi
  · rw [htemp, hread]
    exact h.opened i hstage
  · rw [hread]
    exact h.filled hstage
  · rw [hread]
    exact h.synced hstage
  · rw [hdatabase]
    exact h.found hsettled

/-- Another process publishes. -/
theorem of_link (h : Holds legacy other store stage) (hfiles : Files store) (hne : other ≠ pid)
    (htemp : ∃ i, store.names (.temp pid) = some i) :
    Holds legacy other (store.link (.temp pid) .database) stage := by
  have hkeep : ∀ n, NewFile.temp n ≠ .database := fun _ heq => by cases heq
  refine ⟨fun hcopying i hi => ?_, fun suffix later i hstage => ?_, fun i hstage => ?_,
    fun hstage => ?_, fun hstage => ?_, fun hsettled => ?_⟩
  · rw [names_link_self] at hi
    rw [names_link_of_ne (hkeep other)]
    intro hother
    have hapart : NewFile.temp other ≠ .temp pid := fun heq => hne (NewFile.temp.inj heq)
    rcases hfiles.own _ _ i hapart hother hi with ⟨heq, -⟩ | ⟨heq, -⟩ <;> cases heq
  · obtain ⟨hlt, hapart⟩ := h.held suffix later i hstage
    refine ⟨hlt, fun g hg => ?_⟩
    by_cases hgd : g = .database
    · rw [hgd, names_link_self]
      exact hapart _ fun heq => by cases heq
    · rw [names_link_of_ne hgd]
      exact hapart g hg
  · rw [names_link_of_ne (hkeep other), read_link_of_ne (hkeep other)]
    exact h.opened i hstage
  · rw [read_link_of_ne (hkeep other)]
    exact h.filled hstage
  · rw [read_link_of_ne (hkeep other)]
    exact h.synced hstage
  · rw [names_link_self]
    exact htemp

/-! Until it publishes, what a process writes has no other name. -/

theorem leaves_create (h : Holds legacy pid store stage) (hfiles : Files store)
    (hcopying : stage.copying = true) (copy : Copy) :
    Leaves (copy.target pid) store (store.create pid (copy.target pid)).1 :=
  HardLinks.leaves_create hfiles.numbered
    (hfiles.unshared (h.unlinked hcopying) (mine_target pid copy))

theorem leaves_fill {copy : Copy} {data : δ} {file : ℕ} (h : Holds legacy pid store (.fill copy file))
    (hfiles : Files store) : Leaves (copy.target pid) store (store.fill pid file data) := by
  refine HardLinks.leaves_fill fun g hg => ?_
  cases copy with
  | sidecar suffix later => exact (h.held suffix later file rfl).2 g hg
  | main => exact hfiles.unshared (h.unlinked rfl) (mine_temp pid) g hg file (h.opened file rfl).1

theorem leaves_sync (h : Holds legacy pid store stage) (hfiles : Files store)
    (hcopying : stage.copying = true) (copy : Copy) :
    Leaves (copy.target pid) store (store.sync (copy.target pid)) :=
  HardLinks.leaves_sync (hfiles.unshared (h.unlinked hcopying) (mine_target pid copy))

end Holds

end Stages

section Advance
variable {δ : Type*} {legacy : Legacy δ} {pid other : ℕ} {store : Store NewFile δ} {stage : Stage}

/-- What a step does to the files: it works under one of the process's names, or it publishes. -/
theorem advance_store (hfiles : Files store) (h : Holds legacy pid store stage) :
    (∃ f, Mine pid f ∧ Leaves f store (advance legacy pid store stage).1 ∧
      (stage.copying = false → f = .temp pid)) ∨
    stage = .publish ∧ store.names .database = none ∧
      advance legacy pid store stage = (store.link (.temp pid) .database, .removeTemp) := by
  have hsame : (advance legacy pid store stage).1 = store → ∃ f, Mine pid f ∧
      Leaves f store (advance legacy pid store stage).1 ∧
      (stage.copying = false → f = .temp pid) := by
    intro heq
    rw [heq]
    exact ⟨.temp pid, mine_temp pid, leaves_refl _ store, fun _ => rfl⟩
  cases stage with
  | idle => exact .inl (hsame rfl)
  | inspectDatabase => exact .inl (hsame rfl)
  | inspectLegacy => exact .inl (hsame rfl)
  | inspectSidecar suffix later => exact .inl (hsame rfl)
  | removeSidecar suffix later =>
    exact .inl ⟨.sidecar suffix, mine_sidecar pid suffix, leaves_remove _ store,
      fun hcopying => by cases hcopying⟩
  | create copy =>
    by_cases hsource : (copy.source legacy).isSome = true
    · refine .inl ⟨copy.target pid, mine_target pid copy, ?_, fun hcopying => by cases hcopying⟩
      rw [advance, if_pos hsource]
      exact h.leaves_create hfiles rfl copy
    · exact .inl (hsame (congrArg Prod.fst (if_neg hsource)))
  | fill copy file =>
    cases hsource : copy.source legacy with
    | none => exact .inl (hsame (by rw [advance, hsource]))
    | some data =>
      refine .inl ⟨copy.target pid, mine_target pid copy, ?_, fun hcopying => by cases hcopying⟩
      rw [advance, hsource]
      exact h.leaves_fill hfiles
  | sync copy =>
    by_cases hhas : store.has (copy.target pid) = true
    · refine .inl ⟨copy.target pid, mine_target pid copy, ?_, fun hcopying => by cases hcopying⟩
      rw [advance, if_pos hhas]
      exact h.leaves_sync hfiles rfl copy
    · exact .inl (hsame (congrArg Prod.fst (if_neg hhas)))
  | publish =>
    by_cases htemp : store.has (.temp pid) = true
    · by_cases hdatabase : store.has .database = true
      · exact .inl (hsame (by rw [advance, if_pos htemp, if_pos hdatabase]))
      · refine .inr ⟨rfl, has_eq_false.mp (Bool.eq_false_iff.mpr hdatabase), ?_⟩
        rw [advance, if_pos htemp, if_neg hdatabase]
    · exact .inl (hsame (by rw [advance, if_neg htemp]))
  | discard =>
    exact .inl ⟨.temp pid, mine_temp pid, leaves_remove _ store, fun _ => rfl⟩
  | abandon =>
    exact .inl ⟨.temp pid, mine_temp pid, leaves_remove _ store, fun _ => rfl⟩
  | removeTemp =>
    exact .inl ⟨.temp pid, mine_temp pid, leaves_remove _ store, fun _ => rfl⟩
  | syncDirectory =>
    exact .inl ⟨.temp pid, mine_temp pid, leaves_syncDirectory _ store, fun _ => rfl⟩
  | done => exact .inl (hsame rfl)
  | failed error => exact .inl (hsame rfl)

theorem advance_files (hfiles : Files store) (h : Holds legacy pid store stage) :
    Files (advance legacy pid store stage).1 := by
  rcases advance_store hfiles h with ⟨f, hmine, hleaves, -⟩ | ⟨hstage, habsent, heq⟩
  · exact hfiles.of_leaves hmine hleaves
  · obtain ⟨data, htemp, -⟩ := h.synced hstage
    rw [heq]
    exact hfiles.of_link htemp habsent

/-- The others can go on relying on what they did. -/
theorem advance_others (hfiles : Files store) (h : Holds legacy pid store stage)
    (hne : other ≠ pid) {otherStage : Stage} (hother : Holds legacy other store otherStage) :
    Holds legacy other (advance legacy pid store stage).1 otherStage := by
  rcases advance_store hfiles h with ⟨f, hmine, hleaves, -⟩ | ⟨hstage, habsent, heq⟩
  · exact hother.of_leaves hfiles hmine hne hleaves
  · obtain ⟨data, htemp, -⟩ := h.synced hstage
    obtain ⟨i, hi, -⟩ := Option.map_eq_some_iff.mp htemp
    rw [heq]
    exact hother.of_link hfiles hne ⟨i, hi⟩

/-- While the process works on the sidecars and its own file, that is not the database. -/
theorem unlinked_of_leaves {store' : Store NewFile δ} {f : NewFile} (hfiles : Files store)
    (hunlinked : Unlinked pid store) (hmine : Mine pid f) (hleaves : Leaves f store store') :
    Unlinked pid store' := by
  intro i hdatabase htemp
  rw [hleaves.names _ hmine.database_ne] at hdatabase
  by_cases hf : NewFile.temp pid = f
  · subst hf
    rcases hleaves.file i htemp with hold | ⟨rfl, -⟩
    · exact hunlinked i hdatabase hold
    · exact Nat.lt_irrefl _ (names_lt_next hfiles.numbered hdatabase)
  · rw [hleaves.names _ hf] at htemp
    exact hunlinked i hdatabase htemp

theorem advance_holds (hfiles : Files store) (h : Holds legacy pid store stage) :
    Holds legacy pid (advance legacy pid store stage).1 (advance legacy pid store stage).2 := by
  cases stage with
  | idle => exact h
  | inspectDatabase =>
    rw [advance]
    split_ifs with hhas
    · exact holds_of_inactive rfl
    · have habsent := has_eq_false.mp (Bool.eq_false_iff.mpr hhas)
      refine holds_of_unlinked (fun i hi => ?_) (fun _ _ h => by cases h) (fun h => by cases h)
        (fun h => by cases h) rfl
      rw [habsent] at hi
      cases hi
  | inspectLegacy =>
    rw [advance]
    split_ifs with hmain
    · exact holds_afterSidecars (h.unlinked rfl) suffixes
    · exact holds_of_inactive rfl
  | inspectSidecar suffix later =>
    rw [advance]
    split_ifs <;>
      exact holds_of_unlinked (h.unlinked rfl) (fun _ _ h => by cases h) (fun h => by cases h)
        (fun h => by cases h) rfl
  | removeSidecar suffix later =>
    exact holds_afterSidecars (unlinked_of_leaves hfiles (h.unlinked rfl) (mine_sidecar pid suffix)
      (leaves_remove _ store)) later
  | create copy =>
    rw [advance]
    split_ifs with hsource
    · have hmine := mine_target pid copy
      have hleaves := h.leaves_create hfiles rfl copy
      have hunlinked := unlinked_of_leaves hfiles (h.unlinked rfl) hmine hleaves
      have hafter := hfiles.of_leaves hmine hleaves
      refine ⟨fun _ => hunlinked, fun suffix later i hstage => ?_, fun i hstage => ?_,
        fun h => (by cases h), fun h => (by cases h), fun h => (by cases h)⟩
      · cases hstage
        refine ⟨create_file_lt hfiles.numbered, fun g hg => ?_⟩
        exact hafter.unshared hunlinked hmine g hg _ names_create_self
      · cases hstage
        exact ⟨names_create_self, read_create_self⟩
    · exact holds_of_inactive rfl
  | fill copy file =>
    rw [advance]
    cases hsource : copy.source legacy with
    | none => exact holds_of_inactive rfl
    | some data =>
      refine ⟨fun _ => h.unlinked rfl, fun _ _ _ h => (by cases h), fun _ h => (by cases h),
        fun hstage => ?_, fun h => (by cases h), fun h => (by cases h)⟩
      cases hstage
      obtain ⟨hname, hread⟩ := h.opened file rfl
      exact ⟨data, false, read_fill_self hname (contents_of_read hname hread), hsource⟩
  | sync copy =>
    rw [advance]
    split_ifs with hhas
    · have hmine := mine_target pid copy
      have hunlinked := unlinked_of_leaves hfiles (h.unlinked rfl) hmine
        (h.leaves_sync hfiles rfl copy)
      cases copy with
      | sidecar suffix later => exact holds_afterSidecars hunlinked later
      | main =>
        refine ⟨fun _ => hunlinked, fun _ _ _ h => (by cases h), fun _ h => (by cases h),
          fun h => (by cases h), fun _ => ?_, fun h => (by cases h)⟩
        obtain ⟨data, synced, hread, hmain⟩ := h.filled rfl
        exact ⟨data, read_sync_self hread, hmain⟩
    · exact holds_of_inactive rfl
  | publish =>
    rw [advance]
    split_ifs with htemp hdatabase
    · exact holds_of_settled (has_eq_true.mp hdatabase) rfl
    · refine holds_of_settled ?_ rfl
      rw [names_link_self]
      exact has_eq_true.mp htemp
    · exact holds_of_copied rfl fun h => by cases h
  | discard => exact holds_of_inactive rfl
  | abandon => exact holds_of_inactive rfl
  | removeTemp =>
    refine holds_of_settled ?_ rfl
    have hdatabase := @names_remove_of_ne _ δ _ store (.temp pid) .database
      fun heq => by cases heq
    rw [advance, hdatabase]
    exact h.found rfl
  | syncDirectory => exact holds_of_inactive rfl
  | done => exact h
  | failed error => exact h

theorem failing_holds (h : Holds legacy pid store stage) :
    Holds legacy pid store (failing pid stage) := by
  cases stage with
  | publish => exact holds_of_copied rfl fun h => by cases h
  | removeTemp => exact holds_of_settled (h.found rfl) rfl
  | _ => exact holds_of_inactive rfl

/-- A process that goes on to open the database has found one, or there was none to migrate. -/
theorem advance_done (h : Holds legacy pid store stage) (hnot : stage ≠ .done)
    (hdone : (advance legacy pid store stage).2 = .done) :
    (∃ i, (advance legacy pid store stage).1.names .database = some i) ∨ legacy.main = none := by
  have hne : NewFile.database ≠ .temp pid := fun heq => by cases heq
  cases stage with
  | inspectDatabase =>
    rw [advance] at hdone ⊢
    split_ifs at hdone with hhas
    exact .inl (has_eq_true.mp hhas)
  | inspectLegacy =>
    rw [advance] at hdone
    split_ifs at hdone with hmain
    · cases hdone
    · exact .inr (Option.not_isSome_iff_eq_none.mp hmain)
  | discard =>
    rw [advance, names_remove_of_ne hne]
    exact .inl (h.found rfl)
  | syncDirectory => exact .inl (h.found rfl)
  | inspectSidecar suffix later =>
    rw [advance] at hdone
    split_ifs at hdone
  | removeSidecar suffix later => cases later <;> cases hdone
  | create copy =>
    rw [advance] at hdone
    split_ifs at hdone
  | fill copy file =>
    rw [advance] at hdone
    cases hsource : copy.source legacy <;> rw [hsource] at hdone <;> cases hdone
  | sync copy =>
    rw [advance] at hdone
    split_ifs at hdone
    cases copy with
    | sidecar suffix later => cases later <;> cases hdone
    | main => cases hdone
  | publish =>
    rw [advance] at hdone
    split_ifs at hdone
  | done => exact absurd rfl hnot
  | _ => cases hdone

theorem failing_done (h : Holds legacy pid store stage) (hnot : stage ≠ .done)
    (hdone : failing pid stage = .done) : ∃ i, store.names .database = some i := by
  cases stage with
  | discard => exact h.found rfl
  | syncDirectory => exact h.found rfl
  | done => exact absurd rfl hnot
  | _ => cases hdone

end Advance

section Sound
variable {δ : Type*} {w : World δ} {event : Event δ}

/-- The invariant of the system. -/
structure Sound (w : World δ) : Prop where
  files : Files w.store
  stages : ∀ pid, Holds w.legacy pid w.store (w.stages pid)

theorem World.Fresh.sound (h : w.Fresh) : Sound w where
  files := by
    refine ⟨h.numbered, fun names hnames => ?_, fun names hnames => ?_, fun content hcontent => ?_⟩
    · rw [Store.directories, h.durable, List.mem_singleton] at hnames
      subst hnames
      exact fun f g i hfg hf hg => absurd (h.distinct f g i hf hg) hfg
    · rw [h.durable] at hnames
      exact absurd hnames List.not_mem_nil
    · rw [read_eq_none.mpr h.absent] at hcontent
      cases hcontent
  stages := fun pid => by
    rw [h.idle pid]
    exact holds_of_inactive rfl

/-- A step of one process. -/
theorem Sound.goes (h : Sound w) {pid : ℕ} {store : Store NewFile δ} {stage : Stage}
    (hfiles : Files store) (hpid : Holds w.legacy pid store stage)
    (hothers : ∀ other, other ≠ pid → Holds w.legacy other store (w.stages other)) :
    Sound (w.goes pid store stage) := by
  refine ⟨hfiles, fun other => ?_⟩
  by_cases hother : other = pid
  · subst hother
    rw [stages_goes_self]
    exact hpid
  · rw [stages_goes_of_ne hother]
    exact hothers other hother

theorem Sound.step (h : Sound w) (hkept : LegacyKept w event) : Sound (w.step event) := by
  cases event with
  | start pid =>
    rw [World.step]
    split_ifs
    · exact h
    · exact h.goes h.files (holds_of_copied rfl fun h => by cases h) fun other _ => h.stages other
  | advance pid =>
    exact h.goes (advance_files h.files (h.stages pid)) (advance_holds h.files (h.stages pid))
      fun other hother => advance_others h.files (h.stages pid) hother (h.stages other)
  | fail pid =>
    exact h.goes h.files (failing_holds (h.stages pid)) fun other _ => h.stages other
  | crash pid =>
    exact h.goes h.files (holds_of_inactive rfl) fun other _ => h.stages other
  | powerCut spared lost =>
    exact ⟨h.files.of_cut spared lost, fun pid => holds_of_inactive rfl⟩
  | legacyWrites legacy =>
    exact ⟨h.files, fun pid => holds_of_inactive (hkept legacy rfl pid)⟩

end Sound
end LegacyDatabase
