import TerminalWorkspace.FileBrowser.Browser

/-! What the browser shows while it is neither loading nor locked. -/
namespace FileBrowser
open JsText Runs

section Host
variable {sftpRoot : Option JsString} {s : Browser}

/-- No entries, or those of some listing of the current path. -/
def Shows (sftpRoot : Option JsString) (s : Browser) : Prop :=
  s.entries = [] ∨ ⟨currentPath sftpRoot s, s.entries⟩ ∈ s.answers

def ShowsItsDirectory (sftpRoot : Option JsString) (s : Browser) : Prop :=
  s.loading = false → s.browserLocked = false → Shows sftpRoot s

/-- A load is cancelled only over entries that were listed for the path it is about. -/
def CancelsShown (sftpRoot : Option JsString) (s : Browser) : BrowserEvent → Prop
  | .cancelLoad => s.loading = true → Shows sftpRoot s
  | _ => True

/-- A locked browser has been emptied. -/
def LockedEmpty (s : Browser) : Prop := s.browserLocked = true → s.entries = []

/-- The loads in flight have tokens of their own, all of them claimed, and the one that is
still current, once it waits for its listing, has unlocked the browser. -/
structure Guarded (loads : List DirectoryLoad) (guard : LatestRequestGuard) (locked : Bool) :
    Prop where
  nodup : (loads.map (·.token)).Nodup
  claimed : ∀ load ∈ loads, load.token ≤ guard.sequence
  unlocked : ∀ load ∈ loads, load.phase = .listing → load.token = guard.sequence →
    locked = false

section Guard
variable {loads : List DirectoryLoad} {guard : LatestRequestGuard} {locked : Bool}
  {load : DirectoryLoad}

/-- A new claim supersedes every load in flight. -/
theorem Guarded.begin (h : Guarded loads guard locked) (path : JsString) (interactive : Bool) :
    Guarded (⟨guard.begin.2, path, interactive, .secrets⟩ :: loads) guard.begin.1 locked := by
  have hfresh : ∀ load ∈ loads, load.token ≠ guard.sequence + 1 := by
    intro load hload
    have := h.claimed load hload
    omega
  constructor
  · refine List.nodup_cons.mpr ⟨fun hmem => ?_, h.nodup⟩
    obtain ⟨load, hload, htoken⟩ := List.mem_map.mp hmem
    exact hfresh load hload htoken
  · intro load hload
    rcases List.mem_cons.mp hload with rfl | hload
    · exact le_rfl
    · exact Nat.le_succ_of_le (h.claimed load hload)
  · intro load hload hphase htoken
    rcases List.mem_cons.mp hload with rfl | hload
    · cases hphase
    · exact absurd htoken (hfresh load hload)

theorem Guarded.cancel (h : Guarded loads guard locked) : Guarded loads guard.cancel locked := by
  refine ⟨h.nodup, fun load hload => Nat.le_succ_of_le (h.claimed load hload), ?_⟩
  intro load hload _ htoken
  have hclaimed := h.claimed load hload
  have hsequence : load.token = guard.sequence + 1 := htoken
  omega

theorem Guarded.erase (h : Guarded loads guard locked) (load : DirectoryLoad) :
    Guarded (loads.erase load) guard locked :=
  ⟨h.nodup.sublist (List.erase_sublist.map _),
    fun other hother => h.claimed other (List.mem_of_mem_erase hother),
    fun other hother => h.unlocked other (List.mem_of_mem_erase hother)⟩

/-- Once the current load is taken out, no load in flight is current. -/
theorem Guarded.not_current (h : Guarded loads guard locked) (hload : load ∈ loads)
    (hcurrent : guard.isCurrent load.token = true) :
    ∀ other ∈ loads.erase load, other.token ≠ guard.sequence := by
  intro other hother htoken
  have hperm := (List.perm_cons_erase hload).map (·.token)
  have hnodup := hperm.nodup_iff.mp h.nodup
  refine (List.nodup_cons.mp hnodup).1 (List.mem_map.mpr ⟨other, hother, ?_⟩)
  exact htoken.trans (beq_iff_eq.mp hcurrent).symm

theorem Guarded.settle (h : Guarded loads guard locked) (hload : load ∈ loads)
    (hcurrent : guard.isCurrent load.token = true) (locked' : Bool) :
    Guarded (loads.erase load) guard locked' :=
  ⟨(h.erase load).nodup, (h.erase load).claimed, fun other hother _ htoken =>
    absurd htoken (h.not_current hload hcurrent other hother)⟩

/-- The current load goes on to its listing, and has unlocked the browser. -/
theorem Guarded.listing (h : Guarded loads guard locked) (hload : load ∈ loads)
    (hcurrent : guard.isCurrent load.token = true) :
    Guarded ({ load with phase := .listing } :: loads.erase load) guard false := by
  have hothers := h.settle hload hcurrent false
  refine ⟨List.nodup_cons.mpr ⟨fun hmem => ?_, hothers.nodup⟩, ?_, fun _ _ _ _ => rfl⟩
  · obtain ⟨other, hother, htoken⟩ := List.mem_map.mp hmem
    exact h.not_current hload hcurrent other hother (htoken.trans (beq_iff_eq.mp hcurrent))
  · exact List.forall_mem_cons.mpr ⟨h.claimed load hload, hothers.claimed⟩

end Guard

/-- What is on screen outlives a step: the lock, the entries, and the answers so far. -/
structure Keeps (s s' : Browser) : Prop where
  entries : s'.entries = s.entries
  browserLocked : s'.browserLocked = s.browserLocked
  answers : s'.answers = s.answers

theorem Keeps.refl (s : Browser) : Keeps s s := ⟨rfl, rfl, rfl⟩

theorem Keeps.trans {s s' s'' : Browser} (h : Keeps s s') (h' : Keeps s' s'') : Keeps s s'' :=
  ⟨h'.entries.trans h.entries, h'.browserLocked.trans h.browserLocked,
    h'.answers.trans h.answers⟩

theorem Keeps.lockedEmpty {s s' : Browser} (h : Keeps s s') (hempty : LockedEmpty s) :
    LockedEmpty s' := by
  intro hlocked
  rw [h.entries]
  exact hempty (h.browserLocked ▸ hlocked)

section Effects

@[simp] theorem loadDirectory_loading (path : JsString) (interactive : Bool) :
    (loadDirectory s path interactive).loading = true := rfl

theorem keeps_loadDirectory (path : JsString) (interactive : Bool) :
    Keeps s (loadDirectory s path interactive) := ⟨rfl, rfl, rfl⟩

theorem currentPath_congr (sftpRoot : Option JsString) {s s' : Browser}
    (h : s'.remotePath = s.remotePath) :
    currentPath sftpRoot s' = currentPath sftpRoot s := by
  unfold currentPath
  rw [h]

theorem rememberDefaultPath_cases (sftpRoot : Option JsString) (s : Browser) :
    rememberDefaultPath sftpRoot s = s ∨
      ∃ c root, sftpRoot = some (c :: root) ∧
        rememberDefaultPath sftpRoot s = rememberRemotePath s (c :: root) := by
  unfold rememberDefaultPath
  split
  · split_ifs
    · exact .inr ⟨_, _, rfl, rfl⟩
    · exact .inl rfl
  · exact .inl rfl

/-- Once the default path is remembered it is not remembered again. -/
theorem rememberDefaultPath_again {s' : Browser}
    (h : s'.remotePath = (rememberDefaultPath sftpRoot s).remotePath) :
    rememberDefaultPath sftpRoot s' = s' := by
  unfold rememberDefaultPath at h ⊢
  split
  · split_ifs with hempty
    · exfalso
      simp only at h
      split_ifs at h with hs
      · rw [h] at hempty
        exact absurd hempty (List.cons_ne_nil _ _)
      · exact hs (h ▸ hempty)
    · rfl
  · rfl

theorem keeps_rememberDefaultPath : Keeps s (rememberDefaultPath sftpRoot s) := by
  rcases rememberDefaultPath_cases sftpRoot s with h | ⟨_, _, -, h⟩ <;>
    rw [h] <;> exact ⟨rfl, rfl, rfl⟩

theorem rememberDefaultPath_others (sftpRoot : Option JsString) (s : Browser) :
    (rememberDefaultPath sftpRoot s).loading = s.loading ∧
      (rememberDefaultPath sftpRoot s).effectPath = s.effectPath := by
  rcases rememberDefaultPath_cases sftpRoot s with h | ⟨_, _, -, h⟩ <;>
    rw [h] <;> exact ⟨rfl, rfl⟩

/-- What the effects of one commit do: they load the rendered path, unless they have loaded
it before. -/
structure EffectsRun (sftpRoot : Option JsString) (s s' : Browser) : Prop where
  keeps : Keeps s s'
  remotePath : s'.remotePath = (rememberDefaultPath sftpRoot s).remotePath
  effectPath : s'.effectPath = some (currentPath sftpRoot s)
  loading : s'.loading = true ∨
    s'.loading = s.loading ∧ s.effectPath = some (currentPath sftpRoot s)

theorem runEffects_run (sftpRoot : Option JsString) (s : Browser) :
    EffectsRun sftpRoot s (runEffects sftpRoot s) := by
  obtain ⟨hloading, heffect⟩ := rememberDefaultPath_others sftpRoot s
  by_cases hsame : (rememberDefaultPath sftpRoot s).effectPath = some (currentPath sftpRoot s)
  · have hrun : runEffects sftpRoot s = rememberDefaultPath sftpRoot s := if_pos hsame
    rw [hrun]
    exact ⟨keeps_rememberDefaultPath, rfl, hsame, .inr ⟨hloading, heffect ▸ hsame⟩⟩
  · unfold runEffects
    simp only [if_neg hsame]
    exact ⟨keeps_rememberDefaultPath.trans ⟨rfl, rfl, rfl⟩, rfl, rfl, .inl rfl⟩

theorem commit_keeps (sftpRoot : Option JsString) (s : Browser) : Keeps s (commit sftpRoot s) :=
  (runEffects_run sftpRoot s).keeps.trans (runEffects_run sftpRoot _).keeps

/-- The second run of the effects leaves the path alone. -/
theorem commit_currentPath :
    currentPath sftpRoot (commit sftpRoot s) = currentPath sftpRoot (runEffects sftpRoot s) := by
  apply currentPath_congr sftpRoot
  rw [commit, (runEffects_run sftpRoot _).remotePath,
    rememberDefaultPath_again (runEffects_run sftpRoot s).remotePath]

theorem commit_effectPath :
    (commit sftpRoot s).effectPath = some (currentPath sftpRoot (commit sftpRoot s)) := by
  rw [commit_currentPath]
  exact (runEffects_run sftpRoot _).effectPath

/-- After a commit a path that the effects had not seen is being loaded. -/
theorem commit_loading (sftpRoot : Option JsString) (s : Browser) :
    (commit sftpRoot s).loading = true ∨
      (commit sftpRoot s).loading = s.loading ∧ s.effectPath = some (currentPath sftpRoot s) ∧
        currentPath sftpRoot (commit sftpRoot s) = currentPath sftpRoot s := by
  rw [commit_currentPath]
  have hfirst := runEffects_run sftpRoot s
  rcases (runEffects_run sftpRoot (runEffects sftpRoot s)).loading with
    hloading | ⟨hsame, hseen⟩
  · exact .inl hloading
  · have hpath := Option.some.inj (hseen.symm.trans hfirst.effectPath)
    rcases hfirst.loading with hloading | ⟨hloading, hbefore⟩
    · exact .inl (hsame.trans hloading)
    · exact .inr ⟨hsame.trans hloading, hbefore, hpath⟩

end Effects
/-- The effects have seen the current path, a locked browser is empty, and one that does not
load shows the directory it names. -/
structure Consistent (sftpRoot : Option JsString) (s : Browser) : Prop where
  effectPath : s.effectPath = some (currentPath sftpRoot s)
  guarded : Guarded s.loads s.loadGuard s.browserLocked
  lockedEmpty : LockedEmpty s
  shows : s.loading = false → Shows sftpRoot s

/-- A step that leaves the paths and the screen alone. -/
theorem Consistent.of_keeps {s' : Browser} (h : Consistent sftpRoot s) (hkeeps : Keeps s s')
    (hremote : s'.remotePath = s.remotePath) (heffect : s'.effectPath = s.effectPath)
    (hguarded : Guarded s'.loads s'.loadGuard s'.browserLocked)
    (hloading : s'.loading = false → Shows sftpRoot s) : Consistent sftpRoot s' := by
  have hpath := currentPath_congr sftpRoot hremote
  refine ⟨by rw [heffect, hpath, h.effectPath], hguarded, hkeeps.lockedEmpty h.lockedEmpty,
    fun hidle => ?_⟩
  unfold Shows
  rw [hkeeps.entries, hkeeps.answers, hpath]
  exact hloading hidle

/-- A step that empties the browser and leaves the paths alone. -/
theorem Consistent.of_empty {s' : Browser} (h : Consistent sftpRoot s) (hempty : s'.entries = [])
    (hremote : s'.remotePath = s.remotePath) (heffect : s'.effectPath = s.effectPath)
    (hguarded : Guarded s'.loads s'.loadGuard s'.browserLocked) : Consistent sftpRoot s' := by
  have hpath := currentPath_congr sftpRoot hremote
  exact ⟨by rw [heffect, hpath, h.effectPath], hguarded, fun _ => hempty, fun _ => .inl hempty⟩

theorem Consistent.loadDirectory (h : Consistent sftpRoot s) (path : JsString)
    (interactive : Bool) : Consistent sftpRoot (loadDirectory s path interactive) :=
  h.of_keeps (keeps_loadDirectory path interactive) rfl rfl (h.guarded.begin path interactive)
    nofun

theorem Guarded.runEffects (h : Guarded s.loads s.loadGuard s.browserLocked) :
    Guarded (runEffects sftpRoot s).loads (runEffects sftpRoot s).loadGuard
      (runEffects sftpRoot s).browserLocked := by
  have hdefault : Guarded (rememberDefaultPath sftpRoot s).loads
      (rememberDefaultPath sftpRoot s).loadGuard
      (rememberDefaultPath sftpRoot s).browserLocked := by
    rcases rememberDefaultPath_cases sftpRoot s with hsame | ⟨_, _, -, hsame⟩ <;>
      rw [hsame] <;> exact h
  by_cases hsame : (rememberDefaultPath sftpRoot s).effectPath = some (currentPath sftpRoot s)
  · rw [show FileBrowser.runEffects sftpRoot s = _ from if_pos hsame]
    exact hdefault
  · unfold FileBrowser.runEffects
    simp only [if_neg hsame]
    exact hdefault.begin _ _

/-- After a commit, what is shown needs to be right only where the path has stayed. -/
theorem Consistent.commit (hguarded : Guarded s.loads s.loadGuard s.browserLocked)
    (hempty : LockedEmpty s)
    (hshows : s.loading = false → s.effectPath = some (currentPath sftpRoot s) →
      Shows sftpRoot s) : Consistent sftpRoot (commit sftpRoot s) := by
  have hkeeps := commit_keeps sftpRoot s
  refine ⟨commit_effectPath, hguarded.runEffects.runEffects, hkeeps.lockedEmpty hempty,
    fun hidle => ?_⟩
  rcases commit_loading sftpRoot s with hloading | ⟨hsame, hseen, hpath⟩
  · rw [hloading] at hidle
    cases hidle
  · unfold Shows
    rw [hkeeps.entries, hkeeps.answers, hpath]
    exact hshows (hsame ▸ hidle) hseen

theorem Consistent.navigateToPath (h : Consistent sftpRoot s) (path : JsString)
    (interactive : Bool) : Consistent sftpRoot (navigateToPath sftpRoot s path interactive) := by
  refine Consistent.commit h.guarded h.lockedEmpty fun hidle hseen => ?_
  -- nothing is loaded only if the effects had seen this path, so it was the current one
  have hpath : FileBrowser.currentPath sftpRoot s = path :=
    Option.some.inj (h.effectPath.symm.trans hseen)
  have hshows := h.shows hidle
  unfold Shows at hshows ⊢
  rw [hpath] at hshows
  exact hshows

/-- `s` without the load that is resumed. -/
theorem Consistent.erase (h : Consistent sftpRoot s) (load : DirectoryLoad) :
    Consistent sftpRoot { s with loads := s.loads.erase load } :=
  h.of_keeps ⟨rfl, rfl, rfl⟩ rfl rfl (h.guarded.erase load) h.shows

theorem Consistent.failLoad (h : Consistent sftpRoot s) (token : ℕ) (message : JsString) :
    Consistent sftpRoot (failLoad s token message) := by
  unfold FileBrowser.failLoad
  split_ifs
  · exact h.of_empty rfl rfl rfl h.guarded
  · exact h

theorem Consistent.resumeSecrets (h : Consistent sftpRoot s) {load : DirectoryLoad}
    (hload : load ∈ s.loads) (ready : Except JsString Bool) :
    Consistent sftpRoot (resumeSecrets { s with loads := s.loads.erase load } load ready) := by
  cases ready with
  | error message => exact (h.erase load).failLoad load.token message
  | ok ready =>
    simp only [FileBrowser.resumeSecrets]
    split_ifs with hcurrent
    · exact ⟨h.effectPath, h.guarded.listing hload hcurrent, nofun, h.shows⟩
    · exact h.of_empty rfl rfl rfl (h.guarded.settle hload hcurrent true)
    · exact h.erase load

/-- The path and the entries of a listing are committed together. -/
theorem Consistent.resumeListing (h : Consistent sftpRoot s) {load : DirectoryLoad}
    (hload : load ∈ s.loads) (hphase : load.phase = .listing)
    (result : Except JsString DirectoryListing) :
    Consistent sftpRoot
      (resumeListing sftpRoot { s with loads := s.loads.erase load } load result) := by
  cases result with
  | error message => exact (h.erase load).failLoad load.token message
  | ok result =>
    simp only [FileBrowser.resumeListing]
    split_ifs with hcurrent
    · have hunlocked := h.guarded.unlocked load hload hphase (beq_iff_eq.mp hcurrent)
      refine Consistent.commit (h.guarded.erase load) (fun hlocked => ?_) fun _ _ => ?_
      · exact absurd (hunlocked.symm.trans hlocked) Bool.false_ne_true
      · exact .inr (List.mem_cons_self ..)
    · refine ⟨h.effectPath, h.guarded.erase load, h.lockedEmpty, fun hidle => ?_⟩
      exact (h.shows hidle).imp_right (List.mem_cons_of_mem result)

/-- A superseded load commits nothing. -/
theorem resumeListing_superseded {load : DirectoryLoad} {result : DirectoryListing}
    (h : s.loadGuard.isCurrent load.token = false) :
    resumeListing sftpRoot s load (.ok result) = { s with answers := result :: s.answers } := by
  simp only [FileBrowser.resumeListing, h, Bool.false_eq_true, if_false]

theorem Consistent.finishOperation (h : Consistent sftpRoot s) (pending : PendingOperation)
    (outcome : Except JsString Bool) : Consistent sftpRoot (finishOperation s pending outcome) := by
  have hshown {s' : Browser} (hkeeps : Keeps s s') (hpaths : s'.remotePath = s.remotePath ∧
      s'.effectPath = s.effectPath) (hloads : s'.loads = s.loads ∧ s'.loadGuard = s.loadGuard)
      (hloading : s'.loading = s.loading) : Consistent sftpRoot s' := by
    refine h.of_keeps hkeeps hpaths.1 hpaths.2 ?_ fun hidle => h.shows (hloading ▸ hidle)
    rw [hloads.1, hloads.2, hkeeps.browserLocked]
    exact h.guarded
  match outcome with
  | .error message => exact hshown ⟨rfl, rfl, rfl⟩ ⟨rfl, rfl⟩ ⟨rfl, rfl⟩ rfl
  | .ok false => exact h
  | .ok true =>
    unfold FileBrowser.finishOperation
    cases pending.operation with
    | handleDownload => exact h
    | submitDraftAction | handleUpload => exact h.loadDirectory pending.currentPath false
    | handleDelete deleteTarget =>
      refine Consistent.loadDirectory ?_ pending.currentPath false
      exact hshown ⟨rfl, rfl, rfl⟩ ⟨rfl, rfl⟩ ⟨rfl, rfl⟩ rfl

theorem findLoad_some {token : ℕ} {phase : LoadPhase} {load : DirectoryLoad}
    (h : findLoad s token phase = some load) : load ∈ s.loads ∧ load.phase = phase := by
  have hfound := List.find?_some h
  exact ⟨List.mem_of_find?_eq_some h, beq_iff_eq.mp (Bool.and_eq_true_iff.mp hfound).2⟩

theorem Consistent.step (h : Consistent sftpRoot s) {event : BrowserEvent}
    (hcancel : CancelsShown sftpRoot s event) : Consistent sftpRoot (step sftpRoot s event) := by
  cases event with
  | navigateToPath path interactive => exact h.navigateToPath path interactive
  | selectEntry entry => exact h.of_keeps ⟨rfl, rfl, rfl⟩ rfl rfl h.guarded h.shows
  | openEntry entry =>
    have hselected : Consistent sftpRoot { s with selectedEntry := some entry } :=
      h.of_keeps ⟨rfl, rfl, rfl⟩ rfl rfl h.guarded h.shows
    simp only [FileBrowser.step]
    split_ifs
    · exact hselected.navigateToPath entry.path true
    · exact hselected
  | refresh => exact h.loadDirectory _ true
  | connectionChanged =>
    refine Consistent.loadDirectory ?_ _ _
    exact h.of_keeps ⟨rfl, rfl, rfl⟩ rfl rfl h.guarded h.shows
  | cancelLoad =>
    simp only [FileBrowser.step]
    split_ifs with hloading
    · exact h.of_keeps ⟨rfl, rfl, rfl⟩ rfl rfl h.guarded.cancel fun _ => hcancel hloading
    · exact h
  | secretsSettled token ready =>
    simp only [FileBrowser.step]
    split
    · exact h
    · rename_i load hfound
      exact h.resumeSecrets (findLoad_some hfound).1 ready
  | listingSettled token result =>
    simp only [FileBrowser.step]
    split
    · exact h
    · rename_i load hfound
      exact h.resumeListing (findLoad_some hfound).1 (findLoad_some hfound).2 result
  | startOperation operation => exact h.of_keeps ⟨rfl, rfl, rfl⟩ rfl rfl h.guarded h.shows
  | finishOperation pending outcome =>
    simp only [FileBrowser.step]
    split_ifs
    · refine Consistent.finishOperation ?_ pending outcome
      exact h.of_keeps ⟨rfl, rfl, rfl⟩ rfl rfl h.guarded h.shows
    · exact h

theorem consistent_mount (sftpRoot remotePath : Option JsString) :
    Consistent sftpRoot (mount sftpRoot remotePath) := by
  refine Consistent.commit ⟨List.nodup_nil, nofun, nofun⟩ nofun fun _ _ => .inl rfl

/-- A consistent browser shows its directory after a step, unless the step cancels a load
over entries of another directory. -/
theorem showsItsDirectory_step_iff (h : Consistent sftpRoot s) (event : BrowserEvent) :
    ShowsItsDirectory sftpRoot (FileBrowser.step sftpRoot s event) ↔
      CancelsShown sftpRoot s event := by
  refine ⟨fun hshows => ?_, fun hcancel hidle _ => (h.step hcancel).shows hidle⟩
  cases event with
  | cancelLoad =>
    intro hloading
    have hcancelled : FileBrowser.step sftpRoot s .cancelLoad = cancelLoad s := if_pos hloading
    rw [hcancelled] at hshows
    by_cases hlocked : s.browserLocked = true
    · exact .inl (h.lockedEmpty hlocked)
    · exact hshows rfl (Bool.not_eq_true _ ▸ hlocked)
  | _ => trivial

end Host
end FileBrowser
