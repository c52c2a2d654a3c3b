import Mathlib.Data.List.Basic
import Mathlib.Logic.Function.Basic

/-! A directory of names for files: two names may be those of one file, a file is copied in
steps, and a power cut spares only what has been synced. -/
namespace HardLinks

/-- `torn` says nothing of what a file holds, and `opened` that the writer has it for itself. -/
inductive Content (δ : Type*) where
  | torn
  | opened (writer : ℕ)
  | whole (data : δ) (synced : Bool)
  deriving DecidableEq, Repr

def Content.sync {δ : Type*} : Content δ → Content δ
  | .whole data _ => .whole data true
  | content => content

/-- The writer has written all of the data. Another may have opened the file meanwhile. -/
def Content.fill {δ : Type*} (writer : ℕ) (data : δ) : Content δ → Content δ
  | .opened last => if last = writer then .whole data false else .torn
  | _ => .torn

/-- What a power cut leaves. -/
def Content.cut {δ : Type*} (spared : Bool) : Content δ → Content δ
  | .whole data synced => if synced || spared then .whole data true else .torn
  | _ => .torn

/-- `earlier` has the directories, latest first, that the disk may still have instead. -/
structure Store (ν δ : Type*) where
  names : ν → Option ℕ
  earlier : List (ν → Option ℕ)
  contents : ℕ → Content δ
  next : ℕ

section Operations
variable {ν δ : Type*} [DecidableEq ν] (store : Store ν δ)

def Store.empty : Store ν δ := ⟨fun _ => none, [], fun _ => .torn, 0⟩

def Store.has (f : ν) : Bool := (store.names f).isSome

def Store.read (f : ν) : Option (Content δ) := (store.names f).map store.contents

def Store.update (i : ℕ) (content : Content δ) : Store ν δ :=
  { store with contents := Function.update store.contents i content }

def Store.enter (f : ν) (file : Option ℕ) : Store ν δ :=
  { store with names := Function.update store.names f file, earlier := store.names :: store.earlier }

/-- A file is opened to be written anew: the one that has the name, or a new one. -/
def Store.create (writer : ℕ) (f : ν) : Store ν δ × ℕ :=
  match store.names f with
  | some i => (store.update i (.opened writer), i)
  | none =>
    ({ (store.update store.next (.opened writer)).enter f (some store.next) with
        next := store.next + 1 }, store.next)

def Store.fill (writer i : ℕ) (data : δ) : Store ν δ :=
  store.update i ((store.contents i).fill writer data)

def Store.sync (f : ν) : Store ν δ :=
  match store.names f with
  | some i => store.update i (store.contents i).sync
  | none => store

/-- A second name. -/
def Store.link (f g : ν) : Store ν δ := store.enter g (store.names f)

def Store.remove (f : ν) : Store ν δ := store.enter f none

def Store.syncDirectory : Store ν δ := { store with earlier := [] }

def Store.directories : List (ν → Option ℕ) := store.names :: store.earlier

/-- The last changes of the directory are lost, so many of those not synced, and the data of the
files that are neither synced nor spared. -/
def Store.cut (spared : ℕ → Bool) (lost : ℕ) : Store ν δ :=
  { store with
    names := (store.directories.drop lost).headD store.names
    earlier := []
    contents := fun i => (store.contents i).cut (spared i) }

/-- Numbers of files that have a name have been given out. -/
def Store.Numbered : Prop :=
  ∀ names ∈ store.directories, ∀ f i, names f = some i → i < store.next

end Operations

section Laws
variable {ν δ : Type*} [DecidableEq ν] {store : Store ν δ} {f g : ν} {i j writer : ℕ} {data : δ}

theorem has_eq_true : store.has f = true ↔ ∃ i, store.names f = some i :=
  Option.isSome_iff_exists

theorem has_eq_false : store.has f = false ↔ store.names f = none := by
  rw [Store.has, Option.isSome_eq_false_iff, Option.isNone_iff_eq_none]

theorem read_eq_none : store.read f = none ↔ store.names f = none := Option.map_eq_none_iff

theorem read_of_names (h : store.names f = some i) : store.read f = some (store.contents i) := by
  rw [Store.read, h]
  rfl

theorem contents_of_read {content : Content δ} (hf : store.names f = some i)
    (h : store.read f = some content) : store.contents i = content :=
  Option.some.inj ((read_of_names hf).symm.trans h)

theorem names_mem_directories : store.names ∈ store.directories := List.mem_cons_self

theorem names_lt_next (h : store.Numbered) (hf : store.names f = some i) : i < store.next :=
  h store.names names_mem_directories f i hf

theorem cut_whole {content : Content δ} {spared : Bool} (h : content = .whole data true) :
    content.cut spared = .whole data true := by
  rw [h]
  rfl

theorem sync_whole {synced : Bool} : (Content.whole data synced).sync = .whole data true := rfl

theorem fill_opened : (Content.opened writer).fill writer data = .whole data false := if_pos rfl

/-! ## What each operation leaves as it was -/

theorem names_create_self : (store.create writer f).1.names f = some (store.create writer f).2 := by
  unfold Store.create
  cases h : store.names f with
  | some i => exact h
  | none => exact Function.update_self _ _ _

theorem names_create_of_ne (h : g ≠ f) :
    (store.create writer f).1.names g = store.names g := by
  unfold Store.create
  cases store.names f with
  | some i => rfl
  | none => exact Function.update_of_ne h _ _

theorem next_le_create : store.next ≤ (store.create writer f).1.next := by
  unfold Store.create
  cases store.names f with
  | some i => exact Nat.le_refl _
  | none => exact Nat.le_succ _

/-- The file that is opened has the name, or is new. -/
theorem create_file : store.names f = some (store.create writer f).2 ∨
    store.names f = none ∧ (store.create writer f).2 = store.next := by
  unfold Store.create
  cases h : store.names f with
  | some i => exact .inl rfl
  | none => exact .inr ⟨rfl, rfl⟩

theorem create_file_lt (h : store.Numbered) :
    (store.create writer f).2 < (store.create writer f).1.next := by
  unfold Store.create
  cases hf : store.names f with
  | some i => exact names_lt_next h hf
  | none => exact Nat.lt_succ_self _

theorem contents_create_self :
    (store.create writer f).1.contents (store.create writer f).2 = .opened writer := by
  unfold Store.create
  cases store.names f <;> exact Function.update_self _ _ _

theorem contents_create_of_ne (h : i ≠ (store.create writer f).2) :
    (store.create writer f).1.contents i = store.contents i := by
  unfold Store.create at h ⊢
  cases hf : store.names f with
  | some j =>
    rw [hf] at h
    exact Function.update_of_ne h _ _
  | none =>
    rw [hf] at h
    exact Function.update_of_ne h _ _

@[simp] theorem names_fill : (store.fill writer i data).names = store.names := rfl

@[simp] theorem next_fill : (store.fill writer i data).next = store.next := rfl

@[simp] theorem earlier_fill : (store.fill writer i data).earlier = store.earlier := rfl

theorem contents_fill_self :
    (store.fill writer i data).contents i = (store.contents i).fill writer data :=
  Function.update_self _ _ _

theorem contents_fill_of_ne (h : j ≠ i) :
    (store.fill writer i data).contents j = store.contents j :=
  Function.update_of_ne h _ _

@[simp] theorem names_sync : (store.sync f).names = store.names := by
  unfold Store.sync
  cases store.names f <;> rfl

@[simp] theorem next_sync : (store.sync f).next = store.next := by
  unfold Store.sync
  cases store.names f <;> rfl

@[simp] theorem earlier_sync : (store.sync f).earlier = store.earlier := by
  unfold Store.sync
  cases store.names f <;> rfl

theorem contents_sync_self (h : store.names f = some i) :
    (store.sync f).contents i = (store.contents i).sync := by
  rw [Store.sync, h]
  exact Function.update_self _ _ _

theorem contents_sync_of_ne (h : store.names f ≠ some j) :
    (store.sync f).contents j = store.contents j := by
  unfold Store.sync
  cases hf : store.names f with
  | none => rfl
  | some i =>
    have hji : j ≠ i := by
      rintro rfl
      exact h hf
    exact Function.update_of_ne hji _ _

@[simp] theorem contents_link : (store.link f g).contents = store.contents := rfl

@[simp] theorem next_link : (store.link f g).next = store.next := rfl

theorem names_link_self : (store.link f g).names g = store.names f := Function.update_self _ _ _

theorem names_link_of_ne {h : ν} (hh : h ≠ g) : (store.link f g).names h = store.names h :=
  Function.update_of_ne hh _ _

@[simp] theorem contents_remove : (store.remove f).contents = store.contents := rfl

@[simp] theorem next_remove : (store.remove f).next = store.next := rfl

theorem names_remove_self : (store.remove f).names f = none := Function.update_self _ _ _

theorem names_remove_of_ne (h : g ≠ f) : (store.remove f).names g = store.names g :=
  Function.update_of_ne h _ _

/-- Removing a name gives none a file. -/
theorem names_of_names_remove (h : (store.remove f).names g = some i) :
    store.names g = some i ∧ g ≠ f := by
  by_cases hgf : g = f
  · subst hgf
    rw [names_remove_self] at h
    cases h
  · rw [names_remove_of_ne hgf] at h
    exact ⟨h, hgf⟩

/-! ## The directories that a power cut may bring back -/

theorem names_cut_mem (spared : ℕ → Bool) (lost : ℕ) :
    (store.cut spared lost).names ∈ store.directories := by
  change (store.directories.drop lost).headD store.names ∈ store.directories
  cases hdrop : store.directories.drop lost with
  | nil => exact names_mem_directories
  | cons names rest => exact List.mem_of_mem_drop (hdrop ▸ List.mem_cons_self)

@[simp] theorem directories_cut (spared : ℕ → Bool) (lost : ℕ) :
    (store.cut spared lost).directories = [(store.cut spared lost).names] := rfl

@[simp] theorem contents_cut (spared : ℕ → Bool) (lost : ℕ) :
    (store.cut spared lost).contents i = (store.contents i).cut (spared i) := rfl

@[simp] theorem next_cut (spared : ℕ → Bool) (lost : ℕ) :
    (store.cut spared lost).next = store.next := rfl

theorem numbered_link (h : store.Numbered) : (store.link f g).Numbered := by
  intro names hnames name i hi
  rw [next_link]
  rcases List.mem_cons.mp hnames with rfl | hnames
  · by_cases hname : name = g
    · subst hname
      rw [names_link_self] at hi
      exact names_lt_next h hi
    · rw [names_link_of_ne hname] at hi
      exact names_lt_next h hi
  · exact h names hnames name i hi

theorem numbered_cut (h : store.Numbered) (spared : ℕ → Bool) (lost : ℕ) :
    (store.cut spared lost).Numbered := by
  intro names hnames
  rw [List.mem_singleton.mp hnames]
  exact h _ (names_cut_mem spared lost)

/-! ## What a name reads -/

theorem read_congr {store' : Store ν δ} (hnames : store'.names f = store.names f)
    (hcontents : ∀ i, store.names f = some i → store'.contents i = store.contents i) :
    store'.read f = store.read f := by
  rw [Store.read, Store.read, hnames]
  cases h : store.names f with
  | none => rfl
  | some i => exact congrArg some (hcontents i h)

/-- The new name and the name that is read have no file in common. -/
theorem read_create_of_ne (hnumbered : store.Numbered) (h : g ≠ f)
    (hapart : ∀ i, store.names f = some i → store.names g ≠ some i) :
    (store.create writer f).1.read g = store.read g := by
  refine read_congr (names_create_of_ne h) fun i hg => contents_create_of_ne ?_
  rintro rfl
  rcases @create_file _ _ _ store f writer with hf | ⟨-, hnew⟩
  · exact hapart _ hf hg
  · exact Nat.ne_of_lt (names_lt_next hnumbered hg) hnew

theorem read_fill_of_ne (h : store.names g ≠ some i) :
    (store.fill writer i data).read g = store.read g := by
  refine read_congr rfl fun j hg => contents_fill_of_ne ?_
  rintro rfl
  exact h hg

theorem read_sync_of_ne (hapart : ∀ i, store.names f = some i → store.names g ≠ some i) :
    (store.sync f).read g = store.read g :=
  read_congr (congrFun names_sync g) fun i hg => contents_sync_of_ne fun hf => hapart i hf hg

theorem read_remove_of_ne (h : g ≠ f) : (store.remove f).read g = store.read g :=
  read_congr (names_remove_of_ne h) fun _ _ => rfl

theorem read_link_of_ne {h : ν} (hh : h ≠ g) : (store.link f g).read h = store.read h :=
  read_congr (names_link_of_ne hh) fun _ _ => rfl

theorem read_link_self : (store.link f g).read g = store.read f := by
  rw [Store.read, names_link_self]
  rfl

theorem read_remove_self : (store.remove f).read f = none := by
  rw [Store.read, names_remove_self]
  rfl

theorem read_create_self : (store.create writer f).1.read f = some (.opened writer) := by
  rw [read_of_names names_create_self, contents_create_self]

theorem read_fill_self (hf : store.names f = some i) (h : store.contents i = .opened writer) :
    (store.fill writer i data).read f = some (.whole data false) := by
  have hfill : (store.fill writer i data).names f = some i := hf
  rw [read_of_names hfill, contents_fill_self, h, fill_opened]

theorem read_sync_self {synced : Bool} (h : store.read f = some (.whole data synced)) :
    (store.sync f).read f = some (.whole data true) := by
  obtain ⟨i, hf, hi⟩ := Option.map_eq_some_iff.mp h
  rw [read_of_names ((congrFun names_sync f).trans hf), contents_sync_self hf, hi, sync_whole]

/-- What has been synced under a name survives if the name does. -/
theorem read_cut_of_synced (spared : ℕ → Bool) (lost : ℕ)
    (hnames : (store.cut spared lost).names f = store.names f)
    (h : ∀ content, store.read f = some content → ∃ data, content = .whole data true) :
    (store.cut spared lost).read f = store.read f := by
  refine read_congr hnames fun i hf => ?_
  obtain ⟨data, hdata⟩ := h _ (read_of_names hf)
  rw [contents_cut, cut_whole hdata, hdata]

/-! ## Operations under one name -/

/-- What an operation under the name `f` leaves as it was. -/
structure Leaves (f : ν) (store store' : Store ν δ) : Prop where
  next_le : store.next ≤ store'.next
  names : ∀ g, g ≠ f → store'.names g = store.names g
  reads : ∀ g, g ≠ f → store'.read g = store.read g
  file : ∀ i, store'.names f = some i →
    store.names f = some i ∨ i = store.next ∧ store.next < store'.next
  earlier : ∀ names ∈ store'.earlier, names ∈ store.directories

theorem leaves_refl (f : ν) (store : Store ν δ) : Leaves f store store :=
  ⟨Nat.le_refl _, fun _ _ => rfl, fun _ _ => rfl, fun _ => .inl, fun _ => List.mem_cons_of_mem _⟩

theorem leaves_remove (f : ν) (store : Store ν δ) : Leaves f store (store.remove f) :=
  ⟨Nat.le_refl _, fun _ => names_remove_of_ne, fun _ => read_remove_of_ne,
    fun _ h => .inl (names_of_names_remove h).1, fun _ => id⟩

theorem leaves_syncDirectory (f : ν) (store : Store ν δ) : Leaves f store store.syncDirectory :=
  ⟨Nat.le_refl _, fun _ _ => rfl, fun _ _ => rfl, fun _ => .inl,
    fun _ h => absurd h List.not_mem_nil⟩

theorem leaves_fill (hapart : ∀ g, g ≠ f → store.names g ≠ some i) :
    Leaves f store (store.fill writer i data) :=
  ⟨Nat.le_refl _, fun _ _ => rfl, fun g hg => read_fill_of_ne (hapart g hg), fun _ => .inl,
    fun _ => List.mem_cons_of_mem _⟩

theorem leaves_sync (hapart : ∀ g, g ≠ f → ∀ i, store.names f = some i → store.names g ≠ some i) :
    Leaves f store (store.sync f) where
  next_le := Nat.le_of_eq next_sync.symm
  names := fun g _ => congrFun names_sync g
  reads := fun g hg => read_sync_of_ne (hapart g hg)
  file := fun i h => .inl ((congrFun names_sync f).symm.trans h)
  earlier := by
    rw [earlier_sync]
    exact fun _ => List.mem_cons_of_mem _

theorem leaves_create (hnumbered : store.Numbered)
    (hapart : ∀ g, g ≠ f → ∀ i, store.names f = some i → store.names g ≠ some i) :
    Leaves f store (store.create writer f).1 where
  next_le := next_le_create
  names := fun g => names_create_of_ne
  reads := fun g hg => read_create_of_ne hnumbered hg (hapart g hg)
  file := by
    intro i h
    rw [names_create_self, Option.some.injEq] at h
    subst h
    rcases @create_file _ _ _ store f writer with hfile | ⟨-, hfile⟩
    · exact .inl hfile
    · exact .inr ⟨hfile, Nat.lt_of_le_of_lt (Nat.le_of_eq hfile.symm) (create_file_lt hnumbered)⟩
  earlier := by
    unfold Store.create
    cases store.names f with
    | some i => exact fun _ => List.mem_cons_of_mem _
    | none => exact fun _ => id

theorem Leaves.numbered {store' : Store ν δ} (h : Leaves f store store')
    (hnumbered : store.Numbered) : store'.Numbered := by
  intro names hnames g i hg
  rcases List.mem_cons.mp hnames with rfl | hnames
  · by_cases hgf : g = f
    · subst hgf
      rcases h.file i hg with hold | ⟨rfl, hlt⟩
      · exact Nat.lt_of_lt_of_le (names_lt_next hnumbered hold) h.next_le
      · exact hlt
    · rw [h.names g hgf] at hg
      exact Nat.lt_of_lt_of_le (names_lt_next hnumbered hg) h.next_le
  · exact Nat.lt_of_lt_of_le (hnumbered names (h.earlier names hnames) g i hg) h.next_le

end Laws
end HardLinks
