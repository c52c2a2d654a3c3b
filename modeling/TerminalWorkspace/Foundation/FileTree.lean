import Mathlib.Data.List.Infix

/-! File trees with symbolic links, and where a path leads in one. -/
namespace FileTree
variable {α : Type*}

/-- The names from the root to an entry, with no links on the way. -/
abbrev Location (α : Type*) := List α

inductive Component (α : Type*) where
  | parentDir
  | normal (name : α)
  deriving DecidableEq

/-- A link leads to a path from the root or from its own directory. -/
inductive Entry (α : Type*) where
  | file
  | directory
  | link (absolute : Bool) (target : List (Component α))
  deriving DecidableEq

def Entry.IsLink : Entry α → Prop
  | file | directory => False
  | link _ _ => True

structure Tree (α : Type*) where
  entry : Location α → Option (Entry α)
  maxLinks : ℕ
  root : entry [] = some .directory
  parent : ∀ place name, (entry (place ++ [name])).isSome → entry place = some .directory

/-- A component that is still to be walked: one of the path itself, or of a link on it. -/
structure Step (α : Type*) where
  component : Component α
  ofPath : Bool
  deriving DecidableEq

def pathSteps (path : List (Component α)) : List (Step α) := path.map fun c => ⟨c, true⟩

def linkSteps (target : List (Component α)) : List (Step α) := target.map fun c => ⟨c, false⟩

/-- A path of plain names. -/
def names (place : Location α) : List (Component α) := place.map .normal

namespace Tree
variable (tree : Tree α)

/-- The walk up to the first link. With `creates`, what a path lacks is made on the way, and what
the target of a link lacks only where the walk ends. -/
def walkWith (creates : Bool) (follow : Location α → List (Step α) → Option (Location α)) :
    Location α → List (Step α) → Option (Location α)
  | place, [] => some place
  | place, ⟨.parentDir, _⟩ :: rest => walkWith creates follow place.dropLast rest
  | place, ⟨.normal name, ofPath⟩ :: rest =>
    match tree.entry (place ++ [name]) with
    | none =>
      if creates && (ofPath || rest.isEmpty) then walkWith creates follow (place ++ [name]) rest
      else none
    | some .directory => walkWith creates follow (place ++ [name]) rest
    | some .file => if rest.isEmpty then some (place ++ [name]) else none
    | some (.link absolute target) =>
      follow (if absolute then [] else place) (linkSteps target ++ rest)

attribute [grind =] walkWith

/-- At most so many links are followed. -/
def walk (creates : Bool) : ℕ → Location α → List (Step α) → Option (Location α)
  | 0 => tree.walkWith creates fun _ _ => none
  | links + 1 => tree.walkWith creates (walk creates links)

/-- Where a path leads, when what it lacks is made. -/
def reach (path : List (Component α)) : Option (Location α) :=
  tree.walk true tree.maxLinks [] (pathSteps path)

/-- The place of a path that exists. -/
def canonicalize (path : List (Component α)) : Option (Location α) :=
  tree.walk false tree.maxLinks [] (pathSteps path)

/-- The place lies in what the path leads to. -/
def Inside (path : List (Component α)) (place : Location α) : Prop :=
  ∃ top, tree.reach path = some top ∧ top <+: place

instance [DecidableEq α] (path : List (Component α)) (place : Location α) :
    Decidable (tree.Inside path place) :=
  match h : tree.reach path with
  | none => isFalse fun ⟨_, htop, _⟩ => by cases h.symm.trans htop
  | some top => decidable_of_iff (top <+: place)
    ⟨fun hprefix => ⟨top, h, hprefix⟩,
      fun ⟨_, htop, hprefix⟩ => Option.some_inj.mp (h.symm.trans htop) ▸ hprefix⟩

/-- No part of the path is a link. -/
def NoLinks (place : Location α) : Prop :=
  ∀ part, part <+: place → ∀ entry ∈ tree.entry part, ¬ entry.IsLink

end Tree

section Walks
variable {tree : Tree α} {creates : Bool}

theorem walkWith_mono {follow follow' : Location α → List (Step α) → Option (Location α)}
    (hfollow : ∀ place steps result, follow place steps = some result →
      follow' place steps = some result)
    {place : Location α} {steps : List (Step α)} {result : Location α}
    (h : tree.walkWith false follow place steps = some result) :
    tree.walkWith true follow' place steps = some result := by
  induction steps generalizing place with
  | nil => exact h
  | cons step rest ih =>
    obtain ⟨component, ofPath⟩ := step
    cases component with
    | parentDir => exact ih h
    | normal name =>
      simp only [Tree.walkWith] at h ⊢
      cases hentry : tree.entry (place ++ [name]) with
      | none => simp [hentry] at h
      | some entry =>
        rw [hentry] at h
        cases entry with
        | file => exact h
        | directory => exact ih h
        | link absolute target => exact hfollow _ _ _ h

/-- A path that exists leads where it is. -/
theorem walk_mono (links : ℕ) : ∀ (place : Location α) (steps : List (Step α)) result,
    tree.walk false links place steps = some result →
      tree.walk true links place steps = some result := by
  induction links with
  | zero => exact fun place steps result h => walkWith_mono (fun _ _ _ hnone => by cases hnone) h
  | succ links ih => exact fun place steps result h => walkWith_mono ih h

theorem reach_of_canonicalize {path : List (Component α)} {place : Location α}
    (h : tree.canonicalize path = some place) : tree.reach path = some place :=
  walk_mono tree.maxLinks [] _ place h

/-- What is above a directory is a directory. -/
theorem entry_dropLast {place : Location α} (h : tree.entry place = some .directory) :
    tree.entry place.dropLast = some .directory := by
  cases place using List.reverseRecOn with
  | nil => exact tree.root
  | append_singleton place name =>
    rw [List.dropLast_concat]
    exact tree.parent place name (h ▸ rfl)

/-- A place that is there and is no link. -/
def Real (tree : Tree α) (place : Location α) : Prop :=
  tree.entry place = some .directory ∨ tree.entry place = some .file

theorem real_walkWith {follow : Location α → List (Step α) → Option (Location α)}
    (hfollow : ∀ place steps result, tree.entry place = some .directory →
      follow place steps = some result → Real tree result)
    {place : Location α} {steps : List (Step α)} {result : Location α}
    (hplace : tree.entry place = some .directory)
    (h : tree.walkWith false follow place steps = some result) : Real tree result := by
  induction steps generalizing place with
  | nil =>
    cases h
    exact .inl hplace
  | cons step rest ih =>
    obtain ⟨component, ofPath⟩ := step
    cases component with
    | parentDir => exact ih (entry_dropLast hplace) h
    | normal name =>
      simp only [Tree.walkWith] at h
      cases hentry : tree.entry (place ++ [name]) with
      | none => simp [hentry] at h
      | some entry =>
        rw [hentry] at h
        cases entry with
        | directory => exact ih hentry h
        | file =>
          simp only at h
          split at h
          · obtain rfl := Option.some_inj.mp h
            exact .inr hentry
          · cases h
        | link absolute target =>
          refine hfollow _ _ _ ?_ h
          cases absolute with
          | false => exact hplace
          | true => exact tree.root

theorem real_walk (links : ℕ) : ∀ (place : Location α) (steps : List (Step α)) result,
    tree.entry place = some .directory → tree.walk false links place steps = some result →
      Real tree result := by
  induction links with
  | zero =>
    exact fun place steps result hplace h =>
      real_walkWith (fun _ _ _ _ hnone => by cases hnone) hplace h
  | succ links ih => exact fun place steps result hplace h => real_walkWith ih hplace h

/-- A path that exists has no links left in its place. -/
theorem real_canonicalize {path : List (Component α)} {place : Location α}
    (h : tree.canonicalize path = some place) : Real tree place :=
  real_walk tree.maxLinks [] _ place tree.root h

/-- What is above a real place is a directory. -/
theorem Real.directory {place rest : Location α} (h : Real tree (place ++ rest))
    (hrest : rest ≠ []) : tree.entry place = some .directory := by
  induction rest using List.reverseRecOn with
  | nil => exact absurd rfl hrest
  | append_singleton rest name ih =>
    have hsome : (tree.entry (place ++ rest ++ [name])).isSome := by
      rw [List.append_assoc]
      cases h with
      | inl h => exact h ▸ rfl
      | inr h => exact h ▸ rfl
    have hparent := tree.parent _ name hsome
    by_cases hempty : rest = []
    · rwa [hempty, List.append_nil] at hparent
    · exact ih (.inl hparent) hempty

end Walks

section Names
variable {tree : Tree α} {place rest result : Location α}
  {follow : Location α → List (Step α) → Option (Location α)}

/-- No name is a link, and none but the last is a file. -/
def Plain (tree : Tree α) (place rest : Location α) : Prop :=
  ∀ part, part <+: rest → part ≠ [] → tree.entry (place ++ part) = none ∨
    tree.entry (place ++ part) = some .directory ∨
      part = rest ∧ tree.entry (place ++ part) = some .file

theorem Plain.of_prefix (h : Plain tree place rest) {part : Location α} (hpart : part <+: rest) :
    Plain tree place part := by
  intro piece hpiece hne
  obtain hnone | hdirectory | ⟨heq, hfile⟩ := h piece (hpiece.trans hpart) hne
  · exact .inl hnone
  · exact .inr (.inl hdirectory)
  · have hlength := hpiece.length_le
    rw [heq] at hpiece
    exact .inr (.inr ⟨heq.trans (hpiece.eq_of_length_le hpart.length_le), hfile⟩)

theorem Plain.tail {name : α} (h : Plain tree place (name :: rest)) :
    Plain tree (place ++ [name]) rest := by
  intro part hpart hne
  have hname := h (name :: part) (List.cons_prefix_cons.mpr ⟨rfl, hpart⟩) (List.cons_ne_nil _ _)
  rw [List.append_assoc, List.singleton_append]
  simpa using hname

/-- A plain path leads to the place that it names. -/
theorem Plain.walkWith (h : Plain tree place rest) :
    tree.walkWith true follow place (pathSteps (names rest)) = some (place ++ rest) := by
  induction rest generalizing place with
  | nil => simp [names, pathSteps, Tree.walkWith]
  | cons name rest ih =>
    have hrest := ih h.tail
    rw [List.append_assoc, List.singleton_append] at hrest
    obtain hnone | hdirectory | ⟨hlast, hfile⟩ :=
      h [name] (List.cons_prefix_cons.mpr ⟨rfl, List.nil_prefix⟩) (List.cons_ne_nil _ _)
    · simpa [names, pathSteps, Tree.walkWith, hnone] using hrest
    · simpa [names, pathSteps, Tree.walkWith, hdirectory] using hrest
    · obtain rfl := (List.cons.inj hlast).2
      simp [names, pathSteps, Tree.walkWith, hfile]

/-- A plain rest behind a name that is missing or a directory. -/
theorem Plain.cons {name : α} (h : Plain tree (place ++ [name]) rest)
    (hname : tree.entry (place ++ [name]) = none ∨
      tree.entry (place ++ [name]) = some .directory) : Plain tree place (name :: rest) := by
  intro part hpart hne
  cases part with
  | nil => exact absurd rfl hne
  | cons first part =>
    obtain ⟨rfl, htail⟩ := List.cons_prefix_cons.mp hpart
    by_cases hempty : part = []
    · subst hempty
      exact hname.imp_right .inl
    · have hrest := h part htail hempty
      rw [List.append_assoc, List.singleton_append] at hrest
      exact hrest.imp_right (.imp_right (.imp_left (congrArg (first :: ·))))

/-- Without links, a walk that ends was plain. -/
theorem plain_of_walkWith
    (hlinks : ∀ part, part <+: rest → ∀ entry ∈ tree.entry (place ++ part), ¬ entry.IsLink)
    (h : tree.walkWith true follow place (pathSteps (names rest)) = some result) :
    Plain tree place rest := by
  induction rest generalizing place with
  | nil => exact fun part hpart hne => absurd (List.prefix_nil.mp hpart) hne
  | cons name rest ih =>
    have hlinks' : ∀ part, part <+: rest →
        ∀ entry ∈ tree.entry (place ++ [name] ++ part), ¬ entry.IsLink := by
      intro part hpart entry hentry
      rw [List.append_assoc, List.singleton_append] at hentry
      exact hlinks (name :: part) (List.cons_prefix_cons.mpr ⟨rfl, hpart⟩) entry hentry
    simp only [names, pathSteps, List.map_cons, Tree.walkWith] at h
    cases hentry : tree.entry (place ++ [name]) with
    | none =>
      rw [hentry] at h
      exact (ih hlinks' h).cons (.inl hentry)
    | some entry =>
      rw [hentry] at h
      cases entry with
      | directory => exact (ih hlinks' h).cons (.inr hentry)
      | file =>
        have hrest : rest = [] := by
          by_contra hne
          simp [hne] at h
        subst hrest
        intro part hpart hne
        obtain hempty | ⟨tail, rfl, htail⟩ := List.prefix_cons_iff.mp hpart
        · exact absurd hempty hne
        · obtain rfl := List.prefix_nil.mp htail
          exact .inr (.inr ⟨rfl, hentry⟩)
      | link absolute target =>
        have hlink := hlinks' [] List.nil_prefix _ (by rw [List.append_nil]; exact hentry)
        exact absurd trivial hlink

/-- A place that is there has no links above it. -/
theorem Real.plain (h : Real tree place) : Plain tree [] place := by
  rintro part ⟨rest, rfl⟩ -
  by_cases hrest : rest = []
  · subst hrest
    rw [List.append_nil] at h ⊢
    exact .inr (h.imp_right fun hfile => ⟨rfl, hfile⟩)
  · exact .inr (.inl (h.directory hrest))

theorem Plain.reach (h : Plain tree [] place) : tree.reach (names place) = some place := by
  unfold Tree.reach
  cases tree.maxLinks with
  | zero => exact h.walkWith
  | succ links => exact h.walkWith

theorem plain_of_reach (hlinks : tree.NoLinks place)
    (h : tree.reach (names place) = some result) : Plain tree [] place := by
  unfold Tree.reach at h
  cases hmax : tree.maxLinks with
  | zero =>
    rw [hmax] at h
    exact plain_of_walkWith hlinks h
  | succ links =>
    rw [hmax] at h
    exact plain_of_walkWith hlinks h

/-- A plain place lies in every part of it. -/
theorem Plain.inside (h : Plain tree [] place) {part : Location α} (hpart : part <+: place)
    {inner : Location α} (hinner : place <+: inner) : tree.Inside (names part) inner :=
  ⟨part, (h.of_prefix hpart).reach, hpart.trans hinner⟩

end Names

section Listed
variable [DecidableEq α]

def listed (entries : List (Location α × Entry α)) (place : Location α) : Option (Entry α) :=
  if place = [] then some .directory
  else (entries.find? fun entry => entry.1 = place).map Prod.snd

/-- A tree of listed entries, each with its directory. -/
def Tree.ofEntries (entries : List (Location α × Entry α)) (maxLinks : ℕ)
    (h : ∀ entry ∈ entries, listed entries entry.1.dropLast = some .directory) : Tree α where
  entry := listed entries
  maxLinks := maxLinks
  root := if_pos rfl
  parent place name hsome := by
    rw [listed, if_neg (by simp), Option.isSome_map] at hsome
    obtain ⟨entry, hentry⟩ := Option.isSome_iff_exists.mp hsome
    have hplace : entry.1 = place ++ [name] := by simpa using List.find?_some hentry
    have hparent := h entry (List.mem_of_find?_eq_some hentry)
    rwa [hplace, List.dropLast_concat] at hparent

end Listed
end FileTree
