import Mathlib.Data.List.DropRight
import TerminalWorkspace.Foundation.RecordFile

/-! Paths below one root, over any alphabet with a separator and a dot. A path is read as
the stack of names it leads to; a parent at the root stays there. -/
namespace RootedPaths

variable {α : Type*} [DecidableEq α] (slash dot : α)

def enter (stack : List (List α)) (name : List α) : List (List α) :=
  if name = [] ∨ name = [dot] then stack
  else if name = [dot, dot] then stack.dropLast
  else stack ++ [name]

def names (path : List α) : List (List α) := (path.splitOn slash).foldl (enter dot) []

def render (stack : List (List α)) : List α :=
  if stack = [] then [slash] else slash :: List.intercalate [slash] stack

def normalize (path : List α) : List α := render slash (names slash dot path)

/-- A name that is pushed as it stands. -/
structure IsName (name : List α) : Prop where
  no_slash : slash ∉ name
  ne_nil : name ≠ []
  ne_dot : name ≠ [dot]
  ne_dots : name ≠ [dot, dot]

/-- The root, or names that each stand behind one separator. -/
structure Canonical (path : List α) : Prop where
  rooted : path.head? = some slash
  isName : path ≠ [slash] → ∀ name ∈ path.tail.splitOn slash, IsName slash dot name
  no_trailing : path ≠ [slash] → path.getLast? ≠ some slash

variable {slash dot}

/-! ## Names -/

theorem enter_of_isName {name : List α} (h : IsName slash dot name) (stack : List (List α)) :
    enter dot stack name = stack ++ [name] := by
  rw [enter, if_neg (not_or.mpr ⟨h.ne_nil, h.ne_dot⟩), if_neg h.ne_dots]

theorem foldl_enter_of_isName {path : List (List α)} (h : ∀ name ∈ path, IsName slash dot name)
    (stack : List (List α)) : path.foldl (enter dot) stack = stack ++ path := by
  induction path generalizing stack with
  | nil => simp
  | cons name path ih =>
    rw [List.foldl_cons, enter_of_isName (h name List.mem_cons_self),
      ih fun other hother => h other (List.mem_cons_of_mem _ hother), List.append_assoc]
    rfl

/-- What a piece between separators leaves of a stack of names is one again. -/
theorem isName_of_mem_enter {stack : List (List α)} {piece name : List α}
    (hstack : ∀ name ∈ stack, IsName slash dot name) (hpiece : slash ∉ piece)
    (h : name ∈ enter dot stack piece) : IsName slash dot name := by
  unfold enter at h
  split_ifs at h with hskip hparent
  · exact hstack name h
  · exact hstack name ((List.dropLast_sublist stack).subset h)
  · rcases List.mem_append.mp h with h | h
    · exact hstack name h
    · obtain rfl := List.mem_singleton.mp h
      exact ⟨hpiece, fun h => hskip (.inl h), fun h => hskip (.inr h), hparent⟩

theorem isName_of_mem_foldl {pieces stack : List (List α)} {name : List α}
    (hstack : ∀ name ∈ stack, IsName slash dot name) (hpieces : ∀ piece ∈ pieces, slash ∉ piece)
    (h : name ∈ pieces.foldl (enter dot) stack) : IsName slash dot name := by
  induction pieces generalizing stack with
  | nil => exact hstack name h
  | cons piece pieces ih =>
    refine ih (fun other hother => ?_) (fun other hother => ?_) h
    · exact isName_of_mem_enter hstack (hpieces piece List.mem_cons_self) hother
    · exact hpieces other (List.mem_cons_of_mem _ hother)

theorem not_mem_of_mem_splitOn {path piece : List α} (h : piece ∈ path.splitOn slash) :
    slash ∉ piece := by
  intro hmem
  have hpiece := (RecordFile.mem_splitOnP _ h).2 slash hmem
  simp at hpiece

theorem isName_of_mem_names {path name : List α} (h : name ∈ names slash dot path) :
    IsName slash dot name :=
  isName_of_mem_foldl (by simp) (fun _ => not_mem_of_mem_splitOn) h

theorem names_append (path rest : List α) :
    names slash dot (path ++ slash :: rest) =
      (rest.splitOn slash).foldl (enter dot) (names slash dot path) := by
  rw [names, List.splitOn_append_cons_self, List.foldl_append]
  rfl

theorem names_cons (rest : List α) : names slash dot (slash :: rest) = names slash dot rest :=
  names_append [] rest

/-- Separators at the end of a path change nothing. -/
theorem names_rdropWhile (path : List α) :
    names slash dot (path.rdropWhile (· == slash)) = names slash dot path := by
  induction path using List.reverseRecOn with
  | nil => rfl
  | append_singleton path c ih =>
    by_cases hc : c = slash
    · rw [List.rdropWhile_concat_pos _ _ _ (by simp [hc]), ih, hc, names_append]
      rfl
    · rw [List.rdropWhile_concat_neg _ _ _ (by simp [hc])]

/-! ## The path of a stack of names -/

theorem splitOn_tail_render {stack : List (List α)} (h : ∀ name ∈ stack, IsName slash dot name)
    (hne : stack ≠ []) : (render slash stack).tail.splitOn slash = stack := by
  rw [render, if_neg hne, List.tail_cons]
  exact List.splitOn_intercalate slash (fun name hname => (h name hname).no_slash) hne

/-- A stack of names is read back from its path. -/
theorem names_render {stack : List (List α)} (h : ∀ name ∈ stack, IsName slash dot name) :
    names slash dot (render slash stack) = stack := by
  by_cases hne : stack = []
  · rw [hne, render, if_pos rfl, names_cons]
    rfl
  · have htail : render slash stack = slash :: (render slash stack).tail := by
      rw [render, if_neg hne, List.tail_cons]
    rw [htail, names_cons, names, splitOn_tail_render h hne, foldl_enter_of_isName h,
      List.nil_append]

theorem getLast?_intercalate {stack : List (List α)} {name : List α} (hne : name ≠ []) :
    (List.intercalate [slash] (stack ++ [name])).getLast? = name.getLast? := by
  induction stack with
  | nil => simp
  | cons first stack ih =>
    obtain ⟨second, rest, hrest⟩ := List.exists_cons_of_ne_nil
      (List.append_ne_nil_of_right_ne_nil stack (List.cons_ne_nil name []))
    have hlast : List.intercalate [slash] (stack ++ [name]) ≠ [] := by
      intro hnil
      rw [hnil, List.getLast?_nil, eq_comm, List.getLast?_eq_none_iff] at ih
      exact hne ih
    rw [List.cons_append, hrest, List.intercalate_cons_cons, ← hrest,
      List.getLast?_append_of_ne_nil _ hlast, ih]

theorem canonical_render {stack : List (List α)} (h : ∀ name ∈ stack, IsName slash dot name) :
    Canonical slash dot (render slash stack) where
  rooted := by
    unfold render
    split_ifs <;> rfl
  isName hroot name hname := by
    have hne : stack ≠ [] := by
      rintro rfl
      exact hroot rfl
    rw [splitOn_tail_render h hne] at hname
    exact h name hname
  no_trailing hroot := by
    have hne : stack ≠ [] := by
      rintro rfl
      exact hroot rfl
    obtain ⟨front, name, rfl⟩ := List.eq_nil_or_concat' stack |>.resolve_left hne
    have hname := h name (by simp)
    have hlast : name.getLast? = some (name.getLast hname.ne_nil) :=
      List.getLast?_eq_getLast_of_ne_nil hname.ne_nil
    rw [render, if_neg hne, List.getLast?_cons, getLast?_intercalate hname.ne_nil, hlast,
      Option.getD_some, ne_eq, Option.some_inj]
    intro hslash
    exact hname.no_slash (hslash ▸ List.getLast_mem hname.ne_nil)

/-! ## Canonical paths -/

theorem canonical_normalize (path : List α) :
    Canonical slash dot (normalize slash dot path) :=
  canonical_render fun _ => isName_of_mem_names

theorem names_normalize (path : List α) :
    names slash dot (normalize slash dot path) = names slash dot path :=
  names_render fun _ => isName_of_mem_names

theorem normalize_normalize (path : List α) :
    normalize slash dot (normalize slash dot path) = normalize slash dot path := by
  rw [normalize, names_normalize, normalize]

/-- The canonical paths are the fixed points. -/
theorem normalize_eq_self_iff {path : List α} :
    normalize slash dot path = path ↔ Canonical slash dot path := by
  constructor
  · intro h
    exact h ▸ canonical_normalize path
  · intro h
    obtain ⟨rest, rfl⟩ := List.head?_eq_some_iff.mp h.rooted
    by_cases hroot : rest = []
    · rw [hroot, normalize, names_cons]
      rfl
    · have hname := h.isName fun heq => hroot (List.cons.inj heq).2
      rw [List.tail_cons] at hname
      rw [normalize, names_cons, names, foldl_enter_of_isName hname, List.nil_append, render,
        if_neg (List.splitOn_ne_nil _ _), List.intercalate_splitOn]

theorem normalize_concat (path : List α) :
    normalize slash dot (path ++ [slash]) = normalize slash dot path := by
  rw [normalize, names_append]
  rfl

/-- Only the names of what stands in front count. -/
theorem normalize_append (path rest : List α) :
    normalize slash dot (normalize slash dot path ++ slash :: rest) =
      normalize slash dot (path ++ slash :: rest) := by
  rw [normalize, names_append, names_normalize, ← names_append, normalize]

theorem normalize_rdropWhile_append (path rest : List α) :
    normalize slash dot (path.rdropWhile (· == slash) ++ slash :: rest) =
      normalize slash dot (path ++ slash :: rest) := by
  rw [normalize, names_append, names_rdropWhile, ← names_append, normalize]

/-! ## Resolution against a root -/

section Resolve
variable (slash dot) (blank : List α → Prop) [DecidablePred blank]

/-- A blank path is the root, a rooted one stands alone and any other goes below the root. -/
def resolve (root path : List α) : List α :=
  if blank path then normalize slash dot root
  else if path.head? = some slash then normalize slash dot path
  else normalize slash dot (root ++ slash :: path)

/-- What a normaliser and the resolution against a root owe each other. -/
structure Resolves (normalize : List α → List α) (resolve : List α → List α → List α) :
    Prop where
  canonical : ∀ path, Canonical slash dot (normalize path)
  fixed : ∀ path, normalize (normalize path) = normalize path
  relative : ∀ root path, ¬ blank path → path.head? ≠ some slash →
    resolve root path = normalize (root ++ slash :: path)
  two_steps : ∀ root first second, first.head? ≠ some slash → second.head? ≠ some slash →
    ¬ blank first → ¬ blank second ∨ second = [] →
      resolve (resolve root first) second = resolve root (first ++ slash :: second)
  blank_first : ∀ root first second, blank first →
    resolve (resolve root first) second = resolve root second
  blank_second : ∀ root first second, blank second →
    resolve (resolve root first) second = resolve root first

variable {slash dot blank}

theorem resolve_blank {root path : List α} (h : blank path) :
    resolve slash dot blank root path = normalize slash dot root := if_pos h

theorem resolve_relative {root path : List α} (hblank : ¬ blank path)
    (hhead : path.head? ≠ some slash) :
    resolve slash dot blank root path = normalize slash dot (root ++ slash :: path) := by
  rw [resolve, if_neg hblank, if_neg hhead]

/-- A root counts by what it normalises to. -/
theorem resolve_normalize (root path : List α) :
    resolve slash dot blank (normalize slash dot root) path = resolve slash dot blank root path := by
  unfold resolve
  rw [normalize_normalize, normalize_append]

theorem normalize_resolve (root path : List α) :
    normalize slash dot (resolve slash dot blank root path) =
      resolve slash dot blank root path := by
  unfold resolve
  split_ifs <;> exact normalize_normalize _

section Steps
variable (hnil : blank []) (hfront : ∀ path rest, blank (path ++ rest) → blank path)
include hnil hfront

theorem resolve_two_steps {root first second : List α} (hhead : first.head? ≠ some slash)
    (hhead' : second.head? ≠ some slash) (hfirst : ¬ blank first)
    (hsecond : ¬ blank second ∨ second = []) :
    resolve slash dot blank (resolve slash dot blank root first) second =
      resolve slash dot blank root (first ++ slash :: second) := by
  have hne : first ≠ [] := by
    rintro rfl
    exact hfirst hnil
  have hboth : resolve slash dot blank root (first ++ slash :: second) =
      normalize slash dot ((root ++ slash :: first) ++ slash :: second) := by
    rw [resolve_relative fun h => hfirst (hfront _ _ h), List.append_assoc, List.cons_append]
    rwa [List.head?_append_of_ne_nil _ hne]
  rw [resolve_relative hfirst hhead, resolve_normalize, hboth]
  rcases hsecond with hsecond | rfl
  · rw [resolve_relative hsecond hhead']
  · rw [resolve_blank hnil, normalize_concat]

theorem resolves_resolve :
    Resolves slash dot blank (normalize slash dot) (resolve slash dot blank) where
  canonical := canonical_normalize
  fixed := normalize_normalize
  relative root path hblank hhead := resolve_relative hblank hhead
  two_steps root first second hhead hhead' hfirst hsecond :=
    resolve_two_steps hnil hfront hhead hhead' hfirst hsecond
  blank_first root first second hfirst := by rw [resolve_blank hfirst, resolve_normalize]
  blank_second root first second hsecond := by rw [resolve_blank hsecond, normalize_resolve]

end Steps

end Resolve

end RootedPaths
