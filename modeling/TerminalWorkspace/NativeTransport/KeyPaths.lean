import TerminalWorkspace.Foundation.FileTree
import TerminalWorkspace.NativeTransport.OpensshConfig

/-! The check of a private-key path against the directories of the user, and where the commands
of the path end up. -/
namespace NativeTransport
open FileTree

/-- An absolute path, as `Path::components` gives it. -/
abbrev KeyPath := List (Component (List UInt8))

abbrev KeyTree := FileTree.Tree (List UInt8)

/-- A path as it is requested, which may not be absolute. -/
inductive RequestedPath where
  | empty
  | relative
  | absolute (path : KeyPath)
  deriving DecidableEq

inductive KeyCommandFailure where
  | pathRequired
  | pathMustBeAbsolute (path : List Char)
  | pathOutsideAllowedRoots (path : List Char)
  deriving DecidableEq, Repr

def lexicallyNormalizeAbsolute (path : KeyPath) : Location (List UInt8) :=
  path.foldl (fun out component => match component with
    | .parentDir => out.dropLast
    | .normal name => out ++ [name]) []

section Check
variable (tree : KeyTree)

/-- The root as it is written and the place that it names. -/
def pushWithCanonical (allowedRoots : List KeyPath) (path : KeyPath) : List KeyPath :=
  let literal := if path ∈ allowedRoots then allowedRoots else allowedRoots ++ [path]
  match tree.canonicalize path with
  | some place => if names place ∈ literal then literal else literal ++ [names place]
  | none => literal

def allowedRoots (home tmpdir : Option KeyPath) : List KeyPath :=
  let roots := home.elim [] (pushWithCanonical tree [])
  let roots := tmpdir.elim roots (pushWithCanonical tree roots)
  pushWithCanonical tree roots
    (names [Utf8.encode "etc".toList, Utf8.encode "ssh".toList])

def validateUserOwnedKeyPathAgainstRoots (path : KeyPath) (requestedPath : List Char)
    (allowedRoots : List KeyPath) : Except KeyCommandFailure Unit :=
  let normalized := lexicallyNormalizeAbsolute path
  let canonical := (tree.canonicalize (names normalized)).getD normalized
  if allowedRoots.any fun root => root.isPrefixOf (names canonical) then .ok ()
  else .error (.pathOutsideAllowedRoots requestedPath)

def validateUserOwnedKeyPath (home tmpdir : Option KeyPath) (path : RequestedPath)
    (requestedPath : List Char) : Except KeyCommandFailure Unit :=
  match path with
  | .empty => .error .pathRequired
  | .relative => .error (.pathMustBeAbsolute requestedPath)
  | .absolute path => validateUserOwnedKeyPathAgainstRoots tree path requestedPath
      (allowedRoots tree home tmpdir)

/-- Whatever the roots are, the file of an accepted path, read or created, lies in one of them.
The commands go by the path itself: they make the directories that it lacks, and follow its
links. -/
def CheckSound (path : KeyPath) : Prop :=
  ∀ requestedPath allowedRoots,
    validateUserOwnedKeyPathAgainstRoots tree path requestedPath allowedRoots = .ok () →
      ∀ place, tree.reach path = some place → ∃ root ∈ allowedRoots, tree.Inside root place

/-- The path leads below what the check has looked at: the place of the path without its `..`, or,
where there is none, every directory that this path names. -/
def StaysInside (path : KeyPath) : Prop :=
  ∀ place, tree.reach path = some place →
    match tree.canonicalize (names (lexicallyNormalizeAbsolute path)) with
    | some found => found <+: place
    | none => ∀ directory, directory <+: lexicallyNormalizeAbsolute path →
        tree.Inside (names directory) place

end Check

section Soundness
variable {tree : KeyTree} {path : KeyPath}

theorem validate_eq_ok {requestedPath : List Char} {allowedRoots : List KeyPath} :
    validateUserOwnedKeyPathAgainstRoots tree path requestedPath allowedRoots = .ok () ↔
      ∃ root ∈ allowedRoots, root <+: names
        ((tree.canonicalize (names (lexicallyNormalizeAbsolute path))).getD
          (lexicallyNormalizeAbsolute path)) := by
  unfold validateUserOwnedKeyPathAgainstRoots
  simp only [List.any_eq_true, List.isPrefixOf_iff_prefix]
  split
  · rename_i h
    exact iff_of_true rfl h
  · rename_i h
    exact iff_of_false nofun h

/-- What begins the names of a place are the names of what is above it. -/
theorem prefix_names {root : KeyPath} {place : Location (List UInt8)} (h : root <+: names place) :
    ∃ part, part <+: place ∧ root = names part := by
  obtain ⟨part, hpart, rfl⟩ := List.prefix_map_iff.mp h
  exact ⟨part, hpart, rfl⟩

theorem names_prefix {part place : Location (List UInt8)} (h : part <+: place) :
    names part <+: names place :=
  h.map _

theorem checkSound_iff : CheckSound tree path ↔ StaysInside tree path := by
  constructor
  · intro hsound place hplace
    cases hfound : tree.canonicalize (names (lexicallyNormalizeAbsolute path)) with
    | some found =>
      have hok : validateUserOwnedKeyPathAgainstRoots tree path [] [names found] = .ok () := by
        rw [validate_eq_ok, hfound]
        exact ⟨_, List.mem_singleton_self _, List.prefix_refl _⟩
      obtain ⟨root, hroot, top, htop, hprefix⟩ := hsound [] _ hok place hplace
      obtain rfl := List.mem_singleton.mp hroot
      rw [(real_canonicalize hfound).plain.reach] at htop
      obtain rfl := Option.some_inj.mp htop
      exact hprefix
    | none =>
      intro directory hdirectory
      have hok : validateUserOwnedKeyPathAgainstRoots tree path [] [names directory] =
          .ok () := by
        rw [validate_eq_ok, hfound]
        exact ⟨_, List.mem_singleton_self _, names_prefix hdirectory⟩
      obtain ⟨root, hroot, hinside⟩ := hsound [] _ hok place hplace
      obtain rfl := List.mem_singleton.mp hroot
      exact hinside
  · intro hstays requestedPath allowedRoots hok place hplace
    obtain ⟨root, hroot, hprefix⟩ := validate_eq_ok.mp hok
    have hplaces := hstays place hplace
    cases hfound : tree.canonicalize (names (lexicallyNormalizeAbsolute path)) with
    | some found =>
      rw [hfound] at hprefix hplaces
      obtain ⟨part, hpart, rfl⟩ := prefix_names hprefix
      exact ⟨_, hroot, (real_canonicalize hfound).plain.inside hpart hplaces⟩
    | none =>
      rw [hfound] at hprefix hplaces
      obtain ⟨part, hpart, rfl⟩ := prefix_names hprefix
      exact ⟨_, hroot, hplaces part hpart⟩

theorem names_of_parentDir_not_mem (h : Component.parentDir ∉ path) :
    path = names (lexicallyNormalizeAbsolute path) := by
  have hfold : ∀ (path : KeyPath) (out : Location (List UInt8)), Component.parentDir ∉ path →
      names (path.foldl (fun out component => match component with
        | .parentDir => out.dropLast
        | .normal name => out ++ [name]) out) = names out ++ path := by
    intro path
    induction path with
    | nil => simp
    | cons component path ih =>
      intro out h
      obtain ⟨hne, hnot⟩ := List.ne_and_not_mem_of_not_mem_cons h
      cases component with
      | parentDir => exact absurd rfl hne
      | normal name => simpa [names] using ih (out ++ [name]) hnot
  exact (hfold path [] h).symm

/-- A path without `..` stays inside when it is there, or when no part of it is a link. -/
theorem staysInside_of_plain (hparent : Component.parentDir ∉ path)
    (h : (tree.canonicalize path).isSome ∨ tree.NoLinks (lexicallyNormalizeAbsolute path)) :
    StaysInside tree path := by
  have hnames := names_of_parentDir_not_mem hparent
  intro place hplace
  cases hfound : tree.canonicalize (names (lexicallyNormalizeAbsolute path)) with
  | some found =>
    have hreach := reach_of_canonicalize hfound
    rw [← hnames, hplace] at hreach
    obtain rfl := Option.some_inj.mp hreach
    exact List.prefix_refl _
  | none =>
    intro directory hdirectory
    rw [← hnames] at hfound
    have hlinks := h.resolve_left (by simp [hfound])
    rw [hnames] at hplace
    have hplain := plain_of_reach hlinks hplace
    rw [hplain.reach] at hplace
    obtain rfl := Option.some_inj.mp hplace
    exact hplain.inside hdirectory (List.prefix_refl _)

/-- The check is sound for a path, whatever the roots are, just when the path stays inside; and
a path without `..` that is there, or that has no links, does. -/
theorem keyPath_checkSound_iff (tree : KeyTree) (path : KeyPath) :
    (CheckSound tree path ↔ StaysInside tree path) ∧
    (Component.parentDir ∉ path →
      (tree.canonicalize path).isSome ∨ tree.NoLinks (lexicallyNormalizeAbsolute path) →
        CheckSound tree path) :=
  ⟨checkSound_iff, fun hparent h => checkSound_iff.mpr (staysInside_of_plain hparent h)⟩

end Soundness

def pathNames (segments : List String) : Location (List UInt8) :=
  segments.map fun segment => Utf8.encode segment.toList

/-- A home directory with a link to the certificates of the system. -/
def linkedHome : KeyTree :=
  .ofEntries [(pathNames ["home"], .directory), (pathNames ["home", "u"], .directory),
    (pathNames ["home", "u", "certs"], .link true (names (pathNames ["etc", "ssl"]))),
    (pathNames ["etc"], .directory), (pathNames ["etc", "passwd"], .file),
    (pathNames ["etc", "ssl"], .directory)] 40 (by decide +kernel)

/-- A new key goes through the link, and `..` behind the link leads to a file of the system. -/
theorem accepted_outside_roots :
    let home := names (pathNames ["home", "u"])
    let created := names (pathNames ["home", "u", "certs", "id_new"])
    let read := names (pathNames ["home", "u", "certs"]) ++
      .parentDir :: names (pathNames ["passwd"])
    (validateUserOwnedKeyPath linkedHome home none (.absolute created) [] = .ok () ∧
      linkedHome.reach created = some (pathNames ["etc", "ssl", "id_new"]) ∧
      ∀ root ∈ allowedRoots linkedHome home none,
        ¬ linkedHome.Inside root (pathNames ["etc", "ssl", "id_new"])) ∧
    (validateUserOwnedKeyPath linkedHome home none (.absolute read) [] = .ok () ∧
      linkedHome.reach read = some (pathNames ["etc", "passwd"]) ∧
      linkedHome.entry (pathNames ["etc", "passwd"]) = some .file ∧
      ∀ root ∈ allowedRoots linkedHome home none,
        ¬ linkedHome.Inside root (pathNames ["etc", "passwd"])) := by
  decide +kernel

end NativeTransport
