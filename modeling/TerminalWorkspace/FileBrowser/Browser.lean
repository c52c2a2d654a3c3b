import TerminalWorkspace.Foundation.JsText
import TerminalWorkspace.Foundation.Runs

/-! The remote file browser of one host. The current path lives in the transfers store and
the entries in the component; loads overlap under a guard that lets only the newest one
commit. A change of the path and the effects it triggers are one step, since an update of
the store is rendered and its effects are flushed before anything else runs. -/
namespace FileBrowser
open JsText

/-- `createLatestRequestGuard`. -/
structure LatestRequestGuard where
  sequence : ℕ
  pending : Bool
  deriving DecidableEq, Repr

def createLatestRequestGuard : LatestRequestGuard := ⟨0, false⟩

namespace LatestRequestGuard
variable (guard : LatestRequestGuard)

/-- The guard after the claim, and the token that is claimed. -/
def begin : LatestRequestGuard × ℕ := (⟨guard.sequence + 1, true⟩, guard.sequence + 1)

def isCurrent (token : ℕ) : Bool := token == guard.sequence

def cancel : LatestRequestGuard := ⟨guard.sequence + 1, false⟩

end LatestRequestGuard

inductive RemoteEntryKind where
  | directory
  | file
  deriving DecidableEq, Repr

structure RemoteFileEntry where
  path : JsString
  kind : RemoteEntryKind
  deriving DecidableEq, Repr

/-- What `listRemoteDirectory` resolves to. -/
structure DirectoryListing where
  path : JsString
  entries : List RemoteFileEntry
  deriving DecidableEq, Repr

/-- What a suspended `loadDirectory` waits for. -/
inductive LoadPhase where
  | secrets
  | listing
  deriving DecidableEq, Repr

structure DirectoryLoad where
  token : ℕ
  targetPath : JsString
  interactive : Bool
  phase : LoadPhase
  deriving DecidableEq, Repr

inductive FileOperation where
  | submitDraftAction
  | handleUpload
  | handleDownload
  | handleDelete (deleteTarget : RemoteFileEntry)
  deriving DecidableEq, Repr

/-- A suspended operation, with what its handler has closed over. -/
structure PendingOperation where
  operation : FileOperation
  currentPath : JsString
  selectedEntry : Option RemoteFileEntry
  deriving DecidableEq, Repr

/-- `effectPath` is the path the load effect last ran for, `answers` every listing that the
backend has returned. -/
structure Browser where
  remotePath : Option JsString
  effectPath : Option JsString
  entries : List RemoteFileEntry
  loading : Bool
  browserLocked : Bool
  errorMessage : Option JsString
  selectedEntry : Option RemoteFileEntry
  browseInteraction : Bool
  loadGuard : LatestRequestGuard
  loads : List DirectoryLoad
  operations : List PendingOperation
  answers : List DirectoryListing
  deriving DecidableEq, Repr

inductive BrowserEvent where
  | navigateToPath (targetPath : JsString) (interactive : Bool)
  | selectEntry (entry : RemoteFileEntry)
  | openEntry (entry : RemoteFileEntry)
  | refresh
  /-- Another host record or other known hosts: `loadDirectory` is a new callback. -/
  | connectionChanged
  | cancelLoad
  | secretsSettled (token : ℕ) (ready : Except JsString Bool)
  | listingSettled (token : ℕ) (result : Except JsString DirectoryListing)
  | startOperation (operation : FileOperation)
  /-- `ok false` is an operation whose secrets are not there. -/
  | finishOperation (pending : PendingOperation) (outcome : Except JsString Bool)
  deriving Repr

section Host
variable (sftpRoot : Option JsString) (s : Browser)

def currentPath : JsString := s.remotePath.getD (sftpRoot.getD (js "/"))

def rememberRemotePath (path : JsString) : Browser := { s with remotePath := some path }

/-- `loadDirectory` up to its first `await`. -/
def loadDirectory (targetPath : JsString) (interactive : Bool) : Browser :=
  let (guard, token) := s.loadGuard.begin
  let load : DirectoryLoad := ⟨token, targetPath, interactive, .secrets⟩
  { s with loadGuard := guard, loading := true, errorMessage := none, loads := load :: s.loads }

/-- The `catch` block with `finally`. -/
def failLoad (token : ℕ) (message : JsString) : Browser :=
  if s.loadGuard.isCurrent token then
    { s with errorMessage := some message, entries := [], loading := false }
  else s

/-- An empty path counts as none. -/
def rememberDefaultPath : Browser :=
  match sftpRoot with
  | some (c :: root) =>
    if s.remotePath.getD [] = [] then rememberRemotePath s (c :: root) else s
  | _ => s

/-- The effects of one commit, both of which see the path that was rendered. -/
def runEffects : Browser :=
  let path := currentPath sftpRoot s
  let s' := rememberDefaultPath sftpRoot s
  if s'.effectPath = some path then s'
  else
    loadDirectory { s' with effectPath := some path, browseInteraction := false } path
      s'.browseInteraction

/-- The first effect can change the path once more. -/
def commit : Browser := runEffects sftpRoot (runEffects sftpRoot s)

def navigateToPath (targetPath : JsString) (interactive : Bool) : Browser :=
  commit sftpRoot (rememberRemotePath { s with browseInteraction := interactive } targetPath)

/-- `cancelLoad`: the guard is moved on, the entries stay. -/
def cancelLoad : Browser :=
  { s with
    loadGuard := s.loadGuard.cancel
    loading := false
    errorMessage := some (js "Directory load cancelled.") }

/-- `loadDirectory` from `ensureRuntimeSecrets` to the next `await`. -/
def resumeSecrets (load : DirectoryLoad) : Except JsString Bool → Browser
  | .error message => failLoad s load.token message
  | .ok ready =>
    if s.loadGuard.isCurrent load.token then
      if ready then
        { s with browserLocked := false, loads := { load with phase := .listing } :: s.loads }
      else
        { s with browserLocked := true, entries := [], selectedEntry := none, loading := false }
    else s

/-- `loadDirectory` from the answer of `listRemoteDirectory` to its end. -/
def resumeListing (load : DirectoryLoad) : Except JsString DirectoryListing → Browser
  | .error message => failLoad s load.token message
  | .ok result =>
    let s := { s with answers := result :: s.answers }
    if s.loadGuard.isCurrent load.token then
      let selected := s.selectedEntry.bind fun current =>
        result.entries.find? fun entry => entry.path == current.path
      let s := rememberRemotePath s result.path
      commit sftpRoot { s with
        entries := result.entries
        selectedEntry := selected
        loading := false }
    else s

def findLoad (token : ℕ) (phase : LoadPhase) : Option DirectoryLoad :=
  s.loads.find? fun load => load.token == token && load.phase == phase

/-- The end of an operation; all but a download reload the directory they started in. -/
def finishOperation (pending : PendingOperation) : Except JsString Bool → Browser
  | .error message => { s with errorMessage := some message }
  | .ok false => s
  | .ok true =>
    match pending.operation with
    | .handleDownload => s
    | .submitDraftAction | .handleUpload => loadDirectory s pending.currentPath false
    | .handleDelete deleteTarget =>
      let deselects := pending.selectedEntry.any fun entry => entry.path == deleteTarget.path
      let selected := if deselects then none else s.selectedEntry
      loadDirectory { s with selectedEntry := selected } pending.currentPath false

def step : BrowserEvent → Browser
  | .navigateToPath targetPath interactive => navigateToPath sftpRoot s targetPath interactive
  | .selectEntry entry => { s with selectedEntry := some entry }
  | .openEntry entry =>
    let s := { s with selectedEntry := some entry }
    if entry.kind = .directory then navigateToPath sftpRoot s entry.path true else s
  | .refresh => loadDirectory s (currentPath sftpRoot s) true
  | .connectionChanged =>
    loadDirectory { s with browseInteraction := false } (currentPath sftpRoot s)
      s.browseInteraction
  -- the button is there only while a load is
  | .cancelLoad => if s.loading then cancelLoad s else s
  | .secretsSettled token ready =>
    match findLoad s token .secrets with
    | none => s
    | some load => resumeSecrets { s with loads := s.loads.erase load } load ready
  | .listingSettled token result =>
    match findLoad s token .listing with
    | none => s
    | some load => resumeListing sftpRoot { s with loads := s.loads.erase load } load result
  | .startOperation operation =>
    let pending : PendingOperation := ⟨operation, currentPath sftpRoot s, s.selectedEntry⟩
    { s with operations := pending :: s.operations }
  | .finishOperation pending outcome =>
    if pending ∈ s.operations then
      finishOperation { s with operations := s.operations.erase pending } pending outcome
    else s

/-- The browser once it is mounted over the path that the store holds. -/
def mount (remotePath : Option JsString) : Browser :=
  commit sftpRoot
    { remotePath, effectPath := none, entries := [], loading := false, browserLocked := false,
      errorMessage := none, selectedEntry := none, browseInteraction := false,
      loadGuard := createLatestRequestGuard, loads := [], operations := [], answers := [] }

end Host
end FileBrowser
