import TerminalWorkspace.Foundation.MovedItems
import TerminalWorkspace.Foundation.Runs
import TerminalWorkspace.Sessions.Workspace
import TerminalWorkspace.VaultStores.Hosts

/-! The store of runbooks: their steps, the step to run next, and the actions on them. -/
namespace Runbooks
open JsText Inventory RecordFile MovedItems
open Sessions (SessionWorkspaceState SessionPane)
open VaultStores (editWhere)

structure RunbookRecord where
  id : JsString
  name : JsString
  description : Option JsString
  steps : List JsString
  nextStepIndex : ℤ
  createdAt : JsString
  updatedAt : JsString
  lastRunAt : Option JsString
  deriving DecidableEq, Repr

structure RunbookFormValues where
  name : JsString
  description : Option JsString
  steps : JsString

def splitStepLines (steps : JsString) : List JsString :=
  ((steps.splitOn (.scalar '\n')).map (trim isSpace)).filter (· ≠ [])

def createRunbookRecord (values : RunbookFormValues) (currentRunbook : Option RunbookRecord)
    (fresh now : JsString) : RunbookRecord :=
  let steps := splitStepLines values.steps
  { id := (currentRunbook.map (·.id)).getD fresh
    name := trim isSpace values.name
    description := values.description.map (trim isSpace)
    steps := steps
    nextStepIndex := max 0 (min ((currentRunbook.map (·.nextStepIndex)).getD 0) steps.length)
    createdAt := (currentRunbook.map (·.createdAt)).getD now
    updatedAt := now
    lastRunAt := currentRunbook.bind (·.lastRunAt) }

section Indices

/-- A number that an action is called with. -/
inductive StepIndex where
  | nan
  | infinite (negative : Bool)
  | finite (q : ℚ)
  deriving DecidableEq

namespace StepIndex

/-- `===` -/
def same : StepIndex → StepIndex → Bool
  | nan, _ => false
  | index, other => index = other

def below : StepIndex → ℤ → Bool
  | nan, _ => false
  | infinite negative, _ => negative
  | finite q, bound => q < bound

def atLeast : StepIndex → ℤ → Bool
  | nan, _ => false
  | infinite negative, _ => !negative
  | finite q, bound => bound ≤ q

/-- The place that `splice` reads an index as, in an array of this length. -/
def place (length : ℕ) : StepIndex → ℕ
  | nan => 0
  | infinite negative => if negative then 0 else length
  | finite q => if q < 0 then length - (-q).floor.toNat else min q.floor.toNat length

end StepIndex

/-- The places a move is between, if the store makes it. -/
def movePlaces (length : ℕ) (fromIndex toIndex : StepIndex) : Option (ℕ × ℕ) :=
  if fromIndex.same toIndex || fromIndex.below 0 || toIndex.below 0 || fromIndex.atLeast length ||
      toIndex.atLeast length then none
  else some (fromIndex.place length, toIndex.place (length - 1))

end Indices

section Dispatch

/-- The pane the person is looking at. -/
def activePane (sessions : SessionWorkspaceState) : Option SessionPane :=
  (sessions.tabs.find? fun tab => some tab.id = sessions.activeTabId).bind fun activeTab =>
    sessions.panes.get? activeTab.activePaneId

/-- The sessions with the command queued into the active pane, if there is one. -/
def dispatchCommandToActivePane (sessions : SessionWorkspaceState) (command : JsString)
    (label : Option JsString) (fresh now : JsString) : Option SessionWorkspaceState :=
  (activePane sessions).map fun pane =>
    Sessions.queuePaneCommand sessions pane.id command label fresh now

end Dispatch

section Actions
variable (p : Platform) (runbooks : List RunbookRecord)

def sortRunbooks : List RunbookRecord :=
  sortBy (fun left right => p.localeCompare right.updatedAt left.updatedAt) runbooks

/-- The runbook with an id is rewritten. -/
def editRunbook (runbookId : JsString) (edit : RunbookRecord → RunbookRecord) :
    List RunbookRecord :=
  sortRunbooks p (editWhere (fun runbook => runbook.id = runbookId) edit runbooks)

def createRunbook (values : RunbookFormValues) (fresh now : JsString) :
    List RunbookRecord × JsString :=
  let runbook := createRunbookRecord values none fresh now
  (sortRunbooks p (runbooks ++ [runbook]), runbook.id)

def updateRunbook (runbookId : JsString) (values : RunbookFormValues) (now : JsString) :
    List RunbookRecord × JsString :=
  (editRunbook p runbooks runbookId fun runbook =>
    createRunbookRecord values (some runbook) runbook.id now, runbookId)

def moveStep (fromIndex toIndex : StepIndex) (now : JsString) (runbook : RunbookRecord) :
    RunbookRecord :=
  match movePlaces runbook.steps.length fromIndex toIndex with
  | none => runbook
  | some (source, target) =>
    match runbook.steps[source]? with
    | none => runbook
    | some _ =>
      { runbook with steps := moveItem runbook.steps source target, updatedAt := now }

def reorderRunbookSteps (runbookId : JsString) (fromIndex toIndex : StepIndex) (now : JsString) :
    List RunbookRecord :=
  editRunbook p runbooks runbookId (moveStep fromIndex toIndex now)

def deleteRunbook (runbookId : JsString) : List RunbookRecord :=
  sortRunbooks p (runbooks.filter fun runbook => runbook.id ≠ runbookId)

def stepAt (steps : List JsString) (index : ℤ) : Option JsString :=
  if index < 0 then none else steps[index.toNat]?

/-- The runbook with an id and the step it would run next. -/
def dueStep (runbookId : JsString) : Option (RunbookRecord × JsString) :=
  match runbooks.find? fun entry => entry.id = runbookId with
  | none => none
  | some runbook =>
    if runbook.steps = [] ∨ runbook.steps.length ≤ runbook.nextStepIndex then none
    else (stepAt runbook.steps runbook.nextStepIndex).map fun step => (runbook, step)

def advance (now : JsString) (entry : RunbookRecord) : RunbookRecord :=
  { entry with
    nextStepIndex := min (entry.nextStepIndex + 1) entry.steps.length
    lastRunAt := some now
    updatedAt := now }

/-- `none` where the store answers that nothing was run. -/
def runNextStep (runbookId : JsString) (sessions : SessionWorkspaceState) (fresh now : JsString) :
    Option (List RunbookRecord × SessionWorkspaceState) :=
  match dueStep runbooks runbookId with
  | none => none
  | some (runbook, step) =>
    (dispatchCommandToActivePane sessions step (some runbook.name) fresh now).map fun queued =>
      (editRunbook p runbooks runbookId (advance now), queued)

def resetRunbook (runbookId now : JsString) : List RunbookRecord :=
  editRunbook p runbooks runbookId fun runbook =>
    { runbook with nextStepIndex := 0, updatedAt := now }

def createRunbookFromCommand (snippets : List SnippetRecord) (snippetId fresh now : JsString) :
    List RunbookRecord × Option JsString :=
  match snippets.find? fun entry => entry.id = snippetId with
  | none => (runbooks, none)
  | some snippet =>
    let values := ⟨snippet.title, some snippet.description, snippet.command⟩
    let runbook := { createRunbookRecord values none fresh now with steps := [snippet.command] }
    (sortRunbooks p (runbooks ++ [runbook]), some runbook.id)

end Actions

section Steps

inductive RunbookAction where
  | createRunbook (values : RunbookFormValues) (fresh : JsString)
  | updateRunbook (runbookId : JsString) (values : RunbookFormValues)
  | reorderRunbookSteps (runbookId : JsString) (fromIndex toIndex : StepIndex)
  | deleteRunbook (runbookId : JsString)
  | runNextStep (runbookId : JsString) (sessions : SessionWorkspaceState) (fresh : JsString)
  | resetRunbook (runbookId : JsString)
  | createRunbookFromCommand (snippets : List SnippetRecord) (snippetId fresh : JsString)

/-- A step that went to a pane, for the runbook it is of. -/
structure Dispatched where
  runbookId : JsString
  step : JsString
  deriving DecidableEq

/-- The runbooks, and the steps that went to a pane so far. -/
structure RunbooksState where
  runbooks : List RunbookRecord
  dispatched : List Dispatched
  deriving DecidableEq

def emptyRunbooks : RunbooksState := ⟨[], []⟩

def perform (p : Platform) (s : RunbooksState) (now : JsString) : RunbookAction → RunbooksState
  | .createRunbook values fresh =>
    { s with runbooks := (createRunbook p s.runbooks values fresh now).1 }
  | .updateRunbook runbookId values =>
    { s with runbooks := (updateRunbook p s.runbooks runbookId values now).1 }
  | .reorderRunbookSteps runbookId fromIndex toIndex =>
    { s with runbooks := reorderRunbookSteps p s.runbooks runbookId fromIndex toIndex now }
  | .deleteRunbook runbookId => { s with runbooks := deleteRunbook p s.runbooks runbookId }
  | .runNextStep runbookId sessions fresh =>
    match runNextStep p s.runbooks runbookId sessions fresh now with
    | none => s
    | some (runbooks, _) =>
      { runbooks := runbooks
        dispatched := s.dispatched ++
          (dueStep s.runbooks runbookId).toList.map fun due => ⟨runbookId, due.2⟩ }
  | .resetRunbook runbookId => { s with runbooks := resetRunbook p s.runbooks runbookId now }
  | .createRunbookFromCommand snippets snippetId fresh =>
    { s with
      runbooks := (createRunbookFromCommand p s.runbooks snippets snippetId fresh now).1 }

/-- An action at a time. -/
def runbookStep (p : Platform) (s : RunbooksState) (entry : JsString × RunbookAction) :
    RunbooksState :=
  perform p s entry.1 entry.2

end Steps
end Runbooks
