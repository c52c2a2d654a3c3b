import TerminalWorkspace.PaneSession.World
import Mathlib.Data.Rat.Defs
import Mathlib.Algebra.Order.Field.Rat

/-! The tabs and panes of the sessions store, and the functions that rewrite them. -/
namespace Sessions
open JsText Inventory RecordFile
open PaneSession (SessionConnectionState SessionTransport SessionId)

/-- What `crypto.randomUUID` returns, call by call. -/
structure UuidSource where
  uuid : ℕ → JsString
  injective : Function.Injective uuid

inductive SplitDirection where
  | vertical
  | horizontal
  deriving DecidableEq, Repr

structure QueuedPaneCommand where
  id : JsString
  command : JsString
  label : Option JsString
  createdAt : JsString
  deriving DecidableEq, Repr

structure SessionPane where
  id : JsString
  hostId : JsString
  title : JsString
  connectionState : SessionConnectionState
  connectionError : Option JsString
  transport : SessionTransport
  backendSessionId : Option SessionId
  queuedCommands : List QueuedPaneCommand
  reconnectOnRestore : Bool
  persistOutputPreview : Option Bool
  createdAt : JsString
  updatedAt : JsString
  deriving DecidableEq, Repr

structure SessionTab where
  id : JsString
  title : JsString
  hostId : JsString
  paneIds : List JsString
  activePaneId : JsString
  splitDirection : SplitDirection
  splitRatio : Option ℚ
  createdAt : JsString
  updatedAt : JsString
  deriving DecidableEq

structure SessionWorkspaceState where
  tabs : List SessionTab
  panes : OrderedMap JsString SessionPane
  activeTabId : Option JsString
  lastRestoredAt : Option JsString
  deriving DecidableEq

section Creation

def createSessionPane (host : HostRecord) (title : Option JsString) (fresh now : JsString) :
    SessionPane where
  id := fresh
  hostId := host.id
  title := title.getD host.label
  connectionState := .connecting
  connectionError := none
  transport :=
    match host.protocol with
    | .localShell => .localShell
    | .ssh => if host.authMethod = .none then .mock else .ssh
    | .telnet => .telnet
    | .serial => .serial
    | .mosh => .mosh
  backendSessionId := none
  queuedCommands := []
  reconnectOnRestore := false
  persistOutputPreview := some true
  createdAt := now
  updatedAt := now

def createSessionTab (host : HostRecord) (pane : SessionPane) (title : Option JsString)
    (fresh now : JsString) : SessionTab where
  id := fresh
  title := title.getD pane.title
  hostId := host.id
  paneIds := [pane.id]
  activePaneId := pane.id
  splitDirection := .vertical
  splitRatio := none
  createdAt := now
  updatedAt := now

/-- `Number.MAX_SAFE_INTEGER`. -/
def maxSafeInteger : ℕ := 2 ^ 53 - 1

def digitValue : CodePoint → Option ℕ
  | .scalar c => if c.isDigit then some (c.toNat - '0'.toNat) else none
  | .surrogate _ => none

/-- The value of a text of digits, and `none` where anything else or nothing stands. -/
def parseDigits (text : JsString) : Option ℕ :=
  if text = [] then none
  else text.foldlM (fun value c => (digitValue c).map (10 * value + ·)) 0

def getDuplicateTitleIndex (title baseTitle : JsString) : Option ℕ :=
  if title = baseTitle then some 1
  else
    let suffixPrefix := baseTitle ++ js " ("
    if ¬ suffixPrefix <+: title ∨ ¬ js ")" <:+ title then none
    else
      (parseDigits (title.drop suffixPrefix.length).dropLast).filter fun index =>
        index ≤ maxSafeInteger ∧ 0 < index

def buildDuplicateSessionTitle (tabs : List SessionTab) (baseTitle : JsString) : JsString :=
  match tabs.filterMap fun tab => getDuplicateTitleIndex tab.title baseTitle with
  | [] => baseTitle
  | index :: titleIndexes =>
    baseTitle ++ js " (" ++ ofText (Nat.toDigits 10 (titleIndexes.foldl max index + 1)) ++ js ")"

end Creation

section Panes
variable (state : SessionWorkspaceState)

/-- Write a pane that is there, at the time of the clock. -/
def updatePane (paneId now : JsString) (update : SessionPane → SessionPane) :
    SessionWorkspaceState :=
  match state.panes.get? paneId with
  | none => state
  | some pane =>
    { state with panes := state.panes.set paneId { update pane with updatedAt := now } }

def updatePaneConnectionState (paneId : JsString) (connectionState : SessionConnectionState)
    (connectionError : Option JsString) (now : JsString) : SessionWorkspaceState :=
  updatePane state paneId now fun pane =>
    { pane with
      connectionState := connectionState
      connectionError :=
        if connectionState = .error then connectionError.or pane.connectionError else none
      reconnectOnRestore := connectionState = .connected || pane.reconnectOnRestore }

def updatePaneReconnectPreference (paneId : JsString) (reconnectOnRestore : Bool)
    (now : JsString) : SessionWorkspaceState :=
  updatePane state paneId now fun pane => { pane with reconnectOnRestore := reconnectOnRestore }

def updatePaneTransport (paneId : JsString) (transport : SessionTransport) (now : JsString) :
    SessionWorkspaceState :=
  updatePane state paneId now fun pane => { pane with transport := transport }

def updatePaneBackendSession (paneId : JsString) (backendSessionId : Option SessionId)
    (now : JsString) : SessionWorkspaceState :=
  updatePane state paneId now fun pane => { pane with backendSessionId := backendSessionId }

def queuePaneCommand (paneId command : JsString) (label : Option JsString)
    (fresh now : JsString) : SessionWorkspaceState :=
  updatePane state paneId now fun pane =>
    { pane with queuedCommands := pane.queuedCommands ++ [⟨fresh, command, label, now⟩] }

def consumePaneCommand (paneId commandId now : JsString) : SessionWorkspaceState :=
  updatePane state paneId now fun pane =>
    { pane with queuedCommands := pane.queuedCommands.filter fun command => command.id ≠ commandId }

def togglePaneConnection (paneId now : JsString) : SessionWorkspaceState :=
  match state.panes.get? paneId with
  | none => state
  | some current =>
    updatePaneConnectionState state paneId
      (if current.connectionState = .connected then .disconnected else .connecting) none now

end Panes

section Tabs
variable (state : SessionWorkspaceState)

/-- Rewrite the tabs with an id. -/
def mapTab (tabId : JsString) (update : SessionTab → SessionTab) : SessionWorkspaceState :=
  { state with tabs := state.tabs.map fun tab => if tab.id = tabId then update tab else tab }

def findTab (tabId : JsString) : Option SessionTab := state.tabs.find? fun tab => tab.id = tabId

/-- A new tab with one pane, selected. -/
def appendTab (pane : SessionPane) (tab : SessionTab) (now : JsString) : SessionWorkspaceState where
  tabs := state.tabs ++ [tab]
  panes := state.panes.set pane.id pane
  activeTabId := some tab.id
  lastRestoredAt := some now

def openSessionWorkspace (host : HostRecord) (freshPane freshTab now : JsString) :
    SessionWorkspaceState :=
  match state.tabs.find? fun tab => tab.hostId = host.id with
  | some existingTab =>
    { mapTab state existingTab.id fun tab => { tab with updatedAt := now } with
      activeTabId := some existingTab.id }
  | none =>
    let pane := createSessionPane host none freshPane now
    appendTab state pane (createSessionTab host pane none freshTab now) now

def duplicateSessionWorkspace (host : HostRecord) (baseTitle : Option JsString)
    (freshPane freshTab now : JsString) : SessionWorkspaceState :=
  let title := buildDuplicateSessionTitle state.tabs (baseTitle.getD host.label)
  let pane := createSessionPane host (some title) freshPane now
  appendTab state pane (createSessionTab host pane (some title) freshTab now) now

def closeSessionTab (tabId : JsString) : SessionWorkspaceState :=
  match findTab state tabId with
  | none => state
  | some tab =>
    let nextTabs := state.tabs.filter fun entry => entry.id ≠ tabId
    { state with
      tabs := nextTabs
      panes := state.panes.eraseAll tab.paneIds
      activeTabId :=
        if state.activeTabId = some tabId then nextTabs.getLast?.map (·.id)
        else state.activeTabId }

def splitSessionPane (tabId : JsString) (host : HostRecord) (fresh now : JsString) :
    SessionWorkspaceState :=
  match findTab state tabId with
  | none => state
  | some tab =>
    let pane := createSessionPane host none fresh now
    { mapTab state tabId fun _ =>
        { tab with paneIds := tab.paneIds ++ [pane.id], activePaneId := pane.id, updatedAt := now }
      with
      panes := state.panes.set pane.id pane
      activeTabId := some tabId }

/-- An id that is missing reads as empty. -/
def removeSessionPane (tabId paneId now : JsString) : SessionWorkspaceState :=
  match findTab state tabId with
  | none => state
  | some tab =>
    if tab.paneIds.length ≤ 1 then closeSessionTab state tabId
    else
      let nextPaneIds := tab.paneIds.filter fun entry => entry ≠ paneId
      { mapTab state tabId fun _ =>
          { tab with
            paneIds := nextPaneIds
            activePaneId :=
              if tab.activePaneId = paneId then nextPaneIds.headD [] else tab.activePaneId
            updatedAt := now }
        with panes := state.panes.erase paneId }

/-- The body of the loop over the tabs in `closePanesForHost`. -/
def closePanesInTab (paneIds : List JsString) (tab : SessionTab) : SessionWorkspaceState :=
  let overlap := tab.paneIds.filter (· ∈ paneIds)
  if overlap.length = 0 then state
  else if overlap.length = tab.paneIds.length then closeSessionTab state tab.id
  else
    let newPaneIds := tab.paneIds.filter (· ∉ paneIds)
    mapTab state tab.id fun t =>
      { t with
        paneIds := newPaneIds
        activePaneId := if t.activePaneId ∈ newPaneIds then t.activePaneId else newPaneIds.headD [] }

/-- The panes that `closePanesForHost` closes. -/
def panesOfHost (hostId : JsString) : List JsString :=
  (state.panes.values.filter fun pane => pane.hostId = hostId).map (·.id)

def closePanesForHost (hostId : JsString) : SessionWorkspaceState :=
  let paneIds := panesOfHost state hostId
  if paneIds = [] then state
  else
    let nextState := state.tabs.foldl (fun nextState tab => closePanesInTab nextState paneIds tab)
      state
    { nextState with panes := nextState.panes.eraseAll paneIds }

def setActiveSessionTab (tabId : JsString) : SessionWorkspaceState :=
  if state.tabs.any fun tab => tab.id = tabId then { state with activeTabId := some tabId }
  else state

inductive CycleDirection where
  | forward
  | backward
  deriving DecidableEq, Repr

/-- The argument `1 | -1`. -/
def CycleDirection.offset : CycleDirection → ℤ
  | .forward => 1
  | .backward => -1

def cycleSessionTab (direction : CycleDirection) : SessionWorkspaceState :=
  if state.tabs.length ≤ 1 then state
  else
    let startIndex := (state.tabs.findIdx? fun tab => some tab.id = state.activeTabId).getD 0
    let nextIndex :=
      ((startIndex + direction.offset + state.tabs.length) % state.tabs.length).toNat
    { state with activeTabId := (state.tabs[nextIndex]?.map (·.id)).or state.activeTabId }

def setActiveSessionPane (tabId paneId now : JsString) : SessionWorkspaceState :=
  mapTab state tabId fun tab =>
    if paneId ∈ tab.paneIds then { tab with activePaneId := paneId, updatedAt := now } else tab

def setTabSplitDirection (tabId : JsString) (splitDirection : SplitDirection) (now : JsString) :
    SessionWorkspaceState :=
  mapTab state tabId fun tab => { tab with splitDirection := splitDirection, updatedAt := now }

/-- The double nearest to 0.1. -/
def MIN_SPLIT_RATIO : ℚ := 3602879701896397 / 2 ^ 55

/-- The double nearest to 0.9. -/
def MAX_SPLIT_RATIO : ℚ := 8106479329266893 / 2 ^ 53

/-- A ratio that is not finite is `none`. -/
def setTabSplitRatio (tabId : JsString) (ratio : Option ℚ) (now : JsString) :
    SessionWorkspaceState :=
  match ratio with
  | none => state
  | some ratio =>
    let clamped := min MAX_SPLIT_RATIO (max MIN_SPLIT_RATIO ratio)
    mapTab state tabId fun tab => { tab with splitRatio := some clamped, updatedAt := now }

def reorderSessionTabs (fromIndex toIndex : ℤ) : SessionWorkspaceState :=
  if fromIndex = toIndex ∨ fromIndex < 0 ∨ toIndex < 0 ∨ state.tabs.length ≤ fromIndex ∨
      state.tabs.length ≤ toIndex then state
  else
    match state.tabs[fromIndex.toNat]? with
    | none => state
    | some moved =>
      { state with tabs := (state.tabs.eraseIdx fromIndex.toNat).insertIdx toIndex.toNat moved }

end Tabs
end Sessions
