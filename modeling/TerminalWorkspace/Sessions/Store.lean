import TerminalWorkspace.Foundation.Runs
import TerminalWorkspace.Sessions.Workspace

/-! The command history of the sessions store, what is persisted of the store, and its actions,
each as one step. -/
namespace Sessions
open JsText Inventory RecordFile Runs
open PaneSession (SessionConnectionState SessionTransport SessionId)

structure SessionCommandHistoryEntry where
  id : JsString
  paneId : JsString
  hostId : JsString
  transport : SessionTransport
  command : JsString
  persistOutputPreview : Option Bool
  outputPreview : Option JsString
  outputUpdatedAt : Option JsString
  createdAt : JsString
  deriving DecidableEq, Repr

structure SessionsState extends SessionWorkspaceState where
  commandHistory : List SessionCommandHistoryEntry
  deriving DecidableEq

section History

def SESSION_HISTORY_LIMIT : ℕ := 200

def SESSION_HISTORY_OUTPUT_LIMIT : ℕ := 600

def limitCommandHistory (commandHistory : List SessionCommandHistoryEntry) :
    List SessionCommandHistoryEntry :=
  commandHistory.take SESSION_HISTORY_LIMIT

/-- A pane written before the preference existed has its previews kept. -/
def normalizePersistedPane (pane : SessionPane) : SessionPane :=
  { pane with persistOutputPreview := some (pane.persistOutputPreview.getD true) }

def resolvePersistOutputPreview (entry : SessionCommandHistoryEntry)
    (panes : OrderedMap JsString SessionPane) : Bool :=
  match panes.get? entry.paneId with
  | some pane => pane.persistOutputPreview.getD true
  | none => entry.persistOutputPreview.getD false

def sanitizePersistedPane (pane : SessionPane) : SessionPane :=
  { normalizePersistedPane pane with
    backendSessionId := none
    connectionState := .disconnected
    queuedCommands := []
    reconnectOnRestore := pane.connectionState = .connected || pane.reconnectOnRestore }

def sanitizePersistedWorkspace (workspace : SessionWorkspaceState) : SessionWorkspaceState :=
  { workspace with panes := workspace.panes.mapValues sanitizePersistedPane }

def sanitizePersistedEntry (panes : OrderedMap JsString SessionPane)
    (entry : SessionCommandHistoryEntry) : SessionCommandHistoryEntry :=
  if resolvePersistOutputPreview entry panes then { entry with persistOutputPreview := some true }
  else
    { entry with
      persistOutputPreview := some false
      outputPreview := none
      outputUpdatedAt := none }

def sanitizePersistedCommandHistory (commandHistory : List SessionCommandHistoryEntry)
    (panes : OrderedMap JsString SessionPane) : List SessionCommandHistoryEntry :=
  (limitCommandHistory commandHistory).map (sanitizePersistedEntry panes)

def inCodes (low high : ℕ) : CodePoint → Bool
  | .scalar c => low ≤ c.toNat && c.toNat ≤ high
  | .surrogate _ => false

/-- The digits, the semicolon and the question mark. -/
def isCsiParameter (c : CodePoint) : Bool :=
  inCodes 0x30 0x39 c || c = .scalar ';' || c = .scalar '?'

/-- The characters from the space to the slash. -/
def isCsiIntermediate : CodePoint → Bool := inCodes 0x20 0x2F

/-- The characters from the at sign to the tilde. -/
def isCsiFinal : CodePoint → Bool := inCodes 0x40 0x7E

/-- What follows the escape sequence whose first two characters stand before the text. -/
def afterCsi (text : JsString) : Option JsString :=
  match (text.dropWhile isCsiParameter).dropWhile isCsiIntermediate with
  | [] => none
  | c :: rest => if isCsiFinal c then some rest else none

theorem length_afterCsi {text rest : JsString} (h : afterCsi text = some rest) :
    rest.length < text.length := by
  have hparameters := (List.dropWhile_sublist (l := text) isCsiParameter).length_le
  have hintermediates :=
    (List.dropWhile_sublist (l := text.dropWhile isCsiParameter) isCsiIntermediate).length_le
  unfold afterCsi at h
  split at h
  · cases h
  · rename_i c tail htail
    rw [htail, List.length_cons] at hintermediates
    split at h
    · obtain rfl := Option.some.inj h
      omega
    · cases h

/-- `replace(ANSI_ESCAPE_SEQUENCE_REGEX, "")`. The three classes of the expression have no
character in common, so it matches in one way. -/
def stripAnsi : JsString → JsString
  | [] => []
  | [c] => [c]
  | c :: d :: text =>
    if c = .scalar (Char.ofNat 27) ∧ d = .scalar '[' then
      match _ : afterCsi text with
      | some rest => stripAnsi rest
      | none => c :: stripAnsi (d :: text)
    else c :: stripAnsi (d :: text)
  termination_by text => text.length
  decreasing_by
    · have := length_afterCsi ‹_›
      simp only [List.length_cons]
      omega
    · simp
    · simp

def normalizeCommandHistoryOutput (output : JsString) : JsString :=
  trim isSpace (((stripAnsi output).filter fun c => c ≠ .scalar '\r').filter fun c =>
    c ≠ .scalar (Char.ofNat 7))

/-- The second of the two units of a code point beyond the first plane. -/
def CodePoint.low : CodePoint → CodePoint
  | .scalar c => .surrogate (Fin.ofNat 2048 (0x400 + (c.toNat - 0x10000) % 0x400))
  | .surrogate unit => .surrogate unit

/-- `slice(-limit)`, which counts units and may cut a code point in two. -/
def sliceLast (limit : ℕ) : JsString → JsString
  | [] => []
  | c :: text =>
    let rest := (text.flatMap JsText.CodePoint.units).length
    if (JsText.CodePoint.units c).length + rest ≤ limit then c :: text
    else if rest < limit then CodePoint.low c :: text
    else sliceLast limit text

def recordPaneCommandHistory (state : SessionsState) (paneId command fresh now : JsString) :
    SessionsState :=
  let trimmedCommand := trim isSpace command
  match state.panes.get? paneId with
  | none => state
  | some pane =>
    if trimmedCommand = [] then state
    else
      { state with
        commandHistory := limitCommandHistory
          ({ id := fresh
             paneId := paneId
             hostId := pane.hostId
             transport := pane.transport
             command := trimmedCommand
             persistOutputPreview := (normalizePersistedPane pane).persistOutputPreview
             outputPreview := none
             outputUpdatedAt := none
             createdAt := now } :: state.commandHistory) }

def appendEntryOutput (entry : SessionCommandHistoryEntry) (normalizedOutput now : JsString) :
    SessionCommandHistoryEntry :=
  let previous : JsString :=
    match entry.outputPreview.bind truthy with
    | none => []
    | some preview => preview ++ js "\n"
  { entry with
    outputPreview :=
      some (trim isSpace (sliceLast SESSION_HISTORY_OUTPUT_LIMIT (previous ++ normalizedOutput)))
    outputUpdatedAt := some now }

def appendPaneCommandHistoryOutput (state : SessionsState) (entryId output now : JsString) :
    SessionsState :=
  let normalizedOutput := normalizeCommandHistoryOutput output
  if normalizedOutput = [] then state
  else
    { state with
      commandHistory := state.commandHistory.map fun entry =>
        if entry.id = entryId then appendEntryOutput entry normalizedOutput now else entry }

def updatePanePreviewPersistence (state : SessionsState) (paneId : JsString)
    (persistOutputPreview : Bool) (now : JsString) : SessionsState :=
  match state.panes.get? paneId with
  | none => state
  | some _ =>
    { updatePane state.toSessionWorkspaceState paneId now fun pane =>
        { pane with persistOutputPreview := some persistOutputPreview } with
      commandHistory := state.commandHistory.map fun entry =>
        if entry.paneId = paneId then { entry with persistOutputPreview := some persistOutputPreview }
        else entry }

end History

section Persisting

def initialSessions : SessionsState where
  tabs := []
  panes := OrderedMap.empty
  activeTabId := none
  lastRestoredAt := none
  commandHistory := []

/-- What is written to the storage of the browser after every action. -/
def partialize (state : SessionsState) (now : JsString) : SessionsState :=
  let persistedWorkspace :=
    sanitizePersistedWorkspace { state.toSessionWorkspaceState with lastRestoredAt := some now }
  { persistedWorkspace with
    commandHistory := sanitizePersistedCommandHistory state.commandHistory persistedWorkspace.panes }

/-- The state that a start reads back; a field that is not in the text keeps its value. -/
def merge (persistedState currentState : SessionsState) : SessionsState :=
  let persistedWorkspace := sanitizePersistedWorkspace persistedState.toSessionWorkspaceState
  { persistedWorkspace with
    activeTabId := persistedWorkspace.activeTabId.or currentState.activeTabId
    lastRestoredAt := persistedWorkspace.lastRestoredAt.or currentState.lastRestoredAt
    commandHistory :=
      sanitizePersistedCommandHistory persistedState.commandHistory persistedWorkspace.panes }

end Persisting

/-- The store, and how many ids have been drawn. -/
structure SessionsStore extends SessionsState where
  issued : ℕ
  deriving DecidableEq

def initialStore : SessionsStore := { initialSessions with issued := 0 }

inductive SessionsAction where
  | openSession (host : HostRecord)
  | duplicateSession (host : HostRecord) (baseTitle : Option JsString)
  | selectTab (tabId : JsString)
  | cycleTab (direction : CycleDirection)
  | closeTab (tabId : JsString)
  | splitTab (tabId : JsString) (host : HostRecord)
  | closePane (tabId paneId : JsString)
  | closePanesForHost (hostId : JsString)
  | selectPane (tabId paneId : JsString)
  | setPaneState (paneId : JsString) (connectionState : SessionConnectionState)
      (connectionError : Option JsString)
  | setPaneReconnectOnRestore (paneId : JsString) (reconnectOnRestore : Bool)
  | setPanePersistOutputPreview (paneId : JsString) (persistOutputPreview : Bool)
  | setPaneTransport (paneId : JsString) (transport : SessionTransport)
  | setPaneBackendSession (paneId : JsString) (backendSessionId : Option SessionId)
  | queuePaneCommand (paneId command : JsString) (label : Option JsString)
  | consumePaneCommand (paneId commandId : JsString)
  | recordPaneCommand (paneId command : JsString)
  | appendCommandOutput (entryId output : JsString)
  | clearCommandHistory
  | queueCommandForHosts (hosts : List HostRecord) (command : JsString) (label : Option JsString)
  | togglePaneConnection (paneId : JsString)
  | setSplitDirection (tabId : JsString) (splitDirection : SplitDirection)
  | setSplitRatio (tabId : JsString) (ratio : Option ℚ)
  | reorderTab (fromIndex toIndex : ℤ)
  | importReset
  | restart

section Actions
variable (ids : UuidSource)

/-- The workspace that `queueCommandForHosts` works on, the panes it has found, and the number of
ids drawn. -/
structure Queueing where
  state : SessionWorkspaceState
  paneIds : List JsString
  issued : ℕ

def queueForHost (command : JsString) (label : Option JsString) (now : JsString) (q : Queueing)
    (host : HostRecord) : Queueing :=
  let opened := openSessionWorkspace q.state host (ids.uuid q.issued) (ids.uuid (q.issued + 1)) now
  match opened.tabs.find? fun tab => tab.hostId = host.id with
  | none => { q with state := opened, issued := q.issued + 3 }
  | some nextTab =>
    { state := queuePaneCommand opened nextTab.activePaneId command label
        (ids.uuid (q.issued + 2)) now
      paneIds := q.paneIds ++ [nextTab.activePaneId]
      issued := q.issued + 3 }

def queueCommandForHosts (state : SessionWorkspaceState) (issued : ℕ) (hosts : List HostRecord)
    (command : JsString) (label : Option JsString) (now : JsString) : Queueing :=
  hosts.foldl (queueForHost ids command label now) ⟨state, [], issued⟩

/-- The ids that an action may draw. -/
def SessionsAction.draws : SessionsAction → ℕ
  | .openSession _ => 2
  | .duplicateSession _ _ => 2
  | .splitTab _ _ => 1
  | .queuePaneCommand _ _ _ => 1
  | .recordPaneCommand _ _ => 1
  | .queueCommandForHosts hosts _ _ => 3 * hosts.length
  | _ => 0

/-- An action that is about tabs and panes only. -/
def performWorkspace (state : SessionWorkspaceState) (issued : ℕ) (now : JsString) :
    SessionsAction → SessionWorkspaceState
  | .openSession host =>
    openSessionWorkspace state host (ids.uuid issued) (ids.uuid (issued + 1)) now
  | .duplicateSession host baseTitle =>
    duplicateSessionWorkspace state host baseTitle (ids.uuid issued) (ids.uuid (issued + 1)) now
  | .selectTab tabId => setActiveSessionTab state tabId
  | .cycleTab direction => cycleSessionTab state direction
  | .closeTab tabId => closeSessionTab state tabId
  | .splitTab tabId host => splitSessionPane state tabId host (ids.uuid issued) now
  | .closePane tabId paneId => removeSessionPane state tabId paneId now
  | .closePanesForHost hostId => closePanesForHost state hostId
  | .selectPane tabId paneId => setActiveSessionPane state tabId paneId now
  | .setPaneState paneId connectionState connectionError =>
    updatePaneConnectionState state paneId connectionState connectionError now
  | .setPaneReconnectOnRestore paneId reconnectOnRestore =>
    updatePaneReconnectPreference state paneId reconnectOnRestore now
  | .setPaneTransport paneId transport => updatePaneTransport state paneId transport now
  | .setPaneBackendSession paneId backendSessionId =>
    updatePaneBackendSession state paneId backendSessionId now
  | .queuePaneCommand paneId command label =>
    queuePaneCommand state paneId command label (ids.uuid issued) now
  | .consumePaneCommand paneId commandId => consumePaneCommand state paneId commandId now
  | .queueCommandForHosts hosts command label =>
    (queueCommandForHosts ids state issued hosts command label now).state
  | .togglePaneConnection paneId => togglePaneConnection state paneId now
  | .setSplitDirection tabId splitDirection => setTabSplitDirection state tabId splitDirection now
  | .setSplitRatio tabId ratio => setTabSplitRatio state tabId ratio now
  | .reorderTab fromIndex toIndex => reorderSessionTabs state fromIndex toIndex
  | .importReset =>
    { tabs := [], panes := OrderedMap.empty, activeTabId := none, lastRestoredAt := some now }
  | _ => state

def perform (state : SessionsState) (issued : ℕ) (now : JsString) : SessionsAction → SessionsState
  | .setPanePersistOutputPreview paneId persistOutputPreview =>
    updatePanePreviewPersistence state paneId persistOutputPreview now
  | .recordPaneCommand paneId command =>
    recordPaneCommandHistory state paneId command (ids.uuid issued) now
  | .appendCommandOutput entryId output => appendPaneCommandHistoryOutput state entryId output now
  | .clearCommandHistory => { state with commandHistory := [] }
  | .restart => merge (partialize state now) initialSessions
  | action =>
    { performWorkspace ids state.toSessionWorkspaceState issued now action with
      commandHistory := state.commandHistory }

/-- One action, at the time that the clock shows. -/
def storeStep (s : SessionsStore) (entry : JsString × SessionsAction) : SessionsStore :=
  { perform ids s.toSessionsState s.issued entry.1 entry.2 with
    issued := s.issued + entry.2.draws }

/-- The backend sessions behind some panes. -/
def closeBackendSessionsForPanes (panes : OrderedMap JsString SessionPane)
    (paneIds : List JsString) : List SessionId :=
  paneIds.filterMap fun paneId => (panes.get? paneId).bind (·.backendSessionId)

/-- The backend sessions that an action asks to close. -/
def closeRequests (state : SessionWorkspaceState) : SessionsAction → List SessionId
  | .closeTab tabId =>
    match findTab state tabId with
    | none => []
    | some tab => closeBackendSessionsForPanes state.panes tab.paneIds
  | .closePane _ paneId => closeBackendSessionsForPanes state.panes [paneId]
  | .closePanesForHost hostId => closeBackendSessionsForPanes state.panes (panesOfHost state hostId)
  | _ => []

end Actions
end Sessions
