import TerminalWorkspace.Connections.Builder
import TerminalWorkspace.Foundation.JsNumbers
import TerminalWorkspace.Foundation.OrderedMap
import TerminalWorkspace.Foundation.Runs
import TerminalWorkspace.VaultStores.Records

/-! Launches of host sessions up to the end of their trust step: one launch in flight for each
host id, one prompt for the whole application, and the known-hosts store. A launch runs to its
next wait in one step; a scan, an answer of the user and the return of a promise are steps. -/
namespace HostTrust
open JsText JsNumbers Inventory Connections VaultStores Runs

/-- A key of a scan, which the backends report for the hostname and port they were asked for. -/
structure ScannedKey where
  algorithm : JsString
  publicKey : JsString
  fingerprint : JsString

def scanResult (hostname : JsString) (port : ℤ) (key : ScannedKey) : KnownHostScanResult where
  hostname := hostname
  port := port
  algorithm := key.algorithm
  publicKey := key.publicKey
  fingerprint := key.fingerprint

structure FingerprintTrustPromptRequest where
  hostId : JsString
  hostLabel : JsString
  hostname : JsString
  port : ℤ
  candidates : List KnownHostScanResult

def getPromptKey (hostId hostname : JsString) (port : ℤ) : JsString :=
  (js ":").intercalate [hostId, hostname, numberString port]

def FingerprintTrustPromptRequest.key (request : FingerprintTrustPromptRequest) : JsString :=
  getPromptKey request.hostId request.hostname request.port

inductive TrustReason where
  | policyAllowsUnknown
  | protocolDoesNotNeedTrust
  | alreadyTrusted
  | userRejected
  | userNonInteractive
  | scanFailed
  | scanEmpty
  deriving DecidableEq, Repr

structure EnsureTrustedHostKeyResult where
  ok : Bool
  reason : Option TrustReason
  trustedKey : Option KnownHostScanResult

/-- Where a launch stands: it has got the promise of another one, waits for its scan, waits for
the promise of a prompt, has the answer that `openPrompt` returns, or its trust step has
returned, with the known hosts of that moment. -/
inductive Stage where
  | joined (k : ℕ)
  | scanning
  | prompting (p : ℕ)
  | answered (accepted : Option KnownHostScanResult)
  | returned (result : EnsureTrustedHostKeyResult) (knownHosts : List KnownHostRecord)
  | settled (result : EnsureTrustedHostKeyResult) (knownHosts : List KnownHostRecord)

structure Launch where
  host : HostRecord
  stage : Stage

/-- A prompt, the launch that opened it, and what its promise is resolved with. -/
structure Prompt where
  request : FingerprintTrustPromptRequest
  opener : ℕ
  answer : Option (Option KnownHostScanResult)

/-- Launches and prompts are named by their places. `inFlight` maps a host id to its launch, and
`activePrompt` is the prompt of the module variables. -/
structure World where
  knownHosts : List KnownHostRecord
  inFlight : OrderedMap JsString ℕ
  launches : List Launch
  prompts : List Prompt
  pendingRequest : Option ℕ
  activePrompt : Option ℕ

def World.initial (knownHosts : List KnownHostRecord) : World :=
  ⟨knownHosts, .empty, [], [], none, none⟩

namespace World
variable (w : World)

def setStage (l : ℕ) (stage : Stage) : World :=
  { w with launches := w.launches.modify l fun launch => { launch with stage := stage } }

/-- The trust step has come to its end. -/
def trustReturns (ok : Bool) (reason : TrustReason) : Stage :=
  .returned ⟨ok, some reason, none⟩ w.knownHosts

/-- `ensureTrustedHostKey` up to its scan. -/
def ensureTrustedHostKey (host : HostRecord) (interactive : Bool) : Stage :=
  if !hostSupportsTrustedKeys host.protocol then w.trustReturns true .protocolDoesNotNeedTrust
  else if host.hostKeyPolicy ≠ .requireTrusted then w.trustReturns true .policyAllowsUnknown
  else if (findKnownHostMatch w.knownHosts host.toBackendConnectionHost).isSome then
    w.trustReturns true .alreadyTrusted
  else if !interactive then w.trustReturns false .userNonInteractive
  else .scanning

/-- A launch of a host id that is in flight gets the promise of the launch that is. -/
def launchHostSession (host : HostRecord) : World :=
  match w.inFlight.get? host.id with
  | some k => { w with launches := w.launches ++ [⟨host, .joined k⟩] }
  | none =>
    { w with
      launches := w.launches ++ [⟨host, w.ensureTrustedHostKey host true⟩]
      inFlight := w.inFlight.set host.id w.launches.length }

/-- A request waits for the prompt that has its key, is refused where another one is active, and
is shown otherwise. -/
def openPrompt (l : ℕ) (request : FingerprintTrustPromptRequest) : World :=
  match w.activePrompt with
  | some p =>
    if (w.prompts[p]?).map (·.request.key) = some request.key then w.setStage l (.prompting p)
    else w.setStage l (.answered none)
  | none =>
    { w.setStage l (.prompting w.prompts.length) with
      prompts := w.prompts ++ [⟨request, l, none⟩]
      pendingRequest := some w.prompts.length
      activePrompt := some w.prompts.length }

/-- The scan has failed, or it has brought keys. -/
def scanned (l : ℕ) (response : Option (List ScannedKey)) : World :=
  match w.launches[l]? with
  | some ⟨host, .scanning⟩ =>
    match response with
    | none => w.setStage l (w.trustReturns false .scanFailed)
    | some [] => w.setStage l (w.trustReturns false .scanEmpty)
    | some (key :: keys) =>
      w.openPrompt l
        { hostId := host.id
          hostLabel := host.label
          hostname := host.hostname
          port := host.port
          candidates := (key :: keys).map (scanResult host.hostname host.port) }
  | _ => w

/-- The answer of the prompt component: one of the candidates that are shown, or none. -/
def clearPrompt (choice : Option ℕ) : World :=
  match w.pendingRequest with
  | none => w
  | some p =>
    { w with
      prompts := w.prompts.modify p fun prompt =>
        { prompt with answer := some (choice.bind fun i => prompt.request.candidates[i]?) }
      pendingRequest := none }

/-- `openPrompt` returns to a launch; the one that opened the prompt clears the module's
variables. -/
def promptReturns (l : ℕ) : World :=
  match w.launches[l]? with
  | some ⟨_, .prompting p⟩ =>
    match w.prompts[p]? with
    | some ⟨_, opener, some accepted⟩ =>
      { w.setStage l (.answered accepted) with
        activePrompt := if opener = l then none else w.activePrompt }
    | _ => w
  | _ => w

/-- `ensureTrustedHostKey` after its prompt, at the time `now`. -/
def trusts (platform : Platform) (l : ℕ) (now : JsString) : World :=
  match w.launches[l]? with
  | some ⟨_, .answered none⟩ => w.setStage l (w.trustReturns false .userRejected)
  | some ⟨_, .answered (some accepted)⟩ =>
    let knownHosts := trustKnownHost platform w.knownHosts accepted now
    { w.setStage l (.returned ⟨true, none, some accepted⟩ knownHosts) with
      knownHosts := knownHosts }
  | _ => w

/-- The launch's promise settles, and its entry is deleted. -/
def settles (l : ℕ) : World :=
  match w.launches[l]? with
  | some ⟨host, .returned result knownHosts⟩ =>
    { w.setStage l (.settled result knownHosts) with inFlight := w.inFlight.erase host.id }
  | _ => w

end World

inductive Action where
  | launch (host : HostRecord)
  | scanned (l : ℕ) (response : Option (List ScannedKey))
  | clearPrompt (choice : Option ℕ)
  | promptReturns (l : ℕ)
  | trusts (l : ℕ) (now : JsString)
  | settles (l : ℕ)

def step (platform : Platform) (w : World) : Action → World
  | .launch host => w.launchHostSession host
  | .scanned l response => w.scanned l response
  | .clearPrompt choice => w.clearPrompt choice
  | .promptReturns l => w.promptReturns l
  | .trusts l now => w.trusts platform l now
  | .settles l => w.settles l

end HostTrust
