import TerminalWorkspace.Foundation.Fallible
import TerminalWorkspace.NativeTransport.ExternalCommands

/-! Whether a client can read what a user has entered as an option. -/
namespace NativeTransport
open NativeHostKeys (isWhitespace)
open RecordFile (trim)
open Fallible

/-- The argument begins with a dash that comes from a hostname, device, username or port. -/
def beginsWithUserDash : Argument → Bool
  | [] => false
  | .fixed [] :: rest | .user [] :: rest => beginsWithUserDash rest
  | .fixed (_ :: _) :: _ => false
  | .user (c :: _) :: _ => c == '-'

/-- No argument that may be read as an option begins with such a dash: operands of an option
and what follows a separator are not read so. -/
def NoUserOption (operandOptions : List (List Char)) : List Argument → Prop
  | [] => True
  | [argument] => beginsWithUserDash argument = false
  | argument :: operand :: rest =>
    beginsWithUserDash argument = false ∧
      (Argument.text argument = "--".toList ∨
        if Argument.text argument ∈ operandOptions then NoUserOption operandOptions rest
        else NoUserOption operandOptions (operand :: rest))

instance decidableNoUserOption (operandOptions : List (List Char)) :
    (args : List Argument) → Decidable (NoUserOption operandOptions args)
  | [] => isTrue trivial
  | [argument] => inferInstanceAs (Decidable (beginsWithUserDash argument = false))
  | argument :: operand :: rest =>
    have := decidableNoUserOption operandOptions rest
    have := decidableNoUserOption operandOptions (operand :: rest)
    inferInstanceAs (Decidable (beginsWithUserDash argument = false ∧
      (Argument.text argument = "--".toList ∨
        if Argument.text argument ∈ operandOptions then NoUserOption operandOptions rest
        else NoUserOption operandOptions (operand :: rest))))

def ExternalCommand.Safe (command : ExternalCommand) : Prop :=
  NoUserOption command.client.operandOptions command.args

instance (command : ExternalCommand) : Decidable command.Safe :=
  decidableNoUserOption command.client.operandOptions command.args

section Arguments

theorem beginsWithUserDash_fixedArgument (text : String) :
    beginsWithUserDash (fixedArgument text) = false := by
  unfold fixedArgument
  cases text.toList <;> rfl

theorem beginsWithUserDash_userArgument (text : List Char) :
    beginsWithUserDash (userArgument text) = false ↔ text.head? ≠ some '-' := by
  cases text <;> simp [userArgument, beginsWithUserDash]

theorem beginsWithUserDash_decimal (n : ℕ) :
    beginsWithUserDash (userArgument (decimal n)) = false := by
  rw [beginsWithUserDash_userArgument]
  intro hdash
  have hdigit := Nat.isDigit_of_mem_toDigits (b := 10) (by decide) (by decide)
    (List.mem_of_head? hdash)
  exact absurd hdigit (by decide)

/-- A text that is not blank begins with a character. -/
theorem ne_nil_of_trim {text : List Char} (h : trim isWhitespace text ≠ []) : text ≠ [] := by
  rintro rfl
  exact h rfl

theorem beginsWithUserDash_destination {username : List Char} (h : username ≠ [])
    (rest : Argument) : beginsWithUserDash (.user username :: rest) = false ↔
      username.head? ≠ some '-' := by
  cases username with
  | nil => exact absurd rfl h
  | cons c username => simp [beginsWithUserDash]

end Arguments

section Commands
variable {w : Workstation} {host : BackendHostConnection}

theorem localShell_safe : (localShellSpec w).command.Safe :=
  beginsWithUserDash_fixedArgument "-l"

theorem telnet_safe {spec : ExternalCommandSessionSpec} (hspec : telnetSpec w host = .ok spec)
    (hdash : host.hostname.head? ≠ some '-') : spec.command.Safe := by
  unfold telnetSpec at hspec
  split at hspec
  · cases hspec
  · cases hspec
    refine ⟨(beginsWithUserDash_userArgument _).mpr hdash, .inr ?_⟩
    rw [if_neg (by simp [ExternalClient.operandOptions])]
    exact beginsWithUserDash_decimal _

theorem serial_safe {spec : ExternalCommandSessionSpec} (hspec : serialSpec w host = .ok spec) :
    spec.command.Safe := by
  unfold serialSpec at hspec
  split at hspec
  · cases hspec
  · rename_i command hcommand
    cases hspec
    unfold serialCommand at hcommand
    split at hcommand
    · cases hcommand
      exact ⟨beginsWithUserDash_fixedArgument "--", .inl (by decide)⟩
    · obtain ⟨executable, -, rfl⟩ := Option.map_eq_some_iff.mp hcommand
      have hl : Argument.text (fixedArgument "-l") ∈ ExternalClient.cu.operandOptions := by decide
      have hs : Argument.text (fixedArgument "-s") ∈ ExternalClient.cu.operandOptions := by decide
      refine ⟨beginsWithUserDash_fixedArgument "-l", .inr ?_⟩
      rw [if_pos hl]
      refine ⟨beginsWithUserDash_fixedArgument "-s", .inr ?_⟩
      rw [if_pos hs]
      trivial

/-- Whatever becomes of the files of the session, the client gets the two arguments. -/
theorem moshSpec_args {spec : ExternalCommandSessionSpec} {sessionId : List Char}
    (hspec : moshSpec w host sessionId = .ok spec) :
    spec.command.client = .mosh ∧
      ∃ sshCommand, spec.command.args = moshArguments host sshCommand := by
  unfold moshSpec at hspec
  split at hspec
  · cases hspec
  · obtain ⟨cleanupDir, hspec⟩ := eq_ok_of_ite_bind hspec
    cases cleanupDir with
    | none | some sessionDir =>
      obtain ⟨knownHostsPath, -, hspec⟩ := bind_eq_ok.mp hspec
      obtain ⟨sshCommand, -, hspec⟩ := bind_eq_ok.mp hspec
      cases hspec
      exact ⟨rfl, sshCommand, rfl⟩

theorem mosh_safe_iff {spec : ExternalCommandSessionSpec} {sessionId : List Char}
    (hspec : moshSpec w host sessionId = .ok spec) (husername : host.username ≠ []) :
    spec.command.Safe ↔ host.username.head? ≠ some '-' := by
  obtain ⟨hclient, sshCommand, hargs⟩ := moshSpec_args hspec
  have hssh : beginsWithUserDash [.fixed "--ssh=".toList, .user sshCommand] = false := rfl
  unfold ExternalCommand.Safe
  rw [hclient, hargs,
    ← beginsWithUserDash_destination husername [.fixed ['@'], .user host.hostname]]
  constructor
  · exact And.left
  · intro hdestination
    refine ⟨hdestination, .inr ?_⟩
    rw [if_neg (by simp [ExternalClient.operandOptions])]
    exact hssh

/-- What the validation of a target says of the arguments that its client gets. -/
theorem telnet_of_validate (h : validateTelnetHost host = .ok ()) :
    host.hostname.head? ≠ some '-' := by
  unfold validateTelnetHost at h
  obtain ⟨_, -, hdash⟩ := bind_eq_ok.mp h
  exact throwIf_eq_ok_unit.mp hdash

theorem networkHost_username (h : validateNetworkHost host true = .ok ()) :
    trim isWhitespace host.username ≠ [] := by
  unfold validateNetworkHost at h
  have h' := (throwIf_eq_ok.mp h).2
  exact fun hblank => (throwIf_eq_ok.mp h').1 ⟨rfl, hblank⟩

theorem mosh_of_validate (h : validateMoshHost host = .ok ()) : host.username ≠ [] := by
  unfold validateMoshHost at h
  obtain ⟨_, hnetwork, -⟩ := bind_eq_ok.mp h
  exact ne_nil_of_trim (networkHost_username hnetwork)

/-- The command that is built for a target. -/
theorem session_safe_iff {spec : ExternalCommandSessionSpec} {sessionId : List Char}
    (hvalid : validateSessionTarget host = .ok ())
    (hspec : buildExternalCommandSessionSpec w host sessionId = .ok spec) :
    spec.command.Safe ↔ (host.protocol = "mosh" → host.username.head? ≠ some '-') := by
  unfold buildExternalCommandSessionSpec at hspec
  unfold validateSessionTarget at hvalid
  split at hspec
  · rename_i hprotocol
    cases hspec
    exact iff_of_true localShell_safe (by simp [hprotocol])
  · rename_i hprotocol
    rw [hprotocol] at hvalid
    exact iff_of_true (telnet_safe hspec (telnet_of_validate hvalid)) (by simp [hprotocol])
  · rename_i hprotocol
    exact iff_of_true (serial_safe hspec) (by simp [hprotocol])
  · rename_i hprotocol
    rw [hprotocol] at hvalid
    have husername := mosh_of_validate (mapError_eq_ok.mp hvalid)
    rw [mosh_safe_iff hspec husername]
    exact ⟨fun h _ => h, fun h => h hprotocol⟩
  · cases hspec

end Commands

theorem scan_safe_iff {request : KnownHostScanRequest} {command : ExternalCommand}
    (hcommand : scanKnownHostCommand request = .ok command) :
    command.Safe ↔ request.hostname.head? ≠ some '-' := by
  unfold scanKnownHostCommand at hcommand
  split at hcommand
  · cases hcommand
  split at hcommand
  · cases hcommand
  cases hcommand
  have hp : Argument.text (fixedArgument "-p") ∈ ExternalClient.sshKeyscan.operandOptions := by
    decide
  have hT : Argument.text (fixedArgument "-T") ∈ ExternalClient.sshKeyscan.operandOptions := by
    decide
  rw [← beginsWithUserDash_userArgument]
  constructor
  · rintro ⟨-, hsep | hrest⟩
    · exact absurd hsep (by decide)
    · rw [if_pos hp] at hrest
      obtain ⟨-, hsep | hrest⟩ := hrest
      · exact absurd hsep (by decide)
      · rwa [if_pos hT] at hrest
  · intro hhostname
    refine ⟨beginsWithUserDash_fixedArgument "-p", .inr ?_⟩
    rw [if_pos hp]
    refine ⟨beginsWithUserDash_fixedArgument "-T", .inr ?_⟩
    rw [if_pos hT]
    exact hhostname

/-- Every command is safe but for two: `mosh` with a username that begins with a dash, and the
scan of a hostname that does. -/
theorem userData_notOption_iff (w : Workstation) (host : BackendHostConnection)
    (sessionId : List Char) (request : KnownHostScanRequest) :
    (validateSessionTarget host = .ok () → ∀ spec,
      buildExternalCommandSessionSpec w host sessionId = .ok spec →
        (spec.command.Safe ↔ (host.protocol = "mosh" → host.username.head? ≠ some '-'))) ∧
    ∀ command, scanKnownHostCommand request = .ok command →
      (command.Safe ↔ request.hostname.head? ≠ some '-') :=
  ⟨fun hvalid _ hspec => session_safe_iff hvalid hspec, fun _ hcommand => scan_safe_iff hcommand⟩

/-- A workstation that has every client at the first place it is looked for. -/
def Workstation.equipped : Workstation where
  shell := none
  resolveCommandPath _ candidates := candidates.head?.map String.toList
  sshAuthSock := false
  createSessionDir _ := .ok "/tmp/tw-ssh-0".toList
  writePrivateFile _ _ := .ok ()
  validateIdentityKeyPath := .ok

def moshHost (username : String) : BackendHostConnection :=
  { directHost "example.org".toList username.toList with protocol := "mosh" }

def scanRequest (hostname : String) : KnownHostScanRequest := ⟨hostname.toList, 22⟩

theorem userData_notOption_plain :
    (∃ spec, buildExternalCommandSessionSpec .equipped (moshHost "alice") "s".toList = .ok spec ∧
      spec.command.Safe) ∧
    ∃ command, scanKnownHostCommand (scanRequest "example.org") = .ok command ∧ command.Safe := by
  have h := userData_notOption_iff .equipped (moshHost "alice") "s".toList
    (scanRequest "example.org")
  exact ⟨⟨_, rfl, (h.1 rfl _ rfl).mpr fun _ => by decide⟩, ⟨_, rfl, (h.2 _ rfl).mpr (by decide)⟩⟩

/-- A username passes the validation of a `mosh` target and becomes the head of an option, and
so does the hostname of a scan. -/
theorem username_read_as_option :
    (validateSessionTarget (moshHost "-oProxyCommand=x") = .ok () ∧
      ∃ spec, buildExternalCommandSessionSpec .equipped (moshHost "-oProxyCommand=x") "s".toList =
        .ok spec ∧ ¬ spec.command.Safe) ∧
    ∃ command, scanKnownHostCommand (scanRequest "-D") = .ok command ∧ ¬ command.Safe :=
  ⟨⟨rfl, _, rfl, by decide⟩, _, rfl, by decide⟩

end NativeTransport
