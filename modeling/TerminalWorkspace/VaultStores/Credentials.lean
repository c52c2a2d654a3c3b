import TerminalWorkspace.Foundation.PrefixFree
import TerminalWorkspace.VaultStores.Identities

/-! What hosts and identities log in with, and the key it is joined to. -/
namespace VaultStores
open JsText Inventory LocalConfig
open RecordFile (trim)

/-- The path counts only with a private key. -/
@[ext]
structure Credentials where
  authMethod : HostAuthMethod
  username : JsString
  privateKeyPath : JsString
  keyless : authMethod ≠ .privateKey → privateKeyPath = []
  deriving DecidableEq

def credentialsOf (authMethod : HostAuthMethod) (username privateKeyPath : JsString) :
    Credentials where
  authMethod := authMethod
  username := trim isSpace username
  privateKeyPath := if authMethod = .privateKey then trim isSpace privateKeyPath else []
  keyless := fun h => if_neg h

def hostCredentials (host : HostRecord) : Credentials :=
  credentialsOf host.authMethod host.username host.privateKeyPath

def identityCredentials (identity : IdentityRecord) : Credentials :=
  credentialsOf identity.authMethod identity.username identity.privateKeyPath

namespace Credentials

/-- A password, or a private key with a path. -/
def Authenticates (c : Credentials) : Prop :=
  c.authMethod = .password ∨ c.authMethod = .privateKey ∧ c.privateKeyPath ≠ []

def equivalenceKey (c : Credentials) : Option JsString :=
  match c.authMethod with
  | .none => none
  | .privateKey =>
    (truthy c.privateKeyPath).map fun path => js "privateKey|" ++ c.username ++ js "|" ++ path
  | .password => some (js "password|" ++ c.username)

variable {c d : Credentials}

theorem equivalenceKey_isSome_iff : c.equivalenceKey.isSome ↔ c.Authenticates := by
  obtain ⟨authMethod, username, path, -⟩ := c
  cases authMethod with
  | none => simp [equivalenceKey, Authenticates]
  | password => simp [equivalenceKey, Authenticates]
  | privateKey => by_cases hpath : path = [] <;> simp [equivalenceKey, Authenticates, truthy, hpath]

/-- Different credentials whose username and path join to one text. -/
def Confused (c d : Credentials) : Prop :=
  c ≠ d ∧ c.authMethod = .privateKey ∧ d.authMethod = .privateKey ∧
    c.username ++ js "|" ++ c.privateKeyPath = d.username ++ js "|" ++ d.privateKeyPath

theorem equivalenceKey_eq_iff (hc : c.Authenticates) (hd : d.Authenticates) :
    c.equivalenceKey = d.equivalenceKey ↔ c = d ∨ c.Confused d := by
  obtain ⟨cmethod, cuser, cpath, hckeyless⟩ := c
  obtain ⟨dmethod, duser, dpath, hdkeyless⟩ := d
  have hkinds : js "privateKey|" ++ cuser ++ js "|" ++ cpath ≠ js "password|" ++ duser := by
    intro h
    exact absurd (congrArg (fun s => s[1]?) h) (by simp [js, ofText])
  have hkinds' : js "password|" ++ cuser ≠ js "privateKey|" ++ duser ++ js "|" ++ dpath := by
    intro h
    exact absurd (congrArg (fun s => s[1]?) h) (by simp [js, ofText])
  rcases hc with rfl | ⟨rfl, hcpath⟩ <;> rcases hd with rfl | ⟨rfl, hdpath⟩
  · have hpaths : cpath = dpath := (hckeyless (by simp)).trans (hdkeyless (by simp)).symm
    simp [equivalenceKey, Confused, hpaths]
  · simp only [equivalenceKey, truthy, if_neg hdpath, Option.map_some, Option.some.injEq]
    exact iff_of_false hkinds' (by simp [Confused])
  · simp only [equivalenceKey, truthy, if_neg hcpath, Option.map_some, Option.some.injEq]
    exact iff_of_false hkinds (by simp [Confused])
  · simp only [equivalenceKey, truthy, if_neg hcpath, if_neg hdpath, Option.map_some,
      Option.some.injEq, List.append_assoc, List.append_cancel_left_eq, Confused, mk.injEq,
      true_and, ne_eq]
    constructor
    · exact fun h => (em _).imp_right fun hne => ⟨hne, h⟩
    · rintro (⟨rfl, rfl⟩ | ⟨-, h⟩)
      · rfl
      · exact h

/-- Only a `|` in a username confuses. -/
theorem not_confused (hc : .scalar '|' ∉ c.username) (hd : .scalar '|' ∉ d.username) :
    ¬ c.Confused d := by
  rintro ⟨hne, hcmethod, hdmethod, hjoined⟩
  have hword {e : Credentials} (h : .scalar '|' ∉ e.username) :
      ∀ x ∈ e.username, decide (x ≠ .scalar '|') = true := fun x hx =>
    decide_eq_true (ne_of_mem_of_not_mem hx h)
  have hbar (e : Credentials) : ∀ x ∈ (js "|" ++ e.privateKeyPath).head?,
      decide (x ≠ .scalar '|') = false := by
    rintro x ⟨⟩
    rfl
  rw [List.append_assoc, List.append_assoc] at hjoined
  obtain ⟨husername, hpath⟩ := PrefixFree.run_eq (hword hc) (hword hd) (hbar c) (hbar d) hjoined
  exact hne (Credentials.ext (hcmethod.trans hdmethod.symm) husername
    (List.append_cancel_left hpath))

end Credentials

theorem buildIdentityEquivalenceKey_eq (authMethod : HostAuthMethod)
    (username privateKeyPath : JsString) :
    buildIdentityEquivalenceKey authMethod username privateKeyPath =
      (credentialsOf authMethod username privateKeyPath).equivalenceKey := by
  cases authMethod <;> rfl

end VaultStores
