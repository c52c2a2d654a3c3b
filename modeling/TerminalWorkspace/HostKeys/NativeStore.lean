import Mathlib.Data.UInt
import TerminalWorkspace.Foundation.RecordAppend
import TerminalWorkspace.Foundation.Utf8
import TerminalWorkspace.HostKeys.StoreFile

/-! The native backend's host-key store, with the validator and the pattern
builder that decide which host patterns reach it. -/
namespace NativeHostKeys
open RecordFile OrderedMap HostKeys

/-- `char::is_whitespace`. -/
def whiteSpaceCodes : List ℕ :=
  [0x09, 0x0A, 0x0B, 0x0C, 0x0D, 0x20, 0x85, 0xA0, 0x1680, 0x2000, 0x2001, 0x2002, 0x2003, 0x2004,
    0x2005, 0x2006, 0x2007, 0x2008, 0x2009, 0x200A, 0x2028, 0x2029, 0x202F, 0x205F, 0x3000]

def isWhitespace (c : Char) : Bool := c.toNat ∈ whiteSpaceCodes

/-- `char::is_control`. -/
def isControl (c : Char) : Bool := c.toNat < 0x20 || (0x7F ≤ c.toNat && c.toNat < 0xA0)

def nativeAlphabet : Alphabet Char where
  space := isWhitespace
  newline := '\n'
  comment := '#'
  blank := ' '
  newline_space := by decide
  blank_space := by decide
  blank_ne_newline := space_ne_newline
  comment_not_space := by decide

@[simp] theorem nativeAlphabet_newline : nativeAlphabet.newline = '\n' := rfl

@[simp] theorem nativeAlphabet_comment : nativeAlphabet.comment = '#' := rfl

@[simp] theorem nativeAlphabet_space : nativeAlphabet.space = isWhitespace := rfl

/-- The fields of a connection that validation and the pattern read. -/
structure BackendHostConnection where
  protocol : String
  hostname : List Char
  username : List Char
  port : UInt32
  privateKeyPath : List Char
  authMethod : String
  password : List Char
  hostKeyPolicy : Option String
  knownHostPublicKey : Option (List Char)
  jumpHost : Option BackendHostConnection

inductive HostError where
  | unsupportedProtocol (protocol : String)
  | missingFields
  | controlChars (field : String)
  | portRange
  | missingPassword
  | missingKeyPath
  | noAuth
  | trustedKeyRequired (hostname : List Char) (port : UInt32)
  deriving DecidableEq, Repr

def rejectControlChars (field : String) (value : List Char) : Except HostError Unit :=
  if value.any isControl then .error (.controlChars field) else .ok ()

def hostRequiresTrustedKey (host : BackendHostConnection) : Bool :=
  if host.protocol ≠ "ssh" ∧ host.protocol ≠ "mosh" then false
  else host.hostKeyPolicy ≠ some "allowUnknown"

/-- The checks of `validate_ssh_host` on one hop. -/
def validateHop (host : BackendHostConnection) : Except HostError Unit := do
  if host.protocol ≠ "ssh" then throw (.unsupportedProtocol host.protocol)
  if trim isWhitespace host.hostname = [] ∨ trim isWhitespace host.username = [] ∨
      host.port = 0 then
    throw .missingFields
  rejectControlChars "Hostname" host.hostname
  rejectControlChars "Username" host.username
  if trim isWhitespace host.privateKeyPath ≠ [] then
    rejectControlChars "Private key path" host.privateKeyPath
  if 65535 < host.port then throw .portRange
  if host.authMethod = "password" ∧ host.password = [] then throw .missingPassword
  if host.authMethod = "privateKey" ∧ trim isWhitespace host.privateKeyPath = [] then
    throw .missingKeyPath
  if host.authMethod = "none" then throw .noAuth
  if hostRequiresTrustedKey host ∧ host.knownHostPublicKey.isNone then
    throw (.trustedKeyRequired host.hostname host.port)

/-- Every hop of the jump chain is validated. -/
def validateSshHost : BackendHostConnection → Except HostError Unit
  | ⟨protocol, hostname, username, port, keyPath, auth, password, policy, publicKey, jump⟩ => do
    validateHop ⟨protocol, hostname, username, port, keyPath, auth, password, policy, publicKey,
      jump⟩
    match jump with
    | none => pure ()
    | some jumpHost => validateSshHost jumpHost

def knownHostsHostPattern (host : BackendHostConnection) : List Char :=
  if host.port = 22 then host.hostname
  else '[' :: host.hostname ++ "]:".toList ++ Nat.toDigits 10 host.port.toNat

/-- How the file system answers the calls of one verification. -/
structure FileSystem where
  locks : Bool
  stats : Bool
  reads : Bool
  rereads : Bool
  opens : Bool
  write : WriteAnswer
  flushes : Bool
  deriving DecidableEq, Repr

inductive StoreError where
  | unusableKey
  | couldNotLock
  | notARegularFile
  | couldNotRead
  | malformedLine (number : ℕ)
  | couldNotWrite
  | partialWrite
  | couldNotFlush
  deriving DecidableEq, Repr

inductive HostKeyVerdict where
  | pinned
  | matched
  | mismatch (pinned : List Char)
  deriving DecidableEq, Repr

/-- The loaded map; its order is never observed. -/
abbrev Records := OrderedMap (List Char) (List Char × List Char)

def stripCarriageReturn (line : List Char) : List Char :=
  if line.getLast? = some '\r' then line.dropLast else line

/-- `str::lines`: a line ends at `\n` or `\r\n`, and no empty line follows the last break. -/
def lines (contents : List Char) : List (List Char) :=
  let pieces := contents.splitOn '\n'
  pieces.dropLast.map stripCarriageReturn ++ pieces.getLast?.toList.filter (fun l => !l.isEmpty)

/-- The loop of `load`: `split_whitespace` yields the words of a trimmed line. -/
def loadLines : ℕ → Records → List (List Char) → Except StoreError Records :=
  RecordFile.load nativeAlphabet (words isWhitespace) .malformedLine

def load (fs : FileSystem) (file : StoreFile) : Except StoreError Records :=
  if fs.stats then
    match file with
    | .absent => .ok empty
    | .irregular => .error .notARegularFile
    | .regular bytes =>
      match if fs.reads then Utf8.decodeStrict bytes else none with
      | none => .error .couldNotRead
      | some contents => loadLines 0 empty (lines contents)
  else .error .couldNotRead

def pinPayload (bytes : List UInt8) (host algorithm key : List Char) : List UInt8 :=
  Utf8.encode ((if needsSeparator bytes then ['\n'] else []) ++
    (host ++ ' ' :: (algorithm ++ ' ' :: key) ++ ['\n']))

def appendPin (fs : FileSystem) (file : StoreFile) (host algorithm key : List Char) :
    Except StoreError Unit × StoreFile :=
  if file ≠ .absent ∧ !fs.rereads then (.error .couldNotRead, file)
  else if !fs.opens then (.error .couldNotWrite, file)
  else if file = .irregular then (.error .notARegularFile, file)
  else
    let body := pinPayload file.bytes host algorithm key
    match fs.write.taken body with
    | none => (.error .couldNotWrite, .regular file.bytes)
    | some written =>
      let file' := .regular (file.bytes ++ written)
      if written.length ≠ body.length then (.error .partialWrite, file')
      else if fs.flushes then (.ok (), file')
      else (.error .couldNotFlush, file')

def verifyOrPin (fs : FileSystem) (file : StoreFile) (hostPattern algorithm presented : List Char) :
    Except StoreError HostKeyVerdict × StoreFile :=
  if trim isWhitespace algorithm = [] ∨ trim isWhitespace presented = [] then
    (.error .unusableKey, file)
  else if !fs.locks then (.error .couldNotLock, file)
  else
    match load fs file with
    | .error e => (.error e, file)
    | .ok records =>
      match records.get? hostPattern with
      | some (_, pinned) =>
        (.ok (if pinned = presented then .matched else .mismatch pinned), file)
      | none =>
        match appendPin fs file hostPattern algorithm presented with
        | (.ok _, file') => (.ok .pinned, file')
        | (.error e, file') => (.error e, file')

end NativeHostKeys
