import TerminalWorkspace.Foundation.Base64
import TerminalWorkspace.Foundation.RecordAppend
import TerminalWorkspace.Foundation.JsText
import TerminalWorkspace.HostKeys.StoreFile

/-! The Node backend's trust-on-first-use store: the key recorded for a host is
read back from a record file on every connect, and the first key presented by
an unknown host is appended to it. -/
namespace HostKeys
open RecordFile OrderedMap JsText

/-- The alphabet of the store: JavaScript white space, lines broken at `\n`. -/
def nodeAlphabet : Alphabet CodePoint where
  space := isSpace
  newline := .scalar '\n'
  comment := .scalar '#'
  blank := .scalar ' '
  newline_space := by decide
  blank_space := by decide
  blank_ne_newline := by decide
  comment_not_space := by decide

@[simp] theorem nodeAlphabet_newline : nodeAlphabet.newline = .scalar '\n' := rfl

@[simp] theorem nodeAlphabet_space : nodeAlphabet.space = isSpace := rfl

/-- How the file system answers the calls of one verification. -/
structure FileSystem where
  takesLock : Bool
  opensForReading : Bool
  reads : Bool
  preparesDirectory : Bool
  opensForAppending : Bool
  write : WriteAnswer
  syncs : Bool
  releasesLock : Bool
  deriving DecidableEq, Repr

/-- One constructor for each error the source throws. -/
inductive StoreError where
  | noHostname
  | unsafeHostname (name : JsString)
  | invalidPort
  | unusableKey
  | notLocked
  | notARegularFile
  | couldNotRead
  | malformedLine (number : ℕ)
  | couldNotWrite
  | partialWrite
  | other
  deriving DecidableEq, Repr

inductive Verdict where
  | pinned
  | matched
  | mismatch (pinned : JsString)
  deriving DecidableEq, Repr

/-- The loaded map, host pattern to algorithm and base64 key. -/
abbrev Records := OrderedMap JsString (JsString × JsString)

/-- `Number(port)` is `none` when it is no integer. -/
def knownHostsHostPattern (hostname : JsString) (port : Option ℤ) :
    Except StoreError JsString :=
  let name := trim isSpace hostname
  if name = [] then .error .noHostname
  else if name.any (fun c => isSpace c || c = .scalar '#') then .error (.unsafeHostname name)
  else
    match port with
    | none => .error .invalidPort
    | some number =>
      if number < 1 ∨ 65535 < number then .error .invalidPort
      else if number = 22 then .ok name
      else .ok (js "[" ++ name ++ js "]:" ++ ofText (Nat.toDigits 10 number.toNat))

/-- `keyBlob.readUInt32BE(0)`. -/
def readUInt32BE : List UInt8 → ℕ
  | a :: b :: c :: d :: _ => ((a.toNat * 256 + b.toNat) * 256 + c.toNat) * 256 + d.toNat
  | _ => 0

def hostKeyAlgorithmName (keyBlob : List UInt8) : Option JsString :=
  if keyBlob.length < 4 then none
  else
    let length := readUInt32BE keyBlob
    if length = 0 ∨ keyBlob.length - 4 < length then none
    else
      let name := ofText (Utf8.decodeLossy ((keyBlob.drop 4).take length))
      if trim isSpace name = [] then none else some name

/-- `Buffer.from(keyBlob).toString("base64")`. -/
def base64Key (keyBlob : List UInt8) : JsString := ofText (Base64.encode keyBlob)

/-- The loop of `load`: JavaScript splits a trimmed line at whole runs of white space. -/
def loadLines : ℕ → Records → List JsString → Except StoreError Records :=
  RecordFile.load nodeAlphabet (splitRuns isSpace false) .malformedLine

/-- An unreadable or malformed store is an error, an absent one is empty. -/
def load (fs : FileSystem) (file : StoreFile) : Except StoreError Records :=
  if fs.opensForReading then
    match file with
    | .absent => .ok empty
    | .irregular => .error .notARegularFile
    | .regular bytes =>
      match if fs.reads then decodeText bytes else none with
      | none => .error .couldNotRead
      | some contents => loadLines 0 empty (contents.splitOn (.scalar '\n'))
  else .error .couldNotRead

/-- The line of a record. -/
def pinBody (pattern algorithm key : JsString) : JsString :=
  pattern ++ js " " ++ algorithm ++ js " " ++ key ++ js "\n"

/-- What one append writes behind the bytes already there. -/
def pinPayload (bytes : List UInt8) (pattern algorithm key : JsString) : List UInt8 :=
  utf8Bytes ((if needsSeparator bytes then js "\n" else []) ++ pinBody pattern algorithm key)

def appendPin (fs : FileSystem) (file : StoreFile) (pattern algorithm key : JsString) :
    Except StoreError Unit × StoreFile :=
  if !fs.preparesDirectory then (.error .other, file)
  else if !fs.opensForAppending then (.error .couldNotWrite, file)
  else if file = .irregular then (.error .notARegularFile, file)
  else
    let payload := pinPayload file.bytes pattern algorithm key
    match fs.write.taken payload with
    | none => (.error .couldNotWrite, .regular file.bytes)
    | some written =>
      let file' := .regular (file.bytes ++ written)
      -- a short write leaves its bytes behind
      if written.length ≠ payload.length then (.error .partialWrite, file')
      else if fs.syncs then (.ok (), file')
      else (.error .couldNotWrite, file')

/-- The critical section of `verifyOrPin`. -/
def checkOrPin (fs : FileSystem) (file : StoreFile) (pattern algorithm presented : JsString) :
    Except StoreError Verdict × StoreFile :=
  match load fs file with
  | .error e => (.error e, file)
  | .ok records =>
    match records.get? pattern with
    | some existing =>
      (.ok (if existing.2 = presented then .matched else .mismatch existing.2), file)
    | none =>
      match appendPin fs file pattern algorithm presented with
      | (.ok _, file') => (.ok .pinned, file')
      | (.error e, file') => (.error e, file')

def verifyOrPin (fs : FileSystem) (file : StoreFile) (hostname : JsString) (port : Option ℤ)
    (keyBlob : List UInt8) : Except StoreError Verdict × StoreFile :=
  match knownHostsHostPattern hostname port with
  | .error e => (.error e, file)
  | .ok pattern =>
    match hostKeyAlgorithmName keyBlob with
    | none => (.error .unusableKey, file)
    | some algorithm =>
      if fs.takesLock then
        let result := checkOrPin fs file pattern algorithm (base64Key keyBlob)
        -- the release runs in a `finally`, so its failure replaces the verdict
        if fs.releasesLock then result else (.error .other, result.2)
      else (.error .notLocked, file)

end HostKeys
