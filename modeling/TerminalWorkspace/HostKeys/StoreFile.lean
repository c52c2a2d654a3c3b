import Mathlib.Data.List.Basic

/-! The file behind a host-key store, and how an append to it can go. Both
backends keep the same file. -/
namespace HostKeys

/-- What is at the store's path. Links, directories and devices are irregular. -/
inductive StoreFile where
  | absent
  | irregular
  | regular (bytes : List UInt8)
  deriving DecidableEq, Repr

def StoreFile.bytes : StoreFile → List UInt8
  | .regular bytes => bytes
  | _ => []

/-- A file that stops in mid-line needs a line break before the next record. -/
def needsSeparator (bytes : List UInt8) : Bool := bytes.getLast?.any (· ≠ 0x0A)

/-- The answer to one write call. -/
inductive WriteAnswer where
  | whole
  | short (accepted : ℕ)
  | failed
  deriving DecidableEq, Repr

/-- The bytes that reach the file, `none` when the call fails. -/
def WriteAnswer.taken : WriteAnswer → List UInt8 → Option (List UInt8)
  | .whole, payload => some payload
  | .short accepted, payload => some (payload.take accepted)
  | .failed, _ => none

theorem WriteAnswer.taken_eq {answer : WriteAnswer} {payload written : List UInt8}
    (h : answer.taken payload = some written) (hlen : written.length = payload.length) :
    written = payload := by
  cases answer with
  | whole => exact (Option.some.inj h).symm
  | short accepted =>
    obtain rfl := Option.some.inj h
    exact (List.take_prefix accepted payload).eq_of_length hlen
  | failed => simp [taken] at h

end HostKeys
