import Mathlib

/-!
# Serving recorded output

`JobOutputDir::job_output` of `server/src/output.rs`: what a server answers to a request for the recorded
output of a job, or for a range of it. Both ends of a range are included. Reading the file system, and
waiting for a permit, are left to the caller: the file is given by its bytes, and `permit` says whether
one of the permits for output was free.
-/

namespace Sush

/-- Lengths and offsets are 64-bit numbers: a sum that is none has no value. -/
def addU64 (a b : ℕ) : Option ℕ := if a + b < 2 ^ 64 then some (a + b) else none

/-- A difference below zero has no value. -/
def subU64 (a b : ℕ) : Option ℕ := if b ≤ a then some (a - b) else none

/-- Output files or ranges larger than this are not served all at once: 128 MB. -/
def outputThreshold : ℕ := 128 * 1000 * 1000

/-- Limit on concurrent output requests. -/
def maxOutputPermits : ℕ := 100

/-- Where a requested range starts. -/
inductive StartPosition where
  | index (start : ℕ)
  | fromLast (count : ℕ)
  deriving DecidableEq

/-- Where a requested range ends. -/
inductive EndPosition where
  | index (last : ℕ)
  | lastByte
  deriving DecidableEq

/-- A range of a `Range` header. -/
structure RangeRequest where
  first : StartPosition
  last : EndPosition
  deriving DecidableEq

/-- Why output was not served. -/
inductive JobOutputError where
  | tooManyOutputRequests (limit : ℕ)
  | outputFileMissing
  | invalidRange (len : ℕ)
  | outputTooBig
  /-- A length overflowed. -/
  | overflow
  deriving DecidableEq

/-- How many bytes from `start` on a range is. -/
def rangeLength (len start : ℕ) : EndPosition → Except JobOutputError ℕ
  | .index last =>
    if last < len ∧ last ≥ start then
      match (subU64 last start).bind (addU64 · 1) with
      | some n => .ok n
      | none => .error .overflow
    else .error (.invalidRange len)
  | .lastByte =>
    match subU64 len start with
    | some n => .ok n
    | none => .error .overflow

/-- `JobOutputDir::job_output`: the bytes of a file, or of a range of it, that a request is answered
with. -/
def jobOutput (permit : Bool) (file : Option (List UInt8)) (range : Option RangeRequest) :
    Except JobOutputError (List UInt8) :=
  if !permit then .error (.tooManyOutputRequests maxOutputPermits)
  else
    match file, range with
    | none, _ => .error .outputFileMissing
    | some bytes, some ⟨.index start, last⟩ =>
      if start < bytes.length then do
        let n ← rangeLength bytes.length start last
        if n > min bytes.length outputThreshold then .error (.invalidRange bytes.length)
        else .ok ((bytes.drop start).take n)
      else .error (.invalidRange bytes.length)
    | some bytes, some ⟨.fromLast _, _⟩ => .error (.invalidRange bytes.length)
    | some bytes, none =>
      if bytes.length > outputThreshold then .error .outputTooBig else .ok (bytes.take bytes.length)

end Sush
