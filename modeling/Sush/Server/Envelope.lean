import Sush.Common.Signing
import Sush.Lib.Cursor
import Sush.Server.Locker

/-!
# Slot envelopes as bytes

`server/src/locker.rs`, `Envelope::encode` and `Envelope::decode`: the magic of the tenant, the
version of the format, four length-prefixed fields, a length-prefixed digest of all that and of the
record, and the record. What would panic in the decoder is modelled: the subtraction and the slice
that find the bytes before the digest.
-/

namespace Sush

open Lib (utf8)

/-- A tenant's magic: twelve bytes. -/
structure Magic where
  bytes : List UInt8
  length_bytes : bytes.length = 12
  deriving DecidableEq

/-- A panic. -/
inductive Panic where
  | subtractWithOverflow
  | sliceOutOfRange
  deriving DecidableEq

/-- `a - b` on `usize`. -/
def checkedSub (a b : ℕ) : Except Panic ℕ :=
  if b ≤ a then .ok (a - b) else .error .subtractWithOverflow

/-- `&bytes[..n]` -/
def sliceTo (bytes : List UInt8) (n : ℕ) : Except Panic (List UInt8) :=
  if n ≤ bytes.length then .ok (bytes.take n) else .error .sliceOutOfRange

/-- `Nonce::from_be_bytes` -/
def nonceFromBeBytes (bytes : List UInt8) : Nonce := canonical 88 (Lib.ofBigEndian bytes)

namespace Envelope

def version : ℕ := 1

def nonceLen : ℕ := 32

def digestLen : ℕ := 32

/-- Append one length-prefixed field, truncated to the prefix's 16-bit width. -/
def put (bytes field : List UInt8) : List UInt8 :=
  let field := field.take (min field.length 65535)
  bytes ++ Lib.bigEndian 2 field.length ++ field

/-- Split off one length-prefixed field. -/
def take (bytes : List UInt8) : Option (List UInt8 × List UInt8) := Lib.takeField 2 bytes

variable [Digest]

/-- Hash the bytes before the digest field, then the record after it. -/
def digest (before record : List UInt8) : List UInt8 :=
  toBeBytes ((Hasher.new.updateWithLen before).updateWithLen record).finalize

variable [World] [Phrases]

def encode (magic : Magic) (nonce : Nonce) (seq : ℕ) (baseboard : BaseboardId)
    (record : List UInt8) : List UInt8 :=
  let fields := [toBeBytes nonce, Lib.bigEndian 8 seq, utf8 (Phrases.baseboardId baseboard).1,
    utf8 (Phrases.baseboardId baseboard).2]
  let bytes := magic.bytes ++ Lib.bigEndian 2 version
  let bytes := fields.foldl put bytes
  put bytes (digest bytes record) ++ record

/-- The fields before the digest, as they stand in the bytes. -/
structure Fields where
  nonce : List UInt8
  seq : List UInt8
  part : List UInt8
  serial : List UInt8

/-- `decode` up to the last field before the digest: the fields, and the bytes that are left. -/
def decodeFields (magic : Magic) (bytes : List UInt8) : Option (Fields × List UInt8) := do
  let rest ← Lib.takeThis magic.bytes bytes
  let (stored, rest) ← Lib.takeNat 2 rest
  guard (stored = version)
  let (nonce, rest) ← take rest
  guard (nonce.length = nonceLen)
  let (seq, rest) ← take rest
  guard (seq.length = 8)
  let (part, rest) ← take rest
  let (serial, rest) ← take rest
  return (⟨nonce, seq, part, serial⟩, rest)

/-- `decode` from the digest on. `before` are the bytes before the digest, `rest` the others. -/
def decodeRecord (fields : Fields) (before rest : List UInt8) : Option Envelope := do
  let (found, record) ← take rest
  guard (found.length = digestLen)
  let partNumber ← Lib.ofUtf8 fields.part
  let serialNumber ← Lib.ofUtf8 fields.serial
  guard (digest before record = found)
  return {
    nonce := nonceFromBeBytes fields.nonce
    seq := Lib.ofBigEndian fields.seq
    baseboard := Phrases.baseboardId.symm (partNumber, serialNumber)
    record := record }

def decode (magic : Magic) (bytes : List UInt8) : Except Panic (Option Envelope) :=
  match decodeFields magic bytes with
  | none => .ok none
  | some (fields, rest) => do
    let before ← sliceTo bytes (← checkedSub bytes.length rest.length)
    return decodeRecord fields before rest

end Envelope

/-- What `Guard::load` makes of a file with these bytes. -/
def SlotRead.ofBytes [Digest] [World] [Phrases] (magic : Magic) (bytes : List UInt8) : SlotRead :=
  match Envelope.decode magic bytes with
  | .ok (some envelope) => .holds envelope
  | _ => .corrupt

end Sush
