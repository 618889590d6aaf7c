import Sush.Common.Cbor

/-!
# Versioned durable formats

`server/src/format.rs`. Every format names the one it supersedes, and how to convert from it. A record
is stored as an array of its version and its body, and `decode` looks for the format of that version,
from the latest one down, parses the body as that format, and converts the result up.

`Formats` are the types that implement `Record`, with `NoFormat` as `none`. Nothing keeps a format
from superseding itself but the compile-time assertion that versions increase, which is
`Formats.Increasing`. So the recursion of `walk` has a depth that it may exhaust.
-/

namespace Sush

/-- Why a record could not be read. -/
inductive FormatError where
  | envelope
  | future (version : U16)
  | unknown (version : U16)
  | body (version : U16) (message : String)
  | convert («from» : U16) (message : String)
  deriving DecidableEq

/-- The types that implement `Record`, but for `NoFormat`. -/
structure Formats where
  Record : Type
  Carrier : Record → Type
  version : Record → U16
  /-- `into_cbor`, of a value. -/
  serialize : ∀ r, Carrier r → List UInt8
  /-- `from_cbor`, of a body. The error is its text. -/
  deserialize : ∀ r, List UInt8 → Except String (Carrier r)
  /-- The format this one supersedes, or `NoFormat`. -/
  previous : Record → Option Record
  /-- The conversion from the format this one supersedes. -/
  tryInto : ∀ {r p}, previous r = some p → Carrier p → Except String (Carrier r)

/-! ## The version envelope -/

/-- `Envelope`, written as a value. -/
def versionEnvelope (version : U16) (body : List UInt8) : Cbor :=
  .array [.ofU16 version, .bytes body]

section Ciborium

variable [Ciborium]

def visitSeq (elements : List Cbor) : Option (U16 × List UInt8) :=
  match elements with
  | [version, body] => do
    let version ← Ciborium.u16 version
    let body ← Ciborium.byteString body
    return (version, body)
  | _ => none

/-- The version and the body that bytes hold. -/
def readEnvelope (bytes : List UInt8) : Option (U16 × List UInt8) := do
  let value ← Ciborium.read bytes
  visitSeq (← Ciborium.seq value)

end Ciborium

namespace Formats

variable (F : Formats)

/-- `Record::walk`, and `NoFormat::walk` at the end of the chain, at most `depth` formats down. -/
def walk : ℕ → (r : F.Record) → U16 → List UInt8 → Option (Except FormatError (F.Carrier r))
  | 0, _, _, _ => none
  | depth + 1, r, version, body =>
    if version = F.version r then some ((F.deserialize r body).mapError (.body version))
    else
      match h : F.previous r with
      | none => some (.error (.unknown version))
      | some p => (walk depth p version body).map fun previous =>
        previous.bind fun old => (F.tryInto h old).mapError (.convert (F.version p))

variable [Ciborium]

/-- Encode a value, inside the version envelope. -/
def encode (r : F.Record) (value : F.Carrier r) : List UInt8 :=
  Ciborium.write (versionEnvelope (F.version r) (F.serialize r value))

/-- Decode a record at whatever version it was stored, converting up the chain to `r`. -/
def decode (depth : ℕ) (r : F.Record) (bytes : List UInt8) :
    Option (Except FormatError (F.Carrier r)) :=
  match readEnvelope bytes with
  | none => some (.error .envelope)
  | some (version, body) =>
    if F.version r < version then some (.error (.future version))
    else F.walk depth r version body

end Formats

end Sush
