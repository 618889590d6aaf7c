import Sush.Common.Cbor
import Sush.Server.Messages

/-!
# Gossip messages as CBOR

`server/src/messages.rs`, how a `VersionedMessage` is written and read. A message of version 0 is a
map from `V0` to its body. Any other text, and a map with any other text for its first key, is a
message of a newer build: what was received is kept as bytes, and written again from them.

How `serde` writes the body of version 0 is derived, and is taken as `MessageCodec`.
-/

namespace Sush

variable [World]

/-- The body of a message of version 0. -/
class MessageCodec where
  serialize : Message → Cbor
  deserialize : Cbor → Option Message
  deserialize_serialize : ∀ message, deserialize (serialize message) = some message

attribute [simp] MessageCodec.deserialize_serialize

/-- Why a value is not a message. -/
inductive MessageError where
  | invalidType (expected : String)
  | custom (message : String)
  | invalidKey
  | invalidBody
  deriving DecidableEq

namespace VersionedMessage

variable [Ciborium]

def visitStr (version : String) : VersionedMessage :=
  unknown version (Ciborium.write (.text version))

variable [MessageCodec]

/-- Write a message. `none` is the panic of `expect`, where the bytes of a newer message are not a
value. -/
def serialize : VersionedMessage → Option Cbor
  | v0 message => some (.map [(.text "V0", MessageCodec.serialize message)])
  -- emit what was received
  | unknown _ message => Ciborium.read message

/-- `VersionVisitor::visit_map`. Entries after the first are not read. -/
def visitMap : List (Cbor × Cbor) → Except MessageError VersionedMessage
  | [] => .error (.custom "a versioned message without a version")
  | (key, value) :: _ =>
    match Ciborium.string key with
    | none => .error .invalidKey
    | some version =>
      if version = "V0" then
        match MessageCodec.deserialize value with
        | some message => .ok (v0 message)
        | none => .error .invalidBody
      else
        let whole := Cbor.map [(.text version, value)]
        .ok (unknown version (Ciborium.write whole))

def deserialize (value : Cbor) : Except MessageError VersionedMessage :=
  match Ciborium.visit value with
  | .map entries => visitMap entries
  | .str version => .ok (visitStr version)
  | .other => .error (.invalidType "a versioned message")

end VersionedMessage

end Sush
