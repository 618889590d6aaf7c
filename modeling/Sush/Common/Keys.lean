import Sush.World

/-!
# Signed envelopes

`common/src/keys.rs`: a `Signed` payload carries the key it claims and a signature; a `Verified` one
also names the key that verified it. Key decoding and signature verification themselves are
parameters of the model, in `Sush.Server.Certs`.
-/

namespace Sush

variable [World]

/-- A signature as it travels: the two halves of an ECDSA or Ed25519 signature, and the trailer of
a security key. -/
structure EncodedSignature where
  r : BitVec 256
  s : BitVec 256
  flags : UInt8
  counter : UInt32
  deriving DecidableEq

/-- Why a key, a certificate or a signature was refused. The last case stands for what decoding and
signature verification report. -/
inductive KeyError where
  | missingCert (keyId : KeyId)
  | unanchoredCert (keyId : KeyId)
  | crypto (message : String)
  deriving DecidableEq

/-- A signed envelope around some data. -/
structure Signed (T : Type) where
  payload : T
  keyId : KeyId
  signature : EncodedSignature
  deriving DecidableEq

/-- An envelope whose signature has been verified. -/
structure Verified (T : Type) where
  signed : Signed T
  verifiedBy : KeyId
  deriving DecidableEq

/-- The data in a verified envelope. -/
def Verified.payload {T : Type} (v : Verified T) : T := v.signed.payload

end Sush
