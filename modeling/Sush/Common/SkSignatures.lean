import Sush.Common.Keys
import Sush.Lib.Magnitude

/-!
# Signatures of security keys

`common/src/keys.rs`, `EncodedSignature::decode_with_ssh_public_key` and `Signature::encode`. A
signature that travels is two numbers and the trailer of a security key. For SSH it is bytes: two
length-prefixed integers (`Mpint`) or two times 32 bytes, then the flags and the counter.

What would panic is modelled: the slices, the reads of a `Buf` that is too short, the copy between
slices of different lengths and the assertion. What the `ssh-key` crate does is a parameter, `SshKey`.
-/

namespace Sush

/-- The algorithm of an SSH key. -/
inductive SshAlgorithm where
  | ecdsaNistP256
  | ed25519
  | skEcdsaSha2NistP256
  | skEd25519
  | other (name : String)
  deriving DecidableEq

def SshAlgorithm.isSkAlgorithm : SshAlgorithm → Bool
  | skEcdsaSha2NistP256 | skEd25519 => true
  | _ => false

/-- `ssh_key::Mpint`: an integer by its bytes in two's complement. -/
structure Mpint where
  bytes : List UInt8
  deriving DecidableEq

/-- `Mpint::from_positive_bytes`. Zeros in front are stripped, and one is added when the top bit is set.
This leaves nothing that it could refuse. -/
def Mpint.fromPositiveBytes (bytes : List UInt8) : Mpint :=
  let magnitude := Lib.magnitude bytes
  if 128 ≤ magnitude.headD 0 then ⟨0 :: magnitude⟩ else ⟨magnitude⟩

/-- `ssh_key::Signature`: some bytes under an algorithm. -/
structure SshSignature where
  algorithm : SshAlgorithm
  data : List UInt8
  deriving DecidableEq

/-- What the crates do that read and check signatures. -/
class SshKey where
  /-- `Mpint::as_positive_bytes`. -/
  asPositiveBytes : Mpint → Option (List UInt8)
  /-- It undoes `from_positive_bytes` for numbers other than zero. -/
  asPositiveBytes_fromPositiveBytes (bytes : List UInt8) : Lib.ofBigEndian bytes ≠ 0 →
    asPositiveBytes (.fromPositiveBytes bytes) = some (Lib.magnitude bytes)
  /-- The error of `ssh_key::Signature::new`, if it refuses the bytes. -/
  refuses : SshAlgorithm → List UInt8 → Option String
  /-- The error of `ecdsa::Signature::from_scalars`, if it refuses the scalars. -/
  refusesScalars : List UInt8 → List UInt8 → Option String

/-- What is reported of a signature that cannot be decoded or encoded: these cases of `KeyError`. -/
inductive SignatureError where
  | invalidPublicKeyAlgorithm
  | invalidSignatureEncoding
  | signature (error : String)
  | signatureTooShort
  | sshKey (error : String)
  deriving DecidableEq

/-- A decoded signature. -/
inductive Signature where
  | ecdsaSha256 (r s : List UInt8)
  | ed25519 (r s : List UInt8)
  | skEcdsaSha256 (signature : SshSignature)
  | skEd25519 (signature : SshSignature)
  deriving DecidableEq

/-! ## Decoding -/

/-- `EccR::to_be_bytes` -/
def eccBytes (x : BitVec 256) : List UInt8 := Lib.bigEndian 32 x.toNat

/-- `EccR::from_be_bytes` -/
def eccFromBeBytes (bytes : List UInt8) : BitVec 256 := BitVec.ofNat 256 (Lib.ofBigEndian bytes)

/-- Append one SSH mpint, encoded from positive big-endian bytes. -/
def putMpint (buf bytes : List UInt8) : List UInt8 :=
  let bytes := (Mpint.fromPositiveBytes bytes).bytes
  buf ++ Lib.bigEndian 4 bytes.length ++ bytes

/-- `bytes.put_u8(flags); bytes.put_u32(counter)` -/
def putTrailer (buf : List UInt8) (flags : UInt8) (counter : UInt32) : List UInt8 :=
  buf ++ [flags] ++ Lib.bigEndian 4 counter.toNat

def SshSignature.new [SshKey] (algorithm : SshAlgorithm) (data : List UInt8) :
    Except SignatureError SshSignature :=
  match SshKey.refuses algorithm data with
  | some error => .error (.sshKey error)
  | none => .ok ⟨algorithm, data⟩

def EncodedSignature.decodeWithSshPublicKey [SshKey] (e : EncodedSignature) (algorithm : SshAlgorithm) :
    Except SignatureError Signature :=
  let r := eccBytes e.r
  let s := eccBytes e.s
  match algorithm with
  | .ecdsaNistP256 =>
    match SshKey.refusesScalars r s with
    | some error => .error (.signature error)
    | none => .ok (.ecdsaSha256 r s)
  | .ed25519 => .ok (.ed25519 r s)
  | .skEcdsaSha2NistP256 =>
    let bytes := putTrailer (putMpint (putMpint [] r) s) e.flags e.counter
    (SshSignature.new algorithm bytes).map .skEcdsaSha256
  | .skEd25519 =>
    let bytes := putTrailer (r ++ s) e.flags e.counter
    (SshSignature.new algorithm bytes).map .skEd25519
  | .other _ => .error .invalidPublicKeyAlgorithm

/-! ## Encoding -/

/-- Why a function of this module gives no result. -/
inductive Fault where
  | panicked
  | failed (error : SignatureError)
  deriving DecidableEq

/-- `slice.split_at(n)` -/
def splitAt (n : ℕ) (bytes : List UInt8) : Except Fault (List UInt8 × List UInt8) :=
  if n ≤ bytes.length then .ok (bytes.take n, bytes.drop n) else .error .panicked

/-- `Buf::get_u8` and `Buf::get_u32`: a number of `k` bytes off the front. -/
def getUint (k : ℕ) (buf : List UInt8) : Except Fault (ℕ × List UInt8) :=
  (Lib.takeNat k buf).elim (.error .panicked) .ok

def copyToBytes (n : ℕ) (buf : List UInt8) : Except Fault (List UInt8 × List UInt8) :=
  (Lib.takeBytes n buf).elim (.error .panicked) .ok

/-- `slice.copy_from_slice(bytes)`: what then stands in the slice. -/
def copyFromSlice (slice bytes : List UInt8) : Except Fault (List UInt8) :=
  if slice.length = bytes.length then .ok bytes else .error .panicked

/-- A `U256` from up to 32 big-endian bytes. -/
def u256Be (bytes : List UInt8) : Except Fault (List UInt8) :=
  if bytes.length ≤ 32 then do
    let pad := 32 - bytes.length
    let (front, back) ← splitAt pad (List.replicate 32 0)
    return front ++ (← copyFromSlice back bytes)
  else .error (.failed .invalidSignatureEncoding)

/-- Take one SSH mpint off the front of `buf`. -/
def getMpint (buf : List UInt8) : Except Fault (Mpint × List UInt8) := do
  let (length, buf) ← (Lib.takeNat 4 buf).elim (.error (.failed .invalidSignatureEncoding)) .ok
  if buf.length < length then .error (.failed .invalidSignatureEncoding)
  else
    let (blob, buf) ← copyToBytes length buf
    return (.fromPositiveBytes blob, buf)

/-- The length of the flags and the counter. -/
def trailerLen : ℕ := 1 + 4

/-- Decode an `SK-*` signature into `(signature, flags, counter)`. -/
def skSplit (rawSignature : List UInt8) : Except Fault (List UInt8 × UInt8 × UInt32) :=
  let n := rawSignature.length
  if n < trailerLen then .error (.failed .signatureTooShort)
  else do
    let (signature, trailer) ← splitAt (n - trailerLen) rawSignature
    let (flags, trailer) ← getUint 1 trailer
    let (counter, trailer) ← getUint 4 trailer
    if trailer = [] then return (signature, UInt8.ofNat flags, UInt32.ofNat counter)
    else .error .panicked

/-- The number of an mpint in 32 bytes. -/
def mpintBe [SshKey] (m : Mpint) : Except Fault (List UInt8) := do
  let bytes ← (SshKey.asPositiveBytes m).elim (.error (.failed .invalidSignatureEncoding)) .ok
  u256Be bytes

def Signature.encode [SshKey] : Signature → Except Fault EncodedSignature
  | .ecdsaSha256 r s => .ok ⟨eccFromBeBytes r, eccFromBeBytes s, 0, 0⟩
  | .ed25519 r s => .ok ⟨eccFromBeBytes r, eccFromBeBytes s, 0, 0⟩
  | .skEcdsaSha256 signature => do
    let (signature, flags, counter) ← skSplit signature.data
    let (r, signature) ← getMpint signature
    let (s, _) ← getMpint signature
    return ⟨eccFromBeBytes (← mpintBe r), eccFromBeBytes (← mpintBe s), flags, counter⟩
  | .skEd25519 signature => do
    let (signature, flags, counter) ← skSplit signature.data
    -- `Ed25519Signature::from_slice`
    if signature.length = 64 then
      return ⟨eccFromBeBytes (signature.take 32), eccFromBeBytes (signature.drop 32), flags, counter⟩
    else .error (.failed (.signature "signature error"))

end Sush
