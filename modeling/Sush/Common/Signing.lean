import Sush.Common.Jobs
import Sush.Common.TargetText

/-!
# What is hashed

`common/src/hash.rs`, the `ToBeSignedFields` of `common/src/keys.rs`, and the hashes of
`common/src/jobs.rs`. A hasher is the bytes it was fed. Signed payloads and session identifiers are
hashed as sequences of length-prefixed fields, a chain position as a word and 32 bytes with nothing
between them.

The digest itself is a parameter, `Digest`. With it the identifiers of `Sush.Common.Jobs` are the
truncated digests they are in the source: `digestHashing`.
-/

namespace Sush

open Lib (utf8)

/-! ## Hashers -/

/-- A digest of 256 bits. -/
abbrev Hash : Type := Fin (2 ^ 256)

/-- The digest, SHA3-256 in the source. -/
class Digest where
  hash : List UInt8 → Hash

export Digest (hash)

/-- A hasher: the bytes it was fed. -/
structure Hasher where
  bytes : List UInt8

namespace Hasher

def new : Hasher := ⟨[]⟩

def update (hasher : Hasher) (bytes : List UInt8) : Hasher := ⟨hasher.bytes ++ bytes⟩

/-- Append length-prefixed bytes. -/
def updateWithLen (hasher : Hasher) (bytes : List UInt8) : Hasher :=
  (hasher.update (Lib.bigEndian 8 bytes.length)).update bytes

/-- How many bytes there were, in 64 bits. -/
def count (hasher : Hasher) : UInt64 := UInt64.ofNat hasher.bytes.length

def finalize [Digest] (hasher : Hasher) : Hash := hash hasher.bytes

@[simp] theorem bytes_new : new.bytes = [] := rfl

@[simp] theorem bytes_updateWithLen (hasher : Hasher) (bytes : List UInt8) :
    (hasher.updateWithLen bytes).bytes = hasher.bytes ++ Lib.frame bytes := by
  simp [updateWithLen, update, Lib.frame]

end Hasher

/-- Labeled, length-prefixed fields. -/
structure ToBeSignedFields where
  hasher : Hasher

namespace ToBeSignedFields

/-- Start with the name of a type. -/
def new (typeName : String) : ToBeSignedFields := ⟨Hasher.new.updateWithLen (utf8 typeName)⟩

/-- Append a label and a value. -/
def field (fields : ToBeSignedFields) (label : String) (value : List UInt8) : ToBeSignedFields :=
  ⟨(fields.hasher.updateWithLen (utf8 label)).updateWithLen value⟩

/-- The bytes to be signed: the digest of the fields. -/
def finish [Digest] (fields : ToBeSignedFields) : List UInt8 := toBeBytes fields.hasher.finalize

@[simp] theorem bytes_new (typeName : String) :
    (new typeName).hasher.bytes = Lib.frames [utf8 typeName] := by
  simp [new]

@[simp] theorem bytes_field (fields : ToBeSignedFields) (label : String) (value : List UInt8) :
    (fields.field label value).hasher.bytes =
      fields.hasher.bytes ++ Lib.frames [utf8 label, value] := by
  simp [field]

end ToBeSignedFields

/-! ## Jobs -/

namespace JobMode

def isBatch (mode : JobMode) : Bool := mode = batch

def asStr : JobMode → String
  | batch => "batch"
  | interactive => "interactive"
  | streamInput => "stream-input"
  | streamOutput => "stream-output"

theorem asStr_inj {a b : JobMode} : a.asStr = b.asStr ↔ a = b := by
  refine ⟨fun h => ?_, congrArg _⟩
  cases a <;> cases b <;> first | rfl | exact absurd h (by decide)

end JobMode

section Preimages

variable [World] [Phrases]

def Target.isAll (target : Target) : Bool := target = .all

namespace JobStartRequest

/-- The labeled fields of a request, without those at their defaults. -/
def toBeSignedFields (request : JobStartRequest) : ToBeSignedFields :=
  let fields := ToBeSignedFields.new "sush_common::jobs::JobStartRequest"
    |>.field "job_id" (jobIdBytes request.jobId)
    |>.field "session_id" (sessionIdBytes request.sessionId)
    |>.field "command" (utf8 request.command)
  let fields :=
    if request.mode.isBatch then fields else fields.field "mode" (utf8 request.mode.asStr)
  if request.target.isAll then fields else fields.field "target" (utf8 request.target.display)

/-- What the digest of a request is of. -/
def preimage (request : JobStartRequest) : List UInt8 := request.toBeSignedFields.hasher.bytes

def toBeSigned [Digest] (request : JobStartRequest) : List UInt8 := request.toBeSignedFields.finish

/-- The fields that `preimage` frames. -/
def fields (request : JobStartRequest) : List (List UInt8) :=
  [utf8 "sush_common::jobs::JobStartRequest", utf8 "job_id", jobIdBytes request.jobId,
    utf8 "session_id", sessionIdBytes request.sessionId, utf8 "command", utf8 request.command] ++
  (if request.mode.isBatch then [] else [utf8 "mode", utf8 request.mode.asStr]) ++
  (if request.target.isAll then [] else [utf8 "target", utf8 request.target.display])

theorem preimage_eq_frames (request : JobStartRequest) :
    request.preimage = Lib.frames request.fields := by
  unfold preimage toBeSignedFields fields
  split <;> split <;> simp

end JobStartRequest

/-! ## Sessions and the chain -/

namespace SessionPreimage

/-- The hasher that `SessionPreimage::session_id` feeds. -/
def hasher (p : SessionPreimage) : Hasher :=
  Hasher.new
    |>.updateWithLen (utf8 "SUSH_SESSION_ID_V2")
    |>.updateWithLen (utf8 "baseboard_id")
    |>.updateWithLen (utf8 (Phrases.baseboardId p.baseboard).1)
    |>.updateWithLen (utf8 (Phrases.baseboardId p.baseboard).2)
    |>.updateWithLen (utf8 "sush_nonce")
    |>.updateWithLen (toBeBytes p.sushNonce)
    |>.updateWithLen (utf8 "signer_nonce")
    |>.updateWithLen (toBeBytes p.signerNonce)
    |>.updateWithLen (utf8 "seq")
    |>.updateWithLen (toBeBytes p.seq)

/-- What the digest of a session is of. -/
def preimage (p : SessionPreimage) : List UInt8 := p.hasher.bytes

/-- The fields that `preimage` frames. -/
def fields (p : SessionPreimage) : List (List UInt8) :=
  [utf8 "SUSH_SESSION_ID_V2", utf8 "baseboard_id", utf8 (Phrases.baseboardId p.baseboard).1,
    utf8 (Phrases.baseboardId p.baseboard).2, utf8 "sush_nonce", toBeBytes p.sushNonce,
    utf8 "signer_nonce", toBeBytes p.signerNonce, utf8 "seq", toBeBytes p.seq]

theorem preimage_eq_frames (p : SessionPreimage) : p.preimage = Lib.frames p.fields := by
  simp [preimage, hasher, fields]

end SessionPreimage

/-- A place on the chain of jobs, as it is hashed into the next identifier. -/
inductive ChainLink where
  | none (sessionId : SessionId)
  | some (request : Hash)
  | burned (jobId : JobId)
  deriving DecidableEq

/-- What the digest of the next job's identifier is of. -/
def ChainLink.preimage : ChainLink → List UInt8
  | none sessionId => utf8 "None" ++ sessionIdBytes sessionId
  | some request => utf8 "Some" ++ toBeBytes request
  | burned jobId => utf8 "Burned" ++ jobIdBytes jobId

/-- The place that `SessionId::next_job_id` hashes; a resumed chain hashes nothing. -/
def LastJob.link [Digest] (sessionId : SessionId) : LastJob → Option ChainLink
  | .none => Option.some (.none sessionId)
  | .some job => Option.some (.some (hash job.payload.preimage))
  | .burned jobId => Option.some (.burned jobId)
  | .resumed _ => Option.none

/-- Identifiers as truncated digests. -/
abbrev digestHashing [Digest] : Hashing where
  sessionId p := Phrases.sessionId.symm (canonical 88 p.hasher.finalize)
  first s := Phrases.jobId.symm (canonical 88 (hash (ChainLink.none s).preimage))
  after r := Phrases.jobId.symm (canonical 88 (hash (utf8 "Some" ++ r.toBeSigned)))
  burned j := Phrases.jobId.symm (canonical 88 (hash (ChainLink.burned j).preimage))

end Preimages

/-! ## Nonce pairs -/

namespace SessionSushNonce

/-- The hasher that `SessionSushNonce::compute` feeds. -/
def hasher (client server : Nonce) : Hasher :=
  Hasher.new
    |>.updateWithLen (utf8 "SUSH_SESSION_NONCE_V2")
    |>.updateWithLen (utf8 "client_nonce")
    |>.updateWithLen (toBeBytes client)
    |>.updateWithLen (utf8 "server_nonce")
    |>.updateWithLen (toBeBytes server)

def compute [Digest] (client server : Nonce) : Nonce := canonical 88 (hasher client server).finalize

/-- What the digest of a nonce pair is of. -/
def preimage (client server : Nonce) : List UInt8 := (hasher client server).bytes

/-- The fields that `preimage` frames. -/
def fields (client server : Nonce) : List (List UInt8) :=
  [utf8 "SUSH_SESSION_NONCE_V2", utf8 "client_nonce", toBeBytes client, utf8 "server_nonce",
    toBeBytes server]

theorem preimage_eq_frames (client server : Nonce) :
    preimage client server = Lib.frames (fields client server) := by
  simp [preimage, hasher, fields]

end SessionSushNonce

end Sush
