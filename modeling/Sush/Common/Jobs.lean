import Sush.Lib.Chain
import Sush.Common.Keys
import Sush.Common.Targets

/-!
# Sessions, jobs and the hash chain

`common/src/jobs.rs`. A session identifier is the hash of a `SessionPreimage`. The jobs of a session
form a chain: the identifier of the next job is a hash of the session (`LastJob.none`), of the last
job's signed bytes (`LastJob.some`), or of the identifier a skip burned (`LastJob.burned`); a session
resumed after a restart stands at a stored identifier (`LastJob.resumed`).

The hash functions are the class `Hashing`. That they do not collide, and that no identifier is
hidden inside its own preimage, is the separate class `CollisionFree`: identifiers then behave as
free terms over what was hashed.
-/

namespace Sush

variable [World]

/-- A session's place in the signer-assigned order: four code phrase words. -/
abbrev SessionSeq : Type := Fin (2 ^ 44)

-- for numerals of sequence numbers
instance neZero_two_pow_44 : NeZero (2 ^ 44) := inferInstance

/-- A nonce of eight code phrase words. -/
abbrev Nonce : Type := Fin (2 ^ 88)

-- for numerals of nonces
instance neZero_two_pow_88 : NeZero (2 ^ 88) := inferInstance

/-- The material a session identifier hashes over. -/
structure SessionPreimage where
  baseboard : BaseboardId
  sushNonce : Nonce
  signerNonce : Nonce
  seq : SessionSeq
  deriving DecidableEq

/-- How a job runs. -/
inductive JobMode where
  | batch
  | interactive
  | streamInput
  | streamOutput
  deriving DecidableEq

/-- A request to run `command` as `jobId`. -/
structure JobStartRequest where
  jobId : JobId
  sessionId : SessionId
  command : String
  mode : JobMode
  target : Target
  deriving DecidableEq

/-- An interactive job names exactly one sled. -/
def JobStartRequest.targetMatchesMode (request : JobStartRequest) : Bool :=
  request.target.isSingle || request.mode != .interactive

abbrev SignedJob : Type := Signed JobStartRequest
abbrev VerifiedJob : Type := Verified JobStartRequest

/-! ## Hashes -/

/-- The hashes that make identifiers. -/
class Hashing where
  /-- `SessionPreimage::session_id`. -/
  sessionId : SessionPreimage → SessionId
  /-- The hash of `"None"` and a session's bytes. -/
  first : SessionId → JobId
  /-- The hash of `"Some"` and the bytes a job's signature covers. -/
  after : JobStartRequest → JobId
  /-- The hash of `"Burned"` and a job identifier's bytes. -/
  burned : JobId → JobId

export Hashing (first after burned)

variable [Hashing]

def SessionPreimage.sessionId (p : SessionPreimage) : SessionId := Hashing.sessionId p

/-- The identifiers as positions of a chain: a job stands at the identifier it carries. -/
def jobChain : Lib.SkipChain JobId JobStartRequest where
  pos := JobStartRequest.jobId
  after := after
  burned := burned

/-- Identifiers are free terms over their hash preimages: no two preimages collide, and no
identifier is hashed, however indirectly, into itself. -/
class CollisionFree : Prop where
  sessionId_injective : Function.Injective SessionPreimage.sessionId
  first_injective : Function.Injective first
  first_ne_after : ∀ s r, first s ≠ after r
  first_ne_burned : ∀ s j, first s ≠ burned j
  chain_free : jobChain.Free

/-! ## Sessions -/

/-- What the chain of a session last moved past. -/
inductive LastJob where
  | none
  | some (job : SignedJob)
  | burned (jobId : JobId)
  | resumed (next : JobId)
  deriving DecidableEq

def nextJobId (sessionId : SessionId) : LastJob → JobId
  | .none => first sessionId
  | .some job => after job.payload
  | .burned jobId => burned jobId
  | .resumed next => next

/-- A session: its identifier, its place on the chain, and the key that started it. -/
structure Session where
  sessionId : SessionId
  lastJob : LastJob
  startedBy : Option KeyId
  deriving DecidableEq

namespace Session

/-- A session at the head of its chain, started by `actor`. -/
def started (sessionId : SessionId) (actor : KeyId) : Session :=
  { sessionId, lastJob := .none, startedBy := some actor }

/-- The identifier the next job of the session must carry. -/
def nextJobId (s : Session) : JobId := Sush.nextJobId s.sessionId s.lastJob

/-- Move the chain past `job`. -/
def jobStarted (s : Session) (job : SignedJob) : Session := { s with lastJob := .some job }

/-- Whether a skip of `jobId` applies: it names the next job or the job at the chain head. -/
def canSkip (s : Session) (jobId : JobId) : Bool :=
  jobId = s.nextJobId ||
    match s.lastJob with
    | .some job => job.payload.jobId = jobId
    | _ => false

/-- Burn `jobId` when it is the next job or the job at the chain head. The flag says whether the
chain moved. -/
def skipJob (s : Session) (jobId : JobId) : Session × Bool :=
  if s.canSkip jobId then ({ s with lastJob := .burned jobId }, true) else (s, false)

/-- Resume the chain at `successor`. -/
def resumeAt (s : Session) (successor : JobId) : Session :=
  { s with lastJob := .resumed successor }

end Session

/-! ## Statuses -/

inductive JobOutputStream where
  | stdout
  | stderr
  deriving DecidableEq

/-- What went wrong running a job's process or interactive session. -/
inductive ProcessError where
  | unknown
  | killed (signal : Int32)
  | interactive (message : String)
  | invalidCommand
  | invalidJob (message : String)
  | io (what error : String)
  | outputLimitExceeded (stream : JobOutputStream) (limit : UInt64)
  | join (message : String)
  | interrupted
  deriving DecidableEq

/-- Why a sled will never run a job. -/
inductive SkipReason where
  | sessionSuperseded
  | sessionEnded
  | notTargeted
  | cubbyUnknown
  deriving DecidableEq

/-- Lengths and checksums of a job's recorded output. -/
structure JobOutputState where
  stdoutLen : UInt64
  stderrLen : UInt64
  stdoutHash : BitVec 256
  stderrHash : BitVec 256
  deriving DecidableEq

/-- The last known status of a job on one sled. -/
inductive JobStatus where
  | cancelled (jobId : JobId) (timeCancelled : DateTime) (actor : KeyId)
  | queued (jobId : JobId) (timeQueued : DateTime) (actor : KeyId)
  | error (jobId : JobId) (timeError : DateTime) (error : ProcessError)
  | started (jobId : JobId) (timeStarted : DateTime)
  | stopped (jobId : JobId) (timeStarted timeStopped : DateTime)
      (result : Except ProcessError Int32) (output : JobOutputState)
  | skipped (jobId : JobId) (timeSkipped : DateTime) (reason : SkipReason)
  deriving DecidableEq

/-- The job that a status is of. -/
def JobStatus.jobId : JobStatus → JobId
  | cancelled jobId _ _ | queued jobId _ _ | error jobId _ _ | started jobId _
  | stopped jobId _ _ _ _ | skipped jobId _ _ => jobId

/-- The most recent timestamp recorded for this status. -/
def JobStatus.time : JobStatus → DateTime
  | cancelled _ time _ | queued _ time _ | error _ time _ | started _ time | stopped _ _ time _ _
  | skipped _ time _ => time

/-- Whether this status is an ending. -/
def JobStatus.isTerminal : JobStatus → Bool
  | cancelled .. | error .. | stopped .. | skipped .. => true
  | queued .. | started .. => false

/-- A job's status on each sled that reported one. -/
abbrev JobStatusMap : Type := BTreeMap BaseboardId JobStatus

/-- Attach access to a session's interactive jobs. -/
inductive Access where
  | readOnly
  | readWrite
  deriving DecidableEq

/-- Limits on job processes. -/
structure JobLimits where
  maxCpu : UInt64
  maxMem : UInt64
  maxFsize : UInt64
  deriving DecidableEq

/-- Whether and until what state a submitter waits. -/
inductive JobWait where
  | none
  | start
  | stop
  deriving DecidableEq

/-- The unsigned parameters of a job start. -/
structure JobStartParams where
  limits : JobLimits
  term : Option String
  rows : Option UInt16
  cols : Option UInt16
  wait : JobWait
  deriving DecidableEq

end Sush
