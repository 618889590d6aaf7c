import Sush.Lib.Lru
import Sush.Lib.Machine
import Sush.Server.Boundary
import Sush.Server.Certs
import Sush.Server.History

/-!
# The state of the session manager

`server/src/state.rs`, data: the session slot, the starts that wait for a verified job, what a
previous life left behind, and the inputs and outputs of the state machine.

Logging is left out. An attachment point is a channel to the executor; the state only decides for
which jobs there is one, so `attachments` is the set of those jobs.
-/

namespace Sush

open Lib (LruCache)

variable [World]

/-- Maximum number of jobs a session may have queued. -/
def maxQueuedJobs : ℕ := 1000

/-- Maximum number of session starts pending on a sled. -/
def maxPendingStarts : ℕ := 10

/-- A session start that no verified job has confirmed yet. -/
structure PendingStart where
  preimage : SessionPreimage
  actor : KeyId
  live : Bool

/-- The contents of an occupied session slot. -/
structure ActiveSession where
  /-- Where the session falls in the signer-assigned order. -/
  seq : SessionSeq
  /-- Whether the session's start arrived as live traffic. -/
  live : Bool
  session : Session
  queuedJobs : QueuedJobs
  /-- Keys the starter has granted attach access, and how much. -/
  attachGrants : BTreeMap KeyId Access

/-- The session slot. -/
inductive SessionState where
  | inactive
  | active (a : ActiveSession)

/-- The order of sessions: by sequence number, ties broken by identifier. `⊥` is no session. -/
abbrev SessionRank : Type := WithBot (SessionSeq ×ₗ SessionId)

/-- The rank of the session `sessionId` with sequence number `seq`. -/
def rankOf (seq : SessionSeq) (sessionId : SessionId) : SessionRank :=
  ((toLex (seq, sessionId) : SessionSeq ×ₗ SessionId) : SessionRank)

/-- Where an active session stands. -/
def ActiveSession.rank (a : ActiveSession) : SessionRank := rankOf a.seq a.session.sessionId

namespace SessionState

/-- The active session, if any. -/
def session : SessionState → Option Session
  | inactive => none
  | active a => some a.session

/-- The attach access a key has to the interactive jobs of the active session, if any. -/
def attachAccess (σ : SessionState) (keyId : KeyId) : Option Access :=
  match σ with
  | inactive => none
  | active a =>
    if a.session.startedBy = some keyId then some .readWrite else a.attachGrants[keyId]?

/-- Where the slot stands in the total order of sessions. -/
def rank : SessionState → SessionRank
  | inactive => ⊥
  | active a => a.rank

/-- The queue of the active session, if any. -/
def queuedJobs : SessionState → Option QueuedJobs
  | inactive => none
  | active a => some a.queuedJobs

end SessionState

/-! ## The past -/

/-- What `Past.screen` decides about a job of the active session. -/
inductive Admission where
  | admitted
  | refused
  deriving DecidableEq

/-- This incarnation's relationship to its own past. -/
structure Past where
  /-- The version of this life's first send. -/
  birth : Version
  /-- The boundary record of a previous life. -/
  committed : Option Boundary
  /-- The gossip universe this life entered. -/
  network : Network
  /-- Jobs whose replayed start events say a previous life ran them. -/
  zombies : BTreeSet JobId
  /-- Zombies already declared interrupted. -/
  reaped : BTreeSet JobId
  /-- The boundary job this life has ruled on. -/
  adjudicated : Option JobId

namespace Past

/-- A life that enters `network` with the record `committed`. -/
def new (birth : Version) (committed : Option Boundary) (network : Network) : Past where
  birth := birth
  committed := committed
  network := network
  zombies := ∅
  reaped := ∅
  adjudicated := none

/-- Decide whether the active session may run a job here. -/
def screen (past : Past) (session : SessionId) (seq : SessionSeq) (live : Bool) : Admission :=
  match past.committed with
  | some boundary =>
    if boundary.seq < seq ∨ (boundary.network = past.network ∧ boundary.session = session) then
      .admitted
    else .refused
  | none => if live then .admitted else .refused

/-- The boundary record, if it is of this universe. -/
def boundary (past : Past) : Option Boundary :=
  past.committed.filter fun boundary => boundary.network = past.network

/-- Whether a message at `version` is live traffic rather than replayed history. -/
def isLive (past : Past) (version : Version) : Bool := past.birth ≤ version

end Past

/-! ## Inputs and outputs -/

/-- A state machine input. -/
inductive Input where
  /-- The rack's cubby map changed. -/
  | cubbies (cubbies : Cubbies)
  /-- The gossip network delivered a message. -/
  | gossip (version : Version) (message : VersionedMessage)
  /-- All ready messages have been drained. -/
  | drained

/-- Everything the executor needs to launch a job. -/
structure Run where
  job : VerifiedJob
  params : JobStartParams
  boundary : Boundary

/-- The job a launch is for. -/
def Run.jobId (run : Run) : JobId := run.job.payload.jobId

/-- A state machine output. -/
inductive Output where
  | run (run : Run)
  | ran (status : JobStatus)
  | stop (jobId : JobId)
  | gossip (message : Message)

namespace Output

/-- The announcement of an event of this sled. -/
def jobEvent (ownBaseboard : BaseboardId) (event : JobEvent) : Output :=
  gossip (.event ownBaseboard (.job event))

/-- The launch an output asks for, if any. -/
def launch? : Output → Option Run
  | run r => some r
  | _ => none

end Output

/-- The launches among some outputs, in order. -/
def launches (outputs : List Output) : List Run := outputs.filterMap Output.launch?

/-! ## The state -/

variable [Crypto]

/-- The state of the session manager. -/
structure State where
  rack : Rack
  history : JobHistory
  session : SessionState
  pendingStarts : LruCache SessionId PendingStart
  attachments : BTreeSet JobId
  certs : Certificates
  past : Past

def State.new (current : VersionInfo) (ownBaseboard : BaseboardId) (trustAnchors : List Certificate)
    (past : Past) : Except KeyError State := do
  let certs ← Certificates.new trustAnchors
  return {
    rack := Rack.new ownBaseboard current
    history := JobHistory.empty
    session := .inactive
    pendingStarts := LruCache.new maxPendingStarts
    attachments := ∅
    certs := certs
    past := past }

end Sush
