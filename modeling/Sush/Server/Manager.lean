import Sush.Server.State

/-!
# The job manager

`server/src/manager.rs`, what it answers from the state: handing out attachment points, and the checks
that it makes before it sends a request on to the state machine. The state machine decides in the end;
the checks fail fast. A check that passes gives the request that is sent, by the requester.

An attachment point is a channel into which the executor puts a socket sender once the job takes
attachments. `channel` is what the executor has put there. The reads of the state that one request makes
are taken at one moment.
-/

namespace Sush

variable [World]

/-- What the manager answers when it refuses. -/
inductive JobError where
  | attachDenied
  | jobNotFound (jobId : JobId)
  | noSession
  | notNextJob (jobId : JobId)
  | notSessionStarter
  | sessionNotCurrent (sessionId : SessionId)
  | invalidSessionId

variable [Crypto]

/-- The socket sender of a job that has an attachment point. -/
def State.getAttachment {Sender : Type} (s : State) (channel : JobId → Option Sender)
    (jobId : JobId) : Option Sender :=
  if s.attachments.contains jobId then channel jobId else none

/-- Hand `authn` the attachment point of a job on `target`, with the access it has. -/
def JobManager.jobAttachment {Sender : Type} (ownBaseboard : BaseboardId) (s : State)
    (channel : JobId → Option Sender) (authn : KeyId) (jobId : JobId) (target : BaseboardId) :
    Except JobError (Sender × Access) :=
  match s.session.attachAccess authn with
  | none => .error .attachDenied
  | some access =>
    match if ownBaseboard = target then s.getAttachment channel jobId else none with
    | some attachment => .ok (attachment, access)
    | none => .error (.jobNotFound jobId)

/-- A page of the listing. The source casts both numbers from 32 bits. -/
def JobManager.jobHistory (s : State) (limit offset : ℕ) : List JobStatusMap :=
  (s.history.iter.drop offset).take limit

/-! ## Checks -/

/-- Where the slot stands in the total order of sessions. -/
def State.rank (s : State) : SessionRank := s.session.rank

/-- Where a start of `sessionId` would stand in the total order of sessions, if one is pending. -/
def State.pendingRank (s : State) (sessionId : SessionId) : SessionRank :=
  match s.pendingStarts.peek sessionId with
  | some start => rankOf start.preimage.seq sessionId
  | none => ⊥

namespace JobManager

/-- A job is accepted only if its session is active, or if the session's start is pending for the job to
confirm. -/
def sessionCheck (s : State) (sessionId : SessionId) : Except JobError Unit :=
  if (s.session.session).any (·.sessionId = sessionId) ∨ s.rank < s.pendingRank sessionId then .ok ()
  else
    match s.session.session with
    | none => .error .noSession
    | some _ => .error (.sessionNotCurrent sessionId)

/-- The request must name the current session. -/
def currencyCheck (s : State) (sessionId : SessionId) : Except JobError Unit :=
  match s.session.session with
  | none => .error .noSession
  | some session =>
    if session.sessionId ≠ sessionId then .error (.sessionNotCurrent sessionId) else .ok ()

/-- Only the session starter may manage the session. -/
def starterCheck (s : State) (authn : KeyId) : Except JobError Unit :=
  match s.session.session with
  | none => .error .noSession
  | some session => if session.startedBy = some authn then .ok () else .error .notSessionStarter

def sessionStop (s : State) (authn : KeyId) (sessionId : SessionId) :
    Except JobError SessionRequest := do
  starterCheck s authn
  currencyCheck s sessionId
  return .stop sessionId

def sessionAllowAttach (s : State) (authn : KeyId) (sessionId : SessionId) (keyId : KeyId)
    (access : Access) : Except JobError SessionRequest := do
  starterCheck s authn
  currencyCheck s sessionId
  return .allowAttach sessionId keyId access

def sessionDenyAttach (s : State) (authn : KeyId) (sessionId : SessionId) (keyId : KeyId) :
    Except JobError SessionRequest := do
  starterCheck s authn
  currencyCheck s sessionId
  return .denyAttach sessionId keyId

variable [Hashing]

/-- The job must be the next one of the current session. -/
def nextJobCheck (s : State) (jobId : JobId) : Except JobError Unit :=
  match s.session.session with
  | some session => if session.nextJobId ≠ jobId then .error (.notNextJob jobId) else .ok ()
  | none => .ok ()

def sessionSkipJob (s : State) (authn : KeyId) (sessionId : SessionId) (jobId : JobId) :
    Except JobError SessionRequest := do
  starterCheck s authn
  currencyCheck s sessionId
  nextJobCheck s jobId
  return .skip sessionId jobId

/-- What `session_start` waits for: the start is pending, or a session that it does not outrank is
active. -/
def startSettled (s : State) (preimage : SessionPreimage) (sessionId : SessionId) : Prop :=
  s.pendingRank sessionId ≠ ⊥ ∨ rankOf preimage.seq sessionId ≤ s.rank

end JobManager

end Sush
