import Sush.Server.Rack

/-!
# Messages gossiped between sleds

`server/src/messages.rs`, version 0 of the wire format, and the messages of newer builds, of which
only the version is read.
-/

namespace Sush

variable [World]

inductive SessionRequest where
  | start (preimage : SessionPreimage)
  | stop (sessionId : SessionId)
  | skip (sessionId : SessionId) (jobId : JobId)
  | allowAttach (sessionId : SessionId) (keyId : KeyId) (access : Access)
  | denyAttach (sessionId : SessionId) (keyId : KeyId)

inductive JobRequest where
  | start (signed : SignedJob) (params : JobStartParams) (sleds : BTreeSet BaseboardId)
  | stop (jobId : JobId)

/-- A request and the key that made it. -/
inductive Request where
  | session (actor : KeyId) (request : SessionRequest)
  | job (actor : KeyId) (request : JobRequest)

inductive JobEvent where
  | start (jobId : JobId) (when_ : DateTime)
  | stop (jobId : JobId) (when_ : DateTime) (result : Except ProcessError Int32)
      (output : JobOutputState)
  | error (jobId : JobId) (when_ : DateTime) (error : ProcessError)
  | skipped (jobId : JobId) (when_ : DateTime) (reason : SkipReason)

/-- The job that an event is about. -/
def JobEvent.jobId : JobEvent → JobId
  | start jobId _ | stop jobId _ _ _ | error jobId _ _ | skipped jobId _ _ => jobId

inductive Event where
  | job (event : JobEvent)
  | version (info : VersionInfo)

inductive Message where
  | request (request : Request)
  | event (baseboard : BaseboardId) (event : Event)

inductive VersionedMessage where
  | v0 (message : Message)
  | unknown (version : String) (message : List UInt8)

end Sush
