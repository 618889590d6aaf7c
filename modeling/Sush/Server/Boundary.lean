import Sush.Common.Jobs

/-!
# The boundary record

`server/src/locker/boundary.rs`: the last job this sled committed to running, in which universe, the
chain position after it, and how it ended once that is known.
-/

namespace Sush

variable [World]

/-- The execution boundary. -/
structure Boundary where
  network : Network
  session : SessionId
  seq : SessionSeq
  job : JobId
  successor : JobId
  status : Option JobStatus

/-- The record held in memory, as last stored. -/
structure BoundaryStore where
  boundary : Option Boundary

namespace BoundaryStore

/-- Commit to executing the job in `boundary`; the store succeeds. -/
def advance (_ : BoundaryStore) (boundary : Boundary) : BoundaryStore := ⟨some boundary⟩

/-- Whether an ending takes the place of what is recorded: of nothing, or, if it is a stop, of an
adjudicated `interrupted`. -/
def displaces : Option JobStatus → JobStatus → Bool
  | none, _ => true
  | some (.error _ _ .interrupted), .stopped .. => true
  | _, _ => false

/-- The record with the ending `status`, if it is of that job and the ending is to be recorded. -/
def updated (store : BoundaryStore) (status : JobStatus) : Option Boundary :=
  match store.boundary with
  | some boundary =>
    if boundary.job = status.jobId ∧ displaces boundary.status status then
      some { boundary with status := some status }
    else none
  | none => none

/-- Record how the boundary job ended; the store succeeds. -/
def recordStatus (store : BoundaryStore) (status : JobStatus) : BoundaryStore :=
  match store.updated status with
  | some boundary => ⟨some boundary⟩
  | none => store

end BoundaryStore

end Sush
