import Sush.Common.Terms
import Sush.Lib.Numbering
import Sush.Server.Sled
import Sush.Server.Wire

/-!
# Codecs for terms

Over `Terms.world` there are countably many messages and boundaries, so they can be written as their
numbers: what is asked of `MessageCodec` and `BoundaryCbor` can be had.
-/

namespace Sush

open Lib (num)

deriving instance Countable for JobMode, SkipReason, JobOutputStream, ProcessError, JobOutputState, Access,
  JobLimits, JobWait, JobStartParams, VersionInfo, EncodedSignature

section Countable

variable [World] [Countable BaseboardId] [Countable KeyId] [Countable SessionId] [Countable JobId]
  [Countable Network]

instance countablePreimage : Countable SessionPreimage :=
  Function.Injective.countable (f := fun p => (p.baseboard, p.sushNonce, p.signerNonce, p.seq)) <| by
    rintro ⟨⟩ ⟨⟩ h
    simpa using h

instance countableSledId : Countable SledId :=
  Function.Injective.countable (f := fun
    | .baseboard b => [0, num b]
    | .cubby c => [1, num c]) <| by
    intro a b h
    cases a <;> cases b <;> simp_all

instance countableTarget : Countable Target :=
  Function.Injective.countable (f := fun
    | .all => none
    | .sleds sleds => some sleds) <| by
    intro a b h
    cases a <;> cases b <;> simp_all

instance countableJobStart : Countable JobStartRequest :=
  Function.Injective.countable (f := fun r => (r.jobId, r.sessionId, r.command, r.mode, r.target)) <| by
    rintro ⟨⟩ ⟨⟩ h
    simpa using h

instance countableSigned : Countable SignedJob :=
  Function.Injective.countable (f := fun s => (s.payload, s.keyId, s.signature)) <| by
    rintro ⟨⟩ ⟨⟩ h
    simpa using h

instance countableSession : Countable SessionRequest :=
  Function.Injective.countable (f := fun
    | .start p => [0, num p]
    | .stop s => [1, num s]
    | .skip s j => [2, num s, num j]
    | .allowAttach s k a => [3, num s, num k, num a]
    | .denyAttach s k => [4, num s, num k]) <| by
    intro a b h
    cases a <;> cases b <;> simp_all

instance countableJobRequest : Countable JobRequest :=
  Function.Injective.countable (f := fun
    | .start s p b => [num s, num p, num b]
    | .stop j => [num j]) <| by
    intro a b h
    cases a <;> cases b <;> simp_all

instance countableRequest : Countable Request :=
  Function.Injective.countable (f := fun
    | .session k r => [0, num k, num r]
    | .job k r => [1, num k, num r]) <| by
    intro a b h
    cases a <;> cases b <;> simp_all

instance countableJobEvent : Countable JobEvent :=
  Function.Injective.countable (f := fun
    | .start j t => [0, num j, num t]
    | .stop j t r o => [1, num j, num t, num r, num o]
    | .error j t e => [2, num j, num t, num e]
    | .skipped j t r => [3, num j, num t, num r]) <| by
    intro a b h
    cases a <;> cases b <;> simp_all

instance countableEvent : Countable Event :=
  Function.Injective.countable (f := fun
    | .job e => [0, num e]
    | .version i => [1, num i]) <| by
    intro a b h
    cases a <;> cases b <;> simp_all

instance countableMessage : Countable Message :=
  Function.Injective.countable (f := fun
    | .request r => [num r]
    | .event b e => [num b, num e]) <| by
    intro a b h
    cases a <;> cases b <;> simp_all

instance countableStatus : Countable JobStatus :=
  Function.Injective.countable (f := fun
    | .cancelled j t k => [0, num j, num t, num k]
    | .queued j t k => [1, num j, num t, num k]
    | .error j t e => [2, num j, num t, num e]
    | .started j t => [3, num j, num t]
    | .stopped j t t' r o => [4, num j, num t, num t', num r, num o]
    | .skipped j t r => [5, num j, num t, num r]) <| by
    intro a b h
    cases a <;> cases b <;> simp_all

instance countableBoundary : Countable Boundary :=
  Function.Injective.countable (f := fun b =>
    (b.network, b.session, b.seq, b.job, b.successor, b.status)) <| by
    rintro ⟨⟩ ⟨⟩ h
    simpa using h

end Countable

namespace Terms

attribute [local instance] world

instance countableBaseboardId : Countable BaseboardId := inferInstanceAs (Countable ℕ)
instance countableKeyId : Countable KeyId := inferInstanceAs (Countable ℕ)
instance countableSessionId : Countable SessionId := inferInstanceAs (Countable ℕ)
instance countableJobId : Countable JobId := inferInstanceAs (Countable ℕ)
instance countableNetwork : Countable Network := inferInstanceAs (Countable ℕ)

/-- A message is written as its number, in unary. -/
noncomputable abbrev messageCodec : MessageCodec where
  serialize message := .bytes (List.replicate (num message) 0)
  deserialize
    | .bytes bytes => Lib.ofNum Message bytes.length
    | _ => none
  deserialize_serialize message := by simp

noncomputable abbrev boundaryCbor : BoundaryCbor where
  serialize boundary := List.replicate (num boundary) 0
  deserialize bytes := (Lib.ofNum Boundary bytes.length).elim (.error "no boundary") .ok
  deserialize_serialize boundary := by rw [List.length_replicate, Lib.ofNum_num]; rfl

end Terms

end Sush
