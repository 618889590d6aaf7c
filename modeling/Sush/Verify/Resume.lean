import Sush.Verify.Chain
import Sush.Verify.Scenario

/-!
# A committed session resumes after its last job

A life that enters the universe of its boundary record opens the committed session at the stored
successor. Skips can turn the chain back, and the session can be stopped and started again, but the
front of the session never leaves the positions that the successor leads to, so nothing at or before
the committed job is launched.
-/

namespace Sush

open Lib SkipChain

section

variable [World] [Hashing]

/-- The chain of one session: only its own jobs lead on. -/
def sessionChain (sessionId : SessionId) :
    SkipChain JobId { request : JobStartRequest // request.sessionId = sessionId } where
  pos request := request.1.jobId
  after request := after request.1
  burned := burned

theorem reaches_of_sessionChain {sessionId : SessionId} {p q : JobId}
    (h : (sessionChain sessionId).Reaches p q) : jobChain.Reaches p q := by
  refine Relation.ReflTransGen.mono (fun a b hedge => ?_) _ _ h
  cases hedge with
  | after request => exact .after request.1
  | burned => exact .burned (C := jobChain) a

/-- The front is on the chain of `sessionId`, at or after `p`, and so is its head. -/
structure FrontFrom (sessionId : SessionId) (p : JobId) (f : Front JobId JobStartRequest) :
    Prop where
  next : (sessionChain sessionId).Reaches p f.next
  head : ∀ request, f.head = some request → (sessionChain sessionId).Reaches p request.jobId

namespace FrontFrom

variable {sessionId : SessionId} {p jobId : JobId} {f : Front JobId JobStartRequest}

theorem start (p : JobId) : FrontFrom sessionId p ⟨p, none⟩ := ⟨.refl, by simp⟩

theorem burn (h : FrontFrom sessionId p f) (hburn : f.CanBurn jobChain jobId) :
    FrontFrom sessionId p (jobChain.burn jobId) := by
  have hp : (sessionChain sessionId).Reaches p jobId := by
    rcases hburn with rfl | ⟨request, hhead, rfl⟩
    · exact h.next
    · exact h.head request hhead
  exact ⟨hp.tail (.burned jobId), by simp [SkipChain.burn]⟩

theorem pass (h : FrontFrom sessionId p f) {request : JobStartRequest}
    (hid : request.jobId = f.next) (hsession : request.sessionId = sessionId) :
    FrontFrom sessionId p (jobChain.pass request) := by
  have hp : (sessionChain sessionId).Reaches p request.jobId := hid ▸ h.next
  refine ⟨hp.tail (.after (C := sessionChain sessionId) ⟨request, hsession⟩), ?_⟩
  rintro _ ⟨⟩
  exact hp

end FrontFrom

variable [Crypto]

/-- The session of `b` is at or after the successor in `b`, and so is whatever it launched. -/
structure ResumedAfter (b : Boundary) (σ : SessionState) (runs : List Run) : Prop where
  front : ∀ a, σ = .active a → a.session.sessionId = b.session →
    FrontFrom b.session b.successor a.session.front
  runs : ∀ r ∈ runs, r.job.payload.sessionId = b.session →
    (sessionChain b.session).Reaches b.successor r.jobId

/-- A front that moves keeps to the positions from `p` on. -/
theorem FrontFrom.move {tick : Tick} {t : State} {a : ActiveSession} {p : JobId}
    {f : Front JobId JobStartRequest} {new : List Run} (hmove : FrontMove tick t a f new)
    (h : FrontFrom a.session.sessionId p a.session.front) : FrontFrom a.session.sessionId p f := by
  cases hmove with
  | stay => exact h
  | burn hburn => exact h.burn hburn
  | pass hid hsession => exact h.pass hid hsession

theorem ResumedAfter.move {b : Boundary} {tick : Tick} {t : State} {a a' : ActiveSession}
    {runs new : List Run} (hsame : SameSession a a')
    (hmove : FrontMove tick t a a'.session.front new) (h : ResumedAfter b (.active a) runs) :
    ResumedAfter b (.active a') (runs ++ new) := by
  have hfront : a.session.sessionId = b.session →
      FrontFrom b.session b.successor a.session.front := h.front a rfl
  constructor
  · rintro _ ⟨⟩ hid
    rw [hsame.id] at hid
    rw [← hid] at hfront ⊢
    exact (hfront rfl).move hmove
  · intro r hr hid
    rcases List.mem_append.1 hr with hr | hr
    · exact h.runs r hr hid
    · generalize a'.session.front = f at hmove
      cases hmove with
      | stay => cases hr
      | burn => cases hr
      | @pass queued _ hjob hsession hruns =>
        rcases hruns with rfl | ⟨network, -, -, rfl⟩
        · cases hr
        · obtain rfl := List.mem_singleton.1 hr
          have hnext : (sessionChain b.session).Reaches b.successor a.session.nextJobId :=
            (hfront (hsession.symm.trans hid)).next
          rw [← hjob] at hnext
          exact hnext

theorem openAt_of_committed {s : State} {b : Boundary} (hb : s.past.committed = some b)
    (hnet : b.network = s.past.network) : s.openAt b.session = b.successor := by
  have hfilter : (s.past.boundary.filter fun boundary => boundary.session = b.session) = some b := by
    unfold Past.boundary
    rw [hb]
    simp [Option.filter, hnet]
  unfold State.openAt
  rw [hfilter]

theorem ResumedAfter.step {s₀ s : State} {tick : Tick} {ticks : List Tick} {b : Boundary}
    {runs : List Run} (hlife : SameLife s₀ s) (hqueue : QueueOk ticks s)
    (hb : s₀.past.committed = some b) (hnet : b.network = s₀.past.network)
    (h : ResumedAfter b s.session runs) :
    ResumedAfter b (s.step tick).1.session (runs ++ launches (s.step tick).2) := by
  refine step_front (P := fun σ _ runs => ResumedAfter b σ runs) hlife hqueue ?_
    (fun _ _ h => h) ?_ (fun _ _ _ _ _ _ _ hsame hmove h => h.move hsame hmove) h
  · rintro sessionId start a - rfl - hfront h
    refine ⟨?_, h.runs⟩
    rintro _ ⟨⟩ hid
    rw [hfront, hid, openAt_of_committed (hlife.committed.trans hb) (hnet.trans hlife.network.symm)]
    exact .start _
  · intro σ runs h
    exact ⟨by simp, h.runs⟩

/-- **Resume safety.** In a life that enters the universe of its record `b`, every job of the
committed session that is launched is the successor in `b` or after it on the session's chain. So it
is not the committed job, nor at a position from which the committed job can be reached. -/
theorem resume_safe [CollisionFree] {current : VersionInfo} {own : BaseboardId}
    {anchors : List Certificate} {past : Past} {s₀ : State}
    (h₀ : State.new current own anchors past = .ok s₀) {b : Boundary}
    (hb : past.committed = some b) (hnet : b.network = past.network)
    (hsucc : ∃ job : SignedJob, job.payload.jobId = b.job ∧ job.payload.sessionId = b.session ∧
      b.successor = nextJobId b.session (.some job))
    (ticks : List Tick) (r : Run) (hr : .run r ∈ (s₀.run ticks).2)
    (hsession : r.job.payload.sessionId = b.session) :
    (sessionChain b.session).Reaches b.successor r.jobId ∧ r.jobId ≠ b.job ∧
      ¬jobChain.Reaches r.jobId b.job := by
  obtain ⟨-, -, rfl, hinactive, -, -⟩ := new_eq h₀
  have hrun := Lib.run_invariant State.step
    (P := fun s ticks os => SameLife s₀ s ∧ QueueOk ticks s ∧
      ResumedAfter b s.session (launches os))
    (fun s ticks os tick h => ?_)
    ⟨.refl s₀, .of_inactive hinactive, by simp [hinactive], by simp⟩ ticks
  · have hreach := hrun.2.2.runs r (mem_launches.2 hr) hsession
    obtain ⟨job, hjob, -, hafter⟩ := hsucc
    have hedge : jobChain.Edge b.job b.successor := by
      rw [hafter, ← hjob]
      exact .after job.payload
    have hnot : ¬jobChain.Reaches r.jobId b.job := fun h =>
      CollisionFree.chain_free.before_irrefl b.job
        (.head' hedge ((reaches_of_sessionChain hreach).trans h))
    exact ⟨hreach, fun heq => hnot (heq ▸ .refl), hnot⟩
  · rw [launches_append]
    exact ⟨h.1.step, h.2.1.step, h.2.2.step h.1 h.2.1 hb hnet⟩

end

end Sush

namespace Sush.Terms

open Lib SkipChain

attribute [local instance] world hashing crypto collisionFree

/-- A life with the record of the first job launches the second one. -/
theorem resume_safe_secondJob :
    Output.run (launch 5 (jobAfter (firstJob 5))) ∈
      ((life (0 : ℕ) (20 : ℕ) (some (record 5 (firstJob 5)))).run
        [start (10 : ℕ) (7 : ℕ) 5, job (20 : ℕ) (7 : ℕ) (jobAfter (firstJob 5)) [(0 : ℕ)]]).2 ∧
    ¬jobChain.Reaches (jobAfter (firstJob 5)).jobId (firstJob 5).jobId := by
  have hr : Output.run (launch 5 (jobAfter (firstJob 5))) ∈
      ((life (0 : ℕ) (20 : ℕ) (some (record 5 (firstJob 5)))).run
        [start (10 : ℕ) (7 : ℕ) 5, job (20 : ℕ) (7 : ℕ) (jobAfter (firstJob 5)) [(0 : ℕ)]]).2 :=
    List.mem_singleton.2 rfl
  have hsafe := resume_safe (new_life (0 : ℕ) (20 : ℕ) (some (record 5 (firstJob 5)))) rfl rfl
    ⟨signed (firstJob 5), rfl, rfl, rfl⟩ _ _ hr rfl
  exact ⟨hr, hsafe.2.2⟩

end Sush.Terms
