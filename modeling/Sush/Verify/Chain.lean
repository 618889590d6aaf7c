import Sush.Verify.Runs

/-!
# The chain of a session

Where a session stands on its chain is a front (`Sush.Lib.Chain`) over the identifiers of jobs. The
operations of a session are the moves of a front, and what can still become the next job of the
session is what lies ahead of the front.
-/

namespace Sush

open Lib SkipChain

variable [World]

def Session.headJob (s : Session) : Option JobStartRequest :=
  match s.lastJob with
  | .some job => some job.payload
  | _ => none

variable [Hashing]

theorem eq_first_of_reaches [CollisionFree] {p : JobId} {sessionId : SessionId}
    (h : jobChain.Reaches p (first sessionId)) : p = first sessionId := by
  rcases Relation.ReflTransGen.cases_tail h with heq | ⟨q, -, hedge⟩
  · exact heq.symm
  · generalize hs : first sessionId = r at hedge
    cases hedge with
    | after request => exact absurd hs (CollisionFree.first_ne_after sessionId request)
    | burned => exact absurd hs (CollisionFree.first_ne_burned sessionId q)

def Session.front (s : Session) : Front JobId JobStartRequest := ⟨s.nextJobId, s.headJob⟩

namespace Session

variable {s : Session} {jobId : JobId}

theorem front_ok (s : Session) : s.front.Ok jobChain := by
  intro job h
  unfold front headJob at h
  unfold front nextJobId
  simp only at h ⊢
  split at h
  · next signed hlast =>
    cases h
    rw [hlast]
    rfl
  · cases h

theorem canSkip_iff : s.canSkip jobId = true ↔ s.front.CanBurn jobChain jobId := by
  unfold canSkip Front.CanBurn front headJob
  simp only [Bool.or_eq_true, decide_eq_true_eq]
  refine or_congr Iff.rfl ?_
  cases s.lastJob with
  | some job =>
    simp only [decide_eq_true_eq, Option.some.injEq, exists_eq_left']
    exact Iff.rfl
  | _ => simp

end Session

/-! ## How the front moves -/

variable [Crypto]

/-- How one act moves the front of the active session `a`, and what it launches. -/
inductive FrontMove (tick : Tick) (s : State) (a : ActiveSession) :
    Front JobId JobStartRequest → List Run → Prop
  | stay : FrontMove tick s a a.session.front []
  | burn {jobId : JobId} (hburn : a.session.front.CanBurn jobChain jobId) :
    FrontMove tick s a (jobChain.burn jobId) []
  | pass {queued : QueuedJob} {runs : List Run}
    (hid : queued.job.payload.jobId = a.session.nextJobId)
    (hsession : queued.job.payload.sessionId = a.session.sessionId)
    (hruns : runs = [] ∨ ∃ network, tick.network = some network ∧ s.Releases a queued ∧
      runs = [State.runOf network a queued]) :
    FrontMove tick s a (jobChain.pass queued.job.payload) runs

theorem FrontMove.ahead {tick : Tick} {s : State} {a : ActiveSession}
    {f : Front JobId JobStartRequest} {new : List Run} (hmove : FrontMove tick s a f new)
    {jobId : JobId} (h : f.Ahead jobChain jobId) : a.session.front.Ahead jobChain jobId := by
  cases hmove with
  | stay => exact h
  | burn hburn => exact Front.ahead_of_ahead_burn hburn h
  | pass hid => exact Front.ahead_of_ahead_pass hid h

/-- `a'` is the same session as `a`, possibly elsewhere on its chain. -/
structure SameSession (a a' : ActiveSession) : Prop where
  id : a'.session.sessionId = a.session.sessionId
  seq : a'.seq = a.seq
  live : a'.live = a.live
  starter : a'.session.startedBy = a.session.startedBy

section SameSession

variable {a b c : ActiveSession}

omit [Hashing] [Crypto] in
theorem SameSession.symm (h : SameSession a b) : SameSession b a :=
  ⟨h.id.symm, h.seq.symm, h.live.symm, h.starter.symm⟩

omit [Hashing] [Crypto] in
theorem SameSession.trans (h : SameSession a b) (h' : SameSession b c) : SameSession a c :=
  ⟨h'.id.trans h.id, h'.seq.trans h.seq, h'.live.trans h.live, h'.starter.trans h.starter⟩

end SameSession

/-- **An act closes the slot, or moves the front of the session in it.** -/
theorem Act.moves {tick : Tick} {s s' : State} {os : List Output} {ticks : List Tick}
    (h : Act tick s s' os) (hqueue : QueueOk ticks s) :
    (s'.session = .inactive ∧ launches os = []) ∨
      ∃ a a', s.session = .active a ∧ s'.session = .active a' ∧ SameSession a a' ∧
        FrontMove tick s a a'.session.front (launches os) := by
  cases h with
  | close hos => exact .inl ⟨rfl, hos⟩
  | grant grants ha => exact .inr ⟨_, _, ha, rfl, ⟨rfl, rfl, rfl, rfl⟩, .stay⟩
  | burn jobId ha hskip =>
    exact .inr ⟨_, _, ha, rfl, ⟨rfl, rfl, rfl, rfl⟩, .burn (Session.canSkip_iff.1 hskip)⟩
  | cancel jobId ha => exact .inr ⟨_, _, ha, rfl, ⟨rfl, rfl, rfl, rfl⟩, .stay⟩
  | enqueue ha hq hsession => exact .inr ⟨_, _, ha, rfl, ⟨rfl, rfl, rfl, rfl⟩, .stay⟩
  | @pass a queued attachments os ha hq hos =>
    have hdelivered := hqueue a ha _ queued hq
    exact .inr ⟨_, _, ha, rfl, ⟨rfl, rfl, rfl, rfl⟩,
      .pass hdelivered.id hdelivered.session hos⟩

/-! ## Where a session opens -/

/-- The position at which a session opens: where the record of this universe left it, or at the
first job. -/
def State.openAt (s : State) (sessionId : SessionId) : JobId :=
  match s.past.boundary.filter fun boundary => boundary.session = sessionId with
  | some boundary => boundary.successor
  | none => first sessionId

theorem front_openSession (s : State) (sessionId : SessionId) (start : PendingStart) :
    (s.openSession sessionId start).front = ⟨s.openAt sessionId, none⟩ := by
  unfold State.openSession State.openAt
  cases s.past.boundary.filter fun boundary => boundary.session = sessionId <;> rfl

theorem opened_active {s : State} {tick : Tick} {sessionId : SessionId} {start : PendingStart}
    (h : s.opening tick = some (sessionId, start)) :
    ∃ a, (s.opened tick).session = .active a ∧ a.session.sessionId = sessionId ∧
      a.seq = start.preimage.seq ∧ a.live = start.live ∧ a.session.startedBy = some start.actor ∧
      a.session.front = ⟨s.openAt sessionId, none⟩ ∧ a.queuedJobs = ∅ := by
  unfold State.opened
  rw [h]
  refine ⟨_, rfl, ?_, rfl, rfl, ?_, front_openSession _ _ _, rfl⟩
  · unfold State.openSession
    simp only
    split <;> rfl
  · unfold State.openSession
    simp only
    split <;> rfl

/-- **The step rule for chains.** A property of the slot, the history and the launches made so far
is preserved by a step if it is preserved when a session is opened, when the history moves on, when
the slot is closed, and when a front moves. -/
theorem step_front {P : SessionState → JobHistory → List Run → Prop} {s₀ s : State} {tick : Tick}
    {ticks : List Tick} {runs : List Run} (hlife : SameLife s₀ s) (hqueue : QueueOk ticks s)
    (hopen : ∀ sessionId start a, s.opening tick = some (sessionId, start) →
      a.session.sessionId = sessionId → a.seq = start.preimage.seq →
      a.session.front = ⟨s.openAt sessionId, none⟩ →
      P s.session s.history runs → P (.active a) s.history runs)
    (hnote : ∀ σ, Evolves s₀.rack.ownBaseboard s.history (s.step tick).1.history →
      P σ s.history runs → P σ (s.step tick).1.history runs)
    (hclose : ∀ σ runs, P σ (s.step tick).1.history runs →
      P .inactive (s.step tick).1.history runs)
    (hmove : ∀ t a a' runs new, SameLife s₀ t → t.history = (s.step tick).1.history →
      SameSession a a' → FrontMove tick t a a'.session.front new →
      P (.active a) (s.step tick).1.history runs →
      P (.active a') (s.step tick).1.history (runs ++ new))
    (h : P s.session s.history runs) :
    P (s.step tick).1.session (s.step tick).1.history (runs ++ launches (s.step tick).2) := by
  let final := (s.step tick).1.history
  refine (step_invariant
    (P := fun t runs => t.history = s.history ∧ SameLife s₀ t ∧ QueueOk (ticks ++ [tick]) t ∧
      P t.session s.history runs)
    (Q := fun t runs => t.history = final ∧ SameLife s₀ t ∧ QueueOk (ticks ++ [tick]) t ∧
      P t.session final runs) runs ?_ ?_ ?_ ⟨rfl, hlife, hqueue.mono (by simp), h⟩).2.2.2
  · rintro sessionId start ho ⟨-, hlife, hqueue, h⟩
    obtain ⟨a, ha, hid, hseq, -, -, hfront, -⟩ := opened_active ho
    refine ⟨?_, hlife.opened, hqueue.opened, ?_⟩
    · obtain ⟨_, _, hframe⟩ := s.opened_frame tick
      rw [hframe]
    · rw [ha]
      exact hopen _ _ a ho hid hseq hfront h
  · rintro s₁ hquiet hhist ⟨hopened, hlife, hqueue, h⟩
    refine ⟨hhist, hlife.quiet hquiet, hqueue.quiet hquiet, ?_⟩
    have hev := hquiet.history
    rw [hopened, hhist, hlife.own] at hev
    rw [hquiet.session]
    exact hnote _ hev h
  · rintro t t' os runs hact ⟨hhist, ht, hq, h⟩
    refine ⟨?_, ht.act hact, hq.act (by simp) hact, ?_⟩
    · obtain ⟨_, _, rfl⟩ := hact.frame
      exact hhist
    · rcases hact.moves hq with ⟨hs', hos⟩ | ⟨a, a', ha, ha', hsame, hmoves⟩
      · rw [hs', hos, List.append_nil]
        exact hclose _ _ h
      · rw [ha] at h
        rw [ha']
        exact hmove t a a' runs _ ht hhist hsame hmoves h

end Sush
