import Sush.Lib.Sequencer
import Sush.Verify.Slot
import Sush.Verify.Turns

/-!
# The active session releases its jobs in chain order

The active session, seen without statuses and sleds, is a sequencer (`Sush.Lib.Sequencer`): its front
and its queue do not depend on whether the released jobs run, nor on whether there is a universe to
run them in.
-/

namespace Sush

open Lib SkipChain

variable [World] [Hashing]

namespace ActiveSession

/-- Where the session stands, and the jobs that wait. -/
def sequencer (a : ActiveSession) : Sequencer JobId JobStartRequest where
  front := a.session.front
  queue jobId := a.queuedJobs[jobId]?.map fun queued => queued.job.payload

variable (a : ActiveSession)

theorem sequencer_insert (queued : QueuedJob) :
    ({ a with queuedJobs := a.queuedJobs.insert queued.job.payload.jobId queued } :
      ActiveSession).sequencer = a.sequencer.put jobChain queued.job.payload := by
  unfold sequencer Sequencer.put
  congr 1
  funext jobId
  rw [BTreeMap.get_insert]
  by_cases h : queued.job.payload.jobId = jobId
  · subst h
    simp [jobChain]
  · have hne : jobId ≠ jobChain.pos queued.job.payload := fun heq => h heq.symm
    simp [h, Function.update_of_ne hne]

theorem sequencer_erase (jobId : JobId) :
    ({ a with queuedJobs := a.queuedJobs.erase jobId } : ActiveSession).sequencer =
      a.sequencer.take jobId := by
  unfold sequencer Sequencer.take
  congr 1
  funext k
  rw [BTreeMap.get_erase]
  by_cases h : jobId = k
  · subst h
    simp
  · simp [h, Function.update_of_ne (Ne.symm h)]

theorem sequencer_burn (jobId : JobId) :
    ({ a with session.lastJob := .burned jobId, queuedJobs := a.queuedJobs.erase jobId } :
      ActiveSession).sequencer = a.sequencer.burn jobChain jobId := by
  have h := sequencer_erase a jobId
  unfold Sequencer.burn
  have hqueue := congrArg Sequencer.queue h
  unfold sequencer at hqueue ⊢
  exact congrArg (Sequencer.mk _) hqueue

theorem sequencer_advance (queued : QueuedJob) :
    (State.advance a queued).sequencer = a.sequencer.pass jobChain queued.job.payload := by
  have hqueue := congrArg Sequencer.queue (sequencer_erase a a.session.nextJobId)
  unfold sequencer at hqueue ⊢
  exact congrArg (Sequencer.mk _) hqueue

theorem sequencer_next {queued : QueuedJob}
    (h : a.queuedJobs[a.session.nextJobId]? = some queued) :
    a.sequencer.queue a.sequencer.front.next = some queued.job.payload := by
  change (a.queuedJobs[a.session.nextJobId]?).map _ = _
  rw [h]
  rfl

theorem sequencer_settled (h : a.queuedJobs[a.session.nextJobId]? = none) :
    a.sequencer.Settled := by
  change (a.queuedJobs[a.session.nextJobId]?).map _ = _
  rw [h]
  rfl

end ActiveSession

/-- The session `a` has released the jobs `js` and is now `a'`, and the launches are of such jobs. -/
structure Released (a a' : ActiveSession) (js : List JobStartRequest) (runs : List Run) : Prop where
  same : SameSession a a'
  releases : a.sequencer.Releases jobChain js a'.sequencer
  size : a'.queuedJobs.size ≤ a.queuedJobs.size
  runs : ∀ r ∈ runs, r.job.payload ∈ js ∧ r.boundary.session = a.session.sessionId ∧
    r.boundary.successor = after r.job.payload

theorem Passes.releases {a b : ActiveSession} {js : List QueuedJob} (h : Passes a js b) :
    a.sequencer.Releases jobChain (js.map fun queued => queued.job.payload) b.sequencer := by
  induction h with
  | @done a h => exact .done (a.sequencer_settled h)
  | @pass a b queued js hq _ ih =>
    exact .pass (a.sequencer_next hq) (a.sequencer_advance queued ▸ ih)

theorem Passes.size {a b : ActiveSession} {js : List QueuedJob} (h : Passes a js b) :
    b.queuedJobs.size ≤ a.queuedJobs.size := by
  induction h with
  | done => exact le_rfl
  | pass hq _ ih => exact ih.trans (BTreeMap.size_erase_lt hq).le

variable [Crypto]

/-- **The release loop is a release of the sequencer**, with a universe and without. -/
theorem releaseReadyJobs_released {s : State} {a : ActiveSession} (now : DateTime)
    (network : Option Network) (ha : s.session = .active a) : ∃ a' js attachments,
      Released a a' js (launches (s.releaseReadyJobs now network).2) ∧
      (s.releaseReadyJobs now network).1 = { s with session := .active a', attachments } := by
  obtain ⟨js, a', hpass, heq⟩ := releaseReadyJobs_eq now network ha
  rw [heq]
  refine ⟨a', js.map fun queued => queued.job.payload, _, ?_, rfl⟩
  refine ⟨hpass.same, hpass.releases, hpass.size, ?_⟩
  intro r hr
  obtain ⟨queued, hmem, network, rfl⟩ := mem_launches_released hr
  exact ⟨List.mem_map_of_mem hmem, rfl, rfl⟩

/-! ## Jobs and skips of the active session -/

section Steps

variable {s : State} {a : ActiveSession} {tick : Tick}

theorem step_job {actor : KeyId} {queued : QueuedJob} (haccept : s.Accepts tick actor queued)
    (ha : (s.confirmStart tick.now queued.job.payload.sessionId).1.session = .active a)
    (hsession : a.session.sessionId = queued.job.payload.sessionId) :
    let c := (s.confirmStart tick.now queued.job.payload.sessionId).1
    let r := (c.enqueueJob tick.now queued actor).releaseReadyJobs tick.now tick.network
    (s.step tick).1 = r.1 ∧ launches (s.step tick).2 = launches r.2 := by
  obtain ⟨-, -, hos⟩ := confirmStart_quiet haccept.verifiedJob tick.now
  obtain ⟨version, hinput, hverify, hreplayed⟩ := haccept
  have hany : ((s.confirmStart tick.now queued.job.payload.sessionId).1.session.session).any
      (·.sessionId = queued.job.payload.sessionId) = true := by
    rw [ha]
    simp [SessionState.session, hsession]
  have hqueued : QueuedJob.mk queued.job queued.params queued.sleds (!s.past.isLive version) =
      queued := by
    rw [← hreplayed]
  simp only [State.step, hinput, State.update, State.handleJobRequest, hverify, State.startJob, hany,
    if_true, hqueued, launches_append, hos, List.nil_append, true_and]

omit [Hashing] in
theorem enqueueJob_of_known (now : DateTime) (ha : s.session = .active a) {queued : QueuedJob}
    (actor : KeyId) (hlive : queued.replayed = false)
    (hknown : s.history.contains queued.job.payload.jobId = true) :
    s.enqueueJob now queued actor = s := by
  simp [State.enqueueJob, ha, hlive, hknown]

omit [Hashing] in
theorem enqueueJob_of_room (now : DateTime) (ha : s.session = .active a) {queued : QueuedJob}
    (actor : KeyId) (h : queued.replayed = true ∨
      s.history.contains queued.job.payload.jobId = false ∧
        (maxQueuedJobs ≤ a.queuedJobs.size →
          a.queuedJobs.contains queued.job.payload.jobId = true)) :
    ∃ history, (∀ k, history.contains k = true →
        s.history.contains k = true ∨ k = queued.job.payload.jobId) ∧
      s.enqueueJob now queued actor =
        { s with
          session := .active
            { a with queuedJobs := a.queuedJobs.insert queued.job.payload.jobId queued }
          history } := by
  rw [enqueueJob_joins ha now actor h]
  refine ⟨_, ?_, rfl⟩
  intro k hk
  split at hk
  · exact (JobHistory.contains_of_setJobStatus hk).symm.imp_right Eq.symm
  · exact .inl hk

omit [Hashing] in
theorem cancelJob_known (now : DateTime) (ha : s.session = .active a) (jobId : JobId) (actor : KeyId)
    (replayed : Bool) (k : JobId)
    (hk : (s.cancelJob now jobId actor replayed).history.contains k = true) :
    s.history.contains k = true ∨ k = jobId := by
  unfold State.cancelJob at hk
  rw [ha] at hk
  simp only at hk
  split at hk
  · exact (JobHistory.contains_of_transitionJobStatus hk).symm.imp_right Eq.symm
  · exact .inl hk

theorem skipJob_ignored (now : DateTime) (network : Option Network) (version : Version)
    (actor : KeyId) {jobId : JobId} (hskip : a.session.canSkip jobId = false) :
    s.skipJob now network version actor jobId a = (s, []) := by
  simp only [State.skipJob, Session.skipJob, hskip]
  rfl

/-- The job that a skip burns in this state: the starter of the active session makes the request, and
the job is the next one or at the chain head. -/
def State.burns (s : State) (tick : Tick) : Option JobId :=
  match tick.input with
  | .gossip _ (.v0 (.request (.session actor (.skip sessionId jobId)))) =>
    match s.session with
    | .active a =>
      if a.session.sessionId = sessionId ∧ a.session.startedBy = some actor ∧
          a.session.canSkip jobId = true then some jobId
      else none
    | .inactive => none
  | _ => none

section Skip

variable {version : Version} {actor : KeyId} {jobId : JobId}
  (hinput : tick.input = .gossip version
    (.v0 (.request (.session actor (.skip a.session.sessionId jobId)))))
  (ha : s.session = .active a) (hstarter : a.session.startedBy = some actor)

include hinput ha hstarter

theorem burns_skip :
    s.burns tick = if a.session.canSkip jobId = true then some jobId else none := by
  simp only [State.burns, hinput, ha, hstarter, true_and]

end Skip

end Steps

end Sush
