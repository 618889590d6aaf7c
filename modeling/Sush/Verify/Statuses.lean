import Sush.Verify.AtMostOnce
import Sush.Verify.Turns

/-!
# The life of a status

A step writes at most one status: an event of a sled moves the status of its job there, a live job
that joins the queue is recorded as queued here, and a live cancellation is recorded here
(`State.Writes`). Each of them moves the status forward (`State.Writes.advances`), so a status never
goes back, and an ending stays, except that the real result of a job displaces an `interrupted` one.
The order in which verdicts and results arrive does not matter (`real_result_wins`).
-/

namespace Sush

open Lib

section

variable [World]

/-- The status that an event gives a job, if it changes it. -/
def JobEvent.next : JobEvent → Option JobStatus → Option JobStatus
  | start jobId when_, old =>
    if old.any JobStatus.isTerminal then none else some (.started jobId when_)
  | stop jobId when_ result output, old => State.stopTransition jobId when_ result output old
  | error jobId when_ cause, old => State.endTransition (.error jobId when_ cause) old
  | skipped jobId when_ reason, old => State.endTransition (.skipped jobId when_ reason) old

/-! ## Statuses move forward -/

/-- Where a status stands in the life of a job: none, queued, started, ended. -/
@[simp] def phase : Option JobStatus → ℕ
  | none => 0
  | some (.queued ..) => 1
  | some (.started ..) => 2
  | some (.cancelled ..) | some (.error ..) | some (.stopped ..) | some (.skipped ..) => 3

theorem phase_of_isTerminal {status : JobStatus} (h : status.isTerminal = true) :
    phase (some status) = 3 := by
  cases status with
  | queued | started => cases h
  | cancelled | error | stopped | skipped => rfl

/-- A status does not go back, and an ending stays unless it is an `interrupted` verdict, which the
real result displaces. -/
structure Advances (old new : Option JobStatus) : Prop where
  phase : phase old ≤ phase new
  ending : ∀ status, old = some status → status.isTerminal = true →
    new = some status ∨
      (∃ jobId timeError, status = .error jobId timeError .interrupted) ∧
        ∃ jobId timeStarted timeStopped result output,
          new = some (.stopped jobId timeStarted timeStopped result output)

namespace Advances

variable {old mid new : Option JobStatus}

theorem refl (old : Option JobStatus) : Advances old old := ⟨le_rfl, fun _ h _ => .inl h⟩

theorem of_phase_le (hold : Sush.phase old < 3) (h : Sush.phase old ≤ Sush.phase new) :
    Advances old new := by
  refine ⟨h, fun status heq hterminal => ?_⟩
  rw [heq, phase_of_isTerminal hterminal] at hold
  omega

theorem trans (h : Advances old mid) (h' : Advances mid new) : Advances old new := by
  refine ⟨h.phase.trans h'.phase, fun status hold hterminal => ?_⟩
  rcases h.ending status hold hterminal with hmid | ⟨hverdict, jobId, t₁, t₂, result, output, hmid⟩
  · exact h'.ending status hmid hterminal
  · -- the real result is an ending that is no verdict, so it stays
    rcases h'.ending _ hmid rfl with hnew | ⟨⟨_, _, hstopped⟩, -⟩
    · exact .inr ⟨hverdict, jobId, t₁, t₂, result, output, hnew⟩
    · cases hstopped

end Advances

theorem JobEvent.next_advances {event : JobEvent} {old : Option JobStatus} {new : JobStatus}
    (h : event.next old = some new) : Advances old (some new) := by
  have hend : ∀ ended : JobStatus, ended.isTerminal = true →
      State.endTransition ended old = some new → Advances old (some new) := by
    intro ended hterminal hnext
    unfold State.endTransition at hnext
    split at hnext <;> cases hnext
    all_goals
      refine .of_phase_le (by simp) ?_
      rw [phase_of_isTerminal hterminal]
      simp
  cases event with
  | start jobId when_ =>
    by_cases hold : old.any JobStatus.isTerminal = true
    · cases (if_pos hold).symm.trans h
    · cases (if_neg hold).symm.trans h
      rcases old with _ | old
      · exact .of_phase_le (by simp) (by simp)
      · cases old with
        | queued | started => exact .of_phase_le (by simp) (by simp)
        | cancelled | error | stopped | skipped => exact absurd rfl hold
  | stop jobId when_ result output =>
    unfold JobEvent.next State.stopTransition at h
    simp only at h
    split at h <;> cases h
    · exact .of_phase_le (by simp) (by simp)
    · refine ⟨le_rfl, ?_⟩
      rintro status ⟨⟩ -
      exact .inr ⟨⟨_, _, rfl⟩, _, _, _, _, _, rfl⟩
  | error jobId when_ cause => exact hend _ rfl h
  | skipped jobId when_ reason => exact hend _ rfl h

theorem JobEvent.next_ne {event : JobEvent} {old : Option JobStatus} {new : JobStatus}
    (hnext : event.next old = some new) (hterminal : new.isTerminal = true) : old ≠ some new := by
  rintro rfl
  cases event with
  | start jobId when_ => cases (if_pos hterminal).symm.trans hnext
  | stop jobId when_ result output =>
    unfold JobEvent.next State.stopTransition at hnext
    cases new with
    | started => cases hterminal
    | error jobId timeError cause => cases cause <;> cases hnext
    | cancelled | queued | stopped | skipped => cases hnext
  | error jobId when_ cause =>
    cases new with
    | queued | started => cases hterminal
    | cancelled | error | stopped | skipped => cases hnext
  | skipped jobId when_ reason =>
    cases new with
    | queued | started => cases hterminal
    | cancelled | error | stopped | skipped => cases hnext

variable [Crypto]

/-! ## What an event does -/

section Events

variable {s : State} {version : Version} {baseboard : BaseboardId} {event : JobEvent}

private theorem clearEnded_frame (s : State) (baseboard : BaseboardId) (jobId : JobId) :
    (s.clearEnded baseboard jobId).history = s.history ∧
      (s.clearEnded baseboard jobId).session = s.session ∧
      (s.clearEnded baseboard jobId).rack = s.rack := by
  unfold State.clearEnded
  split <;> exact ⟨rfl, rfl, rfl⟩

/-- **What an event does**: one that changes no status leaves the history as it is, and one that does
sets it, and reports it if one of our own jobs has ended. -/
theorem handleJobEvent_eq (s : State) (version : Version) (baseboard : BaseboardId)
    (event : JobEvent) :
    ((s.handleJobEvent version baseboard event).1.history,
        (s.handleJobEvent version baseboard event).2) =
      match event.next (s.history.statusOn event.jobId baseboard) with
      | none => (s.history, [])
      | some new =>
        (s.history.setJobStatus event.jobId baseboard new (some (World.rank version))
            s.session.queuedJobs,
          if new.isTerminal ∧ baseboard = s.rack.ownBaseboard then [.ran new] else []) := by
  -- the mark of a job that has ended is cleared first, which the history does not see
  have htransition : ∀ (t : State) jobId f, t.history = s.history → t.session = s.session →
      t.rack = s.rack → ((t.transition version baseboard jobId f).1.history,
          (t.transition version baseboard jobId f).2) =
        match f (s.history.statusOn jobId baseboard) with
        | none => (s.history, [])
        | some new =>
          (s.history.setJobStatus jobId baseboard new (some (World.rank version))
              s.session.queuedJobs,
            if new.isTerminal ∧ baseboard = s.rack.ownBaseboard then [.ran new] else []) := by
    intro t jobId f hh hs hr
    unfold State.transition JobHistory.transitionJobStatus
    rw [hh, hs, hr]
    cases f (s.history.statusOn jobId baseboard) <;> rfl
  cases event with
  | start jobId when_ =>
    by_cases hsettled : s.isSettledOn jobId baseboard = true
    · have hnone : (JobEvent.start jobId when_).next (s.history.statusOn jobId baseboard) = none :=
        if_pos hsettled
      simp only [State.handleJobEvent, JobEvent.jobId, if_pos hsettled, hnone]
    · have hsome : (JobEvent.start jobId when_).next (s.history.statusOn jobId baseboard) =
          some (.started jobId when_) := if_neg hsettled
      simp only [State.handleJobEvent, JobEvent.jobId, if_neg hsettled, hsome]
      rfl
  | stop jobId when_ result output =>
    obtain ⟨hh, hs, hr⟩ := clearEnded_frame s baseboard jobId
    exact htransition _ jobId _ hh hs hr
  | error jobId when_ cause =>
    obtain ⟨hh, hs, hr⟩ := clearEnded_frame s baseboard jobId
    exact htransition _ jobId _ hh hs hr
  | skipped jobId when_ reason => exact htransition s jobId _ rfl rfl rfl

theorem handleJobEvent_none (hnext : event.next (s.history.statusOn event.jobId baseboard) = none) :
    (s.handleJobEvent version baseboard event).1.history = s.history ∧
      (s.handleJobEvent version baseboard event).2 = [] := by
  have heq := handleJobEvent_eq s version baseboard event
  rw [hnext] at heq
  exact Prod.mk.inj heq

theorem handleJobEvent_some {new : JobStatus}
    (hnext : event.next (s.history.statusOn event.jobId baseboard) = some new) :
    (s.handleJobEvent version baseboard event).1.history =
        s.history.setJobStatus event.jobId baseboard new (some (World.rank version))
          s.session.queuedJobs ∧
      (s.handleJobEvent version baseboard event).2 =
        if new.isTerminal ∧ baseboard = s.rack.ownBaseboard then [.ran new] else [] := by
  have heq := handleJobEvent_eq s version baseboard event
  rw [hnext] at heq
  exact Prod.mk.inj heq

end Events

/-! ## What a step writes -/

variable [Hashing]

variable {jobId : JobId} {baseboard : BaseboardId} {new : JobStatus} {o : Output} {s : State}
  {tick : Tick}

theorem step_event {version : Version} {event : JobEvent}
    (hinput : tick.input = .gossip version (.v0 (.event baseboard (.job event)))) :
    s.step tick = s.handleJobEvent version baseboard event := by
  simp only [State.step, hinput, State.update, State.handleEvent]

/-- The input cancels a job of the active session: it burns it, or stops it. -/
inductive State.Cancels (s : State) (tick : Tick) (a : ActiveSession) (jobId : JobId)
    (actor : KeyId) (version : Version) : Prop
  | skip (hinput : tick.input = .gossip version
      (.v0 (.request (.session actor (.skip a.session.sessionId jobId)))))
    (hskip : a.session.canSkip jobId = true)
  | stop (hinput : tick.input = .gossip version (.v0 (.request (.job actor (.stop jobId)))))
    (hknown : s.isJobKnown jobId = true)

/-- The step sets the status of a job on a sled. -/
inductive State.Writes (s : State) (tick : Tick) : JobId → BaseboardId → JobStatus → Prop
  | event {version : Version} {baseboard : BaseboardId} {event : JobEvent} {new : JobStatus}
    (hinput : tick.input = .gossip version (.v0 (.event baseboard (.job event))))
    (hnext : event.next (s.history.statusOn event.jobId baseboard) = some new) :
    Writes s tick event.jobId baseboard new
  | enqueue {actor : KeyId} {queued : QueuedJob} {a : ActiveSession}
    (haccept : s.Accepts tick actor queued) (ha : (s.opened tick).session = .active a)
    (hsession : a.session.sessionId = queued.job.payload.sessionId)
    (hlive : queued.replayed = false)
    (hhere : queued.sleds.contains s.rack.ownBaseboard = true)
    (hnew : s.history.contains queued.job.payload.jobId = false)
    (hroom : maxQueuedJobs ≤ a.queuedJobs.size →
      a.queuedJobs.contains queued.job.payload.jobId = true) :
    Writes s tick queued.job.payload.jobId s.rack.ownBaseboard
      (.queued queued.job.payload.jobId tick.now actor)
  | cancel {version : Version} {actor : KeyId} {jobId : JobId} {a : ActiveSession}
    {new : JobStatus} (hcancel : s.Cancels tick a jobId actor version)
    (ha : s.session = .active a) (hstarter : a.session.startedBy = some actor)
    (hlive : s.past.isLive version = true) (hhere : s.cancelsHere a jobId = true)
    (hnext : State.cancelTransition (.cancelled jobId tick.now actor)
      (s.history.statusOn jobId s.rack.ownBaseboard) = some new) :
    Writes s tick jobId s.rack.ownBaseboard new

section Writes

variable {s : State} {tick : Tick} {actor : KeyId} {a : ActiveSession}

theorem cancelJob_writes {version : Version} (hcancel : s.Cancels tick a jobId actor version)
    (ha : s.session = .active a) (hstarter : a.session.startedBy = some actor) :
    (s.cancelJob tick.now jobId actor (!s.past.isLive version)).history = s.history ∨
      ∃ new queued, s.Writes tick jobId s.rack.ownBaseboard new ∧
        (s.cancelJob tick.now jobId actor (!s.past.isLive version)).history =
          s.history.setJobStatus jobId s.rack.ownBaseboard new none queued := by
  unfold State.cancelJob
  rw [ha]
  simp only
  split
  · next hhere =>
    obtain ⟨hlive, hhere⟩ := hhere
    have hlive : s.past.isLive version = true := by simpa using hlive
    rcases s.history.transitionJobStatus_cases jobId s.rack.ownBaseboard none
        (some (a.queuedJobs.erase jobId)) (State.cancelTransition (.cancelled jobId tick.now actor))
      with heq | ⟨new, hnext, heq⟩
    · exact .inl heq
    · exact .inr ⟨new, _, .cancel hcancel ha hstarter hlive hhere hnext, heq⟩
  · exact .inl rfl

theorem enqueueJob_writes {queued : QueuedJob} (haccept : s.Accepts tick actor queued)
    (ha : (s.opened tick).session = .active a)
    (hsession : a.session.sessionId = queued.job.payload.sessionId) :
    (State.enqueueJob { s with session := .active a } tick.now queued actor).history = s.history ∨
      ∃ queue, s.Writes tick queued.job.payload.jobId s.rack.ownBaseboard
          (.queued queued.job.payload.jobId tick.now actor) ∧
        (State.enqueueJob { s with session := .active a } tick.now queued actor).history =
          s.history.setJobStatus queued.job.payload.jobId s.rack.ownBaseboard
            (.queued queued.job.payload.jobId tick.now actor) none queue := by
  unfold State.enqueueJob
  simp only
  split
  · exact .inl rfl
  · next hnew =>
    split
    · exact .inl rfl
    · next hroom =>
      split
      · next hhere =>
        obtain ⟨hhere, hlive⟩ := hhere
        refine .inr ⟨_, .enqueue haccept ha hsession (by simpa using hlive) hhere ?_ ?_, rfl⟩
        · simpa [hlive] using hnew
        · intro hfull
          simpa [hlive, hfull] using hroom
      · exact .inl rfl

theorem step_writes (s : State) (tick : Tick) :
    (s.step tick).1.history = s.history ∨
      ∃ jobId baseboard new rank queue, s.Writes tick jobId baseboard new ∧
        (s.step tick).1.history = s.history.setJobStatus jobId baseboard new rank queue := by
  have hturn := step_turn s tick
  generalize (s.step tick).1.session = σ, (s.step tick).1.history = history,
    (s.step tick).1.attachments = attachments, (s.step tick).2 = os at hturn ⊢
  cases hturn with
  | idle | settle hinput | stop hinput ha hstarter | allow hinput ha hstarter
  | deny hinput ha hstarter | refuse haccept hother => exact .inl rfl
  | @event version baseboard event hinput =>
    cases hnext : event.next (s.history.statusOn event.jobId baseboard) with
    | none => exact .inl (handleJobEvent_none hnext).1
    | some new => exact .inr ⟨_, _, new, _, _, .event hinput hnext, (handleJobEvent_some hnext).1⟩
  | skip hinput ha hstarter hskip he hpass =>
    subst he
    rcases cancelJob_writes (.skip hinput hskip) ha hstarter with heq | ⟨new, queued, hw, heq⟩
    · exact .inl heq
    · exact .inr ⟨_, _, new, _, _, hw, heq⟩
  | cancel hinput ha hstarter hknown =>
    rcases cancelJob_writes (.stop hinput hknown) ha hstarter with heq | ⟨new, queued, hw, heq⟩
    · exact .inl heq
    · exact .inr ⟨_, _, new, _, _, hw, heq⟩
  | job haccept ha hsession he hb hpass =>
    subst he
    rcases enqueueJob_writes haccept ha hsession with heq | ⟨queue, hw, heq⟩
    · exact .inl heq
    · exact .inr ⟨_, _, _, _, _, hw, heq⟩

/-- A status after a step is the one that the step has set, the one before, or gone with its job. -/
theorem statusOn_step (s : State) (tick : Tick) (jobId : JobId) (baseboard : BaseboardId) :
    (∃ new, s.Writes tick jobId baseboard new ∧
        (s.step tick).1.history.statusOn jobId baseboard = some new) ∨
      (s.step tick).1.history.statusOn jobId baseboard = s.history.statusOn jobId baseboard ∨
      (s.step tick).1.history.contains jobId = false ∧
        (s.step tick).1.history.statusOn jobId baseboard = none := by
  rcases step_writes s tick with heq | ⟨j, b, new, rank, queue, hw, heq⟩
  · exact .inr (.inl (by rw [heq]))
  · rw [heq]
    rcases s.history.statusOn_setJobStatus j b new rank queue jobId baseboard with hrec | hgone
    · rw [hrec, JobHistory.statusOn_record]
      split
      · next hboth =>
        obtain ⟨rfl, rfl⟩ := hboth
        exact .inl ⟨new, hw, rfl⟩
      · exact .inr (.inl rfl)
    · exact .inr (.inr hgone)

end Writes

theorem State.Writes.advances (h : s.Writes tick jobId baseboard new) :
    Advances (s.history.statusOn jobId baseboard) (some new) := by
  cases h with
  | event hinput hnext => exact JobEvent.next_advances hnext
  | enqueue haccept ha hsession hlive hhere hnew hroom =>
    rw [JobHistory.statusOn_of_not_contains hnew]
    exact .of_phase_le (by simp) (by simp)
  | cancel hcancel ha hstarter hlive hhere hnext =>
    unfold State.cancelTransition at hnext
    split at hnext <;> cases hnext
    · next hold =>
      rw [hold]
      exact .of_phase_le (by simp) (by simp)
    · next hold =>
      rw [hold]
      exact .of_phase_le (by simp) (by simp)

theorem State.Writes.history (h : s.Writes tick jobId baseboard new) :
    ∃ rank queue, (s.step tick).1.history =
      s.history.setJobStatus jobId baseboard new rank queue := by
  cases h with
  | @event version _ event _ hinput hnext =>
    exact ⟨_, _, by rw [step_event hinput, (handleJobEvent_some hnext).1]⟩
  | @enqueue actor queued a haccept ha hsession hlive hhere hnew hroom =>
    obtain ⟨b, js, a', p, -, -, -, heq⟩ := step_job_eq haccept ha hsession
    have hqueued := enqueueJob_of_live (s := { s with session := .active a }) rfl tick.now actor hlive
      hnew hroom
    refine ⟨none, some (a.queuedJobs.insert queued.job.payload.jobId queued), ?_⟩
    rw [heq, hqueued]
    exact if_pos hhere
  | @cancel version actor _ a _ hcancel ha hstarter hlive hhere hnext =>
    have hcancelled : (s.cancelJob tick.now jobId actor (!s.past.isLive version)).history =
        s.history.setJobStatus jobId s.rack.ownBaseboard new none
          (some (a.queuedJobs.erase jobId)) := by
      unfold State.cancelJob JobHistory.transitionJobStatus
      rw [ha]
      simp only [hlive, hhere, hnext]
      rfl
    refine ⟨none, some (a.queuedJobs.erase jobId), ?_⟩
    rw [← hcancelled]
    cases hcancel with
    | skip hinput hskip =>
      obtain ⟨js, a', -, heq⟩ := skipJob_eq tick.now tick.network version actor ha hskip
      rw [step_skip_eq hinput ha hstarter, heq]
    | stop hinput hknown => rw [step_stop_eq hinput ha hstarter hknown]

/-- The step evicts nothing, neither what was known nor what it writes. -/
def State.Retains (s : State) (tick : Tick) : Prop :=
  s.Keeps tick ∧ ∀ jobId baseboard new, s.Writes tick jobId baseboard new →
    (s.step tick).1.history.contains jobId = true

/-- The step does not evict the job, if it was known or is known by what the step writes. -/
def State.KeepsJob (s : State) (jobId : JobId) (tick : Tick) : Prop :=
  (s.history.contains jobId = true ∨ ∃ baseboard new, s.Writes tick jobId baseboard new) →
    (s.step tick).1.history.contains jobId = true

section Retains

variable {s : State} {tick : Tick}

theorem retains_of_size (hsize : s.history.jobStatus.size < maxHistory) : s.Retains tick := by
  have hrecord : ∀ jobId baseboard new rank queue,
      s.history.setJobStatus jobId baseboard new rank queue =
        s.history.record jobId baseboard new rank := by
    intro jobId baseboard new rank queue
    refine JobHistory.gc_of_le ?_
    have hinsert : (s.history.record jobId baseboard new rank).jobStatus.size ≤
        s.history.jobStatus.size + 1 := Std.ExtTreeMap.size_insert_le
    omega
  constructor
  · intro k hk
    rcases step_writes s tick with heq | ⟨jobId, baseboard, new, rank, queue, -, heq⟩
    · rwa [heq]
    · rw [heq, hrecord, JobHistory.contains_record]
      exact .inr hk
  · intro jobId baseboard new hw
    obtain ⟨rank, queue, heq⟩ := hw.history
    rw [heq, hrecord, JobHistory.contains_record]
    exact .inl rfl

theorem State.Retains.keepsJob (h : s.Retains tick) (jobId : JobId) : s.KeepsJob jobId tick := by
  rintro (hbefore | ⟨baseboard, new, hw⟩)
  · exact h.1 jobId hbefore
  · exact h.2 jobId baseboard new hw

/-- While its job is not evicted, a status after a step is the one that the step has set, or the one
before. -/
theorem State.KeepsJob.statusOn (h : s.KeepsJob jobId tick) (baseboard : BaseboardId) :
    (∃ new, s.Writes tick jobId baseboard new ∧
        (s.step tick).1.history.statusOn jobId baseboard = some new) ∨
      (s.step tick).1.history.statusOn jobId baseboard = s.history.statusOn jobId baseboard := by
  rcases statusOn_step s tick jobId baseboard with hw | hsame | ⟨hgone, hnone⟩
  · exact .inl hw
  · exact .inr hsame
  · right
    have hbefore : s.history.contains jobId = false := by
      by_contra hk
      rw [h (.inl (by simpa using hk))] at hgone
      cases hgone
    rw [hnone, JobHistory.statusOn_of_not_contains hbefore]

theorem State.KeepsJob.statusOn_of_writes (h : s.KeepsJob jobId tick)
    (hw : s.Writes tick jobId baseboard new) :
    (s.step tick).1.history.statusOn jobId baseboard = some new := by
  have hkept := h (.inr ⟨baseboard, new, hw⟩)
  obtain ⟨rank, queue, heq⟩ := hw.history
  rw [heq] at hkept ⊢
  rcases s.history.statusOn_setJobStatus jobId baseboard new rank queue jobId baseboard with
    hrec | ⟨hgone, -⟩
  · rw [hrec, JobHistory.statusOn_record, if_pos ⟨rfl, rfl⟩]
  · rw [hkept] at hgone
    cases hgone

theorem State.Retains.statusOn (h : s.Retains tick) (jobId : JobId) (baseboard : BaseboardId) :
    (∃ new, s.Writes tick jobId baseboard new ∧
        (s.step tick).1.history.statusOn jobId baseboard = some new) ∨
      (s.step tick).1.history.statusOn jobId baseboard = s.history.statusOn jobId baseboard :=
  (h.keepsJob jobId).statusOn baseboard

theorem State.Retains.statusOn_of_writes (h : s.Retains tick)
    (hw : s.Writes tick jobId baseboard new) :
    (s.step tick).1.history.statusOn jobId baseboard = some new :=
  (h.keepsJob jobId).statusOn_of_writes hw

theorem State.Retains.advances (h : s.Retains tick) (jobId : JobId) (baseboard : BaseboardId) :
    Advances (s.history.statusOn jobId baseboard)
      ((s.step tick).1.history.statusOn jobId baseboard) := by
  rcases h.statusOn jobId baseboard with ⟨new, hw, heq⟩ | heq
  · rw [heq]
    exact hw.advances
  · rw [heq]
    exact .refl _

end Retains

/-! ## What is reported -/

def Output.ran? : Output → Option JobStatus
  | ran status => some status
  | _ => none

def rans (outputs : List Output) : List JobStatus := outputs.filterMap Output.ran?

/-- An event that the input delivers changes this sled's status of a job to an ending. -/
def State.Ends (s : State) (tick : Tick) (jobId : JobId) (status : JobStatus) : Prop :=
  (∃ version baseboard event, tick.input = .gossip version (.v0 (.event baseboard (.job event)))) ∧
    status.isTerminal = true ∧ s.history.statusOn jobId s.rack.ownBaseboard ≠ some status ∧
    (s.step tick).1.history.statusOn jobId s.rack.ownBaseboard = some status

section Reports

variable {s : State} {tick : Tick}

theorem ran_released {now : DateTime} {network : Option Network} {a : ActiveSession}
    {queued : QueuedJob} (ho : o ∈ s.released now network a queued) : o.ran? = none := by
  rcases released_cases s now network a queued with hnone | ⟨event, hnews⟩ | ⟨home, hrun⟩
  · rw [hnone] at ho
    cases ho
  · rw [hnews] at ho
    cases List.mem_singleton.1 ho
    rfl
  · rw [hrun] at ho
    cases List.mem_singleton.1 ho
    rfl

omit [Hashing] in
theorem ran_skipQueuedJobs {now : DateTime} (ho : o ∈ s.skipQueuedJobs now) : o.ran? = none := by
  obtain ⟨⟨jobId, queued⟩, -, heq⟩ := List.mem_filterMap.1 ho
  simp only at heq
  split at heq
  · cases heq
    rfl
  · cases heq

omit [Hashing] in
theorem ran_settle {now : DateTime} {network : Option Network} (ho : o ∈ (s.settle now network).2) :
    o.ran? = none := by
  obtain ⟨reaped, heq, -⟩ := settle_eq s now network
  rw [heq, List.mem_append] at ho
  rcases ho with ho | ho
  · obtain ⟨jobId, -, rfl⟩ := List.mem_map.1 ho
    rfl
  · obtain ⟨event, -, rfl⟩ := List.mem_map.1 ho
    rfl

omit [Hashing] in
theorem ran_displaced (ho : o ∈ s.displaced tick) : o.ran? = none := by
  unfold State.displaced at ho
  split at ho
  · exact ran_skipQueuedJobs ho
  · cases ho

theorem step_rans (s : State) (tick : Tick) : rans (s.step tick).2 = [] ∨
    ∃ version event new,
      tick.input = .gossip version (.v0 (.event s.rack.ownBaseboard (.job event))) ∧
      event.next (s.history.statusOn event.jobId s.rack.ownBaseboard) = some new ∧
      new.isTerminal = true ∧ rans (s.step tick).2 = [new] := by
  have hturn := step_turn s tick
  generalize (s.step tick).1.session = σ, (s.step tick).1.history = history,
    (s.step tick).1.attachments = attachments, (s.step tick).2 = os at hturn ⊢
  cases hturn with
  | idle | allow hinput ha hstarter | deny hinput ha hstarter | cancel hinput ha hstarter hknown =>
    exact .inl rfl
  | settle hinput => exact .inl (List.filterMap_eq_nil_iff.2 fun o ho => ran_settle ho)
  | stop hinput ha hstarter => exact .inl (List.filterMap_eq_nil_iff.2 fun o ho => ran_skipQueuedJobs ho)
  | @event version baseboard event hinput =>
    cases hnext : event.next (s.history.statusOn event.jobId baseboard) with
    | none => exact .inl (by rw [(handleJobEvent_none hnext).2]; rfl)
    | some new =>
      rw [(handleJobEvent_some hnext).2]
      by_cases hown : new.isTerminal = true ∧ baseboard = s.rack.ownBaseboard
      · rw [if_pos hown]
        obtain ⟨hterminal, rfl⟩ := hown
        exact .inr ⟨version, event, new, hinput, hnext, hterminal, rfl⟩
      · rw [if_neg hown]
        exact .inl rfl
  | skip hinput ha hstarter hskip he hpass =>
    refine .inl (List.filterMap_eq_nil_iff.2 fun o ho => ?_)
    obtain ⟨queued, -, ho⟩ := List.mem_flatMap.1 ho
    exact ran_released ho
  | refuse haccept hother =>
    refine .inl (List.filterMap_eq_nil_iff.2 fun o ho => ?_)
    rcases List.mem_append.1 ho with ho | ho
    · exact ran_displaced ho
    · unfold State.refusal at ho
      split at ho
      · rw [List.mem_singleton.1 ho]
        rfl
      · cases ho
  | job haccept ha hsession he hb hpass =>
    refine .inl (List.filterMap_eq_nil_iff.2 fun o ho => ?_)
    rcases List.mem_append.1 ho with ho | ho
    · exact ran_displaced ho
    · obtain ⟨queued, -, ho⟩ := List.mem_flatMap.1 ho
      exact ran_released ho

theorem rans_of_ends (hretains : s.Retains tick) {status : JobStatus}
    (h : s.Ends tick jobId status) : rans (s.step tick).2 = [status] := by
  obtain ⟨⟨version, baseboard, event, hinput⟩, hterminal, hold, hnew⟩ := h
  rcases hretains.statusOn jobId s.rack.ownBaseboard with ⟨new, hw, heq⟩ | heq
  · obtain rfl : new = status := Option.some.inj (heq.symm.trans hnew)
    generalize hown : s.rack.ownBaseboard = own at hw
    cases hw with
    | event hinput' hnext =>
      cases hinput.symm.trans hinput'
      rw [step_event hinput, (handleJobEvent_some hnext).2, if_pos ⟨hterminal, hown.symm⟩]
      rfl
    | enqueue haccept =>
      obtain ⟨_, hinput', -⟩ := haccept
      cases hinput.symm.trans hinput'
    | cancel hcancel =>
      cases hcancel with
      | skip hinput' | stop hinput' => cases hinput.symm.trans hinput'
  · exact absurd (heq.symm.trans hnew) hold

theorem ends_of_rans (hretains : s.Retains tick) {status : JobStatus}
    (h : status ∈ rans (s.step tick).2) : ∃ jobId, s.Ends tick jobId status := by
  rcases step_rans s tick with hnone | ⟨version, event, new, hinput, hnext, hterminal, hrans⟩
  · rw [hnone] at h
    cases h
  · rw [hrans, List.mem_singleton] at h
    subst h
    exact ⟨event.jobId, ⟨version, _, event, hinput⟩, hterminal, JobEvent.next_ne hnext hterminal,
      hretains.statusOn_of_writes (.event hinput hnext)⟩

end Reports

/-- **The life of a status.** In every run without eviction, from every state: a status never goes
back, and an ending stays except that a real result displaces an `interrupted` verdict; and what is
reported as run is, step by step, the ending that an event has given one of this sled's jobs. -/
theorem status_lifecycle (s₀ : State) (ticks : List Tick)
    (hretains : Always State.step (fun s _ tick => s.Retains tick) s₀ [] ticks) :
    (∀ pre post, ticks = pre ++ post → ∀ jobId baseboard,
      Advances ((s₀.run pre).1.history.statusOn jobId baseboard)
        ((s₀.run ticks).1.history.statusOn jobId baseboard)) ∧
    ∀ pre tick post, ticks = pre ++ tick :: post →
      (∀ jobId status, (s₀.run pre).1.Ends tick jobId status →
        rans ((s₀.run pre).1.step tick).2 = [status]) ∧
      ∀ status ∈ rans ((s₀.run pre).1.step tick).2,
        ∃ jobId, (s₀.run pre).1.Ends tick jobId status := by
  constructor
  · rintro pre post rfl jobId baseboard
    rw [State.run_append]
    exact run_invariant_of_always State.step
      (P := fun s _ _ => Advances ((s₀.run pre).1.history.statusOn jobId baseboard)
        (s.history.statusOn jobId baseboard))
      (fun s _ _ tick hstep h => h.trans (hstep.advances jobId baseboard))
      hretains.split.forget (.refl _)
  · rintro pre tick post rfl
    have hstep := hretains.split.1
    exact ⟨fun jobId status h => rans_of_ends hstep h, fun status h => ends_of_rans hstep h⟩

/-! ## Verdicts and results in any order -/

def JobEvent.apply (old : Option JobStatus) (event : JobEvent) : Option JobStatus :=
  (event.next old).or old

/-- The event of a job on a sled that an input delivers, if any. -/
def Tick.eventOf (jobId : JobId) (baseboard : BaseboardId) (tick : Tick) : Option JobEvent :=
  match tick.input with
  | .gossip _ (.v0 (.event sled (.job event))) =>
    if event.jobId = jobId ∧ sled = baseboard then some event else none
  | _ => none

def Input.IsRequest : Input → Prop
  | .gossip _ (.v0 (.request _)) => True
  | _ => False

section Order

variable {s : State} {tick : Tick} {jobId : JobId} {baseboard : BaseboardId}

omit [Crypto] [Hashing] in
theorem eventOf_eq_some {event : JobEvent} : tick.eventOf jobId baseboard = some event ↔
    event.jobId = jobId ∧
      ∃ version, tick.input = .gossip version (.v0 (.event baseboard (.job event))) := by
  unfold Tick.eventOf
  constructor
  · intro h
    split at h
    · next version sled e hinput =>
      split at h
      · next hboth =>
        cases h
        obtain ⟨hid, rfl⟩ := hboth
        exact ⟨hid, version, hinput⟩
      · cases h
    · cases h
  · rintro ⟨hid, version, hinput⟩
    rw [hinput]
    exact if_pos ⟨hid, rfl⟩

/-- While its job is not evicted, an input that is no request changes a status only by an event about
it. -/
theorem statusOn_eventOf (hkeeps : s.KeepsJob jobId tick) (hevent : ¬tick.input.IsRequest) :
    (s.step tick).1.history.statusOn jobId baseboard =
      (tick.eventOf jobId baseboard).elim (s.history.statusOn jobId baseboard)
        (JobEvent.apply (s.history.statusOn jobId baseboard)) := by
  cases hof : tick.eventOf jobId baseboard with
  | some event =>
    obtain ⟨rfl, version, hinput⟩ := eventOf_eq_some.1 hof
    simp only [Option.elim_some, JobEvent.apply]
    cases hnext : event.next (s.history.statusOn event.jobId baseboard) with
    | none => rw [step_event hinput, (handleJobEvent_none hnext).1, Option.none_or]
    | some new => rw [hkeeps.statusOn_of_writes (.event hinput hnext), Option.some_or]
  | none =>
    rcases hkeeps.statusOn baseboard with ⟨new, hw, -⟩ | heq
    · exfalso
      cases hw with
      | event hinput hnext =>
        cases hof.symm.trans (eventOf_eq_some.2 ⟨rfl, _, hinput⟩)
      | enqueue haccept =>
        obtain ⟨_, hinput, -⟩ := haccept
        exact hevent (hinput ▸ trivial)
      | cancel hcancel =>
        cases hcancel with
        | skip hinput | stop hinput => exact hevent (hinput ▸ trivial)
    · exact heq

theorem statusOn_run_events {ticks : List Tick}
    (hkeeps : Always State.step (fun s _ tick => s.KeepsJob jobId tick) s [] ticks)
    (hevents : ∀ tick ∈ ticks, ¬tick.input.IsRequest) :
    (s.run ticks).1.history.statusOn jobId baseboard =
      (ticks.filterMap (Tick.eventOf jobId baseboard)).foldl JobEvent.apply
        (s.history.statusOn jobId baseboard) := by
  induction ticks generalizing s with
  | nil => rfl
  | cons tick ticks ih =>
    have hstep : (s.step tick).1.history.statusOn jobId baseboard = _ :=
      statusOn_eventOf hkeeps.1 (hevents tick (.head _))
    have hrest := ih (s := (s.step tick).1) hkeeps.2.forget fun t ht => hevents t (.tail _ ht)
    unfold State.run at hrest ⊢
    rw [run_cons, hrest, hstep, List.filterMap_cons]
    cases tick.eventOf jobId baseboard <;> rfl

/-- A verdict on a job: it was interrupted. -/
def JobEvent.IsVerdict (jobId : JobId) (event : JobEvent) : Prop :=
  ∃ when_, event = .error jobId when_ .interrupted

omit [Crypto] [Hashing] in
theorem foldl_verdicts (jobId : JobId) {P : Option JobStatus → Prop}
    (hP : ∀ old when_, P old → P (JobEvent.apply old (.error jobId when_ .interrupted)))
    {events : List JobEvent} (hevents : ∀ event ∈ events, event.IsVerdict jobId)
    {old : Option JobStatus} (h : P old) : P (events.foldl JobEvent.apply old) := by
  refine List.foldlRecOn events JobEvent.apply h fun old hold event hmem => ?_
  obtain ⟨when_, rfl⟩ := hevents event hmem
  exact hP old when_ hold

/-- What a status may be until the start arrives, with verdicts before it: none, queued, or
interrupted. -/
inductive Unstarted : Option JobStatus → Prop
  | unknown : Unstarted none
  | queued (id : JobId) (time : DateTime) (actor : KeyId) : Unstarted (some (.queued id time actor))
  | interrupted (id : JobId) (time : DateTime) : Unstarted (some (.error id time .interrupted))

/-- What a status may be between start and stop, with verdicts around: started or interrupted. -/
inductive Unstopped : Option JobStatus → Prop
  | started (id : JobId) (time : DateTime) : Unstopped (some (.started id time))
  | interrupted (id : JobId) (time : DateTime) : Unstopped (some (.error id time .interrupted))

section Phases

omit [Crypto] [Hashing]

variable {old : Option JobStatus}

theorem Unstarted.verdict (h : Unstarted old) (jobId : JobId) (when_ : DateTime) :
    Unstarted (JobEvent.apply old (.error jobId when_ .interrupted)) := by
  cases h <;> exact .interrupted _ _

theorem Unstarted.start (h : Unstarted old) (jobId : JobId) (when_ : DateTime) :
    Unstopped (JobEvent.apply old (.start jobId when_)) := by
  cases h with
  | unknown | queued => exact .started _ _
  | interrupted id time => exact .interrupted id time

theorem Unstopped.verdict (h : Unstopped old) (jobId : JobId) (when_ : DateTime) :
    Unstopped (JobEvent.apply old (.error jobId when_ .interrupted)) := by
  cases h <;> exact .interrupted _ _

theorem Unstopped.stop (h : Unstopped old) (jobId : JobId) (when_ : DateTime)
    (result : Except ProcessError Int32) (output : JobOutputState) :
    ∃ began, JobEvent.apply old (.stop jobId when_ result output) =
      some (.stopped jobId began when_ result output) := by
  cases h with
  | started id time | interrupted id time => exact ⟨time, rfl⟩

end Phases

end Order

/-- **The real result wins in every order.** From every state in which a job has no status on a sled, or
waits there, its start and its later stop decide the status, wherever verdicts on it and other events
stand among them. -/
theorem real_result_wins (s : State) (ticks : List Tick)
    (hretains : Always State.step (fun s _ tick => s.Retains tick) s [] ticks)
    (hevents : ∀ tick ∈ ticks, ¬tick.input.IsRequest) (jobId : JobId) (baseboard : BaseboardId)
    (hwaits : s.history.statusOn jobId baseboard = none ∨
      ∃ id timeQueued actor,
        s.history.statusOn jobId baseboard = some (.queued id timeQueued actor))
    (early middle late : List JobEvent) (timeStarted timeStopped : DateTime)
    (result : Except ProcessError Int32) (output : JobOutputState)
    (hverdicts : ∀ event ∈ early ++ middle ++ late, event.IsVerdict jobId)
    (horder : ticks.filterMap (Tick.eventOf jobId baseboard) =
      early ++ .start jobId timeStarted :: middle ++
        .stop jobId timeStopped result output :: late) :
    ∃ began, (s.run ticks).1.history.statusOn jobId baseboard =
      some (.stopped jobId began timeStopped result output) := by
  have hwaiting : Unstarted (s.history.statusOn jobId baseboard) := by
    rcases hwaits with hnone | ⟨id, time, actor, hqueued⟩
    · exact hnone ▸ .unknown
    · exact hqueued ▸ .queued id time actor
  have hearly : Unstarted (early.foldl JobEvent.apply (s.history.statusOn jobId baseboard)) :=
    foldl_verdicts jobId (fun _ when_ h => h.verdict jobId when_)
      (fun e he => hverdicts e (by simp [he])) hwaiting
  have hmiddle : ∀ old, Unstopped old → Unstopped (middle.foldl JobEvent.apply old) := fun _ hold =>
    foldl_verdicts jobId (fun _ when_ h => h.verdict jobId when_)
      (fun e he => hverdicts e (by simp [he])) hold
  obtain ⟨began, hstopped⟩ :=
    (hmiddle _ (hearly.start jobId timeStarted)).stop jobId timeStopped result output
  -- a verdict that comes after the result changes nothing
  have hlate : late.foldl JobEvent.apply (some (.stopped jobId began timeStopped result output)) =
      some (.stopped jobId began timeStopped result output) := by
    refine foldl_verdicts jobId
      (P := fun old => old = some (.stopped jobId began timeStopped result output)) ?_
      (fun e he => hverdicts e (by simp [he])) rfl
    rintro old when_ rfl
    rfl
  refine ⟨began, ?_⟩
  have hkeeps : Always State.step (fun s _ tick => s.KeepsJob jobId tick) s [] ticks :=
    hretains.imp fun s _ tick h => h.keepsJob jobId
  rw [statusOn_run_events hkeeps hevents, horder]
  simp only [List.foldl_append, List.foldl_cons]
  rw [hstopped, hlate]

end

end Sush

namespace Sush.Terms

open Lib

attribute [local instance] world hashing crypto

def noOutput : JobOutputState := ⟨0, 0, 0, 0⟩

/-- A job waits, its start and an old verdict on it arrive, and then its result. -/
def verdictDisplaced : List Tick :=
  [start (10 : ℕ) (7 : ℕ) 5, job (10 : ℕ) (7 : ℕ) (firstJob 5) [(0 : ℕ)],
    event (10 : ℕ) (0 : ℕ) (.start (firstJob 5).jobId 1),
    event (5 : ℕ) (0 : ℕ) (.error (firstJob 5).jobId 2 .interrupted),
    event (10 : ℕ) (0 : ℕ) (.stop (firstJob 5).jobId 3 (.ok 0) noOutput)]

theorem status_lifecycle_verdictDisplaced :
    Advances (some (.error (firstJob 5).jobId 2 .interrupted))
        (some (.stopped (firstJob 5).jobId 2 3 (.ok 0) noOutput)) ∧
      rans (((life (0 : ℕ) (10 : ℕ) none).run (verdictDisplaced.take 4)).1.step
          (event (10 : ℕ) (0 : ℕ) (.stop (firstJob 5).jobId 3 (.ok 0) noOutput))).2 =
        [.stopped (firstJob 5).jobId 2 3 (.ok 0) noOutput] := by
  have hlife := status_lifecycle (life (0 : ℕ) (10 : ℕ) none) verdictDisplaced
    ⟨retains_of_size (by decide +kernel), retains_of_size (by decide +kernel),
      retains_of_size (by decide +kernel), retains_of_size (by decide +kernel),
      retains_of_size (by decide +kernel), trivial⟩
  constructor
  · exact hlife.1 (verdictDisplaced.take 4) (verdictDisplaced.drop 4) rfl (firstJob 5).jobId (0 : ℕ)
  · exact (hlife.2 (verdictDisplaced.take 4) _ [] rfl).1 (firstJob 5).jobId _
      ⟨⟨_, _, _, rfl⟩, rfl, by decide +kernel, rfl⟩

/-- A verdict on a job arrives before its start and another one before its result, which a job of
another sled precedes. -/
def verdictsFirst : List Tick :=
  [event (10 : ℕ) (1 : ℕ) (.error (firstJob 5).jobId 9 .interrupted),
    event (5 : ℕ) (1 : ℕ) (.start (firstJob 5).jobId 1),
    event (5 : ℕ) (2 : ℕ) (.start (firstJob 5).jobId 1),
    event (12 : ℕ) (1 : ℕ) (.error (firstJob 5).jobId 11 .interrupted),
    event (6 : ℕ) (1 : ℕ) (.stop (firstJob 5).jobId 3 (.ok 0) noOutput)]

theorem real_result_wins_verdictsFirst :
    ∃ began, ((life (0 : ℕ) (10 : ℕ) none).run verdictsFirst).1.history.statusOn
        (firstJob 5).jobId (1 : ℕ) = some (.stopped (firstJob 5).jobId began 3 (.ok 0) noOutput) := by
  refine real_result_wins (life (0 : ℕ) (10 : ℕ) none) verdictsFirst
    ⟨retains_of_size (by decide +kernel), retains_of_size (by decide +kernel),
      retains_of_size (by decide +kernel), retains_of_size (by decide +kernel),
      retains_of_size (by decide +kernel), trivial⟩ ?_ (firstJob 5).jobId (1 : ℕ) (.inl rfl)
    [.error (firstJob 5).jobId 9 .interrupted] [.error (firstJob 5).jobId 11 .interrupted] [] 1 3
    (.ok 0) noOutput ?_ rfl
  · intro tick htick hrequest
    fin_cases htick <;> exact hrequest
  · intro e he
    fin_cases he
    · exact ⟨9, rfl⟩
    · exact ⟨11, rfl⟩

end Sush.Terms
