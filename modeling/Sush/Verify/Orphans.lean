import Sush.Verify.Statuses

/-!
# No queued job is forgotten

A sled records a job as queued when the job joins its queue, and the record stays until news of the
job arrives. So a job with that status should wait in the queue, or something was put out about it: it
was launched, skipped, or failed (`Accounted`). A waiting job leaves the queue when its turn comes,
when it is cancelled, or with its session, and each of these puts something out or changes the status,
as long as the job waits as it was queued. A replayed copy of its request takes the place of a waiting
job, and a replayed cancellation takes it out, and neither has a status to change: the job is forgotten
(`forgotten_replayedCopy`). Where no replayed request touches a job that waits with that status, none
is (`no_orphans`).
-/

namespace Sush

open Lib

section

variable [World]

def JobStatus.isQueued : JobStatus → Bool
  | queued .. => true
  | _ => false

/-- The job has the status `queued` on the sled. -/
def JobHistory.IsQueued (h : JobHistory) (jobId : JobId) (sled : BaseboardId) : Prop :=
  ∃ status, h.statusOn jobId sled = some status ∧ status.isQueued = true

/-- The job waits in the session as this sled's own live request. -/
def ActiveSession.Awaits (a : ActiveSession) (own : BaseboardId) (jobId : JobId) : Prop :=
  ∃ queued, a.queuedJobs[jobId]? = some queued ∧ queued.job.payload.jobId = jobId ∧
    queued.replayed = false ∧ queued.sleds.contains own = true

/-- The event says that the sled will not run the job. -/
def JobEvent.GivesUp (jobId : JobId) (event : JobEvent) : Prop :=
  (∃ when_ reason, event = .skipped jobId when_ reason) ∨ ∃ when_ cause, event = .error jobId when_ cause

/-- The job was launched, or this sled has said that it will not run it. -/
def Announced (own : BaseboardId) (jobId : JobId) (outputs : List Output) : Prop :=
  (∃ r ∈ launches outputs, r.jobId = jobId) ∨
    ∃ event, .jobEvent own event ∈ outputs ∧ event.GivesUp jobId

/-- Every job that is queued here waits here, or was announced. -/
def Accounted (own : BaseboardId) (σ : SessionState) (history : JobHistory)
    (outputs : List Output) : Prop :=
  ∀ jobId, history.IsQueued jobId own →
    (∃ a, σ = .active a ∧ a.Awaits own jobId) ∨ Announced own jobId outputs

section Announced

variable {own : BaseboardId} {jobId : JobId} {os os' : List Output}

theorem Announced.left (h : Announced own jobId os) : Announced own jobId (os ++ os') := by
  rcases h with ⟨r, hr, hid⟩ | ⟨event, hevent, hup⟩
  · exact .inl ⟨r, by rw [launches_append]; exact List.mem_append_left _ hr, hid⟩
  · exact .inr ⟨event, List.mem_append_left _ hevent, hup⟩

theorem Announced.right (h : Announced own jobId os') : Announced own jobId (os ++ os') := by
  rcases h with ⟨r, hr, hid⟩ | ⟨event, hevent, hup⟩
  · exact .inl ⟨r, by rw [launches_append]; exact List.mem_append_right _ hr, hid⟩
  · exact .inr ⟨event, List.mem_append_right _ hevent, hup⟩

theorem Announced.flatMap {js : List QueuedJob} {f : QueuedJob → List Output} {queued : QueuedJob}
    (hmem : queued ∈ js) (h : Announced own jobId (f queued)) :
    Announced own jobId (js.flatMap f) := by
  obtain ⟨pre, post, rfl⟩ := List.append_of_mem hmem
  rw [List.flatMap_append, List.flatMap_cons]
  exact h.left.right

end Announced

theorem mayRun_of_isQueued {h : JobHistory} {jobId : JobId} {own : BaseboardId}
    (hq : h.IsQueued jobId own) : State.mayRun h own jobId = true := by
  obtain ⟨status, hstatus, hqueued⟩ := hq
  obtain ⟨m, hm, hown⟩ := Option.bind_eq_some_iff.1 hstatus
  unfold State.mayRun
  simp only [hm, hown]
  cases status with
  | queued => rfl
  | cancelled | started | error | stopped | skipped => cases hqueued

/-! ## What changes the status -/

theorem isQueued_of_setJobStatus {h : JobHistory} {j jobId : JobId} {b own : BaseboardId}
    {new : JobStatus} {rank : Option Rank} {queue : Option QueuedJobs}
    (hq : (h.setJobStatus j b new rank queue).IsQueued jobId own) :
    j = jobId ∧ b = own ∧ new.isQueued = true ∨
      ¬(j = jobId ∧ b = own) ∧ h.IsQueued jobId own := by
  obtain ⟨status, hstatus, hqueued⟩ := hq
  rcases h.statusOn_setJobStatus j b new rank queue jobId own with hrec | ⟨-, hnone⟩
  · rw [hrec, JobHistory.statusOn_record] at hstatus
    split at hstatus
    · next hboth =>
      cases hstatus
      exact .inl ⟨hboth.1, hboth.2, hqueued⟩
    · next hother => exact .inr ⟨hother, status, hstatus, hqueued⟩
  · rw [hnone] at hstatus
    cases hstatus

theorem JobEvent.next_isQueued {event : JobEvent} {old : Option JobStatus} {new : JobStatus}
    (h : event.next old = some new) : new.isQueued = false := by
  cases event with
  | start jobId when_ =>
    unfold JobEvent.next at h
    simp only at h
    split at h <;> cases h
    rfl
  | stop jobId when_ result output =>
    unfold JobEvent.next State.stopTransition at h
    simp only at h
    split at h <;> cases h <;> rfl
  | error jobId when_ cause | skipped jobId when_ cause =>
    unfold JobEvent.next State.endTransition at h
    simp only at h
    split at h <;> cases h <;> rfl

variable [Crypto]

section Changes

variable {s : State} {tick : Tick} {own : BaseboardId} {jobId : JobId} {a : ActiveSession}

theorem isQueued_of_handleJobEvent {version : Version} {baseboard : BaseboardId} {event : JobEvent}
    (hq : (s.handleJobEvent version baseboard event).1.history.IsQueued jobId own) :
    s.history.IsQueued jobId own := by
  cases hnext : event.next (s.history.statusOn event.jobId baseboard) with
  | none => rwa [(handleJobEvent_none hnext).1] at hq
  | some new =>
    rw [(handleJobEvent_some hnext).1] at hq
    rcases isQueued_of_setJobStatus hq with ⟨-, -, hnew⟩ | ⟨-, hold⟩
    · rw [JobEvent.next_isQueued hnext] at hnew
      cases hnew
    · exact hold

theorem isQueued_of_cancelJob {j : JobId} {actor : KeyId} {now : DateTime} {replayed : Bool}
    (ha : s.session = .active a)
    (hq : (s.cancelJob now j actor replayed).history.IsQueued jobId s.rack.ownBaseboard) :
    s.history.IsQueued jobId s.rack.ownBaseboard ∧
      (j = jobId → a.Awaits s.rack.ownBaseboard jobId → replayed = true) := by
  unfold State.cancelJob at hq
  rw [ha] at hq
  simp only at hq
  split at hq
  · unfold JobHistory.transitionJobStatus at hq
    cases hnext : State.cancelTransition (.cancelled j now actor)
        (s.history.statusOn j s.rack.ownBaseboard) with
    | none =>
      rw [hnext] at hq
      refine ⟨hq, ?_⟩
      rintro rfl -
      -- a queued status lets the cancellation through
      obtain ⟨status, hstatus, hqueued⟩ := hq
      rw [hstatus] at hnext
      cases status with
      | queued => cases hnext
      | cancelled | started | error | stopped | skipped => cases hqueued
    | some new =>
      rw [hnext] at hq
      have hnew : new.isQueued = false := by
        unfold State.cancelTransition at hnext
        split at hnext <;> cases hnext <;> rfl
      rcases isQueued_of_setJobStatus hq with ⟨-, -, hqueued⟩ | ⟨hother, hold⟩
      · rw [hnew] at hqueued
        cases hqueued
      · exact ⟨hold, fun heq _ => absurd ⟨heq, rfl⟩ hother⟩
  · next hnot =>
    refine ⟨hq, ?_⟩
    rintro rfl ⟨queued, hentry, -, -, hhere⟩
    by_contra hlive
    refine hnot ⟨hlive, ?_⟩
    unfold State.cancelsHere
    rw [hentry]
    exact hhere

/-- What joining the queue changes: the job that joins waits as a live request if it is then queued,
and the others wait as before. A replayed copy may not take the place of a job that is queued. -/
theorem isQueued_of_enqueueJob {queued : QueuedJob} {actor : KeyId} {now : DateTime}
    {b : ActiveSession} (ha : s.session = .active a)
    (hb : (s.enqueueJob now queued actor).session = .active b)
    (hclear : queued.replayed = true → a.Awaits s.rack.ownBaseboard queued.job.payload.jobId →
      ¬s.history.IsQueued queued.job.payload.jobId s.rack.ownBaseboard)
    (hq : (s.enqueueJob now queued actor).history.IsQueued jobId s.rack.ownBaseboard) :
    b.Awaits s.rack.ownBaseboard jobId ∨
      s.history.IsQueued jobId s.rack.ownBaseboard ∧ ¬a.Awaits s.rack.ownBaseboard jobId := by
  have hsame : ∀ b : ActiveSession, (a.Awaits s.rack.ownBaseboard jobId →
      b.Awaits s.rack.ownBaseboard jobId) → s.history.IsQueued jobId s.rack.ownBaseboard →
      b.Awaits s.rack.ownBaseboard jobId ∨
        s.history.IsQueued jobId s.rack.ownBaseboard ∧ ¬a.Awaits s.rack.ownBaseboard jobId := by
    intro b hab hold
    by_cases hawait : a.Awaits s.rack.ownBaseboard jobId
    · exact .inl (hab hawait)
    · exact .inr ⟨hold, hawait⟩
  unfold State.enqueueJob at hb hq
  rw [ha] at hb hq
  simp only at hb hq
  split at hq
  · next hdrop =>
    rw [if_pos hdrop, ha] at hb
    cases hb
    exact hsame a id hq
  · next hnew =>
    rw [if_neg hnew] at hb
    split at hq
    · next hfull =>
      rw [if_pos hfull, ha] at hb
      cases hb
      exact hsame a id hq
    · next hroom =>
      rw [if_neg hroom] at hb
      cases hb
      by_cases hid : queued.job.payload.jobId = jobId
      · subst hid
        split at hq
        · next hhere =>
          exact .inl ⟨queued, BTreeMap.get_insert.trans (if_pos rfl), rfl, by simpa using hhere.2, hhere.1⟩
        · cases hreplayed : queued.replayed with
          | true => exact .inr ⟨hq, fun hawait => hclear hreplayed hawait hq⟩
          | false =>
            -- a live job that joins the queue has no status yet
            have hknown : s.history.contains queued.job.payload.jobId = false := by
              simpa [hreplayed] using hnew
            obtain ⟨status, hstatus, -⟩ := hq
            rw [JobHistory.statusOn_of_not_contains hknown] at hstatus
            cases hstatus
      · refine hsame _ ?_ ?_
        · rintro ⟨q, hentry, hrest⟩
          exact ⟨q, (BTreeMap.get_insert.trans (if_neg hid)).trans hentry, hrest⟩
        · split at hq
          · rcases isQueued_of_setJobStatus hq with ⟨heq, -⟩ | ⟨-, hold⟩
            · exact absurd heq hid
            · exact hold
          · exact hq

end Changes

/-! ## What is put out for a waiting job -/

section Puts

variable {s : State} {tick : Tick} {jobId : JobId} {a : ActiveSession}

theorem mem_skipQueuedJobs (now : DateTime) (ha : s.session = .active a)
    (hawait : a.Awaits s.rack.ownBaseboard jobId) :
    .jobEvent s.rack.ownBaseboard (.skipped jobId now .sessionEnded) ∈ s.skipQueuedJobs now := by
  obtain ⟨queued, hentry, -, hlive, hhere⟩ := hawait
  unfold State.skipQueuedJobs
  rw [ha]
  refine List.mem_filterMap.2 ⟨(jobId, queued), ?_, ?_⟩
  · exact Std.ExtTreeMap.mem_toList_iff_getElem?_eq_some.2 hentry
  · simp [hlive, hhere]

variable [Hashing]

theorem released_announced {now : DateTime} {network : Option Network} (hnetwork : network.isSome)
    {queued : QueuedJob} (hid : queued.job.payload.jobId = jobId) (hlive : queued.replayed = false)
    (hhere : queued.sleds.contains s.rack.ownBaseboard = true)
    (hq : s.history.IsQueued jobId s.rack.ownBaseboard) :
    Announced s.rack.ownBaseboard jobId (s.released now network a queued) := by
  obtain ⟨network, rfl⟩ := Option.isSome_iff_exists.1 hnetwork
  subst hid
  have hskipped : ∀ reason, Announced s.rack.ownBaseboard queued.job.payload.jobId
      [.jobEvent s.rack.ownBaseboard (.skipped queued.job.payload.jobId now reason)] :=
    fun reason => .inr ⟨_, List.mem_singleton_self _, .inl ⟨now, reason, rfl⟩⟩
  have hmay := mayRun_of_isQueued hq
  simp only [State.released, Option.elim_some, State.releaseJob, if_pos hhere, hlive,
    Bool.false_eq_true, if_false]
  split
  · exact hskipped _
  · split
    · exact hskipped _
    · rw [if_pos hmay]
      split
      · next cause _ => exact .inr ⟨_, List.mem_singleton_self _, .inr ⟨now, cause, rfl⟩⟩
      · exact .inl ⟨_, List.mem_singleton_self _, rfl⟩

theorem Passes.awaits {own : BaseboardId} (hown : s.rack.ownBaseboard = own) (now : DateTime)
    {network : Option Network} (hnetwork : network.isSome) {a' : ActiveSession}
    {js : List QueuedJob} (hpass : Passes a js a') (c : ActiveSession) (hawait : a.Awaits own jobId)
    (hq : s.history.IsQueued jobId own) :
    a'.Awaits own jobId ∨ Announced own jobId (js.flatMap (s.released now network c)) := by
  subst hown
  obtain ⟨queued, hentry, hid, hlive, hhere⟩ := hawait
  rcases hpass.queue jobId with heq | ⟨-, passed, hmem, hentry'⟩
  · exact .inl ⟨queued, heq.trans hentry, hid, hlive, hhere⟩
  · obtain rfl : queued = passed := Option.some.inj (hentry.symm.trans hentry')
    exact .inr (.flatMap hmem (released_announced hnetwork hid hlive hhere hq))

end Puts

/-! ## Steps -/

variable [Hashing]

/-- A replayed request that takes effect on a job of the active session: a copy of its start, or its
cancellation. -/
inductive State.Replays (s : State) (tick : Tick) (a : ActiveSession) : JobId → Prop
  | job {actor : KeyId} {queued : QueuedJob} (haccept : s.Accepts tick actor queued)
    (hsession : a.session.sessionId = queued.job.payload.sessionId)
    (hreplayed : queued.replayed = true) : Replays s tick a queued.job.payload.jobId
  | cancel {actor : KeyId} {version : Version} {jobId : JobId}
    (hcancel : s.Cancels tick a jobId actor version) (hstarter : a.session.startedBy = some actor)
    (hreplayed : s.past.isLive version = false) : Replays s tick a jobId

/-- No replayed request takes effect on a job that waits with the status `queued`. -/
def State.Undisturbed (s : State) (tick : Tick) : Prop :=
  ∀ a jobId, s.session = .active a → s.Replays tick a jobId → a.queuedJobs.contains jobId = true →
    ¬s.history.IsQueued jobId s.rack.ownBaseboard

section Step

variable {s : State} {tick : Tick} {os : List Output}

theorem undisturbed_of_live {version : Version} {message : VersionedMessage}
    (hinput : tick.input = .gossip version message) (hlive : s.past.isLive version = true) :
    s.Undisturbed tick := by
  intro a jobId _ hreplays
  exfalso
  cases hreplays with
  | job haccept _ hreplayed =>
    obtain ⟨version', hinput', -, heq⟩ := haccept
    cases hinput.symm.trans hinput'
    rw [heq, hlive] at hreplayed
    cases hreplayed
  | cancel hcancel _ hreplayed =>
    cases hcancel with
    | skip hinput' | stop hinput' =>
      cases hinput.symm.trans hinput'
      rw [hlive] at hreplayed
      cases hreplayed

omit [Hashing] [Crypto] in
theorem ActiveSession.Awaits.contains {a : ActiveSession} {own : BaseboardId} {jobId : JobId}
    (h : a.Awaits own jobId) : a.queuedJobs.contains jobId = true := by
  obtain ⟨queued, hentry, -⟩ := h
  exact BTreeMap.contains_iff.2 ⟨queued, hentry⟩

omit [Hashing] [Crypto] in
theorem ActiveSession.Awaits.erase {a b : ActiveSession} {own : BaseboardId} {j jobId : JobId}
    (h : a.Awaits own jobId) (hne : j ≠ jobId) (hb : b.queuedJobs = a.queuedJobs.erase j) :
    b.Awaits own jobId := by
  obtain ⟨queued, hentry, hrest⟩ := h
  exact ⟨queued, by rw [hb, BTreeMap.get_erase, if_neg hne, hentry], hrest⟩

omit [Hashing] in
/-- A job that waits in the slot when the input arrives waits in the session that the job of the input
finds there, or that session is new and the job is skipped. -/
theorem awaits_opened (tick : Tick) {a : ActiveSession} {jobId : JobId} (ha : s.session = .active a)
    (hawait : a.Awaits s.rack.ownBaseboard jobId) :
    (s.opened tick).session = .active a ∧ s.displaced tick = [] ∨
      Announced s.rack.ownBaseboard jobId (s.displaced tick) := by
  unfold State.displaced
  rcases opened_session s tick with ⟨hnone, heq⟩ | ⟨start, b, hopen, -⟩
  · exact .inl ⟨heq.trans ha, by rw [hnone]; rfl⟩
  · right
    rw [hopen]
    exact .inr ⟨_, mem_skipQueuedJobs tick.now ha hawait, .inl ⟨_, _, rfl⟩⟩

theorem Accounted.step (hnetwork : tick.network.isSome) (hclear : s.Undisturbed tick)
    (h : Accounted s.rack.ownBaseboard s.session s.history os) :
    Accounted s.rack.ownBaseboard (s.step tick).1.session (s.step tick).1.history
      (os ++ (s.step tick).2) := by
  have hturn := step_turn s tick
  generalize (s.step tick).1.session = σ, (s.step tick).1.history = history,
    (s.step tick).1.attachments = attachments, (s.step tick).2 = out at hturn ⊢
  intro jobId hq
  cases hturn with
  | idle | settle hinput => exact (h jobId hq).imp_right Announced.left
  | event hinput => exact (h jobId (isQueued_of_handleJobEvent hq)).imp_right Announced.left
  | stop hinput ha hstarter =>
    right
    rcases h jobId hq with ⟨a, ha, hawait⟩ | hdone
    · exact .right (.inr ⟨_, mem_skipQueuedJobs tick.now ha hawait, .inl ⟨_, _, rfl⟩⟩)
    · exact hdone.left
  | allow hinput ha hstarter | deny hinput ha hstarter =>
    rcases h jobId hq with ⟨b, hb, hawait⟩ | hdone
    · cases ha.symm.trans hb
      exact .inl ⟨_, rfl, hawait⟩
    · exact .inr hdone.left
  | @skip version actor j a a' js e hinput ha hstarter hskip he hpass =>
    have hown : e.rack.ownBaseboard = s.rack.ownBaseboard := by rw [he]
    have hq' := hq
    rw [he] at hq'
    obtain ⟨hold, hcancel⟩ := isQueued_of_cancelJob ha hq'
    rcases h jobId hold with ⟨b, hb, hawait⟩ | hdone
    · cases ha.symm.trans hb
      have hne : j ≠ jobId := by
        rintro rfl
        have hreplayed : s.past.isLive version = false := by simpa using hcancel rfl hawait
        exact hclear a j ha (.cancel (.skip hinput hskip) hstarter hreplayed) hawait.contains hold
      have hstill : ActiveSession.Awaits { a with
          session.lastJob := .burned j, queuedJobs := a.queuedJobs.erase j }
          s.rack.ownBaseboard jobId := hawait.erase hne rfl
      rcases hpass.awaits hown tick.now hnetwork a hstill hq with hwaits | hput
      · exact .inl ⟨a', rfl, hwaits⟩
      · exact .inr hput.right
    · exact .inr hdone.left
  | @cancel version actor j a hinput ha hstarter hknown =>
    obtain ⟨hold, hcancel⟩ := isQueued_of_cancelJob ha hq
    rcases h jobId hold with ⟨b, hb, hawait⟩ | hdone
    · cases ha.symm.trans hb
      have hne : j ≠ jobId := by
        rintro rfl
        have hreplayed : s.past.isLive version = false := by simpa using hcancel rfl hawait
        exact hclear a j ha (.cancel (.stop hinput hknown) hstarter hreplayed) hawait.contains hold
      exact .inl ⟨_, rfl, hawait.erase hne rfl⟩
    · exact .inr hdone.left
  | refuse haccept hother =>
    rcases h jobId hq with ⟨b, hb, hawait⟩ | hdone
    · rcases awaits_opened tick hb hawait with ⟨hopened, -⟩ | hskipped
      · exact .inl ⟨b, hopened, hawait⟩
      · exact .inr hskipped.left.right
    · exact .inr hdone.left
  | @job actor queued a b a' js e haccept ha hsession he hb hpass =>
    have hown : e.rack.ownBaseboard = s.rack.ownBaseboard := by
      obtain ⟨_, -, -, heq⟩ := enqueueJob_active (s := { s with session := .active a }) rfl tick.now
        queued actor
      rw [he, heq]
    have hover : queued.replayed = true →
        a.Awaits s.rack.ownBaseboard queued.job.payload.jobId →
        ¬s.history.IsQueued queued.job.payload.jobId s.rack.ownBaseboard := by
      intro hreplayed hawait
      rcases opened_session s tick with ⟨-, heq⟩ | ⟨start, c, -, hc, hempty, -⟩
      · exact hclear a _ (heq.symm.trans ha) (.job haccept hsession hreplayed) hawait.contains
      · -- a session that the job itself has opened has nothing waiting
        cases ha.symm.trans hc
        obtain ⟨entry, hentry, -⟩ := hawait
        rw [hempty] at hentry
        cases hentry
    have hq' := hq
    rw [he] at hq' hb
    rcases isQueued_of_enqueueJob rfl hb hover hq' with hwaits | ⟨hold, hnot⟩
    · rcases hpass.awaits hown tick.now hnetwork b hwaits hq with hwaits | hput
      · exact .inl ⟨a', rfl, hwaits⟩
      · exact .inr hput.right.right
    · rcases h jobId hold with ⟨c, hc, hawait⟩ | hdone
      · rcases awaits_opened tick hc hawait with ⟨hopened, -⟩ | hskipped
        · cases hopened.symm.trans ha
          exact absurd hawait hnot
        · exact .inr hskipped.left.right
      · exact .inr hdone.left

theorem skipped_of_ended {a : ActiveSession} {jobId : JobId} (ha : s.session = .active a)
    (hawait : a.Awaits s.rack.ownBaseboard jobId)
    (hended : ∀ b, (s.step tick).1.session = .active b →
      b.session.sessionId ≠ a.session.sessionId) :
    .jobEvent s.rack.ownBaseboard (.skipped jobId tick.now .sessionEnded) ∈ (s.step tick).2 := by
  have hskipped := mem_skipQueuedJobs tick.now ha hawait
  have hturn := step_turn s tick
  generalize (s.step tick).1.session = σ, (s.step tick).1.history = history,
    (s.step tick).1.attachments = attachments, (s.step tick).2 = out at hturn hended ⊢
  -- a session that the input opens displaces the one that was there
  have hdisplaced : (s.opened tick).session = s.session ∨
      .jobEvent s.rack.ownBaseboard (.skipped jobId tick.now .sessionEnded) ∈ s.displaced tick := by
    rcases opened_session s tick with ⟨-, heq⟩ | ⟨start, b, hopen, -⟩
    · exact .inl heq
    · refine .inr ?_
      unfold State.displaced
      rw [hopen]
      exact hskipped
  cases hturn with
  | idle | settle hinput | event hinput => exact absurd rfl (hended a ha)
  | stop hinput hb hstarter => exact hskipped
  | allow hinput hb hstarter | deny hinput hb hstarter | cancel hinput hb hstarter hknown =>
    cases ha.symm.trans hb
    exact (hended _ rfl rfl).elim
  | skip hinput hb hstarter hskip he hpass =>
    cases ha.symm.trans hb
    exact (hended _ rfl hpass.same.id).elim
  | refuse haccept hother =>
    rcases hdisplaced with heq | hmem
    · exact absurd rfl (hended a (heq.trans ha))
    · exact List.mem_append_left _ hmem
  | @job actor queued b c a' js e haccept hb hsession he hc hpass =>
    rcases hdisplaced with heq | hmem
    · cases ha.symm.trans (heq.symm.trans hb)
      obtain ⟨hsame, -⟩ := enqueueJob_same (he ▸ hc)
      exact (hended _ rfl (hsame.trans hpass.same).id).elim
    · exact List.mem_append_left _ hmem

end Step

/-- **No queued job is forgotten.** In every run of a life that always has a universe, and in which no
replayed request takes effect on a job that waits with the status `queued`: a job with that status
waits in the active session, or it was launched, or this sled has said that it will not run it. And
when the session leaves the slot, it says so of every job that waits and of which nothing was said. -/
theorem no_orphans {current : VersionInfo} {own : BaseboardId} {anchors : List Certificate}
    {past : Past} {s₀ : State} (h₀ : State.new current own anchors past = .ok s₀) (ticks : List Tick)
    (hnetwork : ∀ tick ∈ ticks, tick.network.isSome)
    (hclear : Always State.step (fun s _ tick => s.Undisturbed tick) s₀ [] ticks) :
    (∀ jobId, (s₀.run ticks).1.history.IsQueued jobId own →
      (∃ a, (s₀.run ticks).1.session = .active a ∧ a.queuedJobs.contains jobId = true) ∨
        Announced own jobId (s₀.run ticks).2) ∧
    ∀ tick a jobId, (s₀.run ticks).1.session = .active a →
      (s₀.run ticks).1.history.IsQueued jobId own → ¬Announced own jobId (s₀.run ticks).2 →
      (∀ b, ((s₀.run ticks).1.step tick).1.session = .active b →
        b.session.sessionId ≠ a.session.sessionId) →
      .jobEvent own (.skipped jobId tick.now .sessionEnded) ∈ ((s₀.run ticks).1.step tick).2 := by
  obtain ⟨-, hown, -, hinactive, hempty, -⟩ := new_eq h₀
  have hrun := run_invariant_of_always State.step
    (P := fun s _ os => SameLife s₀ s ∧ Accounted s.rack.ownBaseboard s.session s.history os)
    (fun s _ os tick hstep h => ?_) ((always_of_forall hnetwork).and hclear) ⟨.refl s₀, ?_⟩
  · obtain ⟨hlife, haccounted⟩ := hrun
    have hsame : (s₀.run ticks).1.rack.ownBaseboard = own := hlife.own.trans hown
    subst hsame
    constructor
    · intro jobId hq
      refine (haccounted jobId hq).imp_left ?_
      rintro ⟨a, ha, hawait⟩
      exact ⟨a, ha, hawait.contains⟩
    · intro tick a jobId ha hq hsilent hended
      rcases haccounted jobId hq with ⟨b, hb, hawait⟩ | hdone
      · cases ha.symm.trans hb
        exact skipped_of_ended ha hawait hended
      · exact absurd hdone hsilent
  · have hkept : (s.step tick).1.rack.ownBaseboard = s.rack.ownBaseboard :=
      h.1.step.own.trans h.1.own.symm
    exact ⟨h.1.step, by rw [hkept]; exact h.2.step hstep.1 hstep.2⟩
  · rintro jobId ⟨status, hstatus, -⟩
    rw [hempty] at hstatus
    cases hstatus

end

end Sush

namespace Sush.Terms

open Lib

attribute [local instance] world hashing crypto

/-- The second job of a session waits for the first, its request arrives once more as a replay, and
the session is stopped. -/
def replayedCopy : List Tick :=
  [start (10 : ℕ) (7 : ℕ) 5, job (10 : ℕ) (7 : ℕ) (jobAfter (firstJob 5)) [(0 : ℕ)],
    job (5 : ℕ) (7 : ℕ) (jobAfter (firstJob 5)) [(0 : ℕ)], stop (10 : ℕ) (7 : ℕ) 5]

/-- The job is still queued here and waits nowhere, and nothing at all was put out. -/
theorem forgotten_replayedCopy :
    ((life (0 : ℕ) (10 : ℕ) none).run replayedCopy).1.history.statusOn
        (jobAfter (firstJob 5)).jobId (0 : ℕ) =
      some (.queued (jobAfter (firstJob 5)).jobId 0 (7 : ℕ)) ∧
    ((life (0 : ℕ) (10 : ℕ) none).run replayedCopy).1.session = .inactive ∧
    ((life (0 : ℕ) (10 : ℕ) none).run replayedCopy).2 = [] ∧
    Always State.step (fun s _ tick => s.Retains tick) (life (0 : ℕ) (10 : ℕ) none) []
      replayedCopy := by
  refine ⟨rfl, rfl, rfl, retains_of_size ?_, retains_of_size ?_, retains_of_size ?_,
    retains_of_size ?_, trivial⟩ <;> decide +kernel

def stoppedWaiting : List Tick :=
  [start (10 : ℕ) (7 : ℕ) 5, job (10 : ℕ) (7 : ℕ) (jobAfter (firstJob 5)) [(0 : ℕ)],
    stop (10 : ℕ) (7 : ℕ) 5]

theorem no_orphans_stoppedWaiting :
    Announced (0 : ℕ) (jobAfter (firstJob 5)).jobId
      ((life (0 : ℕ) (10 : ℕ) none).run stoppedWaiting).2 := by
  have hnetwork : ∀ tick ∈ stoppedWaiting, tick.network.isSome := by
    intro tick htick
    fin_cases htick <;> rfl
  have hclear : Always State.step (fun s _ tick => s.Undisturbed tick)
      (life (0 : ℕ) (10 : ℕ) none) [] stoppedWaiting :=
    ⟨undisturbed_of_live rfl rfl, undisturbed_of_live rfl rfl, undisturbed_of_live rfl rfl, trivial⟩
  have hmain := no_orphans (new_life (0 : ℕ) (10 : ℕ) none) stoppedWaiting hnetwork hclear
  rcases hmain.1 (jobAfter (firstJob 5)).jobId ⟨_, rfl, rfl⟩ with ⟨a, ha, -⟩ | hdone
  · cases ha
  · exact hdone

end Sush.Terms
