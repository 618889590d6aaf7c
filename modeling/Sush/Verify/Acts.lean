import Sush.Verify.Rulings

/-!
# What a step can do

Every invariant of the development is proved from one description of a step. A step first opens a
session, if its input is a verified job that confirms a pending start (`State.opening`,
`State.opened`). It then makes at most one change that leaves the session slot alone (`Quiet`), and
last it works on the slot by a sequence of acts (`Act`): close it, change its grants, burn a chain
position, put a job into the queue or take one out, or pass the next job of the chain. Only the last
kind of act launches a job, and it says under which conditions.

`step_invariant` turns this into a rule: an invariant is preserved by a step if quiet changes, acts
and openings preserve it.
-/

namespace Sush

open Lib (iterate)

variable [World]

/-! ## Launches among outputs -/

@[simp] theorem launches_nil : launches [] = [] := rfl

@[simp] theorem launches_append (os os' : List Output) :
    launches (os ++ os') = launches os ++ launches os' :=
  List.filterMap_append

theorem mem_launches {run : Run} {os : List Output} : run ∈ launches os ↔ .run run ∈ os := by
  unfold launches
  rw [List.mem_filterMap]
  constructor
  · rintro ⟨o, ho, h⟩
    cases o <;> cases h
    exact ho
  · intro h
    exact ⟨_, h, rfl⟩

theorem launches_eq_nil {os : List Output} (h : ∀ o ∈ os, o.launch? = none) : launches os = [] :=
  List.filterMap_eq_nil_iff.2 h

theorem launches_map_jobEvent (own : BaseboardId) (events : List JobEvent) :
    launches (events.map (Output.jobEvent own)) = [] := by
  apply launches_eq_nil
  intro o ho
  obtain ⟨event, -, rfl⟩ := List.mem_map.1 ho
  rfl

theorem launches_skipQueuedJobs [Crypto] (s : State) (now : DateTime) :
    launches (s.skipQueuedJobs now) = [] := by
  apply launches_eq_nil
  intro o ho
  obtain ⟨⟨jobId, queued⟩, -, h⟩ := List.mem_filterMap.1 ho
  simp only at h
  split at h
  · cases h; rfl
  · cases h

/-! ## Changes that leave the slot alone -/

/-- The history of `own` moves on: a job that is known and may not run stays so, as long as it is
not evicted. -/
def Evolves (own : BaseboardId) (h h' : JobHistory) : Prop :=
  ∀ j, h'.contains j = true → State.mayRun h own j = false → State.mayRun h' own j = false

theorem Evolves.refl (own : BaseboardId) (h : JobHistory) : Evolves own h h := fun _ _ hj => hj

theorem mayRun_iff {h : JobHistory} {own : BaseboardId} {j : JobId} :
    State.mayRun h own j = true ↔ h.getJobStatus j = none ∨
      ∃ m, h.getJobStatus j = some m ∧ ∃ i t k, m[own]? = some (.queued i t k) := by
  unfold State.mayRun
  cases h.getJobStatus j with
  | none => simp
  | some m =>
    simp only [reduceCtorEq, Option.some.injEq, exists_eq_left', false_or]
    split
    · next i t k hq => simp [hq]
    · next hq => simpa using fun i t k => hq i t k

theorem mayRun_eq_false_iff {h : JobHistory} {own : BaseboardId} {j : JobId} :
    State.mayRun h own j = false ↔
      ∃ m, h.getJobStatus j = some m ∧ ∀ i t k, m[own]? ≠ some (.queued i t k) := by
  rw [Bool.eq_false_iff, Ne, mayRun_iff]
  cases h.getJobStatus j <;> simp

theorem mayRun_of_not_contains {h : JobHistory} {own : BaseboardId} {j : JobId}
    (hj : h.contains j = false) : State.mayRun h own j = true := by
  unfold State.mayRun
  rw [JobHistory.contains_eq_false_iff.1 hj]

/-- A new status lets history evolve unless it queues, on `own`, a job that may not run. -/
theorem evolves_setJobStatus {own target : BaseboardId} {h : JobHistory} {jobId : JobId}
    {status : JobStatus} {rank : Option Rank} {queued : Option QueuedJobs}
    (hq : (∀ i t k, status ≠ .queued i t k) ∨ State.mayRun h own jobId = true) :
    Evolves own h (h.setJobStatus jobId target status rank queued) := by
  intro j hj hrun
  obtain ⟨m, hm, hown⟩ := mayRun_eq_false_iff.1 hrun
  obtain ⟨m', hm'⟩ := JobHistory.contains_iff.1 hj
  refine mayRun_eq_false_iff.2 ⟨m', hm', ?_⟩
  rcases JobHistory.getJobStatus_setJobStatus hm' with ⟨rfl, rfl⟩ | ⟨-, hsame⟩
  · intro i t k
    rw [hm, Option.getD_some, BTreeMap.get_insert]
    split
    · rcases hq with hq | hq
      · intro hs; exact hq i t k (Option.some.inj hs)
      · rw [hrun] at hq; cases hq
    · exact hown i t k
  · rw [hm] at hsame
    cases hsame
    exact hown

theorem evolves_transitionJobStatus {own target : BaseboardId} {h : JobHistory} {jobId : JobId}
    {f : Option JobStatus → Option JobStatus} {rank : Option Rank} {queued : Option QueuedJobs}
    (hf : ∀ old i t k, f old ≠ some (.queued i t k)) :
    Evolves own h (h.transitionJobStatus jobId target rank f queued).1 := by
  rcases h.transitionJobStatus_cases jobId target rank queued f with he | ⟨new, hnew, he⟩
  · rw [he]; exact .refl _ _
  · rw [he]
    refine evolves_setJobStatus (.inl ?_)
    rintro i t k rfl
    exact hf _ i t k hnew

theorem stopTransition_ne_queued {jobId : JobId} {when_ : DateTime} {result : Except ProcessError Int32}
    {output : JobOutputState} (old : Option JobStatus) (i : JobId) (t : DateTime) (k : KeyId) :
    State.stopTransition jobId when_ result output old ≠ some (.queued i t k) := by
  intro h
  unfold State.stopTransition at h
  split at h <;> cases h

theorem endTransition_ne_queued {new : JobStatus} (hnew : ∀ i t k, new ≠ .queued i t k)
    (old : Option JobStatus) (i : JobId) (t : DateTime) (k : KeyId) :
    State.endTransition new old ≠ some (.queued i t k) := by
  intro h
  unfold State.endTransition at h
  split at h
  all_goals first | exact hnew i t k (Option.some.inj h) | cases h

theorem evolves_cancel {now : DateTime} {own target : BaseboardId} {h : JobHistory} {jobId : JobId}
    {actor : KeyId} {rank : Option Rank} {queued : Option QueuedJobs} :
    Evolves own h (h.transitionJobStatus jobId target rank
      (State.cancelTransition (.cancelled jobId now actor)) queued).1 := by
  refine evolves_transitionJobStatus fun old i t k hc => ?_
  unfold State.cancelTransition at hc
  split at hc <;> cases hc

variable [Crypto]

variable {tick : Tick} {s s' : State} {actor : KeyId} {version : Version} {os : List Output}
  {a : ActiveSession}

/-- `s'` is `s` up to the rack's other sleds, the history, the pending starts, the attachment points
and the rulings on the past. -/
structure Quiet (s s' : State) : Prop where
  session : s'.session = s.session
  certs : s'.certs = s.certs
  own : s'.rack.ownBaseboard = s.rack.ownBaseboard
  birth : s'.past.birth = s.past.birth
  committed : s'.past.committed = s.past.committed
  network : s'.past.network = s.past.network
  history : Evolves s.rack.ownBaseboard s.history s'.history

theorem Quiet.refl (s : State) : Quiet s s := ⟨rfl, rfl, rfl, rfl, rfl, rfl, .refl _ _⟩

theorem Quiet.note {b s : State} (h : Quiet b s) (hsame : s.history = b.history)
    {history : JobHistory} (hev : Evolves s.rack.ownBaseboard s.history history) :
    Quiet b { s with history } := by
  rw [hsame, h.own] at hev
  exact { h with history := hev }

/-! ## Events and settling -/

section Events

variable {s : State} {now : DateTime} {version : Version} {baseboard : BaseboardId} {jobId : JobId}

theorem clearEnded_quiet : Quiet s (s.clearEnded baseboard jobId) ∧
    (s.clearEnded baseboard jobId).history = s.history := by
  unfold State.clearEnded
  split
  · exact ⟨⟨rfl, rfl, rfl, rfl, rfl, rfl, .refl _ _⟩, rfl⟩
  · exact ⟨.refl s, rfl⟩

theorem transition_quiet {b : State} (h : Quiet b s) (hsame : s.history = b.history)
    {f : Option JobStatus → Option JobStatus} (hf : ∀ old i t k, f old ≠ some (.queued i t k)) :
    Quiet b (s.transition version baseboard jobId f).1 ∧
      launches (s.transition version baseboard jobId f).2 = [] := by
  refine ⟨h.note hsame (evolves_transitionJobStatus hf), ?_⟩
  unfold State.transition
  simp only
  split
  · split <;> rfl
  · rfl

theorem handleEvent_quiet (s : State) (version : Version) (baseboard : BaseboardId)
    (event : Event) : Quiet s (s.handleEvent version baseboard event).1 ∧
      launches (s.handleEvent version baseboard event).2 = [] := by
  obtain event | info := event
  · cases event with
    | start jobId when_ =>
      unfold State.handleEvent State.handleJobEvent
      simp only
      split
      · exact ⟨.refl s, rfl⟩
      · have hev : Evolves s.rack.ownBaseboard s.history
            (s.history.setJobStatus jobId baseboard (.started jobId when_)
              (some (World.rank version)) s.session.queuedJobs) :=
          evolves_setJobStatus (.inl (by simp))
        split <;> exact ⟨⟨rfl, rfl, rfl, rfl, rfl, rfl, hev⟩, rfl⟩
    | stop jobId when_ result output =>
      exact transition_quiet clearEnded_quiet.1 clearEnded_quiet.2 stopTransition_ne_queued
    | error jobId when_ error =>
      exact transition_quiet clearEnded_quiet.1 clearEnded_quiet.2
        (endTransition_ne_queued (by simp))
    | skipped jobId when_ reason =>
      exact transition_quiet (.refl s) rfl (endTransition_ne_queued (by simp))
  · exact ⟨⟨rfl, rfl, Rack.ownBaseboard_knownVersion .., rfl, rfl, rfl, .refl _ _⟩, rfl⟩

theorem settle_quiet {network : Option Network} :
    Quiet s (s.settle now network).1 ∧ launches (s.settle now network).2 = [] := by
  obtain ⟨reaped, heq, -⟩ := settle_eq s now network
  rw [heq]
  refine ⟨⟨rfl, rfl, rfl, rfl, rfl, rfl, .refl _ _⟩, ?_⟩
  have hreaped := launches_map_jobEvent s.rack.ownBaseboard
    (s.leftovers.map fun jobId => .error jobId now .interrupted)
  rw [List.map_map] at hreaped
  rw [launches_append, launches_map_jobEvent, List.append_nil]
  exact hreaped

end Events

/-! ## Opening a session -/

/-- The job that an input delivers, if it verifies under the trust anchors. -/
def State.verifiedJob (s : State) (tick : Tick) : Option VerifiedJob :=
  match tick.input with
  | .gossip _ (.v0 (.request (.job _ (.start signed _ _)))) => (s.certs.verify signed).toOption
  | _ => none

theorem verifiedJob_eq_some {job : VerifiedJob} (h : s.verifiedJob tick = some job) :
    ∃ version actor signed params sleds,
      tick.input = .gossip version (.v0 (.request (.job actor (.start signed params sleds)))) ∧
      s.certs.verify signed = .ok job := by
  unfold State.verifiedJob at h
  split at h
  · next version actor signed params sleds hinput =>
    refine ⟨version, actor, signed, params, sleds, hinput, ?_⟩
    cases hv : s.certs.verify signed with
    | error e => rw [hv] at h; cases h
    | ok job' => rw [hv] at h; cases h; rfl
  · cases h

/-- The pending start that an input confirms: that of its verified job's session, if it outranks
the active session. -/
def State.opening (s : State) (tick : Tick) : Option (SessionId × PendingStart) :=
  (s.verifiedJob tick).bind fun job =>
    (s.pendingStarts.peek job.payload.sessionId).bind fun start =>
      if rankOf start.preimage.seq job.payload.sessionId ≤ s.session.rank then none
      else some (job.payload.sessionId, start)

/-- The state with the confirmed session, if any, in the slot. -/
def State.opened (s : State) (tick : Tick) : State :=
  match s.opening tick with
  | none => s
  | some (sessionId, start) =>
    { s with pendingStarts := s.pendingStarts.erase sessionId }.activate sessionId start

theorem opening_of_verifiedJob {job : VerifiedJob} (h : s.verifiedJob tick = some job) :
    s.opening tick = (s.pendingStarts.peek job.payload.sessionId).bind fun start =>
      if rankOf start.preimage.seq job.payload.sessionId ≤ s.session.rank then none
      else some (job.payload.sessionId, start) := by
  unfold State.opening
  rw [h]
  rfl

theorem opening_eq_some {sessionId : SessionId} {start : PendingStart}
    (h : s.opening tick = some (sessionId, start)) :
    ∃ job, s.verifiedJob tick = some job ∧
      job.payload.sessionId = sessionId ∧ s.pendingStarts.peek sessionId = some start ∧
      ¬rankOf start.preimage.seq sessionId ≤ s.session.rank := by
  obtain ⟨job, hjob, h⟩ := Option.bind_eq_some_iff.1 h
  obtain ⟨start', hpeek, h⟩ := Option.bind_eq_some_iff.1 h
  split at h
  · cases h
  · next hrank =>
    cases h
    exact ⟨job, hjob, rfl, hpeek, hrank⟩

theorem State.opened_of_none (h : s.opening tick = none) : s.opened tick = s := by
  unfold opened
  rw [h]

theorem opening_session {request : SessionRequest}
    (h : tick.input = .gossip version (.v0 (.request (.session actor request)))) :
    s.opening tick = none := by
  unfold State.opening State.verifiedJob
  rw [h]
  rfl

theorem State.opened_frame (s : State) (tick : Tick) :
    ∃ session pendingStarts, s.opened tick = { s with session, pendingStarts } := by
  unfold opened
  split <;> exact ⟨_, _, rfl⟩

theorem confirmStart_frame (s : State) (now : DateTime) (sessionId : SessionId) :
    ∃ session pendingStarts,
      (s.confirmStart now sessionId).1 = { s with session, pendingStarts } := by
  unfold State.confirmStart Lib.LruCache.pop
  cases s.pendingStarts.peek sessionId with
  | none => exact ⟨_, _, rfl⟩
  | some start =>
    simp only
    split <;> exact ⟨_, _, rfl⟩

theorem confirmStart_quiet {job : VerifiedJob} (h : s.verifiedJob tick = some job)
    (now : DateTime) :
    Quiet (s.opened tick) (s.confirmStart now job.payload.sessionId).1 ∧
      (s.confirmStart now job.payload.sessionId).1.history = (s.opened tick).history ∧
      launches (s.confirmStart now job.payload.sessionId).2 = [] := by
  have hopen := opening_of_verifiedJob h
  unfold State.confirmStart Lib.LruCache.pop State.opened
  rw [hopen]
  cases hpeek : s.pendingStarts.peek job.payload.sessionId with
  | none => exact ⟨.refl s, rfl, rfl⟩
  | some start =>
    by_cases hrank : rankOf start.preimage.seq job.payload.sessionId ≤ s.session.rank
    · simp only [Option.bind_some, if_pos hrank]
      exact ⟨⟨rfl, rfl, rfl, rfl, rfl, rfl, .refl _ _⟩, trivial, rfl⟩
    · simp only [Option.bind_some, if_neg hrank]
      exact ⟨.refl _, trivial, launches_skipQueuedJobs _ _⟩

/-- The input delivers the request of `queued`, made by `actor`, and it verifies. -/
def State.Accepts (s : State) (tick : Tick) (actor : KeyId) (queued : QueuedJob) : Prop :=
  ∃ version,
    tick.input = .gossip version
      (.v0 (.request (.job actor (.start queued.job.signed queued.params queued.sleds)))) ∧
    s.certs.verify queued.job.signed = .ok queued.job ∧
    queued.replayed = !s.past.isLive version

theorem State.Accepts.congr {queued : QueuedJob} (h : s.Accepts tick actor queued)
    (hcerts : s'.certs = s.certs) (hbirth : s'.past.birth = s.past.birth) :
    s'.Accepts tick actor queued := by
  obtain ⟨version, hinput, hverify, hreplayed⟩ := h
  refine ⟨version, hinput, by rw [hcerts]; exact hverify, ?_⟩
  unfold Past.isLive
  rw [hbirth]
  exact hreplayed

theorem State.Accepts.verifiedJob {queued : QueuedJob} (h : s.Accepts tick actor queued) :
    s.verifiedJob tick = some queued.job := by
  obtain ⟨version, hinput, hverify, -⟩ := h
  unfold State.verifiedJob
  rw [hinput]
  simp only
  rw [hverify]
  rfl

theorem asStarter_rec {sessionId : SessionId} {act : ActiveSession → State × List Output}
    {P : State × List Output → Prop} (hignored : P (s, []))
    (h : ∀ a, s.session = .active a → a.session.sessionId = sessionId →
      a.session.startedBy = some actor → P (act a)) : P (s.asStarter sessionId actor act) := by
  unfold State.asStarter
  split
  · next a ha =>
    split
    · next hstarter => exact h a ha hstarter.1 hstarter.2
    · exact hignored
  · exact hignored

/-! ## The queue -/

section Queue

variable {s : State}

/-- `cancelJob` takes the job out of the queue, and may note it in the history. -/
theorem cancelJob_eq (now : DateTime) (ha : s.session = .active a) (jobId : JobId) (actor : KeyId)
    (replayed : Bool) :
    ∃ history, Evolves s.rack.ownBaseboard s.history history ∧
      s.cancelJob now jobId actor replayed =
        { s with session := .active { a with queuedJobs := a.queuedJobs.erase jobId }, history } := by
  unfold State.cancelJob
  rw [ha]
  refine ⟨_, ?_, rfl⟩
  split
  · exact evolves_cancel
  · exact .refl _ _

/-- `enqueueJob` drops the job, or puts it into the queue and may note it in the history. -/
theorem enqueueJob_cases (now : DateTime) (ha : s.session = .active a) (queued : QueuedJob)
    (actor : KeyId) :
    s.enqueueJob now queued actor = s ∨
      ∃ history, Evolves s.rack.ownBaseboard s.history history ∧
        s.enqueueJob now queued actor =
          { s with
            session := .active
              { a with queuedJobs := a.queuedJobs.insert queued.job.payload.jobId queued }
            history } := by
  unfold State.enqueueJob
  rw [ha]
  simp only
  split
  · exact .inl rfl
  · next hdup =>
    split
    · exact .inl rfl
    · refine .inr ⟨_, ?_, rfl⟩
      split
      · next htarget =>
        -- a live job that is not a duplicate has no status yet
        have hnew : s.history.contains queued.job.payload.jobId = false := by
          cases hc : s.history.contains queued.job.payload.jobId with
          | false => rfl
          | true => exact absurd ⟨htarget.2, hc⟩ hdup
        exact evolves_setJobStatus (.inr (mayRun_of_not_contains hnew))
      · exact .refl _ _

end Queue

/-! ## Acts on the slot -/

variable [Hashing]

/-- All that must hold for the next job of the active session to be launched. -/
structure State.Releases (s : State) (a : ActiveSession) (queued : QueuedJob) : Prop where
  listed : queued.sleds.contains s.rack.ownBaseboard = true
  target : s.rack.checkTarget queued.job.payload = none
  admitted : s.past.screen a.session.sessionId a.seq a.live = .admitted
  mayRun : State.mayRun s.history s.rack.ownBaseboard queued.job.payload.jobId = true
  command : State.checkCommand queued.job.payload = .ok ()

/-- One change of the session slot within a step. -/
inductive Act (tick : Tick) (s : State) : State → List Output → Prop
  | close {os : List Output} (hos : launches os = []) :
    Act tick s { s with session := .inactive } os
  | grant {a : ActiveSession} (grants : BTreeMap KeyId Access) (ha : s.session = .active a) :
    Act tick s { s with session := .active { a with attachGrants := grants } } []
  | burn {a : ActiveSession} (jobId : JobId) (ha : s.session = .active a)
    (hskip : a.session.canSkip jobId = true) :
    Act tick s
      { s with session := .active { a with session.lastJob := .burned jobId } } []
  | cancel {a : ActiveSession} (jobId : JobId) (ha : s.session = .active a) :
    Act tick s
      { s with session := .active { a with queuedJobs := a.queuedJobs.erase jobId } } []
  | enqueue {a : ActiveSession} {actor : KeyId} {queued : QueuedJob} (ha : s.session = .active a)
    (hq : s.Accepts tick actor queued) (hsession : queued.job.payload.sessionId = a.session.sessionId) :
    Act tick s
      { s with session := .active
                { a with queuedJobs := a.queuedJobs.insert queued.job.payload.jobId queued } } []
  | pass {a : ActiveSession} {queued : QueuedJob} {attachments : BTreeSet JobId}
    {os : List Output} (ha : s.session = .active a)
    (hq : a.queuedJobs[a.session.nextJobId]? = some queued)
    (hos : launches os = [] ∨ ∃ network, tick.network = some network ∧
      s.Releases a queued ∧ launches os = [State.runOf network a queued]) :
    Act tick s { s with session := .active (State.advance a queued), attachments } os

/-- A sequence of acts, with their outputs in order. -/
inductive Acts (tick : Tick) (s : State) : State → List Output → Prop
  | refl : Acts tick s s []
  | tail {t u : State} {os os' : List Output} :
    Acts tick s t os → Act tick t u os' → Acts tick s u (os ++ os')

theorem Acts.single (h : Act tick s s' os) : Acts tick s s' os :=
  .tail .refl h

theorem Acts.trans {s t u : State} {os os' : List Output} (h : Acts tick s t os)
    (h' : Acts tick t u os') : Acts tick s u (os ++ os') := by
  induction h' with
  | refl => rwa [List.append_nil]
  | tail _ hact ih => rw [← List.append_assoc]; exact .tail ih hact

theorem Act.frame (h : Act tick s s' os) :
    ∃ session attachments, s' = { s with session, attachments } := by
  cases h <;> exact ⟨_, _, rfl⟩

theorem Acts.frame (h : Acts tick s s' os) :
    ∃ session attachments, s' = { s with session, attachments } := by
  induction h with
  | refl => exact ⟨_, _, rfl⟩
  | tail _ hact ih =>
    obtain ⟨_, _, rfl⟩ := ih
    obtain ⟨_, _, rfl⟩ := hact.frame
    exact ⟨_, _, rfl⟩

theorem Acts.history (h : Acts tick s s' os) : s'.history = s.history := by
  obtain ⟨_, _, rfl⟩ := h.frame
  rfl

/-! ## The functions of the state machine as acts -/

section Functions

variable {s : State} {tick : Tick} {now : DateTime}

theorem releaseJob_eq (s : State) (now : DateTime) (network : Network) (a : ActiveSession)
    (queued : QueuedJob) :
    ∃ attachments os, s.releaseJob now network a queued = ({ s with attachments }, os) ∧
      (launches os = [] ∨ s.Releases a queued ∧ os = [.run (State.runOf network a queued)]) := by
  unfold State.releaseJob
  simp only
  split
  · next hlisted =>
    split
    · next reason _ =>
      refine ⟨_, _, rfl, .inl ?_⟩
      split <;> rfl
    · next htarget =>
      split
      · refine ⟨_, _, rfl, .inl ?_⟩
        split <;> rfl
      · next hadmit =>
        split
        · next hmay =>
          split
          · exact ⟨_, _, rfl, .inl rfl⟩
          · next hcommand =>
            exact ⟨_, _, rfl, .inr ⟨⟨hlisted, htarget, hadmit, hmay, hcommand⟩, rfl⟩⟩
        · exact ⟨_, _, rfl, .inl rfl⟩
  · exact ⟨_, _, rfl, .inl rfl⟩

theorem releaseNext_act {network : Network} (hnet : tick.network = some network)
    {acc acc' : State × List Output} (h : State.releaseNext now network acc = some acc') :
    ∃ os, Act tick acc.1 acc'.1 os ∧ acc'.2 = acc.2 ++ os := by
  unfold State.releaseNext at h
  split at h
  · cases h
  · next a ha =>
    split at h
    · cases h
    · next queued hq =>
      obtain ⟨attachments, os, he, hos⟩ := releaseJob_eq acc.1 now network a queued
      rw [he] at h
      cases h
      refine ⟨os, .pass ha hq ?_, rfl⟩
      rcases hos with hos | ⟨hrel, rfl⟩
      · exact .inl hos
      · exact .inr ⟨network, hnet, hrel, rfl⟩

theorem drainNext_act (h : s.drainNext = some s') : Act tick s s' [] := by
  unfold State.drainNext at h
  split at h
  · cases h
  · next a ha =>
    split at h
    · cases h
    · next queued hq =>
      cases h
      exact .pass ha hq (.inl rfl)

/-- `releaseReadyJobs` passes jobs of the chain. -/
theorem releaseReadyJobs_acts (s : State) (now : DateTime) (tick : Tick) :
    Acts tick s (s.releaseReadyJobs now tick.network).1
      (s.releaseReadyJobs now tick.network).2 := by
  unfold State.releaseReadyJobs
  split
  · next hnet =>
    exact Lib.iterate_invariant (P := fun s' => Acts tick s s' [])
      (fun _ _ hround h => .tail h (drainNext_act hround)) _ .refl
  · next network hnet =>
    refine Lib.iterate_invariant (P := fun acc : State × List Output => Acts tick s acc.1 acc.2)
      (fun acc acc' hround h => ?_) _ .refl
    obtain ⟨os, hact, he⟩ := releaseNext_act hnet hround
    rw [he]
    exact .tail h hact

end Functions

/-! ## The shape of a step -/

/-- The step enters the release loop in this state: after a skip that applies, or after a verified
job was queued in its session. -/
inductive State.Releasing (s : State) (tick : Tick) : State → Prop
  | skip {version : Version} {actor : KeyId} {a : ActiveSession} {jobId : JobId}
    (hinput : tick.input = .gossip version
      (.v0 (.request (.session actor (.skip a.session.sessionId jobId)))))
    (ha : s.session = .active a) (hstarter : a.session.startedBy = some actor)
    (hskip : a.session.canSkip jobId = true) :
    s.Releasing tick
      (State.cancelJob { s with session := .active { a with session.lastJob := .burned jobId } }
        tick.now jobId actor (!s.past.isLive version))
  | job {actor : KeyId} {queued : QueuedJob} {a : ActiveSession}
    (haccept : s.Accepts tick actor queued)
    (ha : (s.confirmStart tick.now queued.job.payload.sessionId).1.session = .active a)
    (hsession : a.session.sessionId = queued.job.payload.sessionId) :
    s.Releasing tick
      ((s.confirmStart tick.now queued.job.payload.sessionId).1.enqueueJob tick.now queued actor)

section Shapes

variable {s b s' e : State} {tick : Tick} {os : List Output}

theorem cancelJob_acts (tick : Tick) (ha : s.session = .active a) (now : DateTime) (jobId : JobId)
    (actor : KeyId) (replayed : Bool) :
    ∃ history, Evolves s.rack.ownBaseboard s.history history ∧
      Acts tick { s with history } (s.cancelJob now jobId actor replayed) [] := by
  obtain ⟨history, hev, he⟩ := cancelJob_eq now ha jobId actor replayed
  rw [he]
  exact ⟨history, hev, .single (Act.cancel (s := { s with history }) jobId ha)⟩

theorem State.Releasing.acts (h : s.Releasing tick e) :
    ∃ s₁, Quiet (s.opened tick) s₁ ∧ Acts tick s₁ e [] := by
  cases h with
  | @skip version actor a jobId hinput ha hstarter hskip =>
    rw [State.opened_of_none (opening_session hinput)]
    obtain ⟨history, hev, hcancel⟩ := cancelJob_acts tick
      (s := { s with session := .active { a with session.lastJob := .burned jobId } }) rfl tick.now
      jobId actor (!s.past.isLive version)
    have hburn : Act tick { s with history } _ [] := .burn (s := { s with history }) jobId ha hskip
    exact ⟨_, (Quiet.refl s).note rfl hev, (Acts.single hburn).trans hcancel⟩
  | @job actor queued a haccept ha hsession =>
    obtain ⟨hquiet, hhist, -⟩ := confirmStart_quiet haccept.verifiedJob tick.now
    generalize s.confirmStart tick.now queued.job.payload.sessionId = c at ha hquiet hhist ⊢
    obtain ⟨t, os⟩ := c
    rcases enqueueJob_cases tick.now ha queued actor with he | ⟨history, hev, he⟩
    · rw [he]
      exact ⟨t, hquiet, .refl⟩
    · rw [he]
      obtain ⟨_, _, hopened⟩ := s.opened_frame tick
      have haccept' : State.Accepts { t with history } tick actor queued :=
        haccept.congr (by rw [hquiet.certs, hopened]) (by rw [hquiet.birth, hopened])
      exact ⟨_, hquiet.note hhist hev,
        .single (.enqueue (s := { t with history }) ha haccept' hsession.symm)⟩

end Shapes

/-- A step enters the release loop, or else it changes the state quietly, acts on the slot, and
launches nothing. -/
inductive Shape (tick : Tick) (s s' : State) (os : List Output) : Prop
  | releasing {e : State} {os₀ : List Output} (he : s.Releasing tick e) (hos₀ : launches os₀ = [])
    (hs' : s' = (e.releaseReadyJobs tick.now tick.network).1)
    (hos : os = os₀ ++ (e.releaseReadyJobs tick.now tick.network).2)
  | still {s₁ : State} {os₁ : List Output} (hquiet : Quiet (s.opened tick) s₁)
    (hacts : Acts tick s₁ s' os₁) (hos₁ : launches os₁ = []) (hos : launches os = [])

section Shapes

variable {s s' : State} {tick : Tick} {os : List Output}

theorem Shape.ofQuiet (h : Quiet (s.opened tick) s') (hos : launches os = []) :
    Shape tick s s' os :=
  .still h .refl rfl hos

theorem Shape.ofAct {s₁ : State} {os₁ : List Output} (hnone : s.opening tick = none)
    (hquiet : Quiet s s₁) (hact : Acts tick s₁ s' os₁) (hos₁ : launches os₁ = [])
    (hos : launches os = []) : Shape tick s s' os := by
  refine .still ?_ hact hos₁ hos
  rw [State.opened_of_none hnone]
  exact hquiet

theorem startSession_quiet {preimage : SessionPreimage} :
    Quiet s (s.startSession version actor preimage) := by
  have hpend : Quiet s
      (if s.pendingStarts.contains preimage.sessionId then s
      else
        { s with
          pendingStarts := s.pendingStarts.put preimage.sessionId
            { preimage, actor, live := s.past.isLive version } }) := by
    split
    · exact .refl s
    · exact ⟨rfl, rfl, rfl, rfl, rfl, rfl, .refl _ _⟩
  unfold State.startSession
  simp only
  split
  · split
    · exact .refl s
    · split
      · exact .refl s
      · exact hpend
  · exact hpend

theorem handleSessionRequest_shape (tick : Tick) {request : SessionRequest}
    (hinput : tick.input = .gossip version (.v0 (.request (.session actor request)))) :
    Shape tick s (s.handleSessionRequest tick.now tick.network version actor request).1
      (s.handleSessionRequest tick.now tick.network version actor request).2 := by
  have hnone : s.opening tick = none := opening_session hinput
  have hignored : Shape tick s s [] := .ofAct hnone (.refl s) .refl rfl rfl
  cases request with
  | start preimage => exact .ofAct hnone startSession_quiet .refl rfl rfl
  | stop sessionId =>
    have hos := launches_skipQueuedJobs s tick.now
    exact asStarter_rec (P := fun r => Shape tick s r.1 r.2) hignored fun a ha _ _ =>
      .ofAct hnone (.refl s) (.single (.close hos)) hos hos
  | allowAttach sessionId keyId access =>
    exact asStarter_rec (P := fun r => Shape tick s r.1 r.2) hignored fun a ha _ _ =>
      .ofAct hnone (.refl s) (.single (.grant _ ha)) rfl rfl
  | denyAttach sessionId keyId =>
    exact asStarter_rec (P := fun r => Shape tick s r.1 r.2) hignored fun a ha _ _ =>
      .ofAct hnone (.refl s) (.single (.grant _ ha)) rfl rfl
  | skip sessionId jobId =>
    refine asStarter_rec (P := fun r => Shape tick s r.1 r.2) hignored fun a ha hsession hstarter => ?_
    subst hsession
    unfold State.skipJob Session.skipJob
    cases hskip : a.session.canSkip jobId with
    | false => exact hignored
    | true => exact .releasing (.skip hinput ha hstarter hskip) launches_nil rfl rfl

/-- A verified job enters the release loop in its session; any other is refused. -/
theorem startJob_shape {job : VerifiedJob} {params : JobStartParams} {sleds : BTreeSet BaseboardId}
    (hinput : tick.input = .gossip version
      (.v0 (.request (.job actor (.start job.signed params sleds)))))
    (hverify : s.certs.verify job.signed = .ok job) :
    Shape tick s (s.startJob tick.now tick.network version actor job params sleds).1
      (s.startJob tick.now tick.network version actor job params sleds).2 := by
  have haccept : s.Accepts tick actor { job, params, sleds, replayed := !s.past.isLive version } :=
    ⟨version, hinput, hverify, rfl⟩
  obtain ⟨hquiet, -, hos⟩ := confirmStart_quiet haccept.verifiedJob tick.now
  unfold State.startJob
  simp only
  split
  · next hsession =>
    obtain ⟨session, hs, hid⟩ := (Option.any_eq_true _ _).1 hsession
    cases ha : (s.confirmStart tick.now job.payload.sessionId).1.session with
    | inactive => rw [ha] at hs; cases hs
    | active a =>
      rw [ha] at hs
      cases hs
      exact .releasing (.job haccept ha (of_decide_eq_true hid)) hos rfl rfl
  · split
    · refine .ofQuiet hquiet ?_
      rw [launches_append, hos]
      rfl
    · exact .ofQuiet hquiet hos

theorem handleJobRequest_shape (tick : Tick) {request : JobRequest}
    (hinput : tick.input = .gossip version (.v0 (.request (.job actor request)))) :
    Shape tick s (s.handleJobRequest tick.now tick.network version actor request).1
      (s.handleJobRequest tick.now tick.network version actor request).2 := by
  unfold State.handleJobRequest
  cases request with
  | start signed params sleds =>
    cases hverify : s.certs.verify signed with
    | error e =>
      have hnone : s.opening tick = none := by
        unfold State.opening State.verifiedJob
        rw [hinput]
        simp only
        rw [hverify]
        rfl
      simp only [hverify]
      exact .ofAct hnone (.refl s) .refl rfl rfl
    | ok job =>
      obtain rfl := Certificates.signed_of_verify hverify
      simp only [hverify]
      exact startJob_shape hinput hverify
  | stop jobId =>
    have hnone : s.opening tick = none := by
      unfold State.opening State.verifiedJob
      rw [hinput]
      rfl
    simp only
    split
    · exact .ofAct hnone (.refl s) .refl rfl rfl
    · next hstarter =>
      split
      · exact .ofAct hnone (.refl s) .refl rfl rfl
      · cases ha : s.session with
        | inactive => simp [ha, SessionState.session] at hstarter
        | active a =>
          obtain ⟨history, hev, hcancel⟩ := cancelJob_acts tick ha tick.now jobId actor
            (!s.past.isLive version)
          exact .ofAct hnone ((Quiet.refl s).note rfl hev) hcancel rfl rfl

end Shapes

/-- **What a step can do.** -/
theorem step_shape (s : State) (tick : Tick) : Shape tick s (s.step tick).1 (s.step tick).2 := by
  obtain ⟨now, network, input⟩ := tick
  cases input with
  | cubbies cubbies =>
    exact .ofQuiet ⟨rfl, rfl, Rack.ownBaseboard_setCubbies .., rfl, rfl, rfl, .refl _ _⟩ rfl
  | drained => exact .ofQuiet settle_quiet.1 settle_quiet.2
  | gossip version message =>
    cases message with
    | unknown unknown message => exact .ofQuiet ⟨rfl, rfl, rfl, rfl, rfl, rfl, .refl _ _⟩ rfl
    | v0 message =>
      cases message with
      | event baseboard event =>
        have h := handleEvent_quiet s version baseboard event
        exact .ofQuiet h.1 h.2
      | request request =>
        cases request with
        | session actor request => exact handleSessionRequest_shape ⟨now, network, _⟩ rfl
        | job actor request => exact handleJobRequest_shape ⟨now, network, _⟩ rfl

/-- **The step rule**: what openings, quiet changes and acts preserve is preserved by a step. The
quiet change comes with the history the step ends in, and `Q` is what holds from then on. -/
theorem step_invariant {P Q : State → List Run → Prop} (runs : List Run)
    (hopen : ∀ sessionId start, s.opening tick = some (sessionId, start) → P s runs →
      P (s.opened tick) runs)
    (hquiet : ∀ s₁, Quiet (s.opened tick) s₁ → s₁.history = (s.step tick).1.history →
      P (s.opened tick) runs → Q s₁ runs)
    (hact : ∀ t t' os runs, Act tick t t' os → Q t runs → Q t' (runs ++ launches os))
    (h : P s runs) : Q (s.step tick).1 (runs ++ launches (s.step tick).2) := by
  have hopened : P (s.opened tick) runs := by
    cases ho : s.opening tick with
    | none => rw [State.opened_of_none ho]; exact h
    | some opening => exact hopen _ _ ho h
  have hacts : ∀ {t t' os}, Acts tick t t' os → ∀ {runs}, Q t runs → Q t' (runs ++ launches os) := by
    intro t t' os hacts runs ht
    induction hacts with
    | refl => simpa using ht
    | tail _ ha ih =>
      rw [launches_append, ← List.append_assoc]
      exact hact _ _ _ _ ha ih
  cases step_shape s tick with
  | @releasing e _ he hos₀ hs' hos =>
    obtain ⟨s₁, hq, hbefore⟩ := he.acts
    have hloop := releaseReadyJobs_acts e tick.now tick
    rw [← hs'] at hloop
    have h₁ := hquiet s₁ hq (hloop.history.trans hbefore.history).symm hopened
    rw [hos, launches_append, hos₀]
    have := hacts hloop (hacts hbefore h₁)
    simpa using this
  | still hq hbefore hos₁ hos =>
    have h₁ := hquiet _ hq hbefore.history.symm hopened
    rw [hos, ← hos₁]
    exact hacts hbefore h₁

theorem step_preserves {P : State → Prop} (hopen : P s → P (s.opened tick))
    (hquiet : ∀ s₁, Quiet (s.opened tick) s₁ → P (s.opened tick) → P s₁)
    (hact : ∀ t t' os, Act tick t t' os → P t → P t') (h : P s) : P (s.step tick).1 :=
  step_invariant (P := fun s _ => P s) (Q := fun s _ => P s) [] (fun _ _ _ h => hopen h)
    (fun s₁ hq _ h => hquiet s₁ hq h) (fun t t' os _ hact' h => hact t t' os hact' h) h

end Sush
