import Sush.Verify.Release

/-!
# What a step does, in full

`Turn` says for every step what becomes of the session slot, the history and the attachment points,
and what is put out. Where `Sush.Verify.Acts` asks only what is launched, this is exact: the history
is the one the step computes, and no output is left out. Pending starts are not part of it
(`Sush.Verify.Slot`).
-/

namespace Sush

open Lib

variable [World] [Crypto]

/-- What is put out when the input opens a session: the jobs that wait in the displaced one are
skipped. -/
def State.displaced (s : State) (tick : Tick) : List Output :=
  if (s.opening tick).isSome then s.skipQueuedJobs tick.now else []

/-- What is put out for a live job of a session that is not in the slot. -/
def State.refusal (s : State) (tick : Tick) (queued : QueuedJob) : List Output :=
  if ¬queued.replayed ∧ queued.sleds.contains s.rack.ownBaseboard ∧
      ¬s.history.contains queued.job.payload.jobId then
    [.jobEvent s.rack.ownBaseboard (.skipped queued.job.payload.jobId tick.now .sessionEnded)]
  else []

variable [Hashing]

variable {a : ActiveSession} {jobId : JobId} {queued : QueuedJob}

/-- What a step makes of the slot, the history and the attachment points, and what it puts out. -/
inductive Turn (s : State) (tick : Tick) :
    SessionState → JobHistory → BTreeSet JobId → List Output → Prop
  | idle : Turn s tick s.session s.history s.attachments []
  | settle (hinput : tick.input = .drained) :
    Turn s tick s.session s.history s.attachments (s.settle tick.now tick.network).2
  | event {version : Version} {baseboard : BaseboardId} {event : JobEvent}
    (hinput : tick.input = .gossip version (.v0 (.event baseboard (.job event)))) :
    Turn s tick s.session (s.handleJobEvent version baseboard event).1.history
      (s.handleJobEvent version baseboard event).1.attachments
      (s.handleJobEvent version baseboard event).2
  | stop {version : Version} {actor : KeyId} {a : ActiveSession}
    (hinput : tick.input = .gossip version
      (.v0 (.request (.session actor (.stop a.session.sessionId)))))
    (ha : s.session = .active a) (hstarter : a.session.startedBy = some actor) :
    Turn s tick .inactive s.history s.attachments (s.skipQueuedJobs tick.now)
  | allow {version : Version} {actor keyId : KeyId} {access : Access} {a : ActiveSession}
    (hinput : tick.input = .gossip version
      (.v0 (.request (.session actor (.allowAttach a.session.sessionId keyId access)))))
    (ha : s.session = .active a) (hstarter : a.session.startedBy = some actor) :
    Turn s tick (.active { a with attachGrants := a.attachGrants.insert keyId access }) s.history
      s.attachments []
  | deny {version : Version} {actor keyId : KeyId} {a : ActiveSession}
    (hinput : tick.input = .gossip version
      (.v0 (.request (.session actor (.denyAttach a.session.sessionId keyId)))))
    (ha : s.session = .active a) (hstarter : a.session.startedBy = some actor) :
    Turn s tick (.active { a with attachGrants := a.attachGrants.erase keyId }) s.history
      s.attachments []
  | skip {version : Version} {actor : KeyId} {jobId : JobId} {a a' : ActiveSession}
    {js : List QueuedJob} {e : State}
    (hinput : tick.input = .gossip version
      (.v0 (.request (.session actor (.skip a.session.sessionId jobId)))))
    (ha : s.session = .active a) (hstarter : a.session.startedBy = some actor)
    (hskip : a.session.canSkip jobId = true)
    (he : e = { s with
      session := .active
        { a with session.lastJob := .burned jobId, queuedJobs := a.queuedJobs.erase jobId }
      history := (s.cancelJob tick.now jobId actor (!s.past.isLive version)).history })
    (hpass : Passes { a with
      session.lastJob := .burned jobId, queuedJobs := a.queuedJobs.erase jobId } js a') :
    Turn s tick (.active a') e.history
      (attachmentsAfter s.attachments (launches (js.flatMap (e.released tick.now tick.network a))))
      (js.flatMap (e.released tick.now tick.network a))
  | cancel {version : Version} {actor : KeyId} {jobId : JobId} {a : ActiveSession}
    (hinput : tick.input = .gossip version (.v0 (.request (.job actor (.stop jobId)))))
    (ha : s.session = .active a) (hstarter : a.session.startedBy = some actor)
    (hknown : s.isJobKnown jobId = true) :
    Turn s tick (.active { a with queuedJobs := a.queuedJobs.erase jobId })
      (s.cancelJob tick.now jobId actor (!s.past.isLive version)).history s.attachments
      [.stop jobId]
  | refuse {actor : KeyId} {queued : QueuedJob} (haccept : s.Accepts tick actor queued)
    (hother : ∀ a, (s.opened tick).session = .active a →
      a.session.sessionId ≠ queued.job.payload.sessionId) :
    Turn s tick (s.opened tick).session s.history s.attachments
      (s.displaced tick ++ s.refusal tick queued)
  | job {actor : KeyId} {queued : QueuedJob} {a b a' : ActiveSession} {js : List QueuedJob}
    {e : State} (haccept : s.Accepts tick actor queued)
    (ha : (s.opened tick).session = .active a)
    (hsession : a.session.sessionId = queued.job.payload.sessionId)
    (he : e = State.enqueueJob { s with session := .active a } tick.now queued actor)
    (hb : e.session = .active b) (hpass : Passes b js a') :
    Turn s tick (.active a') e.history
      (attachmentsAfter s.attachments (launches (js.flatMap (e.released tick.now tick.network b))))
      (s.displaced tick ++ js.flatMap (e.released tick.now tick.network b))

section Steps

variable {s : State} {tick : Tick} {version : Version} {actor : KeyId}

omit [Hashing] in
theorem cancelJob_history (ha : s.session = .active a) (now : DateTime) (jobId : JobId)
    (actor : KeyId) (replayed : Bool) :
    s.cancelJob now jobId actor replayed =
      { s with
        session := .active { a with queuedJobs := a.queuedJobs.erase jobId }
        history := (s.cancelJob now jobId actor replayed).history } := by
  unfold State.cancelJob
  rw [ha]

/-- A skip that applies burns the job, takes it out of the queue and records its cancellation, and the
release loop runs. -/
theorem skipJob_burn (now : DateTime) (network : Option Network) (version : Version) (actor : KeyId)
    (ha : s.session = .active a) (hskip : a.session.canSkip jobId = true) :
    let e : State := { s with
      session := .active
        { a with session.lastJob := .burned jobId, queuedJobs := a.queuedJobs.erase jobId }
      history := (s.cancelJob now jobId actor (!s.past.isLive version)).history }
    s.skipJob now network version actor jobId a = e.releaseReadyJobs now network := by
  intro e
  unfold State.skipJob Session.skipJob State.cancelJob
  rw [hskip]
  simp only [if_true]
  congr 1
  simp only [e, State.cancelJob, ha]
  rfl

theorem skipJob_eq (now : DateTime) (network : Option Network) (version : Version) (actor : KeyId)
    (ha : s.session = .active a) (hskip : a.session.canSkip jobId = true) :
    let burned : ActiveSession :=
      { a with session.lastJob := .burned jobId, queuedJobs := a.queuedJobs.erase jobId }
    let e : State := { s with
      session := .active burned
      history := (s.cancelJob now jobId actor (!s.past.isLive version)).history }
    ∃ js a', Passes burned js a' ∧ s.skipJob now network version actor jobId a =
      ({ e with
          session := .active a'
          attachments := attachmentsAfter s.attachments
            (launches (js.flatMap (e.released now network a))) },
        js.flatMap (e.released now network a)) := by
  intro burned e
  rw [skipJob_burn now network version actor ha hskip]
  exact releaseReadyJobs_eq now network rfl

theorem step_skip_eq (hinput : tick.input = .gossip version
      (.v0 (.request (.session actor (.skip a.session.sessionId jobId)))))
    (ha : s.session = .active a) (hstarter : a.session.startedBy = some actor) :
    s.step tick = s.skipJob tick.now tick.network version actor jobId a := by
  simp only [State.step, hinput, State.update, State.handleSessionRequest, State.asStarter, ha,
    hstarter, and_self, if_true]

theorem sessionRequest_turn {request : SessionRequest}
    (hinput : tick.input = .gossip version (.v0 (.request (.session actor request)))) :
    let r := s.handleSessionRequest tick.now tick.network version actor request
    Turn s tick r.1.session r.1.history r.1.attachments r.2 := by
  cases request with
  | start preimage =>
    have hframe : ∃ p, s.startSession version actor preimage = { s with pendingStarts := p } := by
      unfold State.startSession
      simp only
      repeat' split
      all_goals exact ⟨_, rfl⟩
    obtain ⟨p, hp⟩ := hframe
    simp only [State.handleSessionRequest, hp]
    exact .idle
  | stop sessionId =>
    refine asStarter_rec (P := fun r => Turn s tick r.1.session r.1.history r.1.attachments r.2)
      .idle fun a ha hid hstarter => ?_
    subst hid
    exact .stop hinput ha hstarter
  | allowAttach sessionId keyId access =>
    refine asStarter_rec (P := fun r => Turn s tick r.1.session r.1.history r.1.attachments r.2)
      .idle fun a ha hid hstarter => ?_
    subst hid
    exact .allow hinput ha hstarter
  | denyAttach sessionId keyId =>
    refine asStarter_rec (P := fun r => Turn s tick r.1.session r.1.history r.1.attachments r.2)
      .idle fun a ha hid hstarter => ?_
    subst hid
    exact .deny hinput ha hstarter
  | skip sessionId jobId =>
    refine asStarter_rec (P := fun r => Turn s tick r.1.session r.1.history r.1.attachments r.2)
      .idle fun a ha hid hstarter => ?_
    subst hid
    cases hskip : a.session.canSkip jobId with
    | false =>
      unfold State.skipJob Session.skipJob
      rw [hskip]
      exact .idle
    | true =>
      obtain ⟨js, a', hpass, heq⟩ := skipJob_eq tick.now tick.network version actor ha hskip
      rw [heq]
      exact .skip hinput ha hstarter hskip rfl hpass

omit [Hashing] in
/-- Confirming a start changes the slot and the pending starts, and puts out what the displaced
session leaves. No start of the session is pending after it. -/
theorem confirmStart_eq {job : VerifiedJob} (hjob : s.verifiedJob tick = some job) :
    ∃ pendingStarts, pendingStarts.peek job.payload.sessionId = none ∧
      s.confirmStart tick.now job.payload.sessionId =
        ({ s with session := (s.opened tick).session, pendingStarts }, s.displaced tick) := by
  have hopen := opening_of_verifiedJob hjob
  unfold State.confirmStart LruCache.pop State.opened State.displaced
  rw [hopen]
  cases hpeek : s.pendingStarts.peek job.payload.sessionId with
  | none => exact ⟨_, hpeek, rfl⟩
  | some start =>
    have hpopped := (LruCache.peek_erase (c := s.pendingStarts)).trans
      (if_pos (rfl : job.payload.sessionId = job.payload.sessionId))
    by_cases hrank : rankOf start.preimage.seq job.payload.sessionId ≤ s.session.rank
    · simp only [Option.bind_some, if_pos hrank]
      exact ⟨_, hpopped, rfl⟩
    · simp only [Option.bind_some, if_neg hrank]
      exact ⟨_, hpopped, rfl⟩

omit [Hashing] in
theorem enqueueJob_pendingStarts (s : State) (p : LruCache SessionId PendingStart) (now : DateTime)
    (queued : QueuedJob) (actor : KeyId) :
    State.enqueueJob { s with pendingStarts := p } now queued actor =
      { s.enqueueJob now queued actor with pendingStarts := p } := by
  unfold State.enqueueJob
  simp only
  split
  · rfl
  · split
    · rfl
    · split <;> rfl

omit [Hashing] in
theorem enqueueJob_active (ha : s.session = .active a) (now : DateTime) (queued : QueuedJob)
    (actor : KeyId) :
    ∃ b, (s.enqueueJob now queued actor).session = .active b ∧
      (b = a ∨ b = { a with queuedJobs := a.queuedJobs.insert queued.job.payload.jobId queued }) ∧
      s.enqueueJob now queued actor =
        { s with session := .active b, history := (s.enqueueJob now queued actor).history } := by
  unfold State.enqueueJob
  rw [ha]
  simp only
  split
  · exact ⟨a, ha, .inl rfl, by rw [← ha]⟩
  · split
    · exact ⟨a, ha, .inl rfl, by rw [← ha]⟩
    · exact ⟨_, rfl, .inr rfl, rfl⟩

omit [Hashing] in
theorem enqueueJob_same {a b : ActiveSession} {now : DateTime} {queued : QueuedJob}
    (hb : (State.enqueueJob { s with session := .active a } now queued actor).session = .active b) :
    SameSession a b ∧ b.attachGrants = a.attachGrants := by
  obtain ⟨c, hc, hcases, -⟩ :=
    enqueueJob_active (s := { s with session := .active a }) rfl now queued actor
  cases hc.symm.trans hb
  rcases hcases with rfl | rfl <;> exact ⟨⟨rfl, rfl, rfl, rfl⟩, rfl⟩

omit [Hashing] in
/-- A job that is replayed, or that is not known and finds room, joins the queue. A live one that names
this sled is recorded as queued. -/
theorem enqueueJob_joins (ha : s.session = .active a) (now : DateTime) (actor : KeyId)
    (h : queued.replayed = true ∨
      s.history.contains queued.job.payload.jobId = false ∧
        (maxQueuedJobs ≤ a.queuedJobs.size →
          a.queuedJobs.contains queued.job.payload.jobId = true)) :
    let queue := a.queuedJobs.insert queued.job.payload.jobId queued
    s.enqueueJob now queued actor =
      { s with
        session := .active { a with queuedJobs := queue }
        history :=
          if queued.sleds.contains s.rack.ownBaseboard ∧ ¬queued.replayed then
            s.history.setJobStatus queued.job.payload.jobId s.rack.ownBaseboard
              (.queued queued.job.payload.jobId now actor) none (some queue)
          else s.history } := by
  have hnew : ¬(¬queued.replayed = true ∧ s.history.contains queued.job.payload.jobId = true) := by
    rcases h with h | ⟨h, -⟩ <;> simp [h]
  have hroom : ¬(¬queued.replayed = true ∧ maxQueuedJobs ≤ a.queuedJobs.size ∧
      ¬a.queuedJobs.contains queued.job.payload.jobId = true) := by
    rcases h with h | ⟨-, h⟩
    · simp [h]
    · intro hfull
      exact hfull.2.2 (h hfull.2.1)
  unfold State.enqueueJob
  rw [ha]
  simp only [if_neg hnew, if_neg hroom]

omit [Hashing] in
theorem enqueueJob_of_live (ha : s.session = .active a) (now : DateTime) (actor : KeyId)
    (hlive : queued.replayed = false) (hnew : s.history.contains queued.job.payload.jobId = false)
    (hroom : maxQueuedJobs ≤ a.queuedJobs.size →
      a.queuedJobs.contains queued.job.payload.jobId = true) :
    let queue := a.queuedJobs.insert queued.job.payload.jobId queued
    s.enqueueJob now queued actor =
      { s with
        session := .active { a with queuedJobs := queue }
        history :=
          if queued.sleds.contains s.rack.ownBaseboard then
            s.history.setJobStatus queued.job.payload.jobId s.rack.ownBaseboard
              (.queued queued.job.payload.jobId now actor) none (some queue)
          else s.history } := by
  have hjoins := enqueueJob_joins ha now actor (.inr ⟨hnew, hroom⟩)
  simpa only [hlive, Bool.false_eq_true, not_false_eq_true, and_true] using hjoins

theorem step_job_eq (haccept : s.Accepts tick actor queued)
    (ha : (s.opened tick).session = .active a)
    (hsession : a.session.sessionId = queued.job.payload.sessionId) :
    let e := State.enqueueJob { s with session := .active a } tick.now queued actor
    ∃ b js a' pendingStarts, e.session = .active b ∧ Passes b js a' ∧
      pendingStarts.peek queued.job.payload.sessionId = none ∧ s.step tick =
      ({ e with
          session := .active a'
          pendingStarts
          attachments := attachmentsAfter s.attachments
            (launches (js.flatMap (e.released tick.now tick.network b))) },
        s.displaced tick ++ js.flatMap (e.released tick.now tick.network b)) := by
  simp only
  obtain ⟨p, hpopped, hconfirm⟩ := confirmStart_eq haccept.verifiedJob
  obtain ⟨version, hinput, hverify, hreplayed⟩ := haccept
  have hany : ((SessionState.active a).session).any
      (·.sessionId = queued.job.payload.sessionId) = true := by
    simp [SessionState.session, hsession]
  have hqueued : QueuedJob.mk queued.job queued.params queued.sleds (!s.past.isLive version) =
      queued := by
    rw [← hreplayed]
  obtain ⟨b, hb, -, he⟩ := enqueueJob_active (s := { s with session := .active a }) rfl tick.now
    queued actor
  have hpending := enqueueJob_pendingStarts { s with session := .active a } p tick.now queued actor
  generalize State.enqueueJob { s with session := .active a } tick.now queued actor = e
    at hb he hpending ⊢
  have hattach : e.attachments = s.attachments := by rw [he]
  obtain ⟨js, a', hpass, heq⟩ := releaseReadyJobs_eq tick.now tick.network
    (s := { e with pendingStarts := p }) hb
  have hreleased : State.released { e with pendingStarts := p } tick.now tick.network b =
      e.released tick.now tick.network b :=
    released_congr tick.network rfl rfl rfl ⟨rfl, rfl, rfl, rfl⟩
  refine ⟨b, js, a', p, hb, hpass, hpopped, ?_⟩
  simp only [State.step, hinput, State.update, State.handleJobRequest, hverify, State.startJob,
    hconfirm, hany, if_true, hqueued, ha] at hpending heq ⊢
  rw [hpending, heq, hreleased, hattach]

theorem step_refused_eq (haccept : s.Accepts tick actor queued)
    (hother : ∀ a, (s.opened tick).session = .active a →
      a.session.sessionId ≠ queued.job.payload.sessionId) :
    ∃ pendingStarts, s.step tick =
      ({ s with session := (s.opened tick).session, pendingStarts },
        s.displaced tick ++ s.refusal tick queued) := by
  have hany : ((s.opened tick).session.session).any
      (·.sessionId = queued.job.payload.sessionId) = false := by
    cases hs : (s.opened tick).session with
    | inactive => rfl
    | active a => simp [SessionState.session, hother a hs]
  obtain ⟨p, -, hconfirm⟩ := confirmStart_eq haccept.verifiedJob
  obtain ⟨version, hinput, hverify, hreplayed⟩ := haccept
  refine ⟨p, ?_⟩
  simp only [State.step, hinput, State.update, State.handleJobRequest, hverify, State.startJob,
    hconfirm, hany, Bool.false_eq_true, if_false, State.refusal, hreplayed, Bool.not_eq_true,
    Bool.not_eq_false']
  split
  · rfl
  · rw [List.append_nil]

theorem startJob_turn {job : VerifiedJob} {params : JobStartParams} {sleds : BTreeSet BaseboardId}
    (hinput : tick.input = .gossip version
      (.v0 (.request (.job actor (.start job.signed params sleds)))))
    (hverify : s.certs.verify job.signed = .ok job) :
    Turn s tick (s.step tick).1.session (s.step tick).1.history (s.step tick).1.attachments
      (s.step tick).2 := by
  have haccept : s.Accepts tick actor ⟨job, params, sleds, !s.past.isLive version⟩ :=
    ⟨version, hinput, hverify, rfl⟩
  by_cases hmine : ∃ a, (s.opened tick).session = .active a ∧
      a.session.sessionId = job.payload.sessionId
  · obtain ⟨a, ha, hsession⟩ := hmine
    obtain ⟨b, js, a', p, hb, hpass, -, heq⟩ := step_job_eq haccept ha hsession
    rw [heq]
    exact .job haccept ha hsession rfl hb hpass
  · have hother : ∀ a, (s.opened tick).session = .active a →
        a.session.sessionId ≠ job.payload.sessionId := fun a ha hid => hmine ⟨a, ha, hid⟩
    obtain ⟨p, heq⟩ := step_refused_eq haccept hother
    rw [heq]
    exact .refuse haccept hother

theorem step_stop_eq
    (hinput : tick.input = .gossip version (.v0 (.request (.job actor (.stop jobId)))))
    (ha : s.session = .active a) (hstarter : a.session.startedBy = some actor)
    (hknown : s.isJobKnown jobId = true) :
    s.step tick =
      ({ s with
          session := .active { a with queuedJobs := a.queuedJobs.erase jobId }
          history := (s.cancelJob tick.now jobId actor (!s.past.isLive version)).history },
        [.stop jobId]) := by
  have hstarted : (s.session.session).bind Session.startedBy = some actor := by
    rw [ha]
    exact hstarter
  simp only [State.step, hinput, State.update, State.handleJobRequest, hstarted, hknown, ne_eq,
    not_true_eq_false, if_false]
  rw [cancelJob_history ha]

theorem jobRequest_turn {request : JobRequest}
    (hinput : tick.input = .gossip version (.v0 (.request (.job actor request)))) :
    Turn s tick (s.step tick).1.session (s.step tick).1.history (s.step tick).1.attachments
      (s.step tick).2 := by
  cases request with
  | start signed params sleds =>
    cases hverify : s.certs.verify signed with
    | error e =>
      simp only [State.step, hinput, State.update, State.handleJobRequest, hverify]
      exact .idle
    | ok job =>
      obtain rfl := Certificates.signed_of_verify hverify
      exact startJob_turn hinput hverify
  | stop jobId =>
    by_cases hmine : (s.session.session).bind Session.startedBy = some actor ∧
        s.isJobKnown jobId = true
    · obtain ⟨hstarter, hknown⟩ := hmine
      cases ha : s.session with
      | inactive => rw [ha] at hstarter; cases hstarter
      | active a =>
        rw [ha] at hstarter
        rw [step_stop_eq hinput ha hstarter hknown]
        exact .cancel hinput ha hstarter hknown
    · have hsame : s.step tick = (s, []) := by
        simp only [State.step, hinput, State.update, State.handleJobRequest]
        split
        · rfl
        · split
          · rfl
          · next hstarter hknown =>
            exact absurd ⟨not_not.1 hstarter, not_not.1 hknown⟩ hmine
      rw [hsame]
      exact .idle

end Steps

omit [Hashing] in
/-- A job finds the session that was in the slot, or one that its own arrival has opened, with an empty
queue and no grants. -/
theorem opened_session (s : State) (tick : Tick) :
    s.opening tick = none ∧ (s.opened tick).session = s.session ∨
      ∃ start a, s.opening tick = some (a.session.sessionId, start) ∧
        (s.opened tick).session = .active a ∧ a.queuedJobs = ∅ ∧ a.attachGrants = ∅ := by
  unfold State.opened
  cases hopen : s.opening tick with
  | none => exact .inl ⟨rfl, rfl⟩
  | some opening =>
    obtain ⟨sessionId, start⟩ := opening
    refine .inr ⟨start, _, ?_, rfl, rfl, rfl⟩
    simp only [State.openSession]
    split <;> rfl

/-- **What a step does, in full.** -/
theorem step_turn (s : State) (tick : Tick) :
    Turn s tick (s.step tick).1.session (s.step tick).1.history (s.step tick).1.attachments
      (s.step tick).2 := by
  obtain ⟨now, network, input⟩ := tick
  cases input with
  | cubbies cubbies => exact .idle
  | drained =>
    obtain ⟨reaped, heq, -⟩ := settle_eq s now network
    have hturn : Turn s ⟨now, network, .drained⟩ _ _ _ _ := .settle rfl
    simp only [State.step, heq] at hturn ⊢
    exact hturn
  | gossip version message =>
    cases message with
    | unknown unknown message => exact .idle
    | v0 message =>
      cases message with
      | event baseboard event =>
        cases event with
        | version info => exact .idle
        | job event =>
          have hturn : Turn s ⟨now, network, .gossip version (.v0 (.event baseboard (.job event)))⟩
              _ _ _ _ := .event rfl
          have hsession : (s.handleJobEvent version baseboard event).1.session = s.session :=
            (handleEvent_quiet s version baseboard (.job event)).1.session
          simp only [State.step, State.update, State.handleEvent, hsession]
          exact hturn
      | request request =>
        cases request with
        | session actor request => exact sessionRequest_turn rfl
        | job actor request => exact jobRequest_turn rfl

end Sush
