import Sush.Verify.Traffic

/-!
# Two sleds side by side

Two sleds that hear the same requests, both as live traffic, differ in what they are told to run. What
they keep of a job differs too: only a sled the job targets records a status. A later request of the
same job is dropped where it has a status and queued where it has not, and if the job is still ahead
on the chain, the sleds part (`sleds_part_startedAgain`). As long as no such request arrives, the session,
its starter and its position stay the same on both (`sleds_agree`).
-/

namespace Sush

open Lib SkipChain Sequencer

section

variable [World] [Hashing]

/-- The ids of the jobs that wait are among `ids`. -/
def ActiveSession.QueuedIn (ids : Finset JobId) (a : ActiveSession) : Prop :=
  ∀ jobId job, a.sequencer.queue jobId = some job → jobId ∈ ids

theorem ActiveSession.QueuedIn.update {ids : Finset JobId} {a a' : ActiveSession} {jobId : JobId}
    {v : Option JobStartRequest}
    (hqueue : a'.sequencer.queue = Function.update a.sequencer.queue jobId v)
    (hv : ∀ job, v = some job → jobId ∈ ids) (h : a.QueuedIn ids) : a'.QueuedIn ids := by
  intro k job hjob
  rw [hqueue] at hjob
  by_cases hk : k = jobId
  · subst hk
    exact hv job (by simpa using hjob)
  · rw [Function.update_of_ne hk] at hjob
    exact h k job hjob

theorem ActiveSession.QueuedIn.room {ids : Finset JobId} {a : ActiveSession} {jobId : JobId}
    (hcard : ids.card ≤ maxQueuedJobs) (hid : jobId ∈ ids) (h : a.QueuedIn ids) :
    maxQueuedJobs ≤ a.queuedJobs.size → a.queuedJobs.contains jobId = true := by
  intro hfull
  by_contra hnot
  rw [Bool.not_eq_true, BTreeMap.contains_eq_false_iff] at hnot
  have hkeys : ∀ k queued, a.queuedJobs[k]? = some queued → k ∈ ids.erase jobId := by
    intro k queued hk
    refine Finset.mem_erase.2 ⟨fun heq => ?_, h k queued.job.payload ?_⟩
    · rw [heq, hnot] at hk
      cases hk
    · simp [sequencer, hk]
  have hsize := BTreeMap.size_le_card hkeys
  have hlt := Finset.card_erase_lt_of_mem hid
  omega

/-- The sessions in the two slots are the same, at the same position, and have queued the same jobs
where the chain can still get to. -/
structure Alike (ids : Finset JobId) (a₁ a₂ : ActiveSession) : Prop where
  same : SameSession a₁ a₂
  agrees : a₁.sequencer.Agrees jobChain a₂.sequencer
  ids₁ : a₁.QueuedIn ids
  ids₂ : a₂.QueuedIn ids

inductive SlotsAlike (ids : Finset JobId) : SessionState → SessionState → Prop
  | inactive : SlotsAlike ids .inactive .inactive
  | active {a₁ a₂ : ActiveSession} (h : Alike ids a₁ a₂) : SlotsAlike ids (.active a₁) (.active a₂)

variable {ids : Finset JobId} {a₁ a₂ : ActiveSession}

omit [Hashing] in
theorem SameSession.congr {b₁ b₂ : ActiveSession} (h : SameSession a₁ a₂) (h₁ : SameSession a₁ b₁)
    (h₂ : SameSession a₂ b₂) : SameSession b₁ b₂ :=
  h₁.symm.trans (h.trans h₂)

theorem Alike.rank (h : Alike ids a₁ a₂) : a₁.rank = a₂.rank := by
  unfold ActiveSession.rank
  rw [h.same.id, h.same.seq]

theorem Alike.canSkip (h : Alike ids a₁ a₂) (jobId : JobId) :
    a₁.session.canSkip jobId = a₂.session.canSkip jobId := by
  have hfront : a₁.session.front = a₂.session.front := h.agrees.front
  rw [Bool.eq_iff_iff, Session.canSkip_iff, Session.canSkip_iff, hfront]

theorem SlotsAlike.rank {σ₁ σ₂ : SessionState} (h : SlotsAlike ids σ₁ σ₂) : σ₁.rank = σ₂.rank := by
  cases h with
  | inactive => rfl
  | active h => exact h.rank

theorem Alike.released {b₁ b₂ : ActiveSession} {js₁ js₂ : List JobStartRequest} {runs₁ runs₂ : List Run}
    (h₁ : Released a₁ b₁ js₁ runs₁) (h₂ : Released a₂ b₂ js₂ runs₂) (h : Alike ids a₁ a₂) :
    Alike ids b₁ b₂ where
  same := h.same.congr h₁.same h₂.same
  agrees := h.agrees.releases h₁.releases h₂.releases
  ids₁ jobId job hjob := h.ids₁ jobId job (h₁.releases.queue hjob)
  ids₂ jobId job hjob := h.ids₂ jobId job (h₂.releases.queue hjob)

variable [Crypto]

variable {actor : KeyId} {queued : QueuedJob} {now₁ now₂ : DateTime}
  {network₁ network₂ : Option Network}

/-- The two sleds agree on everything that bears on the session and its chain. -/
structure SideBySide (p₁ p₂ : Past) (ids : Finset JobId) (s₁ s₂ : State) : Prop where
  certs : s₁.certs = s₂.certs
  past₁ : s₁.past = p₁
  past₂ : s₂.past = p₂
  pending : s₁.pendingStarts = s₂.pendingStarts
  slot : SlotsAlike ids s₁.session s₂.session

variable {p₁ p₂ : Past} {s₁ s₂ : State}

theorem SideBySide.release (ha₁ : s₁.session = .active a₁) (ha₂ : s₂.session = .active a₂)
    (h : SideBySide p₁ p₂ ids s₁ s₂) :
    SideBySide p₁ p₂ ids (s₁.releaseReadyJobs now₁ network₁).1 (s₂.releaseReadyJobs now₂ network₂).1 := by
  obtain ⟨b₁, js₁, attachments₁, hrel₁, he₁⟩ := releaseReadyJobs_released now₁ network₁ ha₁
  obtain ⟨b₂, js₂, attachments₂, hrel₂, he₂⟩ := releaseReadyJobs_released now₂ network₂ ha₂
  have hslot := h.slot
  rw [ha₁, ha₂] at hslot
  cases hslot with
  | active halike =>
    rw [he₁, he₂]
    exact ⟨h.certs, h.past₁, h.past₂, h.pending, .active (halike.released hrel₁ hrel₂)⟩

/-! ## Session requests -/

theorem SideBySide.asStarter {sessionId : SessionId}
    {act₁ act₂ : ActiveSession → State × List Output} (h : SideBySide p₁ p₂ ids s₁ s₂)
    (hact : ∀ a₁ a₂, s₁.session = .active a₁ → s₂.session = .active a₂ → Alike ids a₁ a₂ →
      SideBySide p₁ p₂ ids (act₁ a₁).1 (act₂ a₂).1) :
    SideBySide p₁ p₂ ids (s₁.asStarter sessionId actor act₁).1 (s₂.asStarter sessionId actor act₂).1 := by
  have hslot := h.slot
  unfold State.asStarter
  cases hs₁ : s₁.session <;> cases hs₂ : s₂.session <;> rw [hs₁, hs₂] at hslot <;> cases hslot
  case inactive => exact h
  case active a₁ a₂ halike =>
    simp only [halike.same.id, halike.same.starter]
    split
    · exact hact a₁ a₂ hs₁ hs₂ halike
    · exact h

theorem SideBySide.startSession {version : Version} (hlive₁ : s₁.past.isLive version = true)
    (hlive₂ : s₂.past.isLive version = true) (actor : KeyId) (preimage : SessionPreimage)
    (h : SideBySide p₁ p₂ ids s₁ s₂) : SideBySide p₁ p₂ ids (s₁.startSession version actor preimage)
      (s₂.startSession version actor preimage) := by
  have hpend : SideBySide p₁ p₂ ids
      { s₁ with pendingStarts := s₁.pendingStarts.put preimage.sessionId ⟨preimage, actor, true⟩ }
      { s₂ with pendingStarts := s₂.pendingStarts.put preimage.sessionId ⟨preimage, actor, true⟩ } :=
    ⟨h.certs, h.past₁, h.past₂, by rw [h.pending], h.slot⟩
  have hrank := h.slot.rank
  have hslot := h.slot
  unfold State.startSession
  simp only [hlive₁, hlive₂, ← h.pending, ← hrank] at hpend ⊢
  cases hs₁ : s₁.session <;> cases hs₂ : s₂.session <;> rw [hs₁, hs₂] at hslot hpend <;> cases hslot
  case inactive =>
    simp only
    split
    · exact h
    · exact hpend
  case active a₁ a₂ halike =>
    simp only [halike.same.id]
    split_ifs
    · exact h
    · exact h
    · exact h
    · exact hpend

/-- A skip applies on both or on neither. -/
theorem SideBySide.skipJob (version : Version) (actor : KeyId) (jobId : JobId)
    (ha₁ : s₁.session = .active a₁) (ha₂ : s₂.session = .active a₂) (halike : Alike ids a₁ a₂)
    (h : SideBySide p₁ p₂ ids s₁ s₂) :
    SideBySide p₁ p₂ ids (s₁.skipJob now₁ network₁ version actor jobId a₁).1
      (s₂.skipJob now₂ network₂ version actor jobId a₂).1 := by
  have hcan := halike.canSkip jobId
  cases hskip : a₁.session.canSkip jobId with
  | false =>
    rw [skipJob_ignored _ _ _ _ hskip, skipJob_ignored _ _ _ _ (hcan ▸ hskip)]
    exact h
  | true =>
    rw [skipJob_burn now₁ network₁ version actor ha₁ hskip,
      skipJob_burn now₂ network₂ version actor ha₂ (hcan ▸ hskip)]
    refine SideBySide.release rfl rfl ⟨h.certs, h.past₁, h.past₂, h.pending, .active ?_⟩
    refine ⟨⟨halike.same.id, halike.same.seq, halike.same.live, halike.same.starter⟩, ?_,
      halike.ids₁.update (congrArg Sequencer.queue (a₁.sequencer_burn jobId)) (by simp),
      halike.ids₂.update (congrArg Sequencer.queue (a₂.sequencer_burn jobId)) (by simp)⟩
    rw [a₁.sequencer_burn, a₂.sequencer_burn]
    exact halike.agrees.burn (Session.canSkip_iff.1 hskip)

theorem SideBySide.sessionRequest {version : Version} (hlive₁ : s₁.past.isLive version = true)
    (hlive₂ : s₂.past.isLive version = true) (actor : KeyId) (request : SessionRequest)
    (h : SideBySide p₁ p₂ ids s₁ s₂) :
    SideBySide p₁ p₂ ids (s₁.handleSessionRequest now₁ network₁ version actor request).1
      (s₂.handleSessionRequest now₂ network₂ version actor request).1 := by
  cases request with
  | start preimage => exact h.startSession hlive₁ hlive₂ actor preimage
  | stop sessionId =>
    exact h.asStarter fun _ _ _ _ _ => ⟨h.certs, h.past₁, h.past₂, h.pending, .inactive⟩
  | allowAttach sessionId keyId access | denyAttach sessionId keyId =>
    exact h.asStarter fun _ _ _ _ ha => ⟨h.certs, h.past₁, h.past₂, h.pending,
      .active ⟨⟨ha.same.id, ha.same.seq, ha.same.live, ha.same.starter⟩, ha.agrees, ha.ids₁,
        ha.ids₂⟩⟩
  | skip sessionId jobId => 
    exact h.asStarter fun _ _ ha₁ ha₂ halike => h.skipJob version actor jobId ha₁ ha₂ halike

/-! ## Job requests -/

variable (hfresh₁ : p₁.committed = none) (hfresh₂ : p₂.committed = none)

include hfresh₁ hfresh₂ in
theorem SideBySide.confirmStart (now₁ now₂ : DateTime) (sessionId : SessionId)
    (h : SideBySide p₁ p₂ ids s₁ s₂) :
    SideBySide p₁ p₂ ids (s₁.confirmStart now₁ sessionId).1 (s₂.confirmStart now₂ sessionId).1 := by
  have hopen₁ (start : PendingStart) :
      State.openSession { s₁ with pendingStarts := s₁.pendingStarts.erase sessionId } sessionId start =
        Session.started sessionId start.actor := by
    simp [State.openSession, Past.boundary, h.past₁, hfresh₁]
  have hopen₂ (start : PendingStart) :
      State.openSession { s₂ with pendingStarts := s₁.pendingStarts.erase sessionId } sessionId start =
        Session.started sessionId start.actor := by
    simp [State.openSession, Past.boundary, h.past₂, hfresh₂]
  unfold State.confirmStart LruCache.pop
  rw [← h.pending, ← h.slot.rank]
  cases s₁.pendingStarts.peek sessionId with
  | none => exact h
  | some start =>
    simp only
    split
    · exact ⟨h.certs, h.past₁, h.past₂, rfl, h.slot⟩
    · refine ⟨h.certs, h.past₁, h.past₂, rfl, .active ?_⟩
      simp only [hopen₁, hopen₂]
      refine ⟨⟨rfl, rfl, rfl, rfl⟩, ⟨rfl, fun _ _ => rfl, ?_⟩, ?_, ?_⟩
      all_goals
        intro jobId job hjob
        simp [ActiveSession.sequencer] at hjob

theorem enqueueJob_sequencer (now : DateTime) (actor : KeyId) {s : State} {a : ActiveSession}
    (ha : s.session = .active a) (hlive : queued.replayed = false)
    (hroom : maxQueuedJobs ≤ a.queuedJobs.size →
      a.queuedJobs.contains queued.job.payload.jobId = true) :
    ∃ a' history,
      SameSession a a' ∧
      a'.sequencer =
        { a.sequencer with
          queue := Function.update a.sequencer.queue queued.job.payload.jobId
            (if s.history.contains queued.job.payload.jobId = true then
              a.sequencer.queue queued.job.payload.jobId else some queued.job.payload) } ∧
      s.enqueueJob now queued actor = { s with session := .active a', history } := by
  cases hknown : s.history.contains queued.job.payload.jobId with
  | true =>
    refine ⟨a, s.history, ⟨rfl, rfl, rfl, rfl⟩, ?_, ?_⟩
    · rw [if_pos rfl, Function.update_eq_self]
    · rw [enqueueJob_of_known now ha actor hlive hknown, ← ha]
  | false =>
    obtain ⟨history, -, he⟩ := enqueueJob_of_room now ha actor (.inr ⟨hknown, hroom⟩)
    refine ⟨_, history, ?_, ?_, he⟩
    · exact ⟨rfl, rfl, rfl, rfl⟩
    · exact a.sequencer_insert queued

/-- What the two sleds know of a job that the front can still get to is the same, or the job waits
already. -/
def SameKnown (s₁ s₂ : State) (a : ActiveSession) (job : JobStartRequest) : Prop :=
  a.session.front.Ahead jobChain job.jobId →
    s₁.history.contains job.jobId = s₂.history.contains job.jobId ∨
      a.sequencer.queue job.jobId = some job

theorem SideBySide.enqueueJob (now₁ now₂ : DateTime) (actor : KeyId) (ha₁ : s₁.session = .active a₁)
    (ha₂ : s₂.session = .active a₂) (hlive : queued.replayed = false)
    (hcard : ids.card ≤ maxQueuedJobs) (hid : queued.job.payload.jobId ∈ ids)
    (hsame : SameKnown s₁ s₂ a₁ queued.job.payload) (h : SideBySide p₁ p₂ ids s₁ s₂) :
    ∃ b₁ b₂, (s₁.enqueueJob now₁ queued actor).session = .active b₁ ∧
      (s₂.enqueueJob now₂ queued actor).session = .active b₂ ∧
      SideBySide p₁ p₂ ids (s₁.enqueueJob now₁ queued actor) (s₂.enqueueJob now₂ queued actor) := by
  have hslot := h.slot
  rw [ha₁, ha₂] at hslot
  cases hslot with
  | active halike =>
    obtain ⟨b₁, history₁, hb₁, hseq₁, he₁⟩ :=
      enqueueJob_sequencer now₁ actor ha₁ hlive (halike.ids₁.room hcard hid)
    obtain ⟨b₂, history₂, hb₂, hseq₂, he₂⟩ :=
      enqueueJob_sequencer now₂ actor ha₂ hlive (halike.ids₂.room hcard hid)
    rw [he₁, he₂]
    refine ⟨b₁, b₂, rfl, rfl, h.certs, h.past₁, h.past₂, h.pending, .active ?_⟩
    have hagrees : b₁.sequencer.Agrees jobChain b₂.sequencer := by
      rw [hseq₁, hseq₂]
      refine halike.agrees.update ?_ fun hahead => ?_
      · intro job hjob
        split at hjob
        · exact halike.agrees.pos _ job hjob
        · cases hjob
          rfl
      · have hqueue := halike.agrees.queue _ hahead
        rcases hsame hahead with hknown | hwaits
        · rw [hknown, hqueue]
        · rw [← hqueue, hwaits, ite_self, ite_self]
    exact ⟨halike.same.congr hb₁ hb₂, hagrees,
      halike.ids₁.update (congrArg Sequencer.queue hseq₁) fun _ _ => hid,
      halike.ids₂.update (congrArg Sequencer.queue hseq₂) fun _ _ => hid⟩

/-- The sleds forget a cancelled job together: one that does not know it has it not in its queue. -/
theorem handleJobRequest_stop (now : DateTime) (network : Option Network) (version : Version)
    (jobId : JobId) {s : State} {a : ActiveSession} (ha : s.session = .active a)
    (hstarter : a.session.startedBy = some actor) :
    ∃ a' history,
      SameSession a a' ∧ a'.sequencer = a.sequencer.take jobId ∧
      (s.handleJobRequest now network version actor (.stop jobId)).1 =
        { s with session := .active a', history } := by
  have hstarted : (s.session.session).bind Session.startedBy = some actor := by
    rw [ha]
    exact hstarter
  cases hknown : s.isJobKnown jobId with
  | true =>
    have he := cancelJob_history ha now jobId actor (!s.past.isLive version)
    refine ⟨{ a with queuedJobs := a.queuedJobs.erase jobId },
      (s.cancelJob now jobId actor (!s.past.isLive version)).history, ?_, ?_, ?_⟩
    · exact ⟨rfl, rfl, rfl, rfl⟩
    · exact a.sequencer_erase jobId
    · simp only [State.handleJobRequest, hstarted, hknown, ne_eq, not_true_eq_false, if_false]
      exact he
  | false =>
    have hqueue : a.queuedJobs[jobId]? = none := by
      simp only [State.isJobKnown, ha, SessionState.queuedJobs, Option.any_some, Bool.or_eq_false_iff]
        at hknown
      exact BTreeMap.contains_eq_false_iff.1 hknown.2
    refine ⟨a, s.history, ⟨rfl, rfl, rfl, rfl⟩, ?_, ?_⟩
    · have hnone : a.sequencer.queue jobId = none := by simp [ActiveSession.sequencer, hqueue]
      unfold Sequencer.take
      rw [← hnone, Function.update_eq_self]
    · simp [State.handleJobRequest, hstarted, hknown, ← ha]

theorem SideBySide.stopJob (now₁ now₂ : DateTime) (network₁ network₂ : Option Network)
    (version : Version) (actor : KeyId) (jobId : JobId) (h : SideBySide p₁ p₂ ids s₁ s₂) :
    SideBySide p₁ p₂ ids (s₁.handleJobRequest now₁ network₁ version actor (.stop jobId)).1
      (s₂.handleJobRequest now₂ network₂ version actor (.stop jobId)).1 := by
  have hslot := h.slot
  cases hs₁ : s₁.session <;> cases hs₂ : s₂.session <;> rw [hs₁, hs₂] at hslot <;> cases hslot
  case inactive => simpa [State.handleJobRequest, hs₁, hs₂, SessionState.session] using h
  case active a₁ a₂ halike =>
    by_cases hstarter : a₁.session.startedBy = some actor
    · have hstarter₂ : a₂.session.startedBy = some actor := halike.same.starter.trans hstarter
      obtain ⟨b₁, history₁, hb₁, hseq₁, he₁⟩ :=
        handleJobRequest_stop now₁ network₁ version jobId hs₁ hstarter
      obtain ⟨b₂, history₂, hb₂, hseq₂, he₂⟩ :=
        handleJobRequest_stop now₂ network₂ version jobId hs₂ hstarter₂
      rw [he₁, he₂]
      refine ⟨h.certs, h.past₁, h.past₂, h.pending, .active ⟨halike.same.congr hb₁ hb₂, ?_,
        halike.ids₁.update (congrArg Sequencer.queue hseq₁) (by simp),
        halike.ids₂.update (congrArg Sequencer.queue hseq₂) (by simp)⟩⟩
      rw [hseq₁, hseq₂]
      exact halike.agrees.update (by simp) fun _ => rfl
    · have hstarter₂ : a₂.session.startedBy ≠ some actor :=
        fun heq => hstarter (halike.same.starter.symm.trans heq)
      simpa [State.handleJobRequest, hs₁, hs₂, SessionState.session, hstarter, hstarter₂] using h

/-! ## Steps -/

theorem step_job_foreign {s : State} {tick : Tick} (haccept : s.Accepts tick actor queued)
    (hforeign : ((s.confirmStart tick.now queued.job.payload.sessionId).1.session.session).any
      (·.sessionId = queued.job.payload.sessionId) = false) :
    (s.step tick).1 = (s.confirmStart tick.now queued.job.payload.sessionId).1 := by
  obtain ⟨version, hinput, hverify, -⟩ := haccept
  simp only [State.step, hinput, State.update, State.handleJobRequest, hverify, State.startJob,
    hforeign, Bool.false_eq_true, if_false]
  split <;> rfl

/-- The job that the input delivers, if it is of the session then in the slot, is known to both sleds
or to neither. -/
def State.Aligned (s₁ s₂ : State) (tick : Tick) : Prop :=
  ∀ job a, s₁.verifiedJob tick = some job → (s₁.opened tick).session = .active a →
    a.session.sessionId = job.payload.sessionId → SameKnown s₁ s₂ a job.payload

include hfresh₁ hfresh₂ in
theorem SideBySide.startJob {tick₁ tick₂ : Tick} (haccept₁ : s₁.Accepts tick₁ actor queued)
    (haccept₂ : s₂.Accepts tick₂ actor queued) (hlive : queued.replayed = false)
    (hcard : ids.card ≤ maxQueuedJobs) (hid : queued.job.payload.jobId ∈ ids)
    (haligned : s₁.Aligned s₂ tick₁) (h : SideBySide p₁ p₂ ids s₁ s₂) :
    SideBySide p₁ p₂ ids (s₁.step tick₁).1 (s₂.step tick₂).1 := by
  have hconfirmed := h.confirmStart hfresh₁ hfresh₂ tick₁.now tick₂.now queued.job.payload.sessionId
  obtain ⟨hquiet₁, -, -⟩ := confirmStart_quiet haccept₁.verifiedJob tick₁.now
  have hslot := hconfirmed.slot
  cases hs₁ : (s₁.confirmStart tick₁.now queued.job.payload.sessionId).1.session <;>
    cases hs₂ : (s₂.confirmStart tick₂.now queued.job.payload.sessionId).1.session <;>
    rw [hs₁, hs₂] at hslot <;> cases hslot
  case inactive =>
    rw [step_job_foreign haccept₁ (by rw [hs₁]; rfl), step_job_foreign haccept₂ (by rw [hs₂]; rfl)]
    exact hconfirmed
  case active a₁ a₂ halike =>
    by_cases hsession : a₁.session.sessionId = queued.job.payload.sessionId
    · have hsession₂ : a₂.session.sessionId = queued.job.payload.sessionId :=
        halike.same.id.trans hsession
      have hsame : SameKnown (s₁.confirmStart tick₁.now queued.job.payload.sessionId).1
          (s₂.confirmStart tick₂.now queued.job.payload.sessionId).1 a₁ queued.job.payload := by
        have hknown := haligned _ a₁ haccept₁.verifiedJob (hquiet₁.session ▸ hs₁) hsession
        obtain ⟨_, _, hframe₁⟩ := confirmStart_frame s₁ tick₁.now queued.job.payload.sessionId
        obtain ⟨_, _, hframe₂⟩ := confirmStart_frame s₂ tick₂.now queued.job.payload.sessionId
        rw [hframe₁, hframe₂]
        exact hknown
      obtain ⟨b₁, b₂, hb₁, hb₂, henqueued⟩ :=
        hconfirmed.enqueueJob tick₁.now tick₂.now actor hs₁ hs₂ hlive hcard hid hsame
      rw [(step_job haccept₁ hs₁ hsession).1, (step_job haccept₂ hs₂ hsession₂).1]
      exact henqueued.release hb₁ hb₂
    · have hsession₂ : a₂.session.sessionId ≠ queued.job.payload.sessionId :=
        fun heq => hsession (halike.same.id.symm.trans heq)
      rw [step_job_foreign haccept₁ (by rw [hs₁]; simpa [SessionState.session] using hsession),
        step_job_foreign haccept₂ (by rw [hs₂]; simpa [SessionState.session] using hsession₂)]
      exact hconfirmed

/-- Both sleds take the same request, and both as live traffic, or each takes a cubby map of its
own. -/
inductive SharedInput (p₁ p₂ : Past) : Input → Input → Prop
  | request {version : Version} (request : Request) (hlive₁ : p₁.isLive version = true)
    (hlive₂ : p₂.isLive version = true) :
    SharedInput p₁ p₂ (.gossip version (.v0 (.request request)))
      (.gossip version (.v0 (.request request)))
  | cubbies (cubbies₁ cubbies₂ : Cubbies) : SharedInput p₁ p₂ (.cubbies cubbies₁) (.cubbies cubbies₂)

include hfresh₁ hfresh₂ in
/-- **A shared input keeps the sleds side by side.** -/
theorem SideBySide.step {tick₁ tick₂ : Tick} (hshared : SharedInput p₁ p₂ tick₁.input tick₂.input)
    (hcard : ids.card ≤ maxQueuedJobs)
    (hids : ∀ job, s₁.verifiedJob tick₁ = some job → job.payload.jobId ∈ ids)
    (haligned : s₁.Aligned s₂ tick₁) (h : SideBySide p₁ p₂ ids s₁ s₂) :
    SideBySide p₁ p₂ ids (s₁.step tick₁).1 (s₂.step tick₂).1 := by
  obtain ⟨now₁, network₁, input₁⟩ := tick₁
  obtain ⟨now₂, network₂, input₂⟩ := tick₂
  cases hshared with
  | cubbies cubbies₁ cubbies₂ => exact ⟨h.certs, h.past₁, h.past₂, h.pending, h.slot⟩
  | @request version request hlive₁ hlive₂ =>
    rw [← h.past₁] at hlive₁
    rw [← h.past₂] at hlive₂
    cases request with
    | session actor request => exact h.sessionRequest hlive₁ hlive₂ actor request
    | job actor request =>
      cases request with
      | stop jobId => exact h.stopJob now₁ now₂ network₁ network₂ version actor jobId
      | start signed params sleds =>
        cases hverify : s₁.certs.verify signed with
        | error e =>
          have hverify₂ : s₂.certs.verify signed = .error e := h.certs ▸ hverify
          simp only [State.step, State.update, State.handleJobRequest, hverify, hverify₂]
          exact h
        | ok job =>
          have hverify₂ : s₂.certs.verify signed = .ok job := h.certs ▸ hverify
          obtain rfl := Certificates.signed_of_verify hverify
          have haccept₁ : s₁.Accepts ⟨now₁, network₁, _⟩ actor ⟨job, params, sleds, false⟩ :=
            ⟨version, rfl, hverify, by rw [hlive₁]; rfl⟩
          have haccept₂ : s₂.Accepts ⟨now₂, network₂, _⟩ actor ⟨job, params, sleds, false⟩ :=
            ⟨version, rfl, hverify₂, by rw [hlive₂]; rfl⟩
          exact h.startJob hfresh₁ hfresh₂ haccept₁ haccept₂ rfl hcard
            (hids job haccept₁.verifiedJob) haligned

/-! ## Runs -/

def sledsStep (s : State × State) (tick : Tick × Tick) : (State × State) × List Output :=
  (((s.1.step tick.1).1, (s.2.step tick.2).1), [])

theorem run_sledsStep (s : State × State) (ticks : List (Tick × Tick)) :
    (Lib.run sledsStep s ticks).1 =
      ((s.1.run (ticks.map Prod.fst)).1, (s.2.run (ticks.map Prod.snd)).1) := by
  induction ticks generalizing s with
  | nil => rfl
  | cons tick ticks ih => exact ih _

omit hfresh₁ hfresh₂ [Crypto] in
theorem SlotsAlike.position {σ₁ σ₂ : SessionState} (h : SlotsAlike ids σ₁ σ₂) :
    (σ₁.session.map fun session => (session.sessionId, session.startedBy, session.nextJobId)) =
      σ₂.session.map fun session => (session.sessionId, session.startedBy, session.nextJobId) := by
  cases h with
  | inactive => rfl
  | @active a₁ a₂ h =>
    have hnext : a₁.session.nextJobId = a₂.session.nextJobId := congrArg Front.next h.agrees.front
    simp only [SessionState.session, Option.map_some, h.same.id, h.same.starter, hnext]

/-- **Sleds that hear the same live requests agree on the session, its starter and its position**,
whatever sleds the jobs target, as long as a job that arrives again is known to both or to neither. -/
theorem sleds_agree {anchors : List Certificate} {current₁ current₂ : VersionInfo}
    {own₁ own₂ : BaseboardId} {birth₁ birth₂ : Version} {network₁ network₂ : Network} {s₁ s₂ : State}
    (h₁ : State.new current₁ own₁ anchors (Past.new birth₁ none network₁) = .ok s₁)
    (h₂ : State.new current₂ own₂ anchors (Past.new birth₂ none network₂) = .ok s₂)
    {ticks : List (Tick × Tick)} (hshared : ∀ tick ∈ ticks,
      SharedInput (Past.new birth₁ none network₁) (Past.new birth₂ none network₂)
        tick.1.input tick.2.input)
    {ids : Finset JobId} (hcard : ids.card ≤ maxQueuedJobs)
    (hids : ∀ request ∈ requests s₁.certs (ticks.map Prod.fst), request.jobId ∈ ids)
    (haligned : Always sledsStep (fun s _ tick => s.1.Aligned s.2 tick.1) (s₁, s₂) [] ticks) :
    ((s₁.run (ticks.map Prod.fst)).1.session.session.map fun session =>
        (session.sessionId, session.startedBy, session.nextJobId)) =
      (s₂.run (ticks.map Prod.snd)).1.session.session.map fun session =>
        (session.sessionId, session.startedBy, session.nextJobId) := by
  obtain ⟨hcerts₁, -, hpast₁, hinactive₁, -, hempty₁⟩ := new_eq h₁
  obtain ⟨hcerts₂, -, hpast₂, hinactive₂, -, hempty₂⟩ := new_eq h₂
  have hinput : ∀ tick ∈ ticks,
      SharedInput (Past.new birth₁ none network₁) (Past.new birth₂ none network₂)
        tick.1.input tick.2.input ∧
      ∀ request, tick.1.input.request s₁.certs = some request → request.jobId ∈ ids :=
    fun tick htick => ⟨hshared tick htick, fun request hrequest =>
      hids request (List.mem_filterMap.2 ⟨tick.1, List.mem_map_of_mem htick, hrequest⟩)⟩
  have hrun := run_invariant_of_always sledsStep
    (P := fun s _ _ => s.1.certs = s₁.certs ∧
      SideBySide (Past.new birth₁ none network₁) (Past.new birth₂ none network₂) ids s.1 s.2)
    (fun s _ _ tick hC h => ?_) ((always_of_forall hinput).and haligned) ⟨rfl, ?_⟩
  · rw [run_sledsStep] at hrun
    exact hrun.2.slot.position
  · obtain ⟨⟨hshared, hids⟩, haligned⟩ := hC
    refine ⟨((SameLife.refl s.1).step).certs.trans h.1,
      h.2.step rfl rfl hshared hcard (fun job hjob => hids _ ?_) haligned⟩
    rw [← h.1]
    exact request_of_verifiedJob hjob
  · refine ⟨Except.ok.inj (hcerts₁.symm.trans hcerts₂), hpast₁, hpast₂, hempty₁.trans hempty₂.symm, ?_⟩
    rw [hinactive₁, hinactive₂]
    exact .inactive

end

end Sush

namespace Sush.Terms

attribute [local instance] world hashing crypto

/-- The session is stopped and started again, and its first job, for sled `0`, arrives again. -/
def startedAgain : List Tick :=
  [start (10 : ℕ) (0 : ℕ) 5, job (10 : ℕ) (0 : ℕ) (firstJob 5) [(0 : ℕ)], stop (10 : ℕ) (0 : ℕ) 5,
    start (10 : ℕ) (0 : ℕ) 5, job (10 : ℕ) (0 : ℕ) (firstJob 5) [(0 : ℕ)]]

/-- Sled `0` knows the job from before and drops it, so its session stays at the first position. Sled
`1` never recorded it, queues it, and moves past it. -/
theorem sleds_part_startedAgain :
    (∀ tick ∈ startedAgain, SharedInput (Past.new (10 : ℕ) none (0 : ℕ)) (Past.new (10 : ℕ) none (0 : ℕ))
      tick.input tick.input) ∧
    position (life (0 : ℕ) (10 : ℕ) none) startedAgain = some (session 5, first (session 5)) ∧
    position (life (1 : ℕ) (10 : ℕ) none) startedAgain = some (session 5, after (firstJob 5)) ∧
    first (session 5) ≠ after (firstJob 5) := by
  refine ⟨?_, rfl, rfl, by decide⟩
  simp only [startedAgain, List.forall_mem_cons]
  exact ⟨.request _ rfl rfl, .request _ rfl rfl, .request _ rfl rfl, .request _ rfl rfl,
    .request _ rfl rfl, by simp⟩

/-- Two jobs, the first for sled `0` and the second for sled `1`. -/
def oneEach : List Tick :=
  [start (10 : ℕ) (0 : ℕ) 5, job (10 : ℕ) (0 : ℕ) (firstJob 5) [(0 : ℕ)],
    job (10 : ℕ) (0 : ℕ) (jobAfter (firstJob 5)) [(1 : ℕ)]]

theorem aligned_of_contains {s₁ s₂ : State} {tick : Tick}
    (h : (s₁.verifiedJob tick).all (fun job =>
      s₁.history.contains job.payload.jobId == s₂.history.contains job.payload.jobId) = true) :
    s₁.Aligned s₂ tick := by
  intro job a hjob _ _ _
  rw [hjob] at h
  exact .inl (eq_of_beq h)

theorem sleds_agree_oneEach :
    (((life (0 : ℕ) (10 : ℕ) none).run oneEach).1.session.session.map fun session =>
        (session.sessionId, session.startedBy, session.nextJobId)) =
      ((life (1 : ℕ) (10 : ℕ) none).run oneEach).1.session.session.map fun session =>
        (session.sessionId, session.startedBy, session.nextJobId) := by
  have hshared : ∀ tick ∈ oneEach.map fun tick => (tick, tick),
      SharedInput (Past.new (10 : ℕ) none (0 : ℕ)) (Past.new (10 : ℕ) none (0 : ℕ)) tick.1.input
        tick.2.input := by
    simp only [oneEach, List.map_cons, List.map_nil, List.forall_mem_cons]
    exact ⟨.request _ rfl rfl, .request _ rfl rfl, .request _ rfl rfl, by simp⟩
  have hids : ∀ request ∈ requests (life (0 : ℕ) (10 : ℕ) none).certs
      ((oneEach.map fun tick => (tick, tick)).map Prod.fst),
      request.jobId ∈ ({first (session 5), after (firstJob 5)} : Finset JobId) := by
    decide
  have haligned : Lib.Always sledsStep (fun s _ tick => s.1.Aligned s.2 tick.1)
      (life (0 : ℕ) (10 : ℕ) none, life (1 : ℕ) (10 : ℕ) none) []
      (oneEach.map fun tick => (tick, tick)) :=
    ⟨aligned_of_contains rfl, aligned_of_contains rfl, aligned_of_contains rfl, trivial⟩
  have hagree := sleds_agree (new_life (0 : ℕ) (10 : ℕ) none) (new_life (1 : ℕ) (10 : ℕ) none) hshared
    (by decide) hids haligned
  rw [List.map_map, List.map_map] at hagree
  exact hagree

end Sush.Terms
