import Sush.Server.Manager
import Sush.Verify.Converge

/-!
# The front door

The manager checks a request against the state before it sends it on, and the state machine then decides
for itself. Here both look at the same state. The check of a job's session compares ranks as the
confirmation of a start does, so it passes exactly if the job finds its session active
(`sessionCheck_iff`). A start leaves what its submitter waits for (`startSettled_step`): the one case in
which a start is dropped although nothing outranks it is that its session is active, and then it is the
same start, since the identifier commits to the sequence number. The other checks ask for exactly what
the state machine asks for.
-/

namespace Sush

open Lib

variable [World] [Crypto]

/-- The session `sessionId` is in the slot. -/
def State.Active (s : State) (sessionId : SessionId) : Prop :=
  (s.session.session).any (·.sessionId = sessionId) = true

theorem active_iff {s : State} {sessionId : SessionId} :
    s.Active sessionId ↔ ∃ a, s.session = .active a ∧ a.session.sessionId = sessionId := by
  unfold State.Active SessionState.session
  cases s.session with
  | inactive => simp
  | active a => simp

theorem active_congr {s s' : State} (h : s.slot = s'.slot) {sessionId : SessionId} :
    s.Active sessionId ↔ s'.Active sessionId := by
  have hclaim : s.session.claim = s'.session.claim := congrArg Prod.fst h
  have hkey : ∀ s : State, s.Active sessionId ↔
      ∃ c, s.session.claim = some c ∧ c.key = sessionId := by
    intro s
    rw [active_iff]
    cases s.session with
    | inactive => simp [SessionState.claim]
    | active a => simp [SessionState.claim, claimOf]
  rw [hkey, hkey, hclaim]

namespace JobManager

variable {s : State}

theorem sessionCheck_eq_ok {sessionId : SessionId} :
    sessionCheck s sessionId = .ok () ↔
      s.Active sessionId ∨ s.rank < s.pendingRank sessionId := by
  unfold sessionCheck State.Active
  split
  · exact iff_of_true rfl ‹_›
  · refine iff_of_false ?_ ‹_›
    split <;> simp

theorem starterCheck_eq_ok {authn : KeyId} :
    starterCheck s authn = .ok () ↔
      ∃ a, s.session = .active a ∧ a.session.startedBy = some authn := by
  unfold starterCheck SessionState.session
  cases s.session with
  | inactive => simp
  | active a => simp

theorem currencyCheck_eq_ok {sessionId : SessionId} :
    currencyCheck s sessionId = .ok () ↔ s.Active sessionId := by
  rw [active_iff]
  unfold currencyCheck SessionState.session
  cases s.session with
  | inactive => simp
  | active a => simp

theorem checks_eq_ok {authn : KeyId} {sessionId : SessionId} {α : Type} {sent : α}
    {rest : Except JobError α}
    (h : (do starterCheck s authn; currencyCheck s sessionId; rest) = .ok sent) :
    (∃ a, s.session = .active a ∧ a.session.sessionId = sessionId ∧
      a.session.startedBy = some authn) ∧ rest = .ok sent := by
  cases hstarter : starterCheck s authn with
  | error error => simp [hstarter, bind, Except.bind] at h
  | ok =>
    cases hcurrent : currencyCheck s sessionId with
    | error error => simp [hstarter, hcurrent, bind, Except.bind] at h
    | ok =>
      obtain ⟨a, ha, hby⟩ := starterCheck_eq_ok.1 hstarter
      obtain ⟨b, hb, hid⟩ := active_iff.1 (currencyCheck_eq_ok.1 hcurrent)
      cases ha.symm.trans hb
      simp only [hstarter, hcurrent, bind, Except.bind] at h
      exact ⟨⟨a, ha, hid, hby⟩, h⟩

theorem sessionCheck_iff_confirmStart {now : DateTime} {sessionId : SessionId} :
    sessionCheck s sessionId = .ok () ↔ (s.confirmStart now sessionId).1.Active sessionId := by
  rw [sessionCheck_eq_ok]
  unfold State.confirmStart LruCache.pop State.pendingRank
  cases s.pendingStarts.peek sessionId with
  | none => simp
  | some start =>
    dsimp only
    split
    · rename_i hrank
      exact or_iff_left (not_lt.2 hrank)
    · rename_i hrank
      refine iff_of_true (.inr (not_le.1 hrank)) (active_iff.2 ⟨_, rfl, ?_⟩)
      unfold State.openSession
      dsimp only
      split <;> rfl

end JobManager

/-! ## The state machine's side -/

/-- The delivery of a session request. -/
def sessionTick (now : DateTime) (network : Option Network) (version : Version) (actor : KeyId)
    (request : SessionRequest) : Tick :=
  ⟨now, network, .gossip version (.v0 (.request (.session actor request)))⟩

/-- The delivery of a job request. -/
def jobTick (now : DateTime) (network : Option Network) (version : Version) (actor : KeyId)
    (request : JobRequest) : Tick :=
  ⟨now, network, .gossip version (.v0 (.request (.job actor request)))⟩

variable [Hashing] {s : State} {now : DateTime} {network : Option Network} {version : Version}
  {actor : KeyId}

theorem active_step_job {signed : SignedJob} {params : JobStartParams} {sleds : BTreeSet BaseboardId}
    {job : VerifiedJob} (hverify : s.certs.verify signed = .ok job) {sessionId : SessionId} :
    (s.step (jobTick now network version actor (.start signed params sleds))).1.Active sessionId ↔
      (s.confirmStart now job.payload.sessionId).1.Active sessionId := by
  have hstep : s.step (jobTick now network version actor (.start signed params sleds)) =
      s.startJob now network version actor job params sleds := by
    simp only [State.step, jobTick, State.update, State.handleJobRequest, hverify]
  rw [hstep]
  exact active_congr (slot_startJob now network version actor job params sleds)

theorem seq_eq_of_active [CollisionFree] {ticks : List Tick} (hok : SlotOk ticks s.slot)
    {a : ActiveSession} (ha : s.session = .active a) {preimage : SessionPreimage}
    (hid : a.session.sessionId = preimage.sessionId) : a.seq = preimage.seq := by
  have hclaim : s.slot.1 = some (claimOf a.session.sessionId a.seq a.session.startedBy) := by
    rw [State.slot, ha]
    rfl
  obtain ⟨opened, starter, -, heq⟩ := hok.active _ hclaim
  obtain ⟨b, hb, hbid, hbseq, -⟩ := active_of_claim (hclaim.trans (congrArg some heq))
  cases ha.symm.trans hb
  rw [hbid] at hid
  rw [hbseq, CollisionFree.sessionId_injective hid]

theorem cap_run {s₀ : State} (hempty : s₀.pendingStarts = LruCache.new maxPendingStarts)
    (ticks : List Tick) : (s₀.run ticks).1.pendingStarts.cap = maxPendingStarts := by
  refine Lib.run_invariant State.step (P := fun s _ _ => s.pendingStarts.cap = maxPendingStarts)
    (fun s _ _ tick h => (cap_step s tick).trans h) ?_ ticks
  rw [hempty]
  rfl

theorem startSettled_step [CollisionFree] {ticks : List Tick} (hok : SlotOk ticks s.slot)
    (hcap : 0 < s.pendingStarts.cap) (preimage : SessionPreimage) :
    JobManager.startSettled (s.step (sessionTick now network version actor (.start preimage))).1
      preimage preimage.sessionId := by
  have hpending : ∀ {s' : State} {start : PendingStart},
      s'.pendingStarts.peek preimage.sessionId = some start →
      JobManager.startSettled s' preimage preimage.sessionId := by
    intro s' start hpeek
    refine .inl ?_
    rw [State.pendingRank, hpeek]
    exact WithBot.coe_ne_bot
  have hpend : JobManager.startSettled
      (if s.pendingStarts.contains preimage.sessionId then s
        else { s with
          pendingStarts := s.pendingStarts.put preimage.sessionId
            { preimage, actor, live := s.past.isLive version } })
      preimage preimage.sessionId := by
    split
    · rename_i hcontains
      obtain ⟨start, hpeek⟩ := Option.isSome_iff_exists.1 hcontains
      exact hpending hpeek
    · exact hpending (LruCache.peek_put_self hcap)
  have hstep : (s.step (sessionTick now network version actor (.start preimage))).1 =
      s.startSession version actor preimage := rfl
  rw [hstep, State.startSession]
  cases ha : s.session with
  | inactive =>
    rw [ha] at hpend
    exact hpend
  | active a =>
    rw [ha] at hpend
    dsimp only
    split
    · rename_i hid
      refine .inr ?_
      rw [State.rank, ha]
      change _ ≤ rankOf a.seq a.session.sessionId
      rw [seq_eq_of_active hok ha hid, hid]
    · split
      · rename_i hrank
        rw [← ha] at hrank
        exact .inr hrank
      · exact hpend

/-! ## What is accepted is heeded -/

omit [Hashing] in
theorem asStarter_eq {sessionId : SessionId} {act : ActiveSession → State × List Output}
    {a : ActiveSession} (ha : s.session = .active a) (hid : a.session.sessionId = sessionId)
    (hstarter : a.session.startedBy = some actor) : s.asStarter sessionId actor act = act a := by
  rw [State.asStarter, ha]
  exact if_pos ⟨hid, hstarter⟩

/-- A skip of the next job moves the chain of the session past it. -/
theorem skip_heeded {ticks : List Tick} (hqueue : QueueOk ticks s) {a : ActiveSession}
    (ha : s.session = .active a) (hstarter : a.session.startedBy = some actor) :
    ∃ a', (s.step (sessionTick now network version actor
        (.skip a.session.sessionId a.session.nextJobId))).1.session = .active a' ∧
      a'.session.sessionId = a.session.sessionId ∧
      jobChain.Reaches (burned a.session.nextJobId) a'.session.nextJobId := by
  let moved : State :=
    { s with session := .active { a with session.lastJob := .burned a.session.nextJobId } }
  have hskip : a.session.skipJob a.session.nextJobId =
      ({ a.session with lastJob := .burned a.session.nextJobId }, true) := by
    simp [Session.skipJob, Session.canSkip]
  have hstep : s.step (sessionTick now network version actor
      (.skip a.session.sessionId a.session.nextJobId)) =
      (moved.cancelJob now a.session.nextJobId actor (!s.past.isLive version)).releaseReadyJobs now
        network := by
    change s.asStarter _ actor _ = _
    rw [asStarter_eq ha rfl hstarter, State.skipJob, hskip]
    rfl
  obtain ⟨history, -, hcancel⟩ := cancelJob_eq now (s := moved) rfl a.session.nextJobId actor
    (!s.past.isLive version)
  rw [hstep, hcancel]
  obtain ⟨js, a', hpass, hrelease⟩ := releaseReadyJobs_eq now network
    (s := { moved with
      history
      session := .active
        { a with
          session.lastJob := .burned a.session.nextJobId
          queuedJobs := a.queuedJobs.erase a.session.nextJobId } }) rfl
  rw [hrelease]
  refine ⟨a', rfl, hpass.same.id, hpass.reaches fun jobId queued hq => ?_⟩
  rw [BTreeMap.get_erase] at hq
  split at hq
  · cases hq
  · exact (hqueue a ha jobId queued hq).id

/-- **The front door agrees with the state machine.** In every state of a run: the check of a session
passes exactly if a verified job of it, handled next, finds it active and leaves it so; after any start
is handled, what its submitter waits for holds; and a stop, a grant, a denial or a skip that passes the
checks is not ignored. -/
theorem front_door_agrees [CollisionFree] {current : VersionInfo} {own : BaseboardId}
    {anchors : List Certificate} {past : Past} {s₀ : State}
    (h₀ : State.new current own anchors past = .ok s₀) (ticks : List Tick) (now : DateTime)
    (network : Option Network) (version : Version) (actor : KeyId) (sessionId : SessionId) :
    let s := (s₀.run ticks).1
    let handled (request : SessionRequest) : SessionState :=
      (s.step (sessionTick now network version actor request)).1.session
    (∀ signed params sleds job, s.certs.verify signed = .ok job →
      job.payload.sessionId = sessionId →
      (JobManager.sessionCheck s sessionId = .ok () ↔
        (s.confirmStart now sessionId).1.Active sessionId) ∧
      (JobManager.sessionCheck s sessionId = .ok () ↔
        (s.step (jobTick now network version actor (.start signed params sleds))).1.Active
          sessionId)) ∧
    (∀ preimage : SessionPreimage, JobManager.startSettled
      (s.step (sessionTick now network version actor (.start preimage))).1 preimage
      preimage.sessionId) ∧
    (∀ request, JobManager.sessionStop s actor sessionId = .ok request →
      handled request = .inactive) ∧
    (∀ keyId access request, JobManager.sessionAllowAttach s actor sessionId keyId access = .ok request →
      ∃ a, s.session = .active a ∧
        handled request = .active { a with attachGrants := a.attachGrants.insert keyId access }) ∧
    (∀ keyId request, JobManager.sessionDenyAttach s actor sessionId keyId = .ok request →
      ∃ a, s.session = .active a ∧
        handled request = .active { a with attachGrants := a.attachGrants.erase keyId }) ∧
    (∀ jobId request, JobManager.sessionSkipJob s actor sessionId jobId = .ok request →
      ∃ a, handled request = .active a ∧ a.session.sessionId = sessionId ∧
        jobChain.Reaches (burned jobId) a.session.nextJobId) := by
  intro s handled
  obtain ⟨-, -, -, hinactive, -, hempty⟩ := new_eq h₀
  have hok : SlotOk ticks s.slot := slotOk_run hinactive hempty ticks
  have hqueue : QueueOk ticks s := queueOk_run hinactive ticks
  have hcap : s.pendingStarts.cap = maxPendingStarts := cap_run hempty ticks
  refine ⟨fun signed params sleds job hverify hjob => ?_, fun preimage => ?_, fun request hsent => ?_,
    fun keyId access request hsent => ?_, fun keyId request hsent => ?_, fun jobId request hsent => ?_⟩
  · subst hjob
    rw [active_step_job hverify]
    exact ⟨JobManager.sessionCheck_iff_confirmStart, JobManager.sessionCheck_iff_confirmStart⟩
  · exact startSettled_step hok (by rw [hcap]; decide) preimage
  · obtain ⟨⟨a, ha, hid, hby⟩, hrequest⟩ := JobManager.checks_eq_ok hsent
    cases hrequest
    change (s.asStarter sessionId actor _).1.session = _
    rw [asStarter_eq ha hid hby]
  · obtain ⟨⟨a, ha, hid, hby⟩, hrequest⟩ := JobManager.checks_eq_ok hsent
    cases hrequest
    refine ⟨a, ha, ?_⟩
    change (s.asStarter sessionId actor _).1.session = _
    rw [asStarter_eq ha hid hby]
  · obtain ⟨⟨a, ha, hid, hby⟩, hrequest⟩ := JobManager.checks_eq_ok hsent
    cases hrequest
    refine ⟨a, ha, ?_⟩
    change (s.asStarter sessionId actor _).1.session = _
    rw [asStarter_eq ha hid hby]
  · obtain ⟨⟨a, ha, hid, hby⟩, hrest⟩ := JobManager.checks_eq_ok hsent
    subst hid
    have hnext : a.session.nextJobId = jobId := by
      by_contra hne
      simp [JobManager.nextJobCheck, ha, SessionState.session, hne, bind, Except.bind] at hrest
    subst hnext
    have hrequest : request = .skip a.session.sessionId a.session.nextJobId := by
      simpa [JobManager.nextJobCheck, ha, SessionState.session, bind, Except.bind, pure,
        Except.pure, eq_comm] using hrest
    subst hrequest
    exact skip_heeded hqueue ha hby

end Sush

namespace Sush.Terms

attribute [local instance] world hashing crypto collisionFree

/-- The start of a session is pending: a job of it passes the check, and makes the session active. -/
theorem front_door_agrees_start :
    let s := ((life (0 : ℕ) (10 : ℕ) none).run [start (10 : ℕ) (7 : ℕ) 5]).1
    JobManager.sessionCheck s (session 5) = .ok () ∧
      (s.step (job (10 : ℕ) (8 : ℕ) (firstJob 5) [(0 : ℕ)])).1.Active (session 5) := by
  intro s
  have hcheck : JobManager.sessionCheck s (session 5) = .ok () := by rfl
  have hagree := front_door_agrees (new_life (0 : ℕ) (10 : ℕ) none) [start (10 : ℕ) (7 : ℕ) 5] 0
    (some (0 : ℕ)) (10 : ℕ) (8 : ℕ) (session 5)
  exact ⟨hcheck, (hagree.1 (signed (firstJob 5)) params _ (verified (firstJob 5)) rfl rfl).2.1 hcheck⟩

end Sush.Terms
