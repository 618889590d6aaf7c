import Sush.Verify.Scenario
import Sush.Verify.Sequence

/-!
# The traffic of one session

A session that stays in the slot while its jobs and the skips of its starter arrive. Whatever the
order, and whether the requests are live or replayed, a job that arrived waits in the queue, or the
chain is past it (`Sequenced`): a live request is dropped only if the job is known, and a job that
did not arrive before is known only if a skip burned it.
-/

namespace Sush

open Lib SkipChain Sequencer

variable [World]

section

variable [Crypto]

/-- The verified job that an input delivers. -/
def Input.request (certs : Certificates) : Input → Option JobStartRequest
  | .gossip _ (.v0 (.request (.job _ (.start signed _ _)))) =>
    match certs.verify signed with
    | .ok job => some job.payload
    | .error _ => none
  | _ => none

def requests (certs : Certificates) (ticks : List Tick) : List JobStartRequest :=
  ticks.filterMap fun tick => tick.input.request certs

theorem request_of_verifiedJob {s : State} {tick : Tick} {job : VerifiedJob}
    (h : s.verifiedJob tick = some job) : tick.input.request s.certs = some job.payload := by
  obtain ⟨version, actor, signed, params, sleds, hinput, hverify⟩ := verifiedJob_eq_some h
  simp only [hinput, Input.request, hverify]

theorem requests_append (certs : Certificates) (ticks ticks' : List Tick) :
    requests certs (ticks ++ ticks') = requests certs ticks ++ requests certs ticks' :=
  List.filterMap_append

theorem requests_eq_filterMap (certs : Certificates) (ticks : List Tick) :
    requests certs ticks = (ticks.map Tick.input).filterMap (Input.request certs) := by
  rw [List.filterMap_map]
  rfl

/-- The input is a verified job of the session, or a skip by its starter. -/
inductive Input.Traffic (certs : Certificates) (sessionId : SessionId) (starter : KeyId) :
    Input → Prop
  | job {version : Version} {actor : KeyId} {signed : SignedJob} {params : JobStartParams}
    {sleds : BTreeSet BaseboardId} {job : VerifiedJob} (hverify : certs.verify signed = .ok job)
    (hsession : job.payload.sessionId = sessionId) :
    Traffic certs sessionId starter
      (.gossip version (.v0 (.request (.job actor (.start signed params sleds)))))
  | skip {version : Version} {jobId : JobId} :
    Traffic certs sessionId starter
      (.gossip version (.v0 (.request (.session starter (.skip sessionId jobId)))))

end

variable [Hashing]

/-- What a run of one session is measured against: the jobs to pick along the chain, the front and the
position it began with, the session, and the jobs known from before. -/
structure Plan where
  picks : JobId → JobStartRequest → Prop
  front : Front JobId JobStartRequest
  origin : JobId
  session : ActiveSession
  known : JobId → Prop

/-- The plan picks jobs at their own positions, and each of the jobs `D` where the front can get to
it. -/
structure Plan.Picks (plan : Plan) (D : List JobStartRequest) : Prop where
  pos : ∀ p request, plan.picks p request → request.jobId = p
  pick : ∀ request ∈ D, plan.front.Ahead jobChain request.jobId → plan.picks request.jobId request

theorem Plan.Picks.mono {plan : Plan} {D D' : List JobStartRequest} (h : plan.Picks D')
    (hsub : D ⊆ D') : plan.Picks D :=
  ⟨h.pos, fun request hmem => h.pick request (hsub hmem)⟩

variable [Crypto]

/-- The active session `a` of `s` has taken in the jobs `D`, burned `E`, and launched `runs`. -/
structure Sequenced (plan : Plan) (E : Set JobId) (D : List JobStartRequest) (runs : List Run)
    (s : State) (a : ActiveSession) : Prop where
  active : s.session = .active a
  same : SameSession plan.session a
  follows : Follows jobChain plan.picks plan.front plan.origin E D a.sequencer
  size : a.queuedJobs.size ≤ D.length
  known : ∀ jobId, s.history.contains jobId = true → plan.known jobId ∨
    jobId ∈ D.map JobStartRequest.jobId ∨ jobChain.Before jobId a.session.nextJobId
  runs : ∀ r ∈ runs, r.job.payload ∈ D ∧ jobChain.Before r.jobId a.session.nextJobId ∧
    r.boundary.session = plan.session.session.sessionId ∧
    r.boundary.successor = after r.job.payload
  stale : ∀ start, s.pendingStarts.peek plan.session.session.sessionId = some start →
    rankOf start.preimage.seq plan.session.session.sessionId ≤ plan.session.rank

namespace Sequenced

variable {plan : Plan} {E : Set JobId} {D : List JobStartRequest} {runs : List Run} {s : State}
  {a : ActiveSession} {tick : Tick}

section

variable [CollisionFree]

theorem release (now : DateTime) (network : Option Network) (hpicks : plan.Picks D)
    (h : Sequenced plan E D runs s a) : ∃ a', a'.sequencer.Settled ∧
      Sequenced plan E D (runs ++ launches (s.releaseReadyJobs now network).2)
        (s.releaseReadyJobs now network).1 a' := by
  obtain ⟨a', js, attachments, hrel, he⟩ := releaseReadyJobs_released now network h.active
  obtain ⟨hfollows, hbefore, hjs⟩ :=
    h.follows.releases CollisionFree.chain_free hpicks.pick hrel.releases
  refine ⟨a', hrel.releases.settled, ?_⟩
  rw [he]
  refine ⟨rfl, ⟨hrel.same.id.trans h.same.id, hrel.same.seq.trans h.same.seq,
    hrel.same.live.trans h.same.live, hrel.same.starter.trans h.same.starter⟩, hfollows,
    hrel.size.trans h.size, ?_, ?_, h.stale⟩
  · intro jobId hk
    exact (h.known jobId hk).imp_right fun hk => hk.imp_right (hbefore jobId)
  · intro r hr
    rcases List.mem_append.1 hr with hr | hr
    · obtain ⟨hD, hr, hrest⟩ := h.runs r hr
      exact ⟨hD, hbefore _ hr, hrest⟩
    · obtain ⟨hmem, hsession, hsucc⟩ := hrel.runs r hr
      obtain ⟨hD, hr⟩ := hjs _ hmem
      exact ⟨hD, hr, hsession.trans h.same.id, hsucc⟩

/-- A verified job of the session arrives. -/
theorem job {actor : KeyId} {queued : QueuedJob} (haccept : s.Accepts tick actor queued)
    (hsession : queued.job.payload.sessionId = plan.session.session.sessionId)
    (hpicks : plan.Picks (D ++ [queued.job.payload]))
    (hnew : ∀ request ∈ D, request.jobId ≠ queued.job.payload.jobId)
    (hunknown : ¬plan.known queued.job.payload.jobId) (hroom : D.length < maxQueuedJobs)
    (h : Sequenced plan E D runs (s.confirmStart tick.now queued.job.payload.sessionId).1 a) :
    ∃ a', a'.sequencer.Settled ∧ Sequenced plan E (D ++ [queued.job.payload])
      (runs ++ launches (s.step tick).2) (s.step tick).1 a' := by
  obtain ⟨hs', hos⟩ := step_job haccept h.active (h.same.id.trans hsession.symm)
  rw [hs', hos]
  generalize (s.confirmStart tick.now queued.job.payload.sessionId).1 = c at h ⊢
  by_cases hknown : queued.replayed = false ∧ c.history.contains queued.job.payload.jobId = true
  · -- a live request of a known job: a skip has burned it
    obtain ⟨hlive, hknown⟩ := hknown
    have hbefore : jobChain.Before queued.job.payload.jobId a.session.nextJobId := by
      rcases h.known _ hknown with hk | hk | hk
      · exact absurd hk hunknown
      · obtain ⟨request, hmem, hid⟩ := List.mem_map.1 hk
        exact absurd hid (hnew request hmem)
      · exact hk
    rw [enqueueJob_of_known tick.now h.active actor hlive hknown]
    refine release tick.now tick.network hpicks
      ⟨h.active, h.same, h.follows.refuse hbefore, ?_, ?_, ?_, h.stale⟩
    · rw [List.length_append]
      exact h.size.trans (Nat.le_add_right _ _)
    · intro jobId hk
      exact (h.known jobId hk).imp_right (Or.imp_left fun hk => by simp [hk])
    · intro r hr
      obtain ⟨hD, hrest⟩ := h.runs r hr
      exact ⟨List.mem_append_left _ hD, hrest⟩
  · have hjoin : queued.replayed = true ∨ c.history.contains queued.job.payload.jobId = false ∧
        (maxQueuedJobs ≤ a.queuedJobs.size →
          a.queuedJobs.contains queued.job.payload.jobId = true) := by
      have hsize := h.size.trans_lt hroom
      cases hr : queued.replayed with
      | true => exact .inl rfl
      | false =>
        refine .inr ⟨?_, fun hfull => absurd hfull hsize.not_ge⟩
        cases hk : c.history.contains queued.job.payload.jobId with
        | true => exact absurd ⟨hr, hk⟩ hknown
        | false => rfl
    obtain ⟨history, hcontains, he⟩ := enqueueJob_of_room tick.now h.active actor hjoin
    rw [he]
    refine release tick.now tick.network hpicks ⟨rfl, ⟨h.same.id, h.same.seq, h.same.live,
      h.same.starter⟩, ?_, ?_, ?_, ?_, h.stale⟩
    · rw [a.sequencer_insert queued]
      exact h.follows.put hnew
    · rw [List.length_append]
      exact Std.ExtTreeMap.size_insert_le.trans (Nat.succ_le_succ h.size)
    · intro jobId hk
      rcases hcontains jobId hk with hk | rfl
      · exact (h.known jobId hk).imp_right (Or.imp_left fun hk => by simp [hk])
      · exact .inr (.inl (by simp))
    · intro r hr
      obtain ⟨hD, hrest⟩ := h.runs r hr
      exact ⟨List.mem_append_left _ hD, hrest⟩

/-- The starter of the session asks for a skip. -/
theorem skip {version : Version} {starter : KeyId} {jobId : JobId}
    (hinput : tick.input = .gossip version (.v0 (.request (.session starter
      (.skip plan.session.session.sessionId jobId)))))
    (hstarter : plan.session.session.startedBy = some starter) (hpicks : plan.Picks D)
    (hsettled : a.sequencer.Settled) (h : Sequenced plan E D runs s a) :
    ∃ a', a'.sequencer.Settled ∧ Sequenced plan (E ∪ { jobId | s.burns tick = some jobId }) D
      (runs ++ launches (s.step tick).2) (s.step tick).1 a' := by
  rw [← h.same.id] at hinput
  rw [← h.same.starter] at hstarter
  have hburns := burns_skip hinput h.active hstarter
  cases hskip : a.session.canSkip jobId with
  | false =>
    rw [step_skip_eq hinput h.active hstarter, skipJob_ignored _ _ _ _ hskip]
    rw [hskip] at hburns
    have hnone : { jobId | s.burns tick = some jobId } = (∅ : Set JobId) := by
      ext
      simp [hburns]
    rw [hnone, Set.union_empty]
    exact ⟨a, hsettled, by simpa using h⟩
  | true =>
    have hcontains := cancelJob_known tick.now h.active jobId starter (!s.past.isLive version)
    have hcan := Session.canSkip_iff.1 hskip
    have hone : E ∪ { jobId | s.burns tick = some jobId } = insert jobId E := by
      ext k
      simp [hburns, hskip, eq_comm]
    have hburn : ∀ k, jobChain.Before k a.session.nextJobId → jobChain.Before k (burned jobId) :=
      fun k hk => Front.before_burn CollisionFree.chain_free a.session.front_ok hcan hk
    rw [step_skip_eq hinput h.active hstarter,
      skipJob_burn tick.now tick.network version starter h.active hskip, hone]
    refine release tick.now tick.network hpicks ⟨rfl, ⟨h.same.id, h.same.seq, h.same.live,
      h.same.starter⟩, ?_, ?_, ?_, ?_, h.stale⟩
    · rw [a.sequencer_burn jobId]
      exact h.follows.burn CollisionFree.chain_free hpicks.pos hcan
    · exact Std.ExtTreeMap.size_erase_le.trans h.size
    · intro k hk
      rcases hcontains k hk with hk | rfl
      · exact (h.known k hk).imp_right (Or.imp_right (hburn k))
      · exact .inr (.inr (.single (.burned k)))
    · intro r hr
      obtain ⟨hD, hbefore, hrest⟩ := h.runs r hr
      exact ⟨hD, hburn _ hbefore, hrest⟩

omit [CollisionFree] in
theorem confirm (now : DateTime) (h : Sequenced plan E D runs s a) :
    Sequenced plan E D runs (s.confirmStart now plan.session.session.sessionId).1 a := by
  unfold State.confirmStart LruCache.pop
  cases hpeek : s.pendingStarts.peek plan.session.session.sessionId with
  | none => exact h
  | some start =>
    have hrank : rankOf start.preimage.seq plan.session.session.sessionId ≤ s.session.rank := by
      rw [h.active]
      change _ ≤ rankOf a.seq a.session.sessionId
      rw [h.same.seq, h.same.id]
      exact h.stale start hpeek
    simp only [if_pos hrank]
    refine ⟨h.active, h.same, h.follows, h.size, h.known, h.runs, fun start' hpeek' => ?_⟩
    simp [LruCache.peek_erase] at hpeek'

theorem step {starter : KeyId}
    (htraffic : tick.input.Traffic s.certs plan.session.session.sessionId starter)
    (hstarter : plan.session.session.startedBy = some starter)
    (hpicks : plan.Picks (D ++ requests s.certs [tick]))
    (hnodup : ((D ++ requests s.certs [tick]).map JobStartRequest.jobId).Nodup)
    (hunknown : ∀ request ∈ requests s.certs [tick], ¬plan.known request.jobId)
    (hroom : (D ++ requests s.certs [tick]).length ≤ maxQueuedJobs)
    (hsettled : a.sequencer.Settled) (h : Sequenced plan E D runs s a) :
    ∃ a', a'.sequencer.Settled ∧ Sequenced plan (E ∪ { jobId | s.burns tick = some jobId })
      (D ++ requests s.certs [tick]) (runs ++ launches (s.step tick).2) (s.step tick).1 a' := by
  generalize hin : tick.input = input at htraffic
  cases htraffic with
  | @job version actor signed params sleds job hverify hsession =>
    obtain rfl := Certificates.signed_of_verify hverify
    have hrequest : requests s.certs [tick] = [job.payload] := by
      simp [requests, Input.request, hin, hverify]
    have hnone : { jobId | s.burns tick = some jobId } = (∅ : Set JobId) := by
      ext
      simp [State.burns, hin]
    rw [hrequest] at hpicks hnodup hunknown hroom ⊢
    rw [hnone, Set.union_empty]
    have haccept : s.Accepts tick actor ⟨job, params, sleds, !s.past.isLive version⟩ :=
      ⟨version, hin, hverify, rfl⟩
    have hconfirm := h.confirm tick.now
    rw [← hsession] at hconfirm
    refine Sequenced.job haccept hsession hpicks ?_ (hunknown _ (by simp)) ?_ hconfirm
    · intro request hmem heq
      rw [List.map_append, List.nodup_append] at hnodup
      exact hnodup.2.2 _ (List.mem_map_of_mem hmem) _ (by simp) heq
    · simpa using hroom
  | @skip version jobId =>
    have hrequest : requests s.certs [tick] = [] := by simp [requests, Input.request, hin]
    rw [hrequest, List.append_nil] at hpicks ⊢
    exact h.skip hin hstarter hpicks hsettled

end

end Sequenced

def State.burnt (s : State) : List Tick → Set JobId
  | [] => ∅
  | tick :: rest => { jobId | s.burns tick = some jobId } ∪ (s.step tick).1.burnt rest

/-- **A run of one session.** -/
theorem sequenced_run [CollisionFree] {plan : Plan} {starter : KeyId}
    (hstarter : plan.session.session.startedBy = some starter) {certs : Certificates}
    (ticks : List Tick)
    (htraffic : ∀ tick ∈ ticks, tick.input.Traffic certs plan.session.session.sessionId starter)
    {E : Set JobId} {D : List JobStartRequest} {runs : List Run} {s : State} {a : ActiveSession}
    (hcerts : s.certs = certs) (hpicks : plan.Picks (D ++ requests certs ticks))
    (hnodup : ((D ++ requests certs ticks).map JobStartRequest.jobId).Nodup)
    (hunknown : ∀ request ∈ requests certs ticks, ¬plan.known request.jobId)
    (hroom : (D ++ requests certs ticks).length ≤ maxQueuedJobs)
    (hsettled : a.sequencer.Settled) (h : Sequenced plan E D runs s a) :
    ∃ a', a'.sequencer.Settled ∧ Sequenced plan (E ∪ s.burnt ticks) (D ++ requests certs ticks)
      (runs ++ launches (s.run ticks).2) (s.run ticks).1 a' := by
  induction ticks generalizing E D runs s a with
  | nil =>
    refine ⟨a, hsettled, ?_⟩
    simpa [State.burnt, requests, State.run] using h
  | cons tick rest ih =>
    have hsplit : requests certs (tick :: rest) = requests certs [tick] ++ requests certs rest :=
      requests_append certs [tick] rest
    rw [hsplit, ← List.append_assoc] at hpicks hnodup hroom ⊢
    rw [hsplit] at hunknown
    subst hcerts
    obtain ⟨a', hsettled', h'⟩ := h.step (htraffic tick (by simp)) hstarter
      (hpicks.mono (List.subset_append_left _ _))
      (hnodup.sublist ((List.sublist_append_left _ _).map _))
      (fun request hmem => hunknown request (List.mem_append_left _ hmem))
      (by rw [List.length_append] at hroom; omega) hsettled
    have hlife : SameLife s (s.step tick).1 := (SameLife.refl s).step
    obtain ⟨b, hb, hrun⟩ := ih (fun t ht => htraffic t (List.mem_cons_of_mem _ ht)) hlife.certs hpicks
      hnodup (fun request hmem => hunknown request (List.mem_append_right _ hmem)) hroom hsettled' h'
    refine ⟨b, hb, ?_⟩
    simpa only [State.burnt, State.run, run_cons, launches_append, Set.union_assoc, List.append_assoc]
      using hrun

end Sush
