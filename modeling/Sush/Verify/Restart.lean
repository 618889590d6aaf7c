import Sush.Verify.Resume
import Sush.Verify.Traffic

/-!
# A restart and the chain

A life that begins with the record of a launch rebuilds the chain of the session from the stored
successor alone. It ends where a life that went through all the messages ends, as long as the skips
of the later positions take effect alike in both, and the job of the record is not burned: a resumed
session has no job at its chain head, so a skip of that job finds nothing to burn there
(`restart_diverges_head`). The exact condition is `restart_same_iff`.
-/

namespace Sush

open Lib SkipChain Sequencer

section

variable [World] [Crypto] [Hashing]

/-! ## Before the session opens -/

section Idle

variable {s : State} {certs : Certificates} {sessionId : SessionId} {starter : KeyId} {tick : Tick}

theorem burns_inactive (hinactive : s.session = .inactive) : s.burns tick = none := by
  unfold State.burns
  split
  · simp only [hinactive]
  · rfl

theorem idle_step (hinactive : s.session = .inactive)
    (hpeek : s.pendingStarts.peek sessionId = none)
    (htraffic : tick.input.Traffic s.certs sessionId starter) :
    (s.step tick).1 = s ∧ launches (s.step tick).2 = [] := by
  generalize hin : tick.input = input at htraffic
  cases htraffic with
  | job hverify hsession =>
    subst hsession
    simp only [State.step, hin, State.update, State.handleJobRequest, hverify, State.startJob,
      State.confirmStart, LruCache.pop, hpeek]
    simp only [hinactive, SessionState.session, Option.any_none, Bool.false_eq_true, if_false]
    split
    · exact ⟨rfl, rfl⟩
    · exact ⟨rfl, rfl⟩
  | skip =>
    simp only [State.step, hin, State.update, State.handleSessionRequest, State.asStarter, hinactive]
    exact ⟨trivial, rfl⟩

theorem idle_run (hinactive : s.session = .inactive)
    (hpeek : s.pendingStarts.peek sessionId = none) (ticks : List Tick)
    (htraffic : ∀ tick ∈ ticks, tick.input.Traffic s.certs sessionId starter) :
    (s.run ticks).1 = s ∧ launches (s.run ticks).2 = [] ∧ s.burnt ticks = ∅ := by
  induction ticks with
  | nil => exact ⟨rfl, rfl, rfl⟩
  | cons tick rest ih =>
    obtain ⟨hs, hos⟩ := idle_step hinactive hpeek (htraffic tick (by simp))
    obtain ⟨hrun, hlaunch, hburnt⟩ := ih fun t ht => htraffic t (List.mem_cons_of_mem _ ht)
    unfold State.run at hrun hlaunch ⊢
    simp only [run_cons, hs, hrun, launches_append, hos, hlaunch, State.burnt, hburnt,
      burns_inactive hinactive]
    simp

end Idle

/-! ## From the opening on -/

/-- The plan of a session that opens with the jobs `D` to come. -/
def State.openPlan (s : State) (sessionId : SessionId) (start : PendingStart)
    (D : List JobStartRequest) : Plan where
  picks p request := request ∈ D ∧ request.jobId = p
  front := ⟨s.openAt sessionId, none⟩
  origin := s.openAt sessionId
  session := {
    seq := start.preimage.seq
    live := start.live
    session := s.openSession sessionId start
    queuedJobs := ∅
    attachGrants := ∅ }
  known _ := False

section Open

variable {s : State} {sessionId : SessionId} {start : PendingStart} {D D' : List JobStartRequest}

theorem picks_openPlan (hsub : D' ⊆ D) : (s.openPlan sessionId start D).Picks D' where
  pos _ _ h := h.2
  pick _ hmem _ := ⟨hsub hmem, rfl⟩

theorem sessionId_openPlan :
    (s.openPlan sessionId start D).session.session.sessionId = sessionId := by
  unfold State.openPlan State.openSession
  simp only
  split <;> rfl

theorem startedBy_openPlan :
    (s.openPlan sessionId start D).session.session.startedBy = some start.actor := by
  unfold State.openPlan State.openSession
  simp only
  split <;> rfl

theorem sequenced_open (now : DateTime) (hinactive : s.session = .inactive)
    (hpeek : s.pendingStarts.peek sessionId = some start)
    (hhistory : ∀ jobId, s.history.contains jobId = false) :
    Sequenced (s.openPlan sessionId start D) ∅ [] [] (s.confirmStart now sessionId).1
      (s.openPlan sessionId start D).session := by
  have hrank : ¬rankOf start.preimage.seq sessionId ≤ s.session.rank := by
    rw [hinactive]
    exact not_le.2 (WithBot.bot_lt_coe _)
  have hc : (s.confirmStart now sessionId).1 =
      State.activate { s with pendingStarts := s.pendingStarts.erase sessionId } sessionId start := by
    simp only [State.confirmStart, LruCache.pop, hpeek, if_neg hrank]
  have hfront : (s.openPlan sessionId start D).session.sequencer.front =
      ⟨s.openAt sessionId, none⟩ := front_openSession s sessionId start
  rw [hc]
  refine ⟨rfl, ⟨rfl, rfl, rfl, rfl⟩, ⟨?_, ?_, ?_, by simp⟩, ?_, ?_, by simp, ?_⟩
  · rw [hfront]
    refine Trail.start (f := ⟨s.openAt sessionId, none⟩) ?_ ?_
    · intro request hhead
      cases hhead
    · intro request hhead
      cases hhead
  · rw [hfront]
    exact fun _ h => h
  · intro p request h
    simp [ActiveSession.sequencer, State.openPlan] at h
  · simp [State.openPlan]
  · intro jobId hk
    exact absurd hk (Bool.eq_false_iff.1 (hhistory jobId))
  · intro start' hpeek'
    rw [sessionId_openPlan] at hpeek'
    simp [State.activate, LruCache.peek_erase] at hpeek'

/-- A run from a pending start: without a job nothing happens, and the first one opens the session. -/
theorem pending_run [CollisionFree] (hinactive : s.session = .inactive)
    (hpeek : s.pendingStarts.peek sessionId = some start)
    (hhistory : ∀ jobId, s.history.contains jobId = false) (ticks : List Tick)
    (htraffic : ∀ tick ∈ ticks, tick.input.Traffic s.certs sessionId start.actor)
    (hsub : requests s.certs ticks ⊆ D)
    (hnodup : ((requests s.certs ticks).map JobStartRequest.jobId).Nodup)
    (hroom : (requests s.certs ticks).length ≤ maxQueuedJobs) :
    (requests s.certs ticks = [] ∧ launches (s.run ticks).2 = []) ∨
      ∃ a, a.sequencer.Settled ∧ Sequenced (s.openPlan sessionId start D) (s.burnt ticks)
        (requests s.certs ticks) (launches (s.run ticks).2) (s.run ticks).1 a := by
  induction ticks with
  | nil => exact .inl ⟨rfl, rfl⟩
  | cons tick rest ih =>
    have htick := htraffic tick (by simp)
    have hrest : ∀ t ∈ rest, t.input.Traffic s.certs sessionId start.actor :=
      fun t ht => htraffic t (List.mem_cons_of_mem _ ht)
    generalize hin : tick.input = input at htick
    cases htick with
    | skip =>
      have hstep : s.step tick = (s, []) := by
        simp only [State.step, hin, State.update, State.handleSessionRequest, State.asStarter,
          hinactive]
      have hrequest : requests s.certs (tick :: rest) = requests s.certs rest := by
        simp [requests, Input.request, hin]
      rw [hrequest] at hsub hnodup hroom ⊢
      unfold State.run at ih ⊢
      simp only [run_cons, hstep, List.nil_append, State.burnt, burns_inactive hinactive]
      simpa using ih hrest hsub hnodup hroom
    | @job version actor signed params sleds job hverify hsession =>
      obtain rfl := Certificates.signed_of_verify hverify
      have haccept : s.Accepts tick actor ⟨job, params, sleds, !s.past.isLive version⟩ :=
        ⟨version, hin, hverify, rfl⟩
      have hrequest : requests s.certs (tick :: rest) = [job.payload] ++ requests s.certs rest := by
        simp [requests, Input.request, hin, hverify]
      rw [hrequest] at hsub hnodup hroom ⊢
      have hopen := sequenced_open (D := D) tick.now hinactive hpeek hhistory
      subst hsession
      obtain ⟨a, hsettled, h⟩ := Sequenced.job haccept sessionId_openPlan.symm
        (picks_openPlan (List.Subset.trans (List.subset_append_left _ _) hsub)) (by simp) id
        (by simp [maxQueuedJobs]) hopen
      have hcerts : (s.step tick).1.certs = s.certs := ((SameLife.refl s).step).certs
      obtain ⟨b, hb, hrun⟩ := sequenced_run startedBy_openPlan rest
        (fun t ht => sessionId_openPlan ▸ hrest t ht) hcerts (picks_openPlan hsub) hnodup
        (fun _ _ => id) hroom hsettled h
      refine .inr ⟨b, hb, ?_⟩
      have hnone : { jobId | s.burns tick = some jobId } = (∅ : Set JobId) := by
        ext
        simp [burns_inactive hinactive]
      simpa only [State.burnt, hnone, State.run, run_cons, launches_append, List.nil_append] using hrun

end Open

theorem burnt_append (s : State) (ticks ticks' : List Tick) :
    s.burnt (ticks ++ ticks') = s.burnt ticks ∪ (s.run ticks).1.burnt ticks' := by
  induction ticks generalizing s with
  | nil => simp [State.burnt, State.run]
  | cons tick rest ih =>
    simp only [List.cons_append, State.burnt, ih, Set.union_assoc]
    rfl

/-- A whole life of one session: one start, jobs and skips. -/
theorem session_run [CollisionFree] {current : VersionInfo} {own : BaseboardId}
    {anchors : List Certificate} {past : Past} {s₀ : State}
    (h₀ : State.new current own anchors past = .ok s₀) {u v : List Tick} {t : Tick}
    {preimage : SessionPreimage} {starter : KeyId} (hstart : t.input.Starts preimage starter)
    (hu : ∀ tick ∈ u, tick.input.Traffic s₀.certs preimage.sessionId starter)
    (hv : ∀ tick ∈ v, tick.input.Traffic s₀.certs preimage.sessionId starter)
    (hnodup : ((requests s₀.certs v).map JobStartRequest.jobId).Nodup)
    (hroom : (requests s₀.certs v).length ≤ maxQueuedJobs) :
    (requests s₀.certs v = [] ∧ launches (s₀.run (u ++ t :: v)).2 = []) ∨
      ∃ start a, a.sequencer.Settled ∧
        Sequenced (s₀.openPlan preimage.sessionId start (requests s₀.certs v))
          (s₀.burnt (u ++ t :: v)) (requests s₀.certs v) (launches (s₀.run (u ++ t :: v)).2)
          (s₀.run (u ++ t :: v)).1 a := by
  obtain ⟨-, -, -, hinactive, hhistory, hempty⟩ := new_eq h₀
  have hpeek : s₀.pendingStarts.peek preimage.sessionId = none := by
    rw [hempty]
    simp
  obtain ⟨version, hinput⟩ := hstart
  let start : PendingStart := ⟨preimage, starter, s₀.past.isLive version⟩
  have hstep : s₀.step t =
      ({ s₀ with pendingStarts := s₀.pendingStarts.put preimage.sessionId start }, []) := by
    simp [State.step, hinput, State.update, State.handleSessionRequest, State.startSession, hinactive,
      LruCache.contains, hpeek, start]
  obtain ⟨hrunu, hlaunchu, hburntu⟩ := idle_run hinactive hpeek u hu
  have hpeek' : (s₀.pendingStarts.put preimage.sessionId start).peek preimage.sessionId =
      some start := by
    rw [hempty, LruCache.peek_put (by simp [LruCache.new, LruCache.erase, maxPendingStarts])]
    simp
  have hfresh : ∀ jobId, s₀.history.contains jobId = false := by
    rw [hhistory]
    simp
  have hrun := pending_run (D := requests s₀.certs v)
    (s := { s₀ with pendingStarts := s₀.pendingStarts.put preimage.sessionId start }) hinactive
    hpeek' hfresh v hv (List.Subset.refl _) hnodup hroom
  have hall : s₀.run (u ++ t :: v) = ((State.run
      { s₀ with pendingStarts := s₀.pendingStarts.put preimage.sessionId start } v).1,
      (s₀.run u).2 ++ (State.run
        { s₀ with pendingStarts := s₀.pendingStarts.put preimage.sessionId start } v).2) := by
    unfold State.run at hrunu ⊢
    rw [run_append, hrunu, run_cons, hstep]
    rfl
  have hburnt : s₀.burnt (u ++ t :: v) = State.burnt
      { s₀ with pendingStarts := s₀.pendingStarts.put preimage.sessionId start } v := by
    rw [burnt_append, hburntu, hrunu, Set.empty_union]
    simp only [State.burnt, hstep, burns_inactive hinactive]
    simp
  rw [hall, hburnt, launches_append, hlaunchu, List.nil_append]
  rcases hrun with hnone | ⟨a, hsettled, h⟩
  · exact .inl hnone
  · exact .inr ⟨start, a, hsettled, h⟩

omit [Crypto] in
/-- Where a walk from the first position of a session gets to, and what it passed on the way. -/
theorem successor_of_passed [CollisionFree] {D : List JobStartRequest}
    (hnodup : (D.map JobStartRequest.jobId).Nodup) {E : Set JobId} {sessionId : SessionId}
    {next : JobId}
    (hwalk : Relation.ReflTransGen
      (jobChain.Hop (fun p request => request ∈ D ∧ request.jobId = p) E) (first sessionId) next)
    {request : JobStartRequest} (hmem : request ∈ D)
    (hbefore : jobChain.Before request.jobId next) :
    (request.jobId ∈ E ∧ jobChain.Reaches (burned request.jobId) next) ∨
      (request.jobId ∉ E ∧ jobChain.Reaches (first sessionId) request.jobId ∧
        jobChain.Reaches (after request) next) := by
  have hpos : ∀ (p : JobId) (j : JobStartRequest), (j ∈ D ∧ j.jobId = p) → jobChain.pos j = p :=
    fun _ _ h => h.2
  have hfirst : jobChain.Reaches (first sessionId) request.jobId := by
    rcases CollisionFree.chain_free.comparable (reaches_of_walk hpos hwalk)
      hbefore.to_reflTransGen with h | h
    · exact h
    · rw [eq_first_of_reaches h]
  obtain ⟨q, hedge, hq⟩ := Relation.TransGen.head'_iff.1 hbefore
  rcases hop_of_walk hpos CollisionFree.chain_free hwalk hfirst hedge hq with
    ⟨hE, rfl⟩ | ⟨hE, j, ⟨hj, hid⟩, rfl⟩
  · exact .inl ⟨hE, hq⟩
  · obtain rfl := List.inj_on_of_nodup_map hnodup hj hmem hid
    exact .inr ⟨hE, hfirst, hq⟩

omit [Crypto] in
/-- **Where a restart leads.** One front has gone from the first position of a session past a request,
the other one has started right after it, and both are stuck. They stand at the same position exactly
if the first has not burned the request, and both have burned the same positions from there on. -/
theorem restarted_next_eq_iff [CollisionFree] {D : List JobStartRequest}
    (hnodup : (D.map JobStartRequest.jobId).Nodup) {E E' : Set JobId} {sessionId : SessionId}
    {f f' : Front JobId JobStartRequest} {request : JobStartRequest} (hmem : request ∈ D)
    (h : jobChain.Trail (fun p j => j ∈ D ∧ j.jobId = p) E (first sessionId) f)
    (h' : jobChain.Trail (fun p j => j ∈ D ∧ j.jobId = p) E' (after request) f')
    (hstuck : ∀ j, ¬(j ∈ D ∧ j.jobId = f.next)) (hstuck' : ∀ j, ¬(j ∈ D ∧ j.jobId = f'.next))
    (hbefore : jobChain.Before request.jobId f.next) :
    f.next = f'.next ↔ request.jobId ∉ E ∧
      ∀ jobId, jobChain.Reaches (after request) jobId → (jobId ∈ E ↔ jobId ∈ E') := by
  have hpos : ∀ (p : JobId) (j : JobStartRequest), (j ∈ D ∧ j.jobId = p) → jobChain.pos j = p :=
    fun _ _ h => h.2
  have hreach : jobChain.Reaches (after request) f'.next := reaches_of_walk hpos h'.walk
  rcases successor_of_passed hnodup h.walk hmem hbefore with
    ⟨hE, hburned⟩ | ⟨hE, hfirst, hafter⟩
  · -- the first front turned off at the request
    refine ⟨fun heq => ?_, fun hboth => absurd hE hboth.1⟩
    rw [← heq] at hreach
    have hsame : burned request.jobId = after request :=
      CollisionFree.chain_free.edge_unique (.burned request.jobId) (.after request) hburned hreach
    exact absurd hsame.symm (CollisionFree.chain_free.after_ne_burned _ _)
  · have hiff := h.next_eq_iff_from CollisionFree.chain_free hpos
      (fun _ _ _ h h' => List.inj_on_of_nodup_map hnodup h.1 h'.1 (h.2.trans h'.2.symm)) h' hstuck
      hstuck' (hfirst.tail (.after request)) .refl hafter hreach
    exact hiff.trans ⟨fun h => ⟨hE, h⟩, And.right⟩

/-- **A restart and the chain.** One life goes through all the messages of a session; another one
begins with the record of a launch of the first, and hears the same messages again. Both end in the
session, and at the same position exactly if no skip burns the job of the record in the first life,
and the skips of the positions from the stored successor on burn the same jobs in both. -/
theorem restart_same_iff [CollisionFree] {anchors : List Certificate} {own : BaseboardId}
    {current₁ current₂ : VersionInfo} {birth₁ birth₂ : Version} {network : Network} {s₁ s₂ : State}
    (h₁ : State.new current₁ own anchors (Past.new birth₁ none network) = .ok s₁)
    {pre₁ post₁ pre₂ post₂ u v : List Tick} {t : Tick} {preimage : SessionPreimage}
    {starter : KeyId} (hmessages : pre₁ ++ post₁ = u ++ t :: v)
    (hstart : t.input.Starts preimage starter)
    (htraffic : ∀ tick ∈ u ++ v, tick.input.Traffic s₁.certs preimage.sessionId starter)
    (hnodup : ((requests s₁.certs (u ++ v)).map JobStartRequest.jobId).Nodup)
    (hcount : (requests s₁.certs (u ++ v)).length < maxQueuedJobs) {r : Run}
    (hr : (launches (s₁.run pre₁).2).getLast? = some r)
    (h₂ : State.new current₂ own anchors
      (Past.new birth₂ (some r.boundary) r.boundary.network) = .ok s₂)
    (hpre : pre₂.map Tick.input = pre₁.map Tick.input)
    (hpost : post₂.map Tick.input = post₁.map Tick.input) :
    ∃ a₁ a₂, (s₁.run (pre₁ ++ post₁)).1.session = .active a₁ ∧
      (s₂.run (pre₂ ++ post₂)).1.session = .active a₂ ∧
      a₁.session.sessionId = a₂.session.sessionId ∧
      (a₁.session.nextJobId = a₂.session.nextJobId ↔
        r.jobId ∉ s₁.burnt (pre₁ ++ post₁) ∧
        ∀ jobId, jobChain.Reaches r.boundary.successor jobId →
          (jobId ∈ s₁.burnt (pre₁ ++ post₁) ↔ jobId ∈ s₂.burnt (pre₂ ++ post₂))) := by
  have hmem : r ∈ launches (s₁.run (u ++ t :: v)).2 := by
    rw [← hmessages, State.run, run_append, launches_append]
    exact List.mem_append_left _ (List.mem_of_getLast? hr)
  -- the second life hears the same messages
  have hinputs : (pre₂ ++ post₂).map Tick.input = u.map Tick.input ++ (t :: v).map Tick.input := by
    rw [← List.map_append, ← hmessages, List.map_append, List.map_append, hpre, hpost]
  obtain ⟨u₂, rest, hsplit, hu₂, hrest⟩ := List.map_eq_append_iff.1 hinputs
  obtain ⟨t₂, v₂, rfl, ht₂, hv₂⟩ := List.map_eq_cons_iff.1 hrest
  rw [hmessages, hsplit]
  have hcerts : s₂.certs = s₁.certs :=
    Except.ok.inj ((new_eq h₂).1.symm.trans (new_eq h₁).1)
  have hsame : ∀ {l l' : List Tick}, l'.map Tick.input = l.map Tick.input → l ⊆ u ++ v →
      ∀ tick ∈ l', tick.input.Traffic s₁.certs preimage.sessionId starter := by
    intro l l' heq hsub tick htick
    obtain ⟨tick', htick', hinput⟩ :=
      List.mem_map.1 (heq ▸ List.mem_map_of_mem (f := Tick.input) htick)
    exact hinput ▸ htraffic tick' (hsub htick')
  have hrequests : requests s₁.certs v₂ = requests s₁.certs v := by
    rw [requests_eq_filterMap, requests_eq_filterMap, hv₂]
  rw [requests_append] at hnodup hcount
  have hnodup' : ((requests s₁.certs v).map JobStartRequest.jobId).Nodup :=
    hnodup.sublist ((List.sublist_append_right _ _).map _)
  have hroom : (requests s₁.certs v).length ≤ maxQueuedJobs := by
    rw [List.length_append] at hcount
    omega
  -- both lives open the session
  obtain ⟨-, hnone⟩ | ⟨start₁, a₁, hsettled₁, hseq₁⟩ := session_run h₁ hstart
    (hsame rfl (List.subset_append_left _ _)) (hsame rfl (List.subset_append_right _ _)) hnodup' hroom
  · rw [hnone] at hmem
    cases hmem
  obtain ⟨hjob, hbefore, hsession, hsucc⟩ := hseq₁.runs r hmem
  obtain ⟨hnil, -⟩ | ⟨start₂, a₂, hsettled₂, hseq₂⟩ := session_run h₂ (ht₂.symm ▸ hstart)
    (hcerts ▸ hsame hu₂ (List.subset_append_left _ _))
    (hcerts ▸ hsame hv₂ (List.subset_append_right _ _)) (by rw [hcerts, hrequests]; exact hnodup')
    (by rw [hcerts, hrequests]; exact hroom)
  · rw [hcerts, hrequests] at hnil
    rw [hnil] at hjob
    cases hjob
  rw [hcerts, hrequests] at hseq₂
  rw [sessionId_openPlan] at hsession
  refine ⟨a₁, a₂, hseq₁.active, hseq₂.active, ?_, ?_⟩
  · rw [hseq₁.same.id, hseq₂.same.id, sessionId_openPlan, sessionId_openPlan]
  -- the first life opens it at the first position, the second one at the stored successor
  have hopen₁ : s₁.openAt preimage.sessionId = first preimage.sessionId := by
    unfold State.openAt
    rw [(new_eq h₁).2.2.1]
    rfl
  have hopen₂ : s₂.openAt preimage.sessionId = r.boundary.successor := by
    have hpast := (new_eq h₂).2.2.1
    rw [← hsession]
    exact openAt_of_committed (by rw [hpast]; rfl) (by rw [hpast]; rfl)
  have htrail₁ : jobChain.Trail (fun p request => request ∈ requests s₁.certs v ∧ request.jobId = p)
      (s₁.burnt (u ++ t :: v)) (s₁.openAt preimage.sessionId) a₁.session.front := hseq₁.follows.trail
  have htrail₂ : jobChain.Trail (fun p request => request ∈ requests s₁.certs v ∧ request.jobId = p)
      (s₂.burnt (u₂ ++ t₂ :: v₂)) (s₂.openAt preimage.sessionId) a₂.session.front :=
    hseq₂.follows.trail
  rw [hopen₁] at htrail₁
  rw [hopen₂, hsucc] at htrail₂
  rw [hsucc]
  have hpos : ∀ (p : JobId) (j : JobStartRequest),
      (j ∈ requests s₁.certs v ∧ j.jobId = p) → jobChain.pos j = p := fun _ _ h => h.2
  exact restarted_next_eq_iff hnodup' hjob htrail₁ htrail₂
    (hseq₁.follows.stuck CollisionFree.chain_free hpos (fun _ _ h _ => h.1) hsettled₁)
    (hseq₂.follows.stuck CollisionFree.chain_free hpos (fun _ _ h _ => h.1) hsettled₂) hbefore

end

end Sush

namespace Sush.Terms

open Lib SkipChain

attribute [local instance] world hashing crypto collisionFree

def firstLaunch : List Tick :=
  [start (10 : ℕ) (7 : ℕ) 5, job (10 : ℕ) (7 : ℕ) (firstJob 5) [(0 : ℕ)]]

/-- A skip of the first job arrives after the restart. The life that went on burns the job at its chain
head, the one that restarted has no such job and ignores the skip. -/
theorem restart_diverges_head :
    launches ((life (0 : ℕ) (10 : ℕ) none).run firstLaunch).2 = [launch 5 (firstJob 5)] ∧
    position (life (0 : ℕ) (10 : ℕ) none) (firstLaunch ++ [skip (20 : ℕ) (7 : ℕ) (firstJob 5)]) =
      some (session 5, burned (firstJob 5).jobId) ∧
    position (life (0 : ℕ) (20 : ℕ) (some (record 5 (firstJob 5))))
      (firstLaunch ++ [skip (20 : ℕ) (7 : ℕ) (firstJob 5)]) = some (session 5, after (firstJob 5)) ∧
    burned (firstJob 5).jobId ≠ after (firstJob 5) :=
  ⟨rfl, rfl, rfl, (collisionFree.chain_free.after_ne_burned _ _).symm⟩

def secondArrives : Tick := job (20 : ℕ) (7 : ℕ) (jobAfter (firstJob 5)) [(0 : ℕ)]

/-- The second job arrives after the restart, and both lives release it. -/
theorem restart_same_iff_secondArrives :
    ∃ a₁ a₂,
      ((life (0 : ℕ) (10 : ℕ) none).run (firstLaunch ++ [secondArrives])).1.session = .active a₁ ∧
      ((life (0 : ℕ) (20 : ℕ) (some (record 5 (firstJob 5)))).run
        (firstLaunch ++ [secondArrives])).1.session = .active a₂ ∧
      a₁.session.nextJobId = a₂.session.nextJobId := by
  let later := [job (10 : ℕ) (7 : ℕ) (firstJob 5) [(0 : ℕ)], secondArrives]
  have hmessages : firstLaunch ++ [secondArrives] = [] ++ start (10 : ℕ) (7 : ℕ) 5 :: later := rfl
  have hstart : (start (10 : ℕ) (7 : ℕ) 5).input.Starts (preimage 5) (7 : ℕ) := ⟨(10 : ℕ), rfl⟩
  have htraffic : ∀ tick ∈ [] ++ later, tick.input.Traffic (life (0 : ℕ) (10 : ℕ) none).certs
      (preimage 5).sessionId (7 : ℕ) := by
    simp only [later, List.nil_append, List.forall_mem_cons]
    exact ⟨.job rfl rfl, .job rfl rfl, by simp⟩
  have hrequests : requests (life (0 : ℕ) (10 : ℕ) none).certs ([] ++ later) =
      [firstJob 5, jobAfter (firstJob 5)] := rfl
  have hids : ([firstJob 5, jobAfter (firstJob 5)].map JobStartRequest.jobId).Nodup := by
    refine List.nodup_cons.2 ⟨?_, by simp⟩
    rw [List.map_singleton, List.mem_singleton]
    exact collisionFree.first_ne_after _ _
  have hlast : (launches ((life (0 : ℕ) (10 : ℕ) none).run firstLaunch).2).getLast? =
      some (launch 5 (firstJob 5)) := rfl
  obtain ⟨a₁, a₂, h₁, h₂, -, hiff⟩ := restart_same_iff (new_life (0 : ℕ) (10 : ℕ) none) hmessages hstart
    htraffic (by rw [hrequests]; exact hids) (by rw [hrequests]; decide) hlast
    (new_life (0 : ℕ) (20 : ℕ) (some (record 5 (firstJob 5)))) rfl rfl
  have hburnt₁ : (life (0 : ℕ) (10 : ℕ) none).burnt (firstLaunch ++ [secondArrives]) =
      { j | none = some j } ∪ ({ j | none = some j } ∪ ({ j | none = some j } ∪ ∅)) := rfl
  have hburnt₂ : (life (0 : ℕ) (20 : ℕ) (some (record 5 (firstJob 5)))).burnt
      (firstLaunch ++ [secondArrives]) =
      { j | none = some j } ∪ ({ j | none = some j } ∪ ({ j | none = some j } ∪ ∅)) := rfl
  rw [hburnt₁, hburnt₂] at hiff
  exact ⟨a₁, a₂, h₁, h₂, hiff.2 (by simp)⟩

end Sush.Terms
