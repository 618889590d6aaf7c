import Sush.Lib.Walk
import Sush.Verify.Eviction
import Sush.Verify.Orphans
import Sush.Verify.Skips

/-!
# The order in which jobs arrive

Jobs of the active session arrive in any order, and each arrival releases every job whose turn has
come. The jobs that are released follow the chain as far as the delivered jobs lead
(`Sush.Lib.Walk`), and what becomes of each is decided by the sled and the session alone, so neither
depends on the order (`arrival_order`).

The queue is bounded, and the bound does not ask whether the job that arrives is the one that all the
others wait for: a full queue drops it (`wedged_fullQueue`). While there is room, the next job always
moves the chain on (`next_job_advances_iff`).
-/

namespace Sush

open Lib SkipChain

section

variable [World] [Hashing]

def queueChain : SkipChain JobId QueuedJob where
  pos queued := queued.job.payload.jobId
  after queued := after queued.job.payload
  burned := burned

theorem before_of_queueChain {p q : JobId} (h : queueChain.Before p q) : jobChain.Before p q := by
  refine Relation.TransGen.mono (fun p q hedge => ?_) p q h
  cases hedge with
  | after queued => exact .after queued.job.payload
  | burned => exact .burned p

/-- Every job waits under its own identifier. -/
def ActiveSession.Keyed (a : ActiveSession) : Prop :=
  ∀ k (queued : QueuedJob), a.queuedJobs[k]? = some queued → queued.job.payload.jobId = k

omit [Hashing] in
theorem ActiveSession.Keyed.insert {a : ActiveSession} (h : a.Keyed) (queued : QueuedJob) :
    ActiveSession.Keyed
      { a with queuedJobs := a.queuedJobs.insert queued.job.payload.jobId queued } := by
  intro k q hq
  rw [BTreeMap.get_insert] at hq
  split at hq
  · next hid =>
    cases hq
    exact hid
  · exact h k q hq

theorem ActiveSession.Keyed.advance {a : ActiveSession} (h : a.Keyed)
    (queued : QueuedJob) : (State.advance a queued).Keyed := by
  intro k q hq
  simp only [State.advance, BTreeMap.get_erase] at hq
  split at hq
  · cases hq
  · exact h k q hq

namespace Passes

variable {a b : ActiveSession} {js : List QueuedJob}

theorem walk (hkeyed : a.Keyed) (h : Passes a js b) :
    Walk queueChain a.session.nextJobId js b.session.nextJobId := by
  induction h with
  | done => exact .nil
  | @pass a b queued js hq _ ih =>
    have hwalk : Walk queueChain (queueChain.pos queued) (queued :: js) b.session.nextJobId :=
      .cons (ih (hkeyed.advance queued))
    rwa [show queueChain.pos queued = a.session.nextJobId from hkeyed _ _ hq] at hwalk

theorem queue_iff (hkeyed : a.Keyed) (h : Passes a js b) (k : JobId) (q : QueuedJob) :
    b.queuedJobs[k]? = some q ↔ a.queuedJobs[k]? = some q ∧ q ∉ js := by
  induction h with
  | done => simp
  | @pass a b queued js hq _ ih =>
    rw [ih (hkeyed.advance queued)]
    simp only [State.advance, BTreeMap.get_erase, List.mem_cons, not_or]
    have hid := hkeyed _ _ hq
    by_cases hk : a.session.nextJobId = k
    · subst hk
      simp only [if_true, hq]
      constructor
      · rintro ⟨hnone, -⟩
        cases hnone
      · rintro ⟨hsome, hne, -⟩
        exact absurd (Option.some.inj hsome).symm hne
    · simp only [if_neg hk]
      refine and_congr_right fun hentry => ?_
      have hne : q ≠ queued := by
        rintro rfl
        exact hk (hid.symm.trans (hkeyed _ _ hentry))
      simp [hne]

theorem nodup (hkeyed : a.Keyed) (h : Passes a js b) : js.Nodup := by
  induction h with
  | done => exact List.nodup_nil
  | @pass a b queued js hq hrest ih =>
    refine List.nodup_cons.2 ⟨fun hmem => ?_, ih (hkeyed.advance queued)⟩
    obtain ⟨k, hk⟩ := hrest.mem hmem
    obtain rfl := (hkeyed.advance queued) k queued hk
    simp only [State.advance, BTreeMap.get_erase] at hk
    rw [if_pos (hkeyed _ _ hq).symm] at hk
    cases hk

end Passes

variable [Crypto]

variable {queued : QueuedJob}

/-! ## The next job -/

section Next

variable {s : State} {tick : Tick} {a : ActiveSession} {actor : KeyId} {queued : QueuedJob}

omit [Hashing] in
theorem opening_of_stale (haccept : s.Accepts tick actor queued) (ha : s.session = .active a)
    (hstale : ∀ start, s.pendingStarts.peek queued.job.payload.sessionId = some start →
      rankOf start.preimage.seq queued.job.payload.sessionId ≤ a.rank) :
    s.opening tick = none := by
  rw [opening_of_verifiedJob haccept.verifiedJob]
  cases hpeek : s.pendingStarts.peek queued.job.payload.sessionId with
  | none => rfl
  | some start =>
    rw [Option.bind_some, ha]
    exact if_pos (hstale start hpeek)

omit [Hashing] in
theorem opened_of_opening_eq_none (h : s.opening tick = none) :
    (s.opened tick).session = s.session ∧ s.displaced tick = [] := by
  unfold State.opened State.displaced
  rw [h]
  exact ⟨rfl, rfl⟩

/-- No job that waits is the next one: the release loop has passed it. -/
def SessionState.Settled (σ : SessionState) : Prop :=
  ∀ a, σ = .active a → a.queuedJobs[a.session.nextJobId]? = none

theorem settled_opened (h : s.session.Settled) : (s.opened tick).session.Settled := by
  cases ho : s.opening tick with
  | none =>
    rw [(opened_of_opening_eq_none ho).1]
    exact h
  | some opening =>
    obtain ⟨b, hb, -, -, -, -, -, hempty⟩ := opened_active ho
    rw [hb]
    rintro c ⟨⟩
    rw [hempty]
    rfl

theorem settled_step (h : s.session.Settled) : (s.step tick).1.session.Settled := by
  have hturn := step_turn s tick
  generalize (s.step tick).1.session = σ, (s.step tick).1.history = history,
    (s.step tick).1.attachments = attachments, (s.step tick).2 = os at hturn ⊢
  cases hturn with
  | idle | settle _ | event _ => exact h
  | stop hinput ha hstarter => exact fun _ hb => nomatch hb
  | allow hinput ha hstarter | deny hinput ha hstarter =>
    have hnone := h _ ha
    rintro b ⟨⟩
    exact hnone
  | cancel hinput ha hstarter hknown =>
    rintro b ⟨⟩
    rw [BTreeMap.get_erase, h _ ha, ite_self]
  | refuse haccept hother => exact settled_opened h
  | skip hinput ha hstarter hskip he hpass | job haccept ha hsession he hb hpass =>
    rintro b ⟨⟩
    exact hpass.settled

theorem settled_run (h : s.session = .inactive) (ticks : List Tick) :
    (s.run ticks).1.session.Settled := by
  refine run_invariant State.step (P := fun s _ _ => s.session.Settled)
    (fun _ _ _ _ h => settled_step h) ?_ ticks
  rw [h]
  exact fun _ hb => nomatch hb

theorem step_of_full (haccept : s.Accepts tick actor queued)
    (hopened : (s.opened tick).session = .active a) (hsettled : (s.opened tick).session.Settled)
    (hsession : a.session.sessionId = queued.job.payload.sessionId) (hlive : queued.replayed = false)
    (hfull : maxQueuedJobs ≤ a.queuedJobs.size)
    (hout : a.queuedJobs.contains queued.job.payload.jobId = false) :
    (s.step tick).1.session = .active a := by
  have hdropped : State.enqueueJob { s with session := .active a } tick.now queued actor =
      { s with session := .active a } := by
    unfold State.enqueueJob
    simp only [hlive, hout, hfull]
    split <;> rfl
  obtain ⟨b, js, a', p, hb, hpass, -, heq⟩ := step_job_eq haccept hopened hsession
  rw [hdropped] at hb
  cases hb
  rw [heq]
  cases hpass with
  | done => rfl
  | pass hq _ => exact nomatch (hsettled _ hopened).symm.trans hq

end Next

/-- **The next job moves the chain on exactly while there is room.** In every reachable state, a live
request for the next job of the active session, of which nothing is known, takes the chain past that
job if and only if the queue is not full. -/
theorem next_job_advances_iff [CollisionFree] {current : VersionInfo} {own : BaseboardId}
    {anchors : List Certificate} {past : Past} {s₀ : State}
    (h₀ : State.new current own anchors past = .ok s₀) (before : List Tick) {a : ActiveSession}
    (ha : (s₀.run before).1.session = .active a)
    {tick : Tick} {actor : KeyId} {queued : QueuedJob}
    (haccept : (s₀.run before).1.Accepts tick actor queued) (hlive : queued.replayed = false)
    (hsession : queued.job.payload.sessionId = a.session.sessionId)
    (hnext : queued.job.payload.jobId = a.session.nextJobId)
    (hnew : (s₀.run before).1.history.contains queued.job.payload.jobId = false) :
    (∃ a', ((s₀.run before).1.step tick).1.session = .active a' ∧
      a'.session.sessionId = a.session.sessionId ∧
      jobChain.Before queued.job.payload.jobId a'.session.nextJobId) ↔
    a.queuedJobs.size < maxQueuedJobs := by
  obtain ⟨-, -, -, hinactive, -, hpending⟩ := new_eq h₀
  have hslot := slotOk_run hinactive hpending before
  have hqueue := queueOk_run hinactive before
  have hsettled := settled_run hinactive before
  generalize (s₀.run before).1 = s at ha haccept hnew hslot hqueue hsettled ⊢
  have hopened : (s.opened tick).session = .active a := by
    have hstale := opening_of_stale haccept ha fun start hpeek => by
      rw [hsession] at hpeek ⊢
      exact pending_stale hslot ha hpeek
    rw [(opened_of_opening_eq_none hstale).1, ha]
  have hnone : (s.opened tick).session.Settled := settled_opened hsettled
  constructor
  · rintro ⟨c, hc, -, hbefore⟩
    by_contra hfull
    have hout : a.queuedJobs.contains queued.job.payload.jobId = false := by
      rw [BTreeMap.contains_eq_false_iff, hnext]
      exact hsettled a ha
    rw [step_of_full haccept hopened hnone hsession.symm hlive (not_lt.1 hfull) hout] at hc
    cases hc
    exact CollisionFree.chain_free.before_irrefl _ (hnext ▸ hbefore)
  · intro hroom
    obtain ⟨b, js, a', p, hb, hpass, -, heq⟩ := step_job_eq haccept hopened hsession.symm
    rw [enqueueJob_of_live (s := { s with session := .active a }) rfl tick.now actor hlive hnew
      fun hfull => absurd hfull (not_le.2 hroom)] at hb
    cases hb
    rw [heq]
    have hkeyed : a.Keyed := fun k q hq => (hqueue a ha k q hq).id
    have hwalk := hpass.walk (hkeyed.insert queued)
    -- the job that arrives waits where the loop begins
    cases hpass with
    | done hnone =>
      rw [show ({ a with queuedJobs := a.queuedJobs.insert queued.job.payload.jobId queued } :
        ActiveSession).queuedJobs[a.session.nextJobId]? = some queued from
          BTreeMap.get_insert.trans (if_pos hnext)] at hnone
      cases hnone
    | pass hq hrest =>
      refine ⟨a', rfl, hrest.same.id, ?_⟩
      rw [hnext]
      exact before_of_queueChain hwalk.before_end

/-! ## What becomes of a job, up to the time -/

/-- The event, without its time. -/
def JobEvent.untimed : JobEvent → JobEvent
  | start jobId _ => start jobId 0
  | stop jobId _ result output => stop jobId 0 result output
  | error jobId _ cause => error jobId 0 cause
  | skipped jobId _ reason => skipped jobId 0 reason

def Output.untimed : Output → Output
  | gossip (.event baseboard (.job event)) => gossip (.event baseboard (.job event.untimed))
  | output => output

/-- What is put out for a job of the session `a` that nothing is known of when its turn comes. -/
def State.fate (s : State) (network : Option Network) (a : ActiveSession) (queued : QueuedJob) :
    List Output :=
  State.released { s with history := .empty } 0 network a queued

section Fate

variable {s c : State} {a b : ActiveSession} {queued : QueuedJob} {network : Option Network}

theorem untimed_released (hrack : s.rack = c.rack) (hpast : s.past = c.past) (hsame : SameSession a b)
    (hqueued : queued.sleds.contains c.rack.ownBaseboard = true →
      s.history.IsQueued queued.job.payload.jobId c.rack.ownBaseboard) (now : DateTime) :
    (s.released now network b queued).map Output.untimed =
      (c.fate network a queued).map Output.untimed := by
  cases network with
  | none => rfl
  | some network =>
    simp only [State.released, State.fate, Option.elim_some, State.releaseJob, hrack, hpast, hsame.id,
      hsame.seq, hsame.live]
    split
    · next hhere =>
      have hmay := mayRun_of_isQueued (hqueued hhere)
      have hmay' : State.mayRun JobHistory.empty c.rack.ownBaseboard queued.job.payload.jobId =
          true := rfl
      split
      · split <;> rfl
      · split
        · split <;> rfl
        · rw [if_pos hmay, if_pos hmay']
          split
          · rfl
          · simp only [List.map_cons, List.map_nil, State.runOf, hsame.id, hsame.seq]
    · rfl

omit [Hashing] [Crypto] in
theorem launches_untimed (os : List Output) : launches (os.map Output.untimed) = launches os := by
  unfold launches
  rw [List.filterMap_map]
  refine List.filterMap_congr fun o _ => ?_
  unfold Output.untimed
  simp only [Function.comp_apply]
  split <;> rfl

theorem launches_fate (s : State) (network : Option Network) (a : ActiveSession)
    (queued : QueuedJob) : launches (s.fate network a queued) = [] ∨
      ∃ r, launches (s.fate network a queued) = [r] ∧ r.jobId = queued.job.payload.jobId := by
  unfold State.fate
  rcases released_cases { s with history := .empty } 0 network a queued with
    hnone | ⟨event, hnews⟩ | ⟨home, hrun⟩
  · rw [hnone]
    exact .inl rfl
  · rw [hnews]
    exact .inl rfl
  · rw [hrun]
    exact .inr ⟨_, rfl, rfl⟩

theorem launches_sublist (s : State) (network : Option Network) (a : ActiveSession)
    (js : List QueuedJob) :
    ((launches (js.flatMap (s.fate network a))).map Run.jobId).Sublist
      (js.map queueChain.pos) := by
  induction js with
  | nil => exact .slnil
  | cons queued js ih =>
    rw [List.flatMap_cons, launches_append, List.map_append]
    rcases launches_fate s network a queued with hnone | ⟨r, hone, hid⟩
    · rw [hnone]
      exact ih.cons _
    · rw [hone, List.map_singleton, List.singleton_append, hid]
      exact ih.cons_cons _

end Fate

/-! ## Arrivals -/

/-- The input delivers a live request of the session, of which nothing is known. -/
structure State.Arrives (s : State) (a : ActiveSession) (network : Option Network) (tick : Tick)
    (queued : QueuedJob) : Prop where
  accepts : ∃ actor, s.Accepts tick actor queued
  live : queued.replayed = false
  session : queued.job.payload.sessionId = a.session.sessionId
  unknown : s.isJobKnown queued.job.payload.jobId = false
  network : tick.network = network

/-- From `c`, where the session `a` stands with an empty queue, the requests `jobs` have arrived in some
order; the jobs `js` were passed and the others wait. -/
structure Arrived (c : State) (a : ActiveSession) (network : Option Network) (jobs : List QueuedJob)
    (s : State) (b : ActiveSession) (js : List QueuedJob) (os : List Output) : Prop where
  rack : s.rack = c.rack
  certs : s.certs = c.certs
  past : s.past = c.past
  same : SameSession a b
  slot : ∀ tick actor (queued : QueuedJob), s.Accepts tick actor queued →
    queued.job.payload.sessionId = a.session.sessionId →
    (s.opened tick).session = .active b ∧ s.displaced tick = []
  active : jobs = [] ∨ s.session = .active b
  known : ∀ k, s.history.contains k = true →
    c.history.contains k = true ∨ k ∈ jobs.map queueChain.pos
  walk : Exhausts queueChain jobs a.session.nextJobId js b.session.nextJobId
  queue : ∀ k q, b.queuedJobs[k]? = some q ↔ q ∈ jobs ∧ queueChain.pos q = k ∧ q ∉ js
  waits : ∀ k q, b.queuedJobs[k]? = some q →
    q.sleds.contains c.rack.ownBaseboard = true → s.history.IsQueued k c.rack.ownBaseboard
  outputs : os.map Output.untimed = (js.flatMap (c.fate network a)).map Output.untimed

namespace Arrived

variable {c s : State} {a b : ActiveSession} {network : Option Network} {jobs js : List QueuedJob}
  {os : List Output}

theorem size_le (h : Arrived c a network jobs s b js os) : b.queuedJobs.size ≤ jobs.length := by
  have hcard : b.queuedJobs.size ≤ (jobs.map queueChain.pos).toFinset.card := by
    refine BTreeMap.size_le_card fun k q hq => ?_
    obtain ⟨hmem, hpos, -⟩ := (h.queue k q).1 hq
    exact List.mem_toFinset.2 (List.mem_map.2 ⟨q, hmem, hpos⟩)
  calc b.queuedJobs.size ≤ (jobs.map queueChain.pos).toFinset.card := hcard
    _ ≤ (jobs.map queueChain.pos).length := List.toFinset_card_le _
    _ = jobs.length := List.length_map _

section Insert

variable {queued : QueuedJob} (h : Arrived c a network jobs s b js os)
  (hfresh : queueChain.pos queued ∉ jobs.map queueChain.pos)

include h hfresh

theorem queue_insert (k : JobId) (q : QueuedJob) :
    (b.queuedJobs.insert queued.job.payload.jobId queued)[k]? = some q ↔
      q ∈ jobs ++ [queued] ∧ queueChain.pos q = k ∧ q ∉ js := by
  rw [BTreeMap.get_insert, List.mem_append, List.mem_singleton]
  by_cases hk : queued.job.payload.jobId = k
  · rw [if_pos hk]
    constructor
    · rintro ⟨⟩
      refine ⟨.inr rfl, hk, fun hmem => ?_⟩
      exact hfresh (List.mem_map_of_mem (h.walk.sub queued hmem))
    · rintro ⟨hq | rfl, hpos, -⟩
      · exact absurd (List.mem_map.2 ⟨q, hq, hpos.trans hk.symm⟩) hfresh
      · rfl
  · rw [if_neg hk, h.queue]
    constructor
    · rintro ⟨hq, hrest⟩
      exact ⟨.inl hq, hrest⟩
    · rintro ⟨hq | rfl, hpos, hnot⟩
      · exact ⟨hq, hpos, hnot⟩
      · exact absurd hpos hk

/-- The job that arrives is queued like the others, if it is for this sled, and evicts none of them. -/
theorem waits_insert {now : DateTime} {actor : KeyId} {k : JobId} {q : QueuedJob}
    (hq : (b.queuedJobs.insert queued.job.payload.jobId queued)[k]? = some q)
    (hhere : q.sleds.contains c.rack.ownBaseboard = true) :
    JobHistory.IsQueued (if queued.sleds.contains s.rack.ownBaseboard then
        s.history.setJobStatus queued.job.payload.jobId s.rack.ownBaseboard
          (.queued queued.job.payload.jobId now actor) none
          (some (b.queuedJobs.insert queued.job.payload.jobId queued))
      else s.history) k c.rack.ownBaseboard := by
  have hcontains : (b.queuedJobs.insert queued.job.payload.jobId queued).contains k = true :=
    BTreeMap.contains_iff.2 ⟨q, hq⟩
  obtain ⟨hmem, hpos, hnot⟩ := (h.queue_insert hfresh k q).1 hq
  rw [h.rack]
  by_cases hk : queued.job.payload.jobId = k
  · subst hk
    rw [BTreeMap.get_insert, if_pos rfl] at hq
    cases hq
    rw [if_pos hhere]
    refine ⟨.queued queued.job.payload.jobId now actor, ?_, rfl⟩
    rw [JobHistory.statusOn_setJobStatus_of_queued hcontains, JobHistory.statusOn_record,
      if_pos ⟨rfl, rfl⟩]
  · rw [BTreeMap.get_insert, if_neg hk] at hq
    obtain ⟨status, hstatus, hqueued⟩ := h.waits k q hq hhere
    refine ⟨status, ?_, hqueued⟩
    split
    · rw [JobHistory.statusOn_setJobStatus_of_queued hcontains, JobHistory.statusOn_record,
        if_neg fun hboth => hk hboth.1, hstatus]
    · exact hstatus

end Insert

/-- **One more arrival.** -/
theorem step (h : Arrived c a network jobs s b js os) {tick : Tick}
    (harrives : c.Arrives a network tick queued)
    (hfresh : queueChain.pos queued ∉ jobs.map queueChain.pos)
    (hcount : jobs.length < maxQueuedJobs) :
    ∃ b' js', Arrived c a network (jobs ++ [queued]) (s.step tick).1 b' js' (os ++ (s.step tick).2) := by
  obtain ⟨⟨actor, haccept⟩, hlive, hsession, hunknown, hnetwork⟩ := harrives
  have haccept : s.Accepts tick actor queued :=
    haccept.congr h.certs (by rw [h.past])
  obtain ⟨hopened, hdisplaced⟩ := h.slot tick actor queued haccept hsession
  have hcontains : c.history.contains queued.job.payload.jobId = false :=
    (Bool.or_eq_false_iff.1 hunknown).1
  have hnew : s.history.contains queued.job.payload.jobId = false := by
    by_contra hk
    rcases h.known _ (by simpa using hk) with hk | hk
    · rw [hcontains] at hk
      cases hk
    · exact hfresh hk
  have hroom : maxQueuedJobs ≤ b.queuedJobs.size →
      b.queuedJobs.contains queued.job.payload.jobId = true := by
    intro hfull
    have := h.size_le
    omega
  obtain ⟨b₁, more, a', p, hb₁, hpass, hpopped, heq⟩ :=
    step_job_eq haccept hopened (h.same.id.trans hsession.symm)
  have henqueued := enqueueJob_of_live (s := { s with session := .active b }) rfl tick.now actor hlive
    hnew hroom
  rw [henqueued] at hb₁ heq
  cases hb₁
  have hkeyed : ActiveSession.Keyed
      { b with queuedJobs := b.queuedJobs.insert queued.job.payload.jobId queued } :=
    fun k q hq => ((h.queue_insert hfresh k q).1 hq).2.1
  have hmore : ∀ q ∈ more, q ∈ jobs ++ [queued] ∧ q ∉ js := by
    intro q hq
    obtain ⟨k, hk⟩ := hpass.mem hq
    obtain ⟨hmem, -, hnot⟩ := (h.queue_insert hfresh k q).1 hk
    exact ⟨hmem, hnot⟩
  have hqueue : ∀ k q, a'.queuedJobs[k]? = some q ↔
      q ∈ jobs ++ [queued] ∧ queueChain.pos q = k ∧ q ∉ js ++ more := by
    intro k q
    rw [hpass.queue_iff hkeyed, h.queue_insert hfresh]
    simp only [List.mem_append, not_or, and_assoc]
  refine ⟨a', js ++ more, ?_⟩
  rw [heq, hdisplaced, List.nil_append]
  constructor
  · exact h.rack
  · exact h.certs
  · exact h.past
  · exact ⟨hpass.same.id.trans h.same.id, hpass.same.seq.trans h.same.seq,
      hpass.same.live.trans h.same.live, hpass.same.starter.trans h.same.starter⟩
  · intro tick' actor' queued' haccept' hsession'
    refine opened_of_opening_eq_none (opening_of_stale haccept' rfl fun start hpeek => ?_)
    rw [hsession', ← hsession, hpopped] at hpeek
    cases hpeek
  · exact .inr rfl
  · intro k hk
    simp only at hk
    rw [List.map_append, List.mem_append]
    split at hk
    · rcases JobHistory.contains_of_setJobStatus hk with hid | hold
      · exact .inr (.inr (List.mem_singleton.2 hid.symm))
      · exact (h.known k hold).imp_right .inl
    · exact (h.known k hk).imp_right .inl
  · have hwalk := hpass.walk hkeyed
    refine h.walk.append (fun j hj => List.mem_append_left _ hj) hwalk (hpass.nodup hkeyed) hmore
      fun j hj hnext => ?_
    by_contra hnot
    rw [← List.mem_append] at hnot
    have hwaits := (hqueue _ j).2 ⟨hj, hnext, hnot⟩
    rw [hpass.settled] at hwaits
    cases hwaits
  · exact hqueue
  · intro k q hq hhere
    exact h.waits_insert hfresh ((hpass.queue_iff hkeyed k q).1 hq).1 hhere
  · rw [List.map_append, h.outputs, List.flatMap_append, List.map_append, List.map_flatMap,
      List.map_flatMap, List.map_flatMap]
    congr 1
    refine List.flatMap_congr fun q hq => ?_
    obtain ⟨k, hk⟩ := hpass.mem hq
    obtain rfl := hkeyed k q hk
    rw [hnetwork]
    refine untimed_released ?_ ?_ ⟨h.same.id, h.same.seq, h.same.live, h.same.starter⟩
      (fun hhere => ?_) tick.now
    · exact h.rack
    · exact h.past
    · exact h.waits_insert hfresh hk hhere

theorem size_ge (h : Arrived c a network jobs s b [] os) (hnodup : (jobs.map queueChain.pos).Nodup) :
    jobs.length ≤ b.queuedJobs.size := by
  calc jobs.length = (jobs.map queueChain.pos).length := (List.length_map _).symm
    _ = (jobs.map queueChain.pos).toFinset.card := (List.toFinset_card_of_nodup hnodup).symm
    _ ≤ b.queuedJobs.size := by
      refine BTreeMap.card_le_size fun k hk => ?_
      obtain ⟨q, hq, hpos⟩ := List.mem_map.1 (List.mem_toFinset.1 hk)
      exact BTreeMap.contains_iff.2 ⟨q, (h.queue k q).2 ⟨hq, hpos, List.not_mem_nil⟩⟩

theorem full (h : Arrived c a network jobs s b js os) {tick : Tick}
    (harrives : c.Arrives a network tick queued)
    (hfresh : queueChain.pos queued ∉ jobs.map queueChain.pos)
    (hfull : maxQueuedJobs ≤ b.queuedJobs.size) : (s.step tick).1.session = .active b := by
  obtain ⟨⟨actor, haccept⟩, hlive, hsession, -, -⟩ := harrives
  have haccept : s.Accepts tick actor queued := haccept.congr h.certs (by rw [h.past])
  obtain ⟨hopened, -⟩ := h.slot tick actor queued haccept hsession
  have habsent : b.queuedJobs.contains queued.job.payload.jobId = false := by
    refine BTreeMap.contains_eq_false_iff.2 (Option.eq_none_iff_forall_ne_some.2 fun q hq => ?_)
    obtain ⟨hmem, hpos, -⟩ := (h.queue _ q).1 hq
    exact hfresh (List.mem_map.2 ⟨q, hmem, hpos⟩)
  refine step_of_full haccept hopened ?_ (h.same.id.trans hsession.symm) hlive hfull habsent
  rw [hopened]
  rintro _ ⟨⟩
  refine Option.eq_none_iff_forall_ne_some.2 fun q hq => ?_
  -- the chain had stopped, so no job waits at the next position
  obtain ⟨hmem, hpos, hnot⟩ := (h.queue _ q).1 hq
  exact absurd (h.walk.stuck q hmem hpos) hnot

theorem run {ticks : List Tick} {rest : List QueuedJob}
    (hticks : List.Forall₂ (c.Arrives a network) ticks rest) (h : Arrived c a network jobs s b js os)
    (hcount : (jobs ++ rest).length ≤ maxQueuedJobs)
    (hnodup : ((jobs ++ rest).map queueChain.pos).Nodup) :
    ∃ b' js', Arrived c a network (jobs ++ rest) (s.run ticks).1 b' js' (os ++ (s.run ticks).2) := by
  induction hticks generalizing jobs s b js os with
  | nil => exact ⟨b, js, by simpa [State.run] using h⟩
  | @cons tick queued ticks rest harrives _ ih =>
    have hfresh : queueChain.pos queued ∉ jobs.map queueChain.pos := by
      rw [List.map_append] at hnodup
      exact fun hmem => List.disjoint_of_nodup_append hnodup hmem (.head _)
    have hroom : jobs.length < maxQueuedJobs := by
      simp only [List.length_append, List.length_cons] at hcount
      omega
    obtain ⟨b', js', hstep⟩ := h.step harrives hfresh hroom
    obtain ⟨b'', js'', hrun⟩ := ih hstep (by simpa using hcount) (by simpa using hnodup)
    refine ⟨b'', js'', ?_⟩
    simpa [State.run, List.append_assoc] using hrun

theorem unique {jobs' js' : List QueuedJob} {s' : State} {b' : ActiveSession} {os' : List Output}
    (hnodup : (jobs.map queueChain.pos).Nodup) (hperm : jobs.Perm jobs')
    (h : Arrived c a network jobs s b js os) (h' : Arrived c a network jobs' s' b' js' os') :
    b.session.nextJobId = b'.session.nextJobId ∧ b.queuedJobs = b'.queuedJobs ∧
      os.map Output.untimed = os'.map Output.untimed := by
  have hmem : ∀ q, q ∈ jobs ↔ q ∈ jobs' := fun q => hperm.mem_iff
  have hwalk' : Exhausts queueChain jobs a.session.nextJobId js' b'.session.nextJobId :=
    ⟨h'.walk.walk, h'.walk.nodup, fun j hj => (hmem j).2 (h'.walk.sub j hj),
      fun j hj => h'.walk.stuck j ((hmem j).1 hj)⟩
  obtain ⟨rfl, hnext⟩ := h.walk.unique
    (fun i hi j hj hij => List.inj_on_of_nodup_map hnodup hi hj hij) hwalk'
  refine ⟨hnext, ?_, h.outputs.trans h'.outputs.symm⟩
  refine Std.ExtTreeMap.ext_getElem? fun k => Option.ext fun q => ?_
  rw [h.queue, h'.queue, hmem]

end Arrived

section Start

variable {s : State} {a : ActiveSession}

omit [Hashing] in
theorem opened_uniform (ha : s.session = .active a) (hempty : a.queuedJobs = ∅) :
    ∃ b, b.session.sessionId = a.session.sessionId ∧ b.queuedJobs = ∅ ∧
      ∀ tick actor (queued : QueuedJob), s.Accepts tick actor queued →
        queued.job.payload.sessionId = a.session.sessionId →
        (s.opened tick).session = .active b ∧ s.displaced tick = [] := by
  have hskipped : ∀ now, s.skipQueuedJobs now = [] := by
    intro now
    unfold State.skipQueuedJobs
    rw [ha]
    simp [SessionState.queuedJobs, hempty]
  generalize ho : ((s.pendingStarts.peek a.session.sessionId).bind fun start =>
    if rankOf start.preimage.seq a.session.sessionId ≤ s.session.rank then none
    else some (a.session.sessionId, start)) = opening
  have hopening : ∀ tick actor (queued : QueuedJob), s.Accepts tick actor queued →
      queued.job.payload.sessionId = a.session.sessionId → s.opening tick = opening := by
    intro tick actor queued haccept hsession
    rw [opening_of_verifiedJob haccept.verifiedJob, hsession, ho]
  cases opening with
  | none =>
    refine ⟨a, rfl, hempty, fun tick actor queued haccept hsession => ?_⟩
    rw [← ha]
    exact opened_of_opening_eq_none (hopening tick actor queued haccept hsession)
  | some opening =>
    obtain ⟨sessionId, start⟩ := opening
    have hid : sessionId = a.session.sessionId := by
      obtain ⟨_, -, hsome⟩ := Option.bind_eq_some_iff.1 ho
      split at hsome
      · cases hsome
      · cases hsome
        rfl
    refine ⟨⟨start.preimage.seq, start.live, s.openSession sessionId start, ∅, ∅⟩, ?_, rfl,
      fun tick actor queued haccept hsession => ?_⟩
    · rw [← hid]
      simp only [State.openSession]
      split <;> rfl
    · unfold State.opened State.displaced
      rw [hopening tick actor queued haccept hsession]
      exact ⟨rfl, hskipped tick.now⟩

theorem arrived_start (network : Option Network) (hempty : a.queuedJobs = ∅)
    (hslot : ∀ tick actor (queued : QueuedJob), s.Accepts tick actor queued →
      queued.job.payload.sessionId = a.session.sessionId →
      (s.opened tick).session = .active a ∧ s.displaced tick = []) :
    Arrived s a network [] s a [] [] where
  rack := rfl
  certs := rfl
  past := rfl
  same := ⟨rfl, rfl, rfl, rfl⟩
  slot := hslot
  active := .inl rfl
  known _ hk := .inl hk
  walk := ⟨.nil, List.nodup_nil, by simp, by simp⟩
  queue k q := by simp [hempty]
  waits k q hq := by simp [hempty] at hq
  outputs := rfl

end Start

/-- **The order of arrival does not matter.** In every state with an active session and an empty queue,
let live requests of that session, with different identifiers and none of them known, arrive in two
orders, no more than the queue can hold. The session ends at the same position, with the same queue, and
the same is put out, up to the times. The jobs that are launched follow the chain, and none is launched
twice. -/
theorem arrival_order (s : State) {a : ActiveSession} (ha : s.session = .active a)
    (hempty : a.queuedJobs = ∅) (network : Option Network) {ticks₁ ticks₂ : List Tick}
    {jobs₁ jobs₂ : List QueuedJob} (h₁ : List.Forall₂ (s.Arrives a network) ticks₁ jobs₁)
    (h₂ : List.Forall₂ (s.Arrives a network) ticks₂ jobs₂) (hperm : jobs₁.Perm jobs₂)
    (hnodup : (jobs₁.map fun queued => queued.job.payload.jobId).Nodup)
    (hcount : jobs₁.length ≤ maxQueuedJobs) :
    ∃ a₁ a₂, (s.run ticks₁).1.session = .active a₁ ∧ (s.run ticks₂).1.session = .active a₂ ∧
      a₁.session.nextJobId = a₂.session.nextJobId ∧ a₁.queuedJobs = a₂.queuedJobs ∧
      (s.run ticks₁).2.map Output.untimed = (s.run ticks₂).2.map Output.untimed ∧
      ((launches (s.run ticks₁).2).map Run.jobId).Pairwise jobChain.Before ∧
      ((launches (s.run ticks₁).2).map Run.jobId).Nodup := by
  obtain ⟨b, hid, hqueue, hslot⟩ := opened_uniform ha hempty
  -- the session that the first arrival finds is the one whose jobs arrive
  have harrives : ∀ {ticks jobs}, List.Forall₂ (s.Arrives a network) ticks jobs →
      List.Forall₂ (s.Arrives b network) ticks jobs := by
    intro ticks jobs h
    refine h.imp fun tick queued harrives => ?_
    exact ⟨harrives.accepts, harrives.live, harrives.session.trans hid.symm, harrives.unknown,
      harrives.network⟩
  have hstart : Arrived s b network [] s b [] [] := by
    refine arrived_start network hqueue fun tick actor queued haccept hsession => ?_
    exact hslot tick actor queued haccept (hsession.trans hid)
  obtain ⟨a₁, js, hrun₁⟩ := Arrived.run (harrives h₁) hstart hcount hnodup
  obtain ⟨a₂, js₂, hrun₂⟩ := Arrived.run (harrives h₂) hstart (hperm.length_eq ▸ hcount)
    ((hperm.map _).nodup_iff.1 hnodup)
  simp only [List.nil_append] at hrun₁ hrun₂
  obtain ⟨hnext, hsame, houtputs⟩ := hrun₁.unique hnodup hperm hrun₂
  have hsublist : ((launches (s.run ticks₁).2).map Run.jobId).Sublist (js.map queueChain.pos) := by
    rw [← launches_untimed, hrun₁.outputs, launches_untimed]
    exact launches_sublist s network b js
  have hchain : (js.map queueChain.pos).Pairwise jobChain.Before :=
    List.pairwise_map.2 (hrun₁.walk.walk.pairwise.imp before_of_queueChain)
  have hdistinct : (js.map queueChain.pos).Nodup :=
    hrun₁.walk.nodup.map_on fun i hi j hj hij =>
      List.inj_on_of_nodup_map hnodup (hrun₁.walk.sub i hi) (hrun₁.walk.sub j hj) hij
  rcases hrun₁.active with rfl | hactive₁
  · obtain rfl := hperm.nil_eq
    cases h₁
    cases h₂
    exact ⟨a, a, ha, ha, rfl, rfl, rfl, .nil, List.nodup_nil⟩
  · rcases hrun₂.active with rfl | hactive₂
    · obtain rfl := hperm.symm.nil_eq
      cases h₁
      cases h₂
      exact ⟨a, a, ha, ha, rfl, rfl, rfl, .nil, List.nodup_nil⟩
    · exact ⟨a₁, a₂, hactive₁, hactive₂, hnext, hsame, houtputs, hchain.sublist hsublist,
        hdistinct.sublist hsublist⟩

end

end Sush

namespace Sush.Terms

open Lib SkipChain

attribute [local instance] world hashing crypto collisionFree

/-- A job of the session `5` for another sled, at no position of its chain. -/
def filler (n : ℕ) : JobStartRequest := request (session 5) (3 * n + 2 : ℕ)

def waiting (r : JobStartRequest) (sleds : List BaseboardId) : QueuedJob :=
  ⟨verified r, params, .ofList sleds compare, false⟩

/-- The session `5` has moved past its first job, which was for another sled. -/
def pastFirst : List Tick :=
  [start (10 : ℕ) (7 : ℕ) 5, job (10 : ℕ) (7 : ℕ) (firstJob 5) [(1 : ℕ)]]

def fillers : List Tick :=
  (List.range maxQueuedJobs).map fun n => job (10 : ℕ) (7 : ℕ) (filler n) [(1 : ℕ)]

def fillerJobs : List QueuedJob :=
  (List.range maxQueuedJobs).map fun n => waiting (filler n) [(1 : ℕ)]

theorem length_fillerJobs : fillerJobs.length = maxQueuedJobs := by
  rw [fillerJobs, List.length_map, List.length_range]

theorem filler_ne_next (h : queued ∈ fillerJobs) :
    queueChain.pos queued ≠ (jobAfter (firstJob 5)).jobId := by
  obtain ⟨n, -, rfl⟩ := List.mem_map.1 h
  have hnext : ∀ m : ℕ, 3 * n + 2 ≠ 3 * m + 1 := by omega
  exact hnext (requestCode (firstJob 5))

theorem nodup_fillerJobs : (fillerJobs.map queueChain.pos).Nodup := by
  unfold fillerJobs
  rw [List.map_map]
  refine List.nodup_range.map fun n m hnm => ?_
  have hid : 3 * n + 2 = 3 * m + 2 := hnm
  omega

theorem arrived_fillers : ∃ a b, ((life (0 : ℕ) (10 : ℕ) none).run pastFirst).1.session = .active a ∧
    a.session.nextJobId = (jobAfter (firstJob 5)).jobId ∧
    Arrived ((life (0 : ℕ) (10 : ℕ) none).run pastFirst).1 a (some (0 : ℕ)) fillerJobs
      (((life (0 : ℕ) (10 : ℕ) none).run pastFirst).1.run fillers).1 b []
      (((life (0 : ℕ) (10 : ℕ) none).run pastFirst).1.run fillers).2 := by
  obtain ⟨a, ha, hempty, hsession, hnext⟩ : ∃ a,
      ((life (0 : ℕ) (10 : ℕ) none).run pastFirst).1.session = .active a ∧ a.queuedJobs = ∅ ∧
      a.session.sessionId = session 5 ∧ a.session.nextJobId = (jobAfter (firstJob 5)).jobId :=
    ⟨_, rfl, rfl, rfl, rfl⟩
  have hpending : ((life (0 : ℕ) (10 : ℕ) none).run pastFirst).1.pendingStarts.peek (session 5) =
      none := rfl
  have hhistory : ((life (0 : ℕ) (10 : ℕ) none).run pastFirst).1.history = .empty := rfl
  have hstart : Arrived ((life (0 : ℕ) (10 : ℕ) none).run pastFirst).1 a (some (0 : ℕ)) []
      ((life (0 : ℕ) (10 : ℕ) none).run pastFirst).1 a [] [] := by
    refine arrived_start _ hempty fun tick actor queued haccept hid => ?_
    rw [← ha]
    refine opened_of_opening_eq_none (opening_of_stale haccept ha fun start hpeek => ?_)
    rw [hid, hsession, hpending] at hpeek
    cases hpeek
  have harrive : List.Forall₂ (((life (0 : ℕ) (10 : ℕ) none).run pastFirst).1.Arrives a (some (0 : ℕ)))
      fillers fillerJobs := by
    unfold fillers fillerJobs
    rw [List.forall₂_map_left_iff, List.forall₂_map_right_iff, List.forall₂_same]
    intro n _
    refine ⟨⟨(7 : ℕ), (10 : ℕ), rfl, rfl, rfl⟩, rfl, hsession.symm, ?_, rfl⟩
    unfold State.isJobKnown
    rw [hhistory, ha]
    simp [SessionState.queuedJobs, hempty]
  obtain ⟨b, js, hrun⟩ := hstart.run harrive
    (by rw [List.nil_append, length_fillerJobs]) (by rw [List.nil_append]; exact nodup_fillerJobs)
  rw [List.nil_append, List.nil_append] at hrun
  refine ⟨a, b, ha, hnext, ?_⟩
  cases js with
  | nil => exact hrun
  | cons j js =>
    have hpos : queueChain.pos j = a.session.nextJobId := by
      have hwalk := hrun.walk.walk
      generalize a.session.nextJobId = p at hwalk
      cases hwalk
      rfl
    exact absurd (hpos.trans hnext) (filler_ne_next (hrun.walk.sub j (.head _)))

/-- **A full queue drops the next job.** A reachable state has `maxQueuedJobs` jobs of the active
session waiting for its next job. The live request for that job, of which nothing is known, leaves the
chain where it is. -/
theorem wedged_fullQueue : ∃ a queued,
    ((life (0 : ℕ) (10 : ℕ) none).run (pastFirst ++ fillers)).1.session = .active a ∧
    a.queuedJobs.size = maxQueuedJobs ∧
    ((life (0 : ℕ) (10 : ℕ) none).run (pastFirst ++ fillers)).1.Accepts
      (job (10 : ℕ) (7 : ℕ) (jobAfter (firstJob 5)) [(0 : ℕ)]) (7 : ℕ) queued ∧
    queued.replayed = false ∧ queued.job.payload.sessionId = a.session.sessionId ∧
    queued.job.payload.jobId = a.session.nextJobId ∧
    ((life (0 : ℕ) (10 : ℕ) none).run (pastFirst ++ fillers)).1.history.contains
      queued.job.payload.jobId = false ∧
    ∃ a', (((life (0 : ℕ) (10 : ℕ) none).run (pastFirst ++ fillers)).1.step
        (job (10 : ℕ) (7 : ℕ) (jobAfter (firstJob 5)) [(0 : ℕ)])).1.session = .active a' ∧
      ¬jobChain.Before queued.job.payload.jobId a'.session.nextJobId := by
  obtain ⟨a, b, ha, hnext, h⟩ := arrived_fillers
  have hsession : session 5 = a.session.sessionId := by
    cases ha
    rfl
  have haccept : ((life (0 : ℕ) (10 : ℕ) none).run pastFirst).1.Accepts
      (job (10 : ℕ) (7 : ℕ) (jobAfter (firstJob 5)) [(0 : ℕ)]) (7 : ℕ)
      (waiting (jobAfter (firstJob 5)) [(0 : ℕ)]) := ⟨(10 : ℕ), rfl, rfl, rfl⟩
  have harrives : ((life (0 : ℕ) (10 : ℕ) none).run pastFirst).1.Arrives a (some (0 : ℕ))
      (job (10 : ℕ) (7 : ℕ) (jobAfter (firstJob 5)) [(0 : ℕ)])
      (waiting (jobAfter (firstJob 5)) [(0 : ℕ)]) :=
    ⟨⟨(7 : ℕ), haccept⟩, rfl, hsession, rfl, rfl⟩
  have hfresh : queueChain.pos (waiting (jobAfter (firstJob 5)) [(0 : ℕ)]) ∉
      fillerJobs.map queueChain.pos := by
    intro hmem
    obtain ⟨queued, hqueued, hpos⟩ := List.mem_map.1 hmem
    exact filler_ne_next hqueued hpos
  have hsize : b.queuedJobs.size = maxQueuedJobs := by
    have hle := h.size_le
    have hge := h.size_ge nodup_fillerJobs
    rw [length_fillerJobs] at hle hge
    exact le_antisymm hle hge
  have hstays := h.full harrives hfresh hsize.ge
  -- nothing was passed, so the chain is where it was
  have hstill : (jobAfter (firstJob 5)).jobId = b.session.nextJobId := by
    have hwalk := h.walk.walk
    rw [← hnext]
    generalize a.session.nextJobId = p at hwalk ⊢
    generalize b.session.nextJobId = q at hwalk ⊢
    cases hwalk
    rfl
  have hactive : (((life (0 : ℕ) (10 : ℕ) none).run pastFirst).1.run fillers).1.session = .active b := by
    refine h.active.resolve_left fun hnil => ?_
    have hlength := length_fillerJobs
    rw [hnil, List.length_nil] at hlength
    exact absurd hlength (by decide)
  rw [State.run_append]
  refine ⟨b, waiting (jobAfter (firstJob 5)) [(0 : ℕ)], hactive, hsize, ?_, rfl, ?_, hstill, ?_, b,
    hstays, ?_⟩
  · exact haccept.congr h.certs (by rw [h.past])
  · exact hsession.trans h.same.id.symm
  · by_contra hknown
    rcases h.known _ (by simpa using hknown) with hold | hnew
    · cases hold
    · exact hfresh hnew
  · rw [← hstill]
    exact CollisionFree.chain_free.before_irrefl _

/-- The session `5` with its second job waiting for the first. -/
def firstMissing : List Tick :=
  [start (10 : ℕ) (7 : ℕ) 5, job (10 : ℕ) (7 : ℕ) (jobAfter (firstJob 5)) [(0 : ℕ)]]

theorem next_job_advances_iff_firstMissing :
    ∃ a', (((life (0 : ℕ) (10 : ℕ) none).run firstMissing).1.step
        (job (10 : ℕ) (7 : ℕ) (firstJob 5) [(0 : ℕ)])).1.session = .active a' ∧
      a'.session.sessionId = session 5 ∧
      jobChain.Before (firstJob 5).jobId a'.session.nextJobId := by
  have haccept : ((life (0 : ℕ) (10 : ℕ) none).run firstMissing).1.Accepts
      (job (10 : ℕ) (7 : ℕ) (firstJob 5) [(0 : ℕ)]) (7 : ℕ) (waiting (firstJob 5) [(0 : ℕ)]) :=
    ⟨(10 : ℕ), rfl, rfl, rfl⟩
  exact (next_job_advances_iff (new_life (0 : ℕ) (10 : ℕ) none) firstMissing rfl haccept rfl rfl rfl
    rfl).2 (by decide +kernel)

/-- The second and the third job of the session `5`. -/
def secondAndThird : List JobStartRequest :=
  [jobAfter (firstJob 5), jobAfter (jobAfter (firstJob 5))]

theorem arrival_order_reversed : ∃ a₁ a₂,
    (((life (0 : ℕ) (10 : ℕ) none).run pastFirst).1.run
      (secondAndThird.map (job (10 : ℕ) (7 : ℕ) · [(0 : ℕ)]))).1.session = .active a₁ ∧
    (((life (0 : ℕ) (10 : ℕ) none).run pastFirst).1.run
      (secondAndThird.reverse.map (job (10 : ℕ) (7 : ℕ) · [(0 : ℕ)]))).1.session = .active a₂ ∧
    a₁.session.nextJobId = a₂.session.nextJobId := by
  obtain ⟨a, ha, hempty, hsession⟩ : ∃ a,
      ((life (0 : ℕ) (10 : ℕ) none).run pastFirst).1.session = .active a ∧ a.queuedJobs = ∅ ∧
      session 5 = a.session.sessionId := ⟨_, rfl, rfl, rfl⟩
  have harrives : ∀ r ∈ secondAndThird, ((life (0 : ℕ) (10 : ℕ) none).run pastFirst).1.Arrives a
      (some (0 : ℕ)) (job (10 : ℕ) (7 : ℕ) r [(0 : ℕ)]) (waiting r [(0 : ℕ)]) := by
    intro r hr
    fin_cases hr <;> exact ⟨⟨(7 : ℕ), (10 : ℕ), rfl, rfl, rfl⟩, rfl, hsession, rfl, rfl⟩
  have hforall : ∀ rs : List JobStartRequest, rs ⊆ secondAndThird → List.Forall₂
      (((life (0 : ℕ) (10 : ℕ) none).run pastFirst).1.Arrives a (some (0 : ℕ)))
      (rs.map (job (10 : ℕ) (7 : ℕ) · [(0 : ℕ)])) (rs.map (waiting · [(0 : ℕ)])) := by
    intro rs hrs
    rw [List.forall₂_map_left_iff, List.forall₂_map_right_iff, List.forall₂_same]
    exact fun r hr => harrives r (hrs hr)
  obtain ⟨a₁, a₂, h₁, h₂, hnext, -⟩ := arrival_order
    ((life (0 : ℕ) (10 : ℕ) none).run pastFirst).1 ha hempty (some (0 : ℕ))
    (hforall secondAndThird (List.Subset.refl _))
    (hforall secondAndThird.reverse fun r hr => List.mem_reverse.1 hr)
    (secondAndThird.reverse_perm.symm.map _) (by decide +kernel) (by decide +kernel)
  exact ⟨a₁, a₂, h₁, h₂, hnext⟩

end Sush.Terms
