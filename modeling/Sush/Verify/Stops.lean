import Sush.Verify.Statuses

/-!
# Stopping a job that was launched

A stop request takes effect on a job that waits or that the history knows. A live job that names this
sled is recorded as queued when it joins the queue, so it is known when it is launched. A replayed one
joins the queue without a status; if nothing else made it known, its launch leaves no trace in the
state, and until its start is heard back a stop request for it is ignored (`stop_ignored_replayed`).
Where every replayed job that joins the queue for this sled, and whose turn may still come, is known
already, a stop reaches every job that was launched (`stop_reaches_launched`).
-/

namespace Sush

open Lib SkipChain

variable [World] [Crypto] [Hashing]

variable {s : State} {queued : QueuedJob}

/-- Every job that waits for `own` in the session, and may still be released, is in the history. -/
def ActiveSession.Recorded (a : ActiveSession) (own : BaseboardId) (history : JobHistory) : Prop :=
  ∀ (jobId : JobId) queued, a.queuedJobs[jobId]? = some queued → queued.job.payload.jobId = jobId ∧
    (queued.sleds.contains own = true → a.session.front.Ahead jobChain jobId →
      history.contains jobId = true)

/-- Every job that waits for `own` or that was launched is in the history. -/
structure Recorded (own : BaseboardId) (σ : SessionState) (history : JobHistory) (runs : List Run) :
    Prop where
  queue : ∀ a, σ = .active a → a.Recorded own history
  runs : ∀ r ∈ runs, history.contains r.jobId = true

/-- A replayed job that joins the queue for this sled is in the history, if the session's chain can
still come to it. -/
def State.ReplaysKnown (s : State) (tick : Tick) : Prop :=
  ∀ actor queued a, s.Accepts tick actor queued → (s.opened tick).session = .active a →
    a.session.sessionId = queued.job.payload.sessionId → queued.replayed = true →
    queued.sleds.contains s.rack.ownBaseboard = true →
    a.session.front.Ahead jobChain queued.job.payload.jobId →
    s.history.contains queued.job.payload.jobId = true

theorem replaysKnown_of_live {tick : Tick} {version : Version} {message : VersionedMessage}
    (hinput : tick.input = .gossip version message) (hlive : s.past.isLive version = true) :
    s.ReplaysKnown tick := by
  rintro actor queued a ⟨version', hinput', -, heq⟩ - - hreplayed
  cases hinput.symm.trans hinput'
  rw [heq, hlive] at hreplayed
  cases hreplayed

section Queue

variable {a a' : ActiveSession} {own : BaseboardId} {history history' : JobHistory}
  {js : List QueuedJob}

omit [Crypto] in
theorem ActiveSession.Recorded.mono (h : a.Recorded own history)
    (hqueue : ∀ (jobId : JobId) queued, a'.queuedJobs[jobId]? = some queued →
      a.queuedJobs[jobId]? = some queued)
    (hahead : ∀ jobId, a'.session.front.Ahead jobChain jobId → a.session.front.Ahead jobChain jobId)
    (hkeep : ∀ jobId, history.contains jobId = true → history'.contains jobId = true) :
    a'.Recorded own history' := by
  intro jobId queued hentry
  obtain ⟨hid, hknown⟩ := h jobId queued (hqueue jobId queued hentry)
  exact ⟨hid, fun hhere h => hkeep jobId (hknown hhere (hahead jobId h))⟩

omit [Crypto] [Hashing] in
theorem erased_subset {queue : QueuedJobs} {erased jobId : JobId}
    (h : (queue.erase erased)[jobId]? = some queued) : queue[jobId]? = some queued := by
  rw [BTreeMap.get_erase] at h
  split at h
  · cases h
  · exact h

omit [Crypto] in
/-- The jobs that are passed come to be next, and so are in the history. -/
theorem ActiveSession.Recorded.passes (h : a.Recorded own history) (hpass : Passes a js a') :
    a'.Recorded own history ∧ ∀ queued ∈ js, queued.sleds.contains own = true →
      history.contains queued.job.payload.jobId = true := by
  induction hpass with
  | done => exact ⟨h, fun _ hmem => by cases hmem⟩
  | @pass a b queued js hq _ ih =>
    obtain ⟨hid, hknown⟩ := h _ queued hq
    have hnext : (State.advance a queued).Recorded own history :=
      h.mono (fun _ _ hentry => erased_subset hentry) (fun _ => Front.ahead_of_ahead_pass hid)
        fun _ hk => hk
    refine ⟨(ih hnext).1, fun queued' hmem hhere => ?_⟩
    cases hmem with
    | head => exact hid ▸ hknown hhere Front.ahead_next
    | tail _ hmem => exact (ih hnext).2 queued' hmem hhere

theorem released_of_not_listed {now : DateTime} {network : Option Network}
    (h : queued.sleds.contains s.rack.ownBaseboard = false) :
    s.released now network a queued = [] := by
  cases network with
  | none => rfl
  | some network =>
    simp only [State.released, Option.elim_some, State.releaseJob, h]
    rfl

theorem Recorded.passes {now : DateTime} {network : Option Network} {b : ActiveSession}
    {runs : List Run} (hown : s.rack.ownBaseboard = own) (hpass : Passes a js a')
    (h : a.Recorded own history) (hruns : ∀ r ∈ runs, history.contains r.jobId = true) :
    Recorded own (.active a') history
      (runs ++ Sush.launches (js.flatMap (s.released now network b))) := by
  subst hown
  obtain ⟨hqueue, hpassed⟩ := h.passes hpass
  refine ⟨?_, fun r hr => ?_⟩
  · rintro _ ⟨⟩
    exact hqueue
  · rcases List.mem_append.1 hr with hr | hr
    · exact hruns r hr
    obtain ⟨queued, hmem, hout⟩ := List.mem_flatMap.1 (mem_launches.1 hr)
    cases hhere : queued.sleds.contains s.rack.ownBaseboard with
    | false =>
      rw [released_of_not_listed hhere] at hout
      cases hout
    | true =>
      have hlaunch : r ∈ Sush.launches ([queued].flatMap (s.released now network b)) :=
        mem_launches.2 (List.mem_flatMap.2 ⟨_, .head _, hout⟩)
      obtain ⟨passed, hpass', -, rfl⟩ := mem_launches_released hlaunch
      obtain rfl := List.mem_singleton.1 hpass'
      exact hpassed passed hmem hhere

omit [Hashing] in
theorem launches_displaced (s : State) (tick : Tick) : launches (s.displaced tick) = [] := by
  unfold State.displaced
  split
  · exact launches_skipQueuedJobs s tick.now
  · rfl

omit [Hashing] in
theorem launches_refusal (s : State) (tick : Tick) (queued : QueuedJob) :
    launches (s.refusal tick queued) = [] := by
  unfold State.refusal
  split <;> rfl

end Queue

section Step

variable {s : State} {tick : Tick} {runs : List Run}

/-- A job that joins the queue for this sled ahead of the front is in the history that the step ends in. -/
theorem recorded_of_joins {actor : KeyId} {a : ActiveSession} (hretains : s.Retains tick)
    (hknown : s.ReplaysKnown tick) (haccept : s.Accepts tick actor queued)
    (ha : (s.opened tick).session = .active a)
    (hsession : a.session.sessionId = queued.job.payload.sessionId)
    (hroom : queued.replayed = false → maxQueuedJobs ≤ a.queuedJobs.size →
      a.queuedJobs.contains queued.job.payload.jobId = true)
    (hhere : queued.sleds.contains s.rack.ownBaseboard = true)
    (hahead : a.session.front.Ahead jobChain queued.job.payload.jobId) :
    (s.step tick).1.history.contains queued.job.payload.jobId = true := by
  cases hreplayed : queued.replayed with
  | true => exact hretains.1 _ (hknown actor queued a haccept ha hsession hreplayed hhere hahead)
  | false =>
    cases hbefore : s.history.contains queued.job.payload.jobId with
    | true => exact hretains.1 _ hbefore
    | false =>
      exact hretains.2 _ _ _
        (.enqueue haccept ha hsession hreplayed hhere hbefore (hroom hreplayed))

/-- Whether the job of the input joins the queue or not, every job that waits for this sled then is in
the history that the step ends in. -/
theorem recorded_enqueueJob {actor : KeyId} {queued : QueuedJob} {a b : ActiveSession}
    (hretains : s.Retains tick) (hknown : s.ReplaysKnown tick) (haccept : s.Accepts tick actor queued)
    (ha : (s.opened tick).session = .active a)
    (hsession : a.session.sessionId = queued.job.payload.sessionId)
    (hb : (State.enqueueJob { s with session := .active a } tick.now queued actor).session = .active b)
    (h : a.Recorded s.rack.ownBaseboard s.history) :
    b.Recorded s.rack.ownBaseboard (s.step tick).1.history := by
  have hold : a.Recorded s.rack.ownBaseboard (s.step tick).1.history :=
    h.mono (fun _ _ hentry => hentry) (fun _ h => h) hretains.1
  unfold State.enqueueJob at hb
  simp only at hb
  split at hb
  · cases hb
    exact hold
  split at hb
  · cases hb
    exact hold
  next hroom =>
  cases hb
  intro jobId entry hentry
  rw [BTreeMap.get_insert] at hentry
  split at hentry
  · next heq =>
    cases hentry
    subst heq
    refine ⟨rfl, fun hhere hahead => recorded_of_joins hretains hknown haccept ha hsession ?_ hhere hahead⟩
    intro hlive hfull
    by_contra hmissing
    exact hroom ⟨by simp [hlive], hfull, hmissing⟩
  · exact hold jobId entry hentry

theorem Recorded.step (hretains : s.Retains tick) (hknown : s.ReplaysKnown tick)
    (h : Recorded s.rack.ownBaseboard s.session s.history runs) :
    Recorded s.rack.ownBaseboard (s.step tick).1.session (s.step tick).1.history
      (runs ++ launches (s.step tick).2) := by
  have hkeep := hretains.1
  have hqueue : ∀ a, s.session = .active a →
      a.Recorded s.rack.ownBaseboard (s.step tick).1.history := fun a ha =>
    (h.queue a ha).mono (fun _ _ hentry => hentry) (fun _ h => h) hkeep
  have hopened : ∀ a, (s.opened tick).session = .active a →
      a.Recorded s.rack.ownBaseboard s.history := by
    intro a ha
    rcases opened_session s tick with ⟨-, hsame⟩ | ⟨start, b, -, hb, hempty, -⟩
    · exact h.queue a (hsame.symm.trans ha)
    · cases ha.symm.trans hb
      intro jobId queued hentry
      rw [hempty] at hentry
      cases hentry
  have hjob : ∀ {actor queued a b}, s.Accepts tick actor queued →
      (s.opened tick).session = .active a →
      a.session.sessionId = queued.job.payload.sessionId →
      (State.enqueueJob { s with session := .active a } tick.now queued actor).session = .active b →
      b.Recorded s.rack.ownBaseboard (s.step tick).1.history := fun haccept ha hsession hb =>
    recorded_enqueueJob hretains hknown haccept ha hsession hb (hopened _ ha)
  have hruns : ∀ r ∈ runs, (s.step tick).1.history.contains r.jobId = true := fun r hr =>
    hkeep _ (h.runs r hr)
  have hturn := step_turn s tick
  generalize (s.step tick).1.session = σ, (s.step tick).1.history = history,
    (s.step tick).1.attachments = attachments, (s.step tick).2 = os at hturn hqueue hjob hruns ⊢
  have hstill : launches os = [] → (∀ a, σ = .active a → a.Recorded s.rack.ownBaseboard history) →
      Recorded s.rack.ownBaseboard σ history (runs ++ launches os) := by
    intro hos hσ
    rw [hos, List.append_nil]
    exact ⟨hσ, hruns⟩
  cases hturn with
  | idle => exact hstill rfl hqueue
  | settle hinput => exact hstill settle_quiet.2 hqueue
  | event hinput => exact hstill (handleEvent_quiet s _ _ (.job _)).2 hqueue
  | stop hinput ha hstarter => exact hstill (launches_skipQueuedJobs _ _) fun a ha => by cases ha
  | @allow _ _ _ _ a hinput ha hstarter | @deny _ _ _ a hinput ha hstarter =>
    refine hstill rfl ?_
    rintro _ ⟨⟩
    exact (hqueue a ha).mono (fun _ _ hentry => hentry) (fun _ h => h) fun _ hk => hk
  | @cancel version actor jobId a hinput ha hstarter hknown =>
    refine hstill rfl ?_
    rintro _ ⟨⟩
    exact (hqueue a ha).mono (fun _ _ hentry => erased_subset hentry) (fun _ h => h) fun _ hk => hk
  | @skip version actor jobId a a' js e hinput ha hstarter hskip he hpass =>
    have hown : e.rack.ownBaseboard = s.rack.ownBaseboard := by rw [he]
    refine Recorded.passes hown hpass ?_ hruns
    exact (hqueue a ha).mono (fun _ _ hentry => erased_subset hentry)
      (fun _ => Front.ahead_of_ahead_burn (Session.canSkip_iff.1 hskip)) fun _ hk => hk
  | refuse haccept hother =>
    refine hstill ?_ fun a ha => hopened a ha
    rw [launches_append, launches_displaced, launches_refusal]
    rfl
  | @job actor queued a b a' js e haccept ha hsession he hb hpass =>
    have hown : e.rack.ownBaseboard = s.rack.ownBaseboard := by
      obtain ⟨c, -, -, heq⟩ :=
        enqueueJob_active (s := { s with session := .active a }) rfl tick.now queued actor
      rw [he, heq]
    rw [launches_append, launches_displaced, List.nil_append]
    exact Recorded.passes hown hpass (hjob haccept ha hsession (he ▸ hb)) hruns

end Step

/-- **A stop reaches every job that was launched**, in every run of a life that evicts nothing, and in
which every replayed job that joins the queue for this sled, and may still be released, is in the
history already: when a job was launched, whatever was heard of it since, the request of the active
session's starter to stop it puts out the stop. -/
theorem stop_reaches_launched {current : VersionInfo} {own : BaseboardId} {anchors : List Certificate}
    {past : Past} {s₀ : State} (h₀ : State.new current own anchors past = .ok s₀) (ticks : List Tick)
    (hretains : Always State.step (fun s _ tick => s.Retains tick) s₀ [] ticks)
    (hknown : Always State.step (fun s _ tick => s.ReplaysKnown tick) s₀ [] ticks)
    {jobId : JobId} (hrun : ∃ r ∈ launches (s₀.run ticks).2, r.jobId = jobId)
    {a : ActiveSession} (ha : (s₀.run ticks).1.session = .active a)
    {actor : KeyId} (hstarter : a.session.startedBy = some actor)
    {stop : Tick} {version : Version}
    (hstop : stop.input = .gossip version (.v0 (.request (.job actor (.stop jobId))))) :
    ((s₀.run ticks).1.step stop).2 = [.stop jobId] := by
  obtain ⟨-, -, -, hinactive, -, -⟩ := new_eq h₀
  have hfirst : Recorded s₀.rack.ownBaseboard s₀.session s₀.history (launches []) := by
    refine ⟨fun a ha => ?_, by simp⟩
    rw [hinactive] at ha
    cases ha
  have hrecorded := run_invariant_of_always State.step
    (P := fun s _ os => SameLife s₀ s ∧
      Recorded s₀.rack.ownBaseboard s.session s.history (launches os))
    (fun s _ os tick hstep h => ?_) (hretains.and hknown) ⟨.refl s₀, hfirst⟩
  · obtain ⟨r, hr, rfl⟩ := hrun
    have hjob : (s₀.run ticks).1.isJobKnown r.jobId = true := by
      unfold State.isJobKnown
      rw [show (s₀.run ticks).1.history.contains r.jobId = true from hrecorded.2.runs r hr,
        Bool.true_or]
    rw [step_stop_eq hstop ha hstarter hjob]
  · obtain ⟨hlife, hrec⟩ := h
    rw [launches_append]
    refine ⟨hlife.step, ?_⟩
    rw [← hlife.own] at hrec ⊢
    exact hrec.step hstep.1 hstep.2

end Sush

namespace Sush.Terms

open Lib

attribute [local instance] world hashing crypto

/-- The starter asks to stop the job of `r`. -/
def stopJob (version : Version) (actor : KeyId) (r : JobStartRequest) : Tick :=
  deliver version (.job actor (.stop r.jobId))

/-- After a restart, the session and its second job are replayed. The first job is on record. -/
def replayedSecond : List Tick :=
  [start (9 : ℕ) (7 : ℕ) 5, job (9 : ℕ) (7 : ℕ) (jobAfter (firstJob 5)) [(0 : ℕ)]]

/-- The second job is launched, and a stop by the session's starter puts out nothing. -/
theorem stop_ignored_replayed :
    let s₀ := life (0 : ℕ) (10 : ℕ) (some (record 5 (firstJob 5)))
    launched s₀ replayedSecond = [(jobAfter (firstJob 5)).jobId] ∧
    (s₀.run replayedSecond).1.session.session.bind Session.startedBy = some (7 : ℕ) ∧
    Always State.step (fun s _ tick => s.Retains tick) s₀ [] replayedSecond ∧
    ((s₀.run replayedSecond).1.step (stopJob (10 : ℕ) (7 : ℕ) (jobAfter (firstJob 5)))).2 = [] := by
  refine ⟨rfl, rfl, ⟨retains_of_size ?_, retains_of_size ?_, trivial⟩, rfl⟩ <;> decide +kernel

/-- After the restart, the session and the job on record are replayed, and the second job is live. -/
def resumedLive : List Tick :=
  [start (9 : ℕ) (7 : ℕ) 5, job (9 : ℕ) (7 : ℕ) (firstJob 5) [(0 : ℕ)],
    job (10 : ℕ) (7 : ℕ) (jobAfter (firstJob 5)) [(0 : ℕ)]]

/-- The job on record is replayed unknown, but the session resumes behind it. -/
theorem resumedLive_known : Always State.step (fun s _ tick => s.ReplaysKnown tick)
    (life (0 : ℕ) (10 : ℕ) (some (record 5 (firstJob 5)))) [] resumedLive := by
  refine ⟨?_, ?_, replaysKnown_of_live rfl rfl, trivial⟩
  · rintro actor queued a ⟨version, hinput, -⟩
    cases hinput
  · rintro actor ⟨⟨signed, _⟩, _, _, _⟩ a ⟨version, hinput, -⟩ hopened - - - hahead
    cases hinput
    cases hopened
    rcases hahead with hreach | ⟨request, hhead, -⟩
    · exact absurd (.head' (.after (firstJob 5)) hreach) (collisionFree.chain_free.before_irrefl _)
    · cases hhead

theorem stop_reaches_launched_resumed :
    (((life (0 : ℕ) (10 : ℕ) (some (record 5 (firstJob 5)))).run resumedLive).1.step
      (stopJob (10 : ℕ) (7 : ℕ) (jobAfter (firstJob 5)))).2 =
        [.stop (jobAfter (firstJob 5)).jobId] := by
  have hretains : Always State.step (fun s _ tick => s.Retains tick)
      (life (0 : ℕ) (10 : ℕ) (some (record 5 (firstJob 5)))) [] resumedLive := by
    refine ⟨retains_of_size ?_, retains_of_size ?_, retains_of_size ?_, trivial⟩ <;> decide +kernel
  exact stop_reaches_launched (new_life (0 : ℕ) (10 : ℕ) (some (record 5 (firstJob 5)))) resumedLive
    hretains resumedLive_known ⟨launch 5 (jobAfter (firstJob 5)), .head _, rfl⟩ rfl rfl rfl

end Sush.Terms
