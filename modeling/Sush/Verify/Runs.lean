import Sush.Verify.Acts
import Sush.Verify.Scenario

/-!
# What is launched

A job is checked at three times: its signature when its request arrives, its session when it joins
the queue, and everything else when its turn comes. `QueueOk` carries the first two over every later
input: whatever waits in the queue is a verified job of the active session, stored under its own
identifier, and was delivered as such. The release loop then adds what it checks itself.
-/

namespace Sush

open Lib (Round)
open Relation (ReflTransGen)

variable [World] [Crypto]

/-! ## The queue -/

/-- `queued` stands under `jobId` in the queue of `sessionId`, and one of `ticks` delivered it. -/
structure State.Delivered (s : State) (ticks : List Tick) (sessionId : SessionId) (jobId : JobId)
    (queued : QueuedJob) : Prop where
  id : queued.job.payload.jobId = jobId
  session : queued.job.payload.sessionId = sessionId
  request : ∃ tick ∈ ticks, ∃ actor, s.Accepts tick actor queued

/-- Every job that waits was delivered as a verified job of the active session. -/
def QueueOk (ticks : List Tick) (s : State) : Prop :=
  ∀ a, s.session = .active a → ∀ jobId queued, a.queuedJobs[jobId]? = some queued →
    s.Delivered ticks a.session.sessionId jobId queued

section Queue

variable {s s' : State} {ticks ticks' : List Tick} {tick : Tick} {os : List Output}

theorem State.Delivered.congr {sessionId : SessionId} {jobId : JobId} {queued : QueuedJob}
    (h : s.Delivered ticks sessionId jobId queued) (hcerts : s'.certs = s.certs)
    (hbirth : s'.past.birth = s.past.birth) : s'.Delivered ticks sessionId jobId queued := by
  obtain ⟨tick, hmem, actor, haccept⟩ := h.request
  exact ⟨h.id, h.session, tick, hmem, actor, haccept.congr hcerts hbirth⟩

theorem QueueOk.mono (h : QueueOk ticks s) (hsub : ticks ⊆ ticks') : QueueOk ticks' s := by
  intro a ha jobId queued hq
  obtain ⟨hid, hsession, tick, hmem, hrequest⟩ := h a ha jobId queued hq
  exact ⟨hid, hsession, tick, hsub hmem, hrequest⟩

theorem QueueOk.quiet (h : QueueOk ticks s) (hquiet : Quiet s s') : QueueOk ticks s' := by
  intro a ha jobId queued hq
  exact (h a (hquiet.session ▸ ha) jobId queued hq).congr hquiet.certs hquiet.birth

theorem QueueOk.of_inactive (h : s.session = .inactive) : QueueOk ticks s := by
  intro a ha
  rw [h] at ha
  cases ha

theorem QueueOk.opened (h : QueueOk ticks s) : QueueOk ticks (s.opened tick) := by
  unfold State.opened
  split
  · exact h
  · intro a ha jobId queued hq
    cases ha
    rw [show (∅ : QueuedJobs)[jobId]? = none from Std.ExtTreeMap.getElem?_empty] at hq
    cases hq

variable [Hashing]

theorem QueueOk.act (hmem : tick ∈ ticks) (hact : Act tick s s' os) (h : QueueOk ticks s) :
    QueueOk ticks s' := by
  cases hact with
  | close => exact .of_inactive rfl
  | grant grants ha =>
    rintro _ ⟨⟩ jobId queued hq
    exact (h _ ha jobId queued hq).congr rfl rfl
  | burn burned ha hskip =>
    rintro _ ⟨⟩ jobId queued hq
    exact (h _ ha jobId queued hq).congr rfl rfl
  | cancel cancelled ha =>
    rintro _ ⟨⟩ jobId queued hq
    simp only [BTreeMap.get_erase] at hq
    split at hq
    · cases hq
    · exact (h _ ha jobId queued hq).congr rfl rfl
  | @enqueue a actor new ha haccept hsession =>
    rintro _ ⟨⟩ jobId queued hq
    simp only [BTreeMap.get_insert] at hq
    split at hq
    · next hid =>
      cases hq
      exact ⟨hid, hsession, tick, hmem, actor, haccept.congr rfl rfl⟩
    · exact (h _ ha jobId queued hq).congr rfl rfl
  | @pass a next attachments os ha hnext hos =>
    rintro _ ⟨⟩ jobId queued hq
    simp only [State.advance, BTreeMap.get_erase] at hq
    split at hq
    · cases hq
    · exact (h _ ha jobId queued hq).congr rfl rfl

theorem QueueOk.acts (hmem : tick ∈ ticks) (hacts : Acts tick s s' os) (h : QueueOk ticks s) :
    QueueOk ticks s' := by
  induction hacts with
  | refl => exact h
  | tail _ hact ih => exact ih.act hmem hact

theorem QueueOk.step (h : QueueOk ticks s) : QueueOk (ticks ++ [tick]) (s.step tick).1 :=
  step_preserves (fun h => h.opened) (fun _ hquiet h => h.quiet hquiet)
    (fun _ _ _ hact h => h.act (by simp) hact) (h.mono (by simp))

/-- **The queue over a run.** -/
theorem queueOk_run (h : s.session = .inactive) (ticks : List Tick) :
    QueueOk ticks (s.run ticks).1 :=
  Lib.run_invariant State.step (P := fun s ticks _ => QueueOk ticks s) (fun _ _ _ _ h => h.step)
    (.of_inactive h) ticks

end Queue

/-! ## What stays fixed during a life -/

/-- `s` belongs to the life that began in `s₀`: the same sled with the same trust anchors and the
same record of the past. -/
structure SameLife (s₀ s : State) : Prop where
  certs : s.certs = s₀.certs
  own : s.rack.ownBaseboard = s₀.rack.ownBaseboard
  birth : s.past.birth = s₀.past.birth
  committed : s.past.committed = s₀.past.committed
  network : s.past.network = s₀.past.network

theorem new_eq {current : VersionInfo} {own : BaseboardId} {anchors : List Certificate}
    {past : Past} {s₀ : State} (h : State.new current own anchors past = .ok s₀) :
    Certificates.new anchors = .ok s₀.certs ∧ s₀.rack.ownBaseboard = own ∧ s₀.past = past ∧
      s₀.session = .inactive ∧ s₀.history = .empty ∧
      s₀.pendingStarts = Lib.LruCache.new maxPendingStarts := by
  unfold State.new at h
  cases hc : Certificates.new anchors with
  | error e => rw [hc] at h; cases h
  | ok certs =>
    rw [hc] at h
    cases h
    exact ⟨rfl, rfl, rfl, rfl, rfl, rfl⟩

section Life

variable {s₀ s s' : State} {tick : Tick} {os : List Output}

theorem SameLife.refl (s : State) : SameLife s s := ⟨rfl, rfl, rfl, rfl, rfl⟩

theorem SameLife.quiet (h : SameLife s₀ s) (hquiet : Quiet s s') : SameLife s₀ s' :=
  ⟨hquiet.certs.trans h.certs, hquiet.own.trans h.own, hquiet.birth.trans h.birth,
    hquiet.committed.trans h.committed, hquiet.network.trans h.network⟩

theorem SameLife.opened (h : SameLife s₀ s) : SameLife s₀ (s.opened tick) := by
  obtain ⟨_, _, he⟩ := s.opened_frame tick
  rw [he]
  exact { h with }

theorem SameLife.screen (h : SameLife s₀ s) (sessionId : SessionId) (seq : SessionSeq)
    (live : Bool) : s.past.screen sessionId seq live = s₀.past.screen sessionId seq live := by
  unfold Past.screen
  rw [h.committed, h.network]

variable [Hashing]

theorem SameLife.act (h : SameLife s₀ s) (hact : Act tick s s' os) : SameLife s₀ s' := by
  obtain ⟨_, _, rfl⟩ := hact.frame
  exact { h with }

theorem SameLife.step (h : SameLife s₀ s) : SameLife s₀ (s.step tick).1 :=
  step_preserves (fun h => h.opened) (fun _ hquiet h => h.quiet hquiet)
    (fun _ _ _ hact h => h.act hact) h

theorem sameLife_run (s : State) (ticks : List Tick) : SameLife s (s.run ticks).1 :=
  Lib.run_invariant State.step (P := fun s' _ _ => SameLife s s') (fun _ _ _ _ h => h.step) (.refl s) ticks

end Life

/-! ## Release points -/

variable [Hashing]

/-- The step from `s` on `tick` runs the release loop in `network`, and the loop passes through
`u`. -/
def State.ReleasePoint (s : State) (tick : Tick) (network : Network) (u : State) : Prop :=
  tick.network = some network ∧ ∃ e os, s.Releasing tick e ∧
    ReflTransGen (Round (State.releaseNext tick.now network)) (e, []) (u, os)

/-- The loop launches the next job of the active session `a`, `queued`, from its point `u`. -/
structure State.LaunchPoint (s : State) (tick : Tick) (network : Network) (u : State)
    (a : ActiveSession) (queued : QueuedJob) : Prop where
  point : s.ReleasePoint tick network u
  active : u.session = .active a
  waits : a.queuedJobs[a.session.nextJobId]? = some queued
  releases : u.Releases a queued

section Points

variable {s e u : State} {tick : Tick} {network : Network} {r : Run}

theorem releaseNext_run {now : DateTime} {acc acc' : State × List Output}
    (h : State.releaseNext now network acc = some acc') (hr : r ∈ launches acc'.2) :
    r ∈ launches acc.2 ∨ ∃ a queued, acc.1.session = .active a ∧
      a.queuedJobs[a.session.nextJobId]? = some queued ∧ acc.1.Releases a queued ∧
      r = State.runOf network a queued := by
  unfold State.releaseNext at h
  split at h
  · cases h
  · next a ha =>
    split at h
    · cases h
    · next queued hq =>
      obtain ⟨attachments, os, he, hos⟩ := releaseJob_eq acc.1 now network a queued
      rw [he] at h
      cases h
      rw [launches_append, List.mem_append] at hr
      rcases hr with hr | hr
      · exact .inl hr
      · rcases hos with hos | ⟨hrel, rfl⟩
        · rw [hos] at hr; cases hr
        · exact .inr ⟨a, queued, ha, hq, hrel, List.mem_singleton.1 hr⟩

theorem launchPoint_of_loop (he : s.Releasing tick e) (hnet : tick.network = some network) (n : ℕ) :
    let acc := Lib.iterate (State.releaseNext tick.now network) n (e, [])
    ReflTransGen (Round (State.releaseNext tick.now network)) (e, []) acc ∧
      ∀ r ∈ launches acc.2, ∃ u a queued, s.LaunchPoint tick network u a queued ∧
        r = State.runOf network a queued := by
  refine Lib.iterate_invariant
    (P := fun acc => ReflTransGen (Round (State.releaseNext tick.now network)) (e, []) acc ∧
      ∀ r ∈ launches acc.2, ∃ u a queued, s.LaunchPoint tick network u a queued ∧
        r = State.runOf network a queued) ?_ n ⟨.refl, by simp⟩
  intro acc acc' hround h
  refine ⟨h.1.tail hround, fun r hr => ?_⟩
  rcases releaseNext_run hround hr with hr | ⟨a, queued, ha, hq, hrel, rfl⟩
  · exact h.2 r hr
  · exact ⟨acc.1, a, queued, ⟨⟨hnet, e, acc.2, he, h.1⟩, ha, hq, hrel⟩, rfl⟩

theorem launchPoint_of_run (hr : .run r ∈ (s.step tick).2) :
    ∃ network u a queued, s.LaunchPoint tick network u a queued ∧
      r = State.runOf network a queued := by
  rw [← mem_launches] at hr
  cases step_shape s tick with
  | still _ _ _ hos => rw [hos] at hr; cases hr
  | releasing he hos₀ hs' hos =>
    rw [hos, launches_append, hos₀, List.nil_append] at hr
    unfold State.releaseReadyJobs at hr
    split at hr
    · cases hr
    · next network hnet => exact ⟨network, (launchPoint_of_loop he hnet _).2 r hr⟩

theorem State.ReleasePoint.acts (h : s.ReleasePoint tick network u) :
    ∃ e os, s.Releasing tick e ∧ Acts tick e u os := by
  obtain ⟨hnet, e, os, he, hrounds⟩ := h
  suffices hacts : ∀ acc, ReflTransGen (Round (State.releaseNext tick.now network)) (e, []) acc →
      ∃ os, Acts tick e acc.1 os by
    obtain ⟨os', hacts⟩ := hacts _ hrounds
    exact ⟨e, os', he, hacts⟩
  intro acc hacc
  induction hacc with
  | refl => exact ⟨[], .refl⟩
  | tail _ hround ih =>
    obtain ⟨os, hacts⟩ := ih
    obtain ⟨os', hact, -⟩ := releaseNext_act hnet hround
    exact ⟨os ++ os', .tail hacts hact⟩

theorem State.ReleasePoint.queueOk {ticks : List Tick} (h : s.ReleasePoint tick network u)
    (hs : QueueOk ticks s) : QueueOk (ticks ++ [tick]) u := by
  have hmem : tick ∈ ticks ++ [tick] := by simp
  obtain ⟨e, os, he, hloop⟩ := h.acts
  obtain ⟨s₁, hquiet, hbefore⟩ := he.acts
  exact ((((hs.mono (by simp)).opened).quiet hquiet).acts hmem hbefore).acts hmem hloop

/-- The release loop starts with the rack, the trust anchors and the past as they were before the
step. -/
theorem State.Releasing.frame (h : s.Releasing tick e) :
    e.rack = s.rack ∧ e.certs = s.certs ∧ e.past = s.past := by
  cases h with
  | @skip version actor a jobId hinput ha hstarter hskip =>
    obtain ⟨history, -, he⟩ := cancelJob_eq
      (s := { s with session := .active { a with session.lastJob := .burned jobId } })
      tick.now rfl jobId actor (!s.past.isLive version)
    rw [he]
    exact ⟨rfl, rfl, rfl⟩
  | @job actor queued a haccept ha hsession =>
    obtain ⟨_, _, hconfirm⟩ := confirmStart_frame s tick.now queued.job.payload.sessionId
    rcases enqueueJob_cases tick.now ha queued actor with he | ⟨history, -, he⟩
    · rw [he, hconfirm]
      exact ⟨rfl, rfl, rfl⟩
    · rw [he, hconfirm]
      exact ⟨rfl, rfl, rfl⟩

theorem State.ReleasePoint.frame (h : s.ReleasePoint tick network u) :
    u.rack = s.rack ∧ u.certs = s.certs ∧ u.past = s.past := by
  obtain ⟨e, os, he, hloop⟩ := h.acts
  obtain ⟨_, _, rfl⟩ := hloop.frame
  exact he.frame

end Points

/-! ## Soundness of launches -/

/-- **Every launch is sound.** Whatever the record and the universe of a life, every launch put out
by any step of it is made at a point `u` of the release loop of that very step, where the job waits
in the queue of the active session, at its next position. There the job is verified under the trust
anchors, belongs to the active session, is next on its chain, lists this sled, passes the target
check under the cubby map of that step, is admitted by the past, has an acceptable command, and is
new or queued here. The boundary it carries names the universe of the step, the active session, the
job and the chain position after it. -/
theorem run_sound {current : VersionInfo} {own : BaseboardId} {anchors : List Certificate}
    {past : Past} {s₀ : State} (h₀ : State.new current own anchors past = .ok s₀)
    (before : List Tick) (tick : Tick) (r : Run)
    (hr : .run r ∈ ((s₀.run before).1.step tick).2) :
    ∃ network u a queued, (s₀.run before).1.ReleasePoint tick network u ∧ u.session = .active a ∧
      a.queuedJobs[r.jobId]? = some queued ∧ r = State.runOf network a queued ∧
      (∃ certs, Certificates.new anchors = .ok certs ∧ certs.verify r.job.signed = .ok r.job) ∧
      r.job.payload.sessionId = a.session.sessionId ∧
      r.jobId = a.session.nextJobId ∧
      (∃ delivered ∈ before ++ [tick], ∃ version actor sleds,
        delivered.input = .gossip version
          (.v0 (.request (.job actor (.start r.job.signed r.params sleds)))) ∧
        sleds.contains own = true) ∧
      (s₀.run before).1.rack.checkTarget r.job.payload = none ∧
      past.screen a.session.sessionId a.seq a.live = .admitted ∧
      State.checkCommand r.job.payload = .ok () ∧
      (u.history.getJobStatus r.jobId = none ∨
        ∃ m, u.history.getJobStatus r.jobId = some m ∧ ∃ i t k, m[own]? = some (.queued i t k)) ∧
      r.boundary.network = network ∧ r.boundary.session = a.session.sessionId ∧
      r.boundary.seq = a.seq ∧ r.boundary.job = r.jobId ∧
      r.boundary.successor = (a.session.jobStarted r.job.signed).nextJobId := by
  obtain ⟨hcerts, rfl, rfl, hinactive, -, -⟩ := new_eq h₀
  obtain ⟨network, u, a, queued, hpoint, rfl⟩ := launchPoint_of_run hr
  have hlife : SameLife s₀ (s₀.run before).1 := sameLife_run s₀ before
  obtain ⟨hrack, hanchors, hpast⟩ := hpoint.point.frame
  have hown : u.rack.ownBaseboard = s₀.rack.ownBaseboard := by rw [hrack, hlife.own]
  have hrel := hpoint.releases
  obtain ⟨hid, hsession, delivered, hmem, actor, haccept⟩ :=
    hpoint.point.queueOk (queueOk_run hinactive before) a hpoint.active _ queued hpoint.waits
  obtain ⟨version, hinput, hverify, -⟩ := haccept
  rw [hanchors, hlife.certs] at hverify
  refine ⟨network, u, a, queued, hpoint.point, hpoint.active, ?_, rfl,
    ⟨_, hcerts, hverify⟩, hsession, hid,
    ⟨delivered, hmem, version, actor, queued.sleds, hinput, hown ▸ hrel.listed⟩,
    hrack ▸ hrel.target, ?_, hrel.command, ?_, rfl, rfl, rfl, rfl, rfl⟩
  · rw [show (State.runOf network a queued).jobId = a.session.nextJobId from hid]
    exact hpoint.waits
  · rw [← hlife.screen, ← hpast]
    exact hrel.admitted
  · rw [← hown]
    exact mayRun_iff.1 hrel.mayRun

end Sush

namespace Sush.Terms

attribute [local instance] world hashing crypto

/-- The first job of a live session is launched, and its launch is sound. -/
theorem run_sound_firstJob :
    Output.run (launch 5 (firstJob 5)) ∈ (((life (0 : ℕ) (10 : ℕ) none).run
      [start (10 : ℕ) (7 : ℕ) 5]).1.step (job (10 : ℕ) (7 : ℕ) (firstJob 5) [(0 : ℕ)])).2 ∧
    ∃ certs, Certificates.new anchors = .ok certs ∧
      certs.verify (signed (firstJob 5)) = .ok (verified (firstJob 5)) := by
  have hr : Output.run (launch 5 (firstJob 5)) ∈ (((life (0 : ℕ) (10 : ℕ) none).run
      [start (10 : ℕ) (7 : ℕ) 5]).1.step (job (10 : ℕ) (7 : ℕ) (firstJob 5) [(0 : ℕ)])).2 :=
    List.mem_singleton.2 rfl
  obtain ⟨_, _, _, _, _, _, _, _, hverified, _⟩ :=
    run_sound (new_life (0 : ℕ) (10 : ℕ) none) _ _ _ hr
  exact ⟨hr, hverified⟩

end Sush.Terms
