import Sush.Verify.Arrival

/-!
# Draining

While there is no universe to run jobs in, the release loop only moves the chain. It passes the jobs
that it would have released, so whether there is a universe makes no difference to the session, and
neither does what a sled refuses to run. To see this over whole runs, everything that only decides what
is put out is taken away from the state (`State.core`) and from the inputs (`Tick.quiet`): a step then
commutes with taking it away (`core_step`).

Both loops take a job off the queue in every round, so they stop by themselves within as many rounds as
there were jobs (`Lib.Halts`).
-/

namespace Sush

open Lib

variable [World] [Hashing]

theorem Passes.unique {a b b' : ActiveSession} {js js' : List QueuedJob} (h : Passes a js b)
    (h' : Passes a js' b') : js = js' ∧ b = b' := by
  induction h generalizing js' b' with
  | done hnone =>
    cases h' with
    | done => exact ⟨rfl, rfl⟩
    | pass hq => cases hnone.symm.trans hq
  | pass hq _ ih =>
    cases h' with
    | done hnone => cases hnone.symm.trans hq
    | pass hq' hpass' =>
      cases hq.symm.trans hq'
      obtain ⟨rfl, rfl⟩ := ih hpass'
      exact ⟨rfl, rfl⟩

variable [Crypto]

/-! ## The core of a state -/

/-- The state without what only decides what is put out: what the sled knows of its rack, which jobs can
be attached to, and what it has said about its past. -/
abbrev State.core (s : State) : State :=
  { s with
    rack := Rack.new s.rack.ownBaseboard ⟨"", ""⟩
    attachments := ∅
    past := Past.new s.past.birth s.past.committed s.past.network }

def Input.quiet : Input → Input
  | .cubbies _ => .cubbies ∅
  | .gossip version message => .gossip version message
  | .drained => .drained

def Tick.quiet (tick : Tick) : Tick := ⟨tick.now, none, tick.input.quiet⟩

section Core

variable {s : State} {now : DateTime} {version : Version} {actor : KeyId}

omit [Hashing]

theorem session_of_core {s' : State} (h : s.core = s'.core) : s.session = s'.session := by
  have hsession : s.core.session = s'.core.session := congrArg State.session h
  exact hsession

theorem core_enqueueJob {queued : QueuedJob} :
    (s.enqueueJob now queued actor).core = (s.core.enqueueJob now queued actor).core := by
  unfold State.enqueueJob
  dsimp only
  cases s.session with
  | inactive => rfl
  | active a =>
    dsimp only
    by_cases hknown : ¬queued.replayed ∧ s.history.contains queued.job.payload.jobId
    · rw [if_pos hknown, if_pos hknown]
      rfl
    · rw [if_neg hknown, if_neg hknown]
      split <;> rfl

theorem core_cancelJob {jobId : JobId} {replayed : Bool} :
    (s.cancelJob now jobId actor replayed).core = (s.core.cancelJob now jobId actor replayed).core := by
  unfold State.cancelJob State.cancelsHere
  dsimp only
  cases s.session with
  | inactive => rfl
  | active a => rfl

theorem core_confirmStart {sessionId : SessionId} [Hashing] :
    (s.confirmStart now sessionId).1.core = (s.core.confirmStart now sessionId).1.core := by
  unfold State.confirmStart State.activate State.openSession
  dsimp only
  split
  · rfl
  · simp only [apply_ite Prod.fst, apply_ite State.core]
    rfl

theorem core_transition {s' : State} (h : s.core = s'.core) {baseboard : BaseboardId} {jobId : JobId}
    {f : Option JobStatus → Option JobStatus} :
    (s.transition version baseboard jobId f).1.core =
      (s'.transition version baseboard jobId f).1.core := by
  change (s.core.transition version baseboard jobId f).1.core =
    (s'.core.transition version baseboard jobId f).1.core
  rw [h]

theorem core_endEvent {baseboard : BaseboardId} {jobId : JobId}
    {f : Option JobStatus → Option JobStatus} :
    ((s.clearEnded baseboard jobId).transition version baseboard jobId f).1.core =
      ((s.core.clearEnded baseboard jobId).transition version baseboard jobId f).1.core := by
  have hclear : ∀ s : State, (s.clearEnded baseboard jobId).core = s.core := by
    intro s
    unfold State.clearEnded
    split <;> rfl
  exact core_transition ((hclear s).trans (hclear s.core).symm)

theorem core_handleJobEvent {baseboard : BaseboardId} {event : JobEvent} :
    (s.handleJobEvent version baseboard event).1.core =
      (s.core.handleJobEvent version baseboard event).1.core := by
  cases event with
  | start jobId when_ =>
    have hsettled : s.core.isSettledOn jobId baseboard = s.isSettledOn jobId baseboard := rfl
    simp only [State.handleJobEvent, hsettled]
    split
    · rfl
    · split <;> split <;> rfl
  | stop jobId when_ result output => exact core_endEvent
  | error jobId when_ error => exact core_endEvent
  | skipped jobId when_ reason => exact core_transition rfl

variable [Hashing]

variable {network : Option Network} {s' : State}

theorem core_startSession {preimage : SessionPreimage} :
    (s.startSession version actor preimage).core = (s.core.startSession version actor preimage).core := by
  unfold State.startSession
  dsimp only
  cases s.session with
  | inactive =>
    simp only [apply_ite State.core]
    rfl
  | active a =>
    simp only [apply_ite State.core]
    rfl

theorem core_releaseReadyJobs (h : s.core = s'.core) (network network' : Option Network) :
    (s.releaseReadyJobs now network).1.core = (s'.releaseReadyJobs now network').1.core := by
  have hsession := session_of_core h
  cases ha : s.session with
  | inactive =>
    rw [releaseReadyJobs_of_inactive now network ha,
      releaseReadyJobs_of_inactive now network' (hsession ▸ ha)]
    exact h
  | active a =>
    obtain ⟨js, b, hpass, heq⟩ := releaseReadyJobs_eq now network ha
    obtain ⟨js', b', hpass', heq'⟩ := releaseReadyJobs_eq now network' (hsession ▸ ha)
    obtain ⟨rfl, rfl⟩ := hpass.unique hpass'
    rw [heq, heq']
    exact congrArg (fun t : State => { t with session := .active b }) h

omit [Hashing] in
theorem core_asStarter {sessionId : SessionId} {act act' : ActiveSession → State × List Output}
    (h : ∀ a, (act a).1.core = (act' a).1.core) :
    (s.asStarter sessionId actor act).1.core = (s.core.asStarter sessionId actor act').1.core := by
  unfold State.asStarter
  dsimp only
  cases s.session with
  | inactive => rfl
  | active a =>
    dsimp only
    split
    · exact h a
    · rfl

theorem core_skipJob {jobId : JobId} {a : ActiveSession} :
    (s.skipJob now network version actor jobId a).1.core =
      (s.core.skipJob now none version actor jobId a).1.core := by
  unfold State.skipJob
  split
  · exact core_releaseReadyJobs core_cancelJob network none
  · rfl

theorem core_handleSessionRequest {request : SessionRequest} :
    (s.handleSessionRequest now network version actor request).1.core =
      (s.core.handleSessionRequest now none version actor request).1.core := by
  cases request with
  | start preimage => exact core_startSession
  | stop sessionId => exact core_asStarter fun _ => rfl
  | allowAttach sessionId keyId access => exact core_asStarter fun _ => rfl
  | denyAttach sessionId keyId => exact core_asStarter fun _ => rfl
  | skip sessionId jobId => exact core_asStarter fun _ => core_skipJob

theorem core_startJob {job : VerifiedJob} {params : JobStartParams} {sleds : BTreeSet BaseboardId} :
    (s.startJob now network version actor job params sleds).1.core =
      (s.core.startJob now none version actor job params sleds).1.core := by
  have hconfirm : (s.confirmStart now job.payload.sessionId).1.core =
      (s.core.confirmStart now job.payload.sessionId).1.core := core_confirmStart
  unfold State.startJob
  dsimp only
  generalize s.confirmStart now job.payload.sessionId = c,
    s.core.confirmStart now job.payload.sessionId = c' at hconfirm
  have hsession := session_of_core hconfirm
  rw [hsession]
  split
  · refine core_releaseReadyJobs ?_ network none
    rw [core_enqueueJob, hconfirm, ← core_enqueueJob]
    rfl
  -- a refused job is announced or not, and nothing more
  · split
    · split <;> exact hconfirm
    · split <;> exact hconfirm

theorem core_handleJobRequest {request : JobRequest} :
    (s.handleJobRequest now network version actor request).1.core =
      (s.core.handleJobRequest now none version actor request).1.core := by
  cases request with
  | start signed params sleds =>
    unfold State.handleJobRequest
    dsimp only
    cases s.certs.verify signed with
    | ok job => exact core_startJob
    | error error => rfl
  | stop jobId =>
    have hknown : s.core.isJobKnown jobId = s.isJobKnown jobId := rfl
    unfold State.handleJobRequest
    dsimp only
    rw [hknown]
    split
    · rfl
    · split
      · rfl
      · exact core_cancelJob

/-- **A step commutes with taking the core.** -/
theorem core_step (s : State) (tick : Tick) : (s.step tick).1.core = (s.core.step tick.quiet).1.core := by
  obtain ⟨now, network, input⟩ := tick
  cases input with
  | cubbies cubbies =>
    simp only [State.step, Tick.quiet, Input.quiet, State.core, Rack.ownBaseboard_setCubbies]
    rfl
  | drained =>
    obtain ⟨reaped, heq, -⟩ := settle_eq s now network
    obtain ⟨reaped', heq', -⟩ := settle_eq s.core now none
    change (s.settle now network).1.core = (s.core.settle now none).1.core
    rw [heq, heq']
    rfl
  | gossip version message =>
    change (s.update now network version message).1.core =
      (s.core.update now none version message).1.core
    cases message with
    | unknown unknown _ => rfl
    | v0 message =>
      cases message with
      | event baseboard event =>
        cases event with
        | job event => exact core_handleJobEvent
        | version info =>
          simp only [State.update, State.handleEvent, State.core, Rack.ownBaseboard_knownVersion]
          rfl
      | request request =>
        cases request with
        | session actor request => exact core_handleSessionRequest
        | job actor request => exact core_handleJobRequest

theorem core_run {ticks ticks' : List Tick} (h : s.core = s'.core)
    (hticks : ticks.map Tick.quiet = ticks'.map Tick.quiet) :
    (s.run ticks).1.core = (s'.run ticks').1.core := by
  induction ticks generalizing s s' ticks' with
  | nil =>
    cases ticks' with
    | nil => exact h
    | cons tick' ticks' => cases hticks
  | cons tick ticks ih =>
    cases ticks' with
    | nil => cases hticks
    | cons tick' ticks' =>
      obtain ⟨htick, htail⟩ := List.cons.inj hticks
      have hstep : (s.step tick).1.core = (s'.step tick').1.core := by
        rw [core_step, h, htick, ← core_step]
      have hrest := ih hstep htail
      exact hrest

end Core

/-- **Draining does not bend the chain.** Two runs from one state over inputs that differ only in which
steps have a universe and in the cubby maps have the same session in the slot, the same pending starts
and the same history after every step. A step without a universe launches nothing. -/
theorem draining_keeps_chain (s : State) {ticks ticks' : List Tick}
    (h : ticks.map Tick.quiet = ticks'.map Tick.quiet) :
    (∀ n, let t := (s.run (ticks.take n)).1
      let t' := (s.run (ticks'.take n)).1
      t.session = t'.session ∧ t.pendingStarts = t'.pendingStarts ∧ t.history = t'.history) ∧
    ∀ (s : State) (tick : Tick), tick.network = none → ∀ r, .run r ∉ (s.step tick).2 := by
  refine ⟨fun n => ?_, fun s tick hnone r hr => ?_⟩
  · have hcore : (s.run (ticks.take n)).1.core = (s.run (ticks'.take n)).1.core :=
      core_run rfl (by rw [List.map_take, List.map_take, h])
    have hpending : (s.run (ticks.take n)).1.core.pendingStarts =
        (s.run (ticks'.take n)).1.core.pendingStarts := congrArg State.pendingStarts hcore
    have hhistory : (s.run (ticks.take n)).1.core.history =
        (s.run (ticks'.take n)).1.core.history := congrArg State.history hcore
    exact ⟨session_of_core hcore, hpending, hhistory⟩
  · obtain ⟨network, u, a, queued, hpoint, -⟩ := launchPoint_of_run hr
    cases hnone.symm.trans hpoint.point.1

/-! ## The fixed point -/

section Loops

variable {s : State} {now : DateTime}

omit [Hashing] in
theorem queueSize_of_active {a : ActiveSession} (ha : s.session = .active a) :
    s.queueSize = a.queuedJobs.size := by
  rw [State.queueSize, ha]
  rfl

theorem queueSize_drainNext (h : s.drainNext = some s') : s'.queueSize < s.queueSize := by
  unfold State.drainNext at h
  split at h
  · cases h
  · rename_i a ha
    split at h
    · cases h
    · rename_i queued hq
      cases h
      rw [queueSize_of_active ha]
      exact BTreeMap.size_erase_lt hq

theorem queueSize_releaseNext {network : Network} {acc acc' : State × List Output}
    (h : State.releaseNext now network acc = some acc') : acc'.1.queueSize < acc.1.queueSize := by
  unfold State.releaseNext at h
  split at h
  · cases h
  · rename_i a ha
    split at h
    · cases h
    · rename_i queued hq
      cases h
      rw [queueSize_of_active ha]
      exact BTreeMap.size_erase_lt hq

/-- The loop that `release_ready_jobs` runs ends by itself, within as many rounds as jobs wait. -/
theorem releaseReadyJobs_halts (s : State) (now : DateTime) :
    (∃ n ≤ s.queueSize, Halts State.drainNext n s (s.releaseReadyJobs now none).1) ∧
    ∀ network, ∃ n ≤ s.queueSize,
      Halts (State.releaseNext now network) n (s, []) (s.releaseReadyJobs now (some network)) := by
  refine ⟨halts_iterate State.queueSize (fun _ _ h => queueSize_drainNext h) le_rfl, fun network => ?_⟩
  have hround : ∀ acc acc', State.releaseNext now network acc = some acc' →
      acc'.1.queueSize < acc.1.queueSize := fun _ _ h => queueSize_releaseNext h
  exact halts_iterate (fun acc : State × List Output => acc.1.queueSize) hround
    (s := (s, [])) le_rfl

end Loops

/-- **No ready job is left waiting.** In every state of a run, the queue of the active session does not
have the next job of the chain, and every job in it stands under its own identifier, was verified, and is
of the active session. The release loop ends from every state, within as many rounds as jobs wait. -/
theorem no_ready_job_waits {current : VersionInfo} {own : BaseboardId} {anchors : List Certificate}
    {past : Past} {s₀ : State} (h₀ : State.new current own anchors past = .ok s₀) (ticks : List Tick) :
    (let s := (s₀.run ticks).1
      ∀ a, s.session = .active a →
        a.queuedJobs.contains a.session.nextJobId = false ∧
        ∀ (jobId : JobId) queued, a.queuedJobs[jobId]? = some queued →
          queued.job.payload.jobId = jobId ∧
          (∃ certs, Certificates.new anchors = .ok certs ∧
            certs.verify queued.job.signed = .ok queued.job) ∧
          queued.job.payload.sessionId = a.session.sessionId) ∧
    ∀ (s : State) now,
      (∃ n ≤ s.queueSize, Halts State.drainNext n s (s.releaseReadyJobs now none).1) ∧
      ∀ network, ∃ n ≤ s.queueSize,
        Halts (State.releaseNext now network) n (s, []) (s.releaseReadyJobs now (some network)) := by
  refine ⟨?_, releaseReadyJobs_halts⟩
  intro s a ha
  obtain ⟨hcerts, -, -, hinactive, -⟩ := new_eq h₀
  have hlife : SameLife s₀ s := sameLife_run s₀ ticks
  refine ⟨BTreeMap.contains_eq_false_iff.2 (settled_run hinactive ticks a ha),
    fun jobId queued hq => ?_⟩
  obtain ⟨hid, hsession, tick, -, actor, haccept⟩ := queueOk_run hinactive ticks a ha jobId queued hq
  obtain ⟨version, -, hverify, -⟩ := haccept
  rw [hlife.certs] at hverify
  exact ⟨hid, ⟨s₀.certs, hcerts, hverify⟩, hsession⟩

end Sush

namespace Sush.Terms

attribute [local instance] world hashing crypto

def secondFirst : List Tick :=
  [start (10 : ℕ) (7 : ℕ) 5, job (10 : ℕ) (8 : ℕ) (jobAfter (firstJob 5)) [(0 : ℕ)]]

/-- It waits, and the first is the one that is next. -/
theorem no_ready_job_waits_second :
    ∃ a, ((life (0 : ℕ) (10 : ℕ) none).run secondFirst).1.session = .active a ∧
      a.queuedJobs.size = 1 ∧ a.queuedJobs.contains a.session.nextJobId = false := by
  refine ⟨_, rfl, rfl, ?_⟩
  exact ((no_ready_job_waits (new_life (0 : ℕ) (10 : ℕ) none) secondFirst).1 _ rfl).1

def whileDraining (ticks : List Tick) : List Tick := ticks.map fun tick => { tick with network := none }

/-- The first job of a session moves the chain, whether it is launched or drained. -/
theorem draining_keeps_chain_firstJob :
    let ticks := [start (10 : ℕ) (7 : ℕ) 5, job (10 : ℕ) (8 : ℕ) (firstJob 5) [(0 : ℕ)]]
    launches ((life (0 : ℕ) (10 : ℕ) none).run ticks).2 ≠ [] ∧
    launches ((life (0 : ℕ) (10 : ℕ) none).run (whileDraining ticks)).2 = [] ∧
    ((life (0 : ℕ) (10 : ℕ) none).run ticks).1.session =
      ((life (0 : ℕ) (10 : ℕ) none).run (whileDraining ticks)).1.session := by
  intro ticks
  have hquiet : ticks.map Tick.quiet = (whileDraining ticks).map Tick.quiet := rfl
  refine ⟨List.cons_ne_nil _ _, rfl, ?_⟩
  exact ((draining_keeps_chain (life (0 : ℕ) (10 : ℕ) none) hquiet).1 2).1

end Sush.Terms
