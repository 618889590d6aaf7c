import Sush.Verify.Chain
import Sush.Verify.Scenario

/-!
# At most once within a life

Three things keep a life from launching a job twice: the chain of a session moves on when a job is
released, a live request that repeats a known job is dropped, and a job is launched only while its
status here says that it waits. A launch does not change that status, and a replayed request is not
checked against it. So a session that is stopped and started again, and opens where the job is still
ahead, launches it a second time if the news of the first launch has not come back yet
(`launched_twice_restart`). Where no session opens like that, no job is launched twice
(`launches_nodup`).
-/

namespace Sush

open Lib SkipChain

section

variable [World] [Crypto] [Hashing]

/-- The step evicts nothing from the history. This is so as long as `jobStatus` has at most
`maxHistory` entries (`JobHistory.gc_of_le`). -/
def State.Keeps (s : State) (tick : Tick) : Prop :=
  ∀ jobId, s.history.contains jobId = true → (s.step tick).1.history.contains jobId = true

/-- If the input opens a session, the jobs among `runs` that are ahead of where it opens have ended,
or at least started, as far as this sled knows. -/
def State.Settled (s : State) (runs : List Run) (tick : Tick) : Prop :=
  ∀ sessionId start, s.opening tick = some (sessionId, start) →
    ∀ r ∈ runs, jobChain.Reaches (s.openAt sessionId) r.jobId →
      State.mayRun s.history s.rack.ownBaseboard r.jobId = false

/-- No job was launched twice, and none that was launched can be launched again: its status forbids
it, or the chain is past it. -/
structure LaunchedOnce (own : BaseboardId) (σ : SessionState) (history : JobHistory)
    (runs : List Run) : Prop where
  nodup : (runs.map Run.jobId).Nodup
  done : ∀ r ∈ runs, State.mayRun history own r.jobId = false ∨
    ∀ a, σ = .active a → ¬a.session.front.Ahead jobChain r.jobId

namespace LaunchedOnce

variable [CollisionFree] {own : BaseboardId} {tick : Tick} {t : State} {a a' : ActiveSession}
  {history : JobHistory} {runs new : List Run}

theorem move (hown : t.rack.ownBaseboard = own) (hhist : t.history = history)
    (hmove : FrontMove tick t a a'.session.front new) (h : LaunchedOnce own (.active a) history runs) :
    LaunchedOnce own (.active a') history (runs ++ new) := by
  have hold : ∀ r ∈ runs, State.mayRun history own r.jobId = false ∨
      ∀ b, SessionState.active a' = .active b → ¬b.session.front.Ahead jobChain r.jobId := by
    intro r hr
    refine (h.done r hr).imp_right fun hnot => ?_
    rintro _ ⟨⟩ hahead
    exact hnot a rfl (hmove.ahead hahead)
  generalize hf : a'.session.front = f at hmove
  cases hmove with
  | stay => exact ⟨by simpa using h.nodup, by simpa using hold⟩
  | burn => exact ⟨by simpa using h.nodup, by simpa using hold⟩
  | @pass queued _ hid _ hruns =>
    rcases hruns with rfl | ⟨network, -, hrel, rfl⟩
    · exact ⟨by simpa using h.nodup, by simpa using hold⟩
    · -- the job may run and is next, so it was not launched before; now the chain is past it
      have hnew : queued.job.payload.jobId ∉ runs.map Run.jobId := by
        intro hmem
        obtain ⟨r, hr, hrid⟩ := List.mem_map.1 hmem
        rcases h.done r hr with hrun | hnot
        · rw [hrid, ← hown, ← hhist, hrel.mayRun] at hrun
          cases hrun
        · refine hnot a rfl ?_
          rw [hrid, hid]
          exact Front.ahead_next
      refine ⟨?_, ?_⟩
      · rw [List.map_append, List.nodup_append]
        refine ⟨h.nodup, by simp, ?_⟩
        rintro jobId hmem _ hlast rfl
        obtain rfl := List.mem_singleton.1 hlast
        exact hnew hmem
      · intro r hr
        rcases List.mem_append.1 hr with hr | hr
        · exact hold r hr
        · obtain rfl := List.mem_singleton.1 hr
          refine .inr ?_
          rintro _ ⟨⟩ hahead
          rw [hf] at hahead
          have hbefore : jobChain.Before a.session.nextJobId queued.job.payload.jobId :=
            Front.before_of_ahead_pass (f := a.session.front) hid hahead
          rw [hid] at hbefore
          exact CollisionFree.chain_free.before_irrefl _ hbefore

theorem step {s₀ s : State} {ticks : List Tick} (hlife : SameLife s₀ s) (hqueue : QueueOk ticks s)
    (hkeeps : s.Keeps tick) (hsettled : s.Settled runs tick)
    (h : LaunchedOnce s₀.rack.ownBaseboard s.session s.history runs) :
    LaunchedOnce s₀.rack.ownBaseboard (s.step tick).1.session (s.step tick).1.history
      (runs ++ launches (s.step tick).2) := by
  refine step_front (P := LaunchedOnce s₀.rack.ownBaseboard) hlife hqueue ?_ ?_ ?_ ?_ h
  · rintro sessionId start a hopen rfl - hfront h
    refine ⟨h.nodup, fun r hr => ?_⟩
    by_cases hreach : jobChain.Reaches (s.openAt a.session.sessionId) r.jobId
    · left
      rw [← hlife.own]
      exact hsettled _ start hopen r hr hreach
    · right
      rintro _ ⟨⟩ hahead
      rw [hfront] at hahead
      rcases hahead with hnext | ⟨_, hhead, -⟩
      · exact hreach hnext
      · cases hhead
  · intro σ hev h
    refine ⟨h.nodup, fun r hr => (h.done r hr).imp_left fun hrun => ?_⟩
    obtain ⟨m, hm, -⟩ := mayRun_eq_false_iff.1 hrun
    exact hev _ (hkeeps _ (JobHistory.contains_iff.2 ⟨m, hm⟩)) hrun
  · intro σ runs h
    exact ⟨h.nodup, fun r hr => .inr (by simp)⟩
  · intro t a a' runs new ht hhist _ hmove h
    exact h.move ht.own hhist hmove

end LaunchedOnce

/-- **At most once within a life.** In a run that evicts nothing from the history, and in which no
session opens before a job that this life launched and that may still run, no job is launched
twice. -/
theorem launches_nodup [CollisionFree] {current : VersionInfo} {own : BaseboardId}
    {anchors : List Certificate} {past : Past} {s₀ : State}
    (h₀ : State.new current own anchors past = .ok s₀) (ticks : List Tick)
    (hkeeps : Always State.step (fun s _ tick => s.Keeps tick) s₀ [] ticks)
    (hsettled : Always State.step (fun s os tick => s.Settled (launches os) tick) s₀ [] ticks) :
    ((launches (s₀.run ticks).2).map Run.jobId).Nodup := by
  obtain ⟨-, -, -, hinactive, -, -⟩ := new_eq h₀
  have hrun := run_invariant_of_always State.step
    (P := fun s ticks os => SameLife s₀ s ∧ QueueOk ticks s ∧
      LaunchedOnce s₀.rack.ownBaseboard s.session s.history (launches os))
    (fun s ticks os tick hstep h => ?_) (hkeeps.and hsettled)
    ⟨.refl s₀, .of_inactive hinactive, by simp, by simp⟩
  · exact hrun.2.2.nodup
  · rw [launches_append]
    exact ⟨h.1.step, h.2.1.step, h.2.2.step h.1 h.2.1 hstep.1 hstep.2⟩

end

end Sush

namespace Sush.Terms

open Lib SkipChain

attribute [local instance] world hashing crypto collisionFree

/-- A session launches its first job, is stopped and started again, and the job is delivered a second
time, now as a replay. -/
def restartTwice : List Tick :=
  [start (10 : ℕ) (7 : ℕ) 5, job (10 : ℕ) (7 : ℕ) (firstJob 5) [(0 : ℕ)], stop (10 : ℕ) (7 : ℕ) 5,
    start (10 : ℕ) (7 : ℕ) 5, job (9 : ℕ) (7 : ℕ) (firstJob 5) [(0 : ℕ)]]

/-- The job is launched twice, although the history never has more than one entry. -/
theorem launched_twice_restart :
    launched (life (0 : ℕ) (10 : ℕ) none) restartTwice = [(firstJob 5).jobId, (firstJob 5).jobId] ∧
    ∀ n ≤ 5, ((life (0 : ℕ) (10 : ℕ) none).run (restartTwice.take n)).1.history.jobStatus.size ≤ 1 := by
  refine ⟨rfl, ?_⟩
  decide +kernel

theorem keeps_of_keys {s : State} {tick : Tick}
    (h : ∀ jobId ∈ s.history.jobStatus.keys, (s.step tick).1.history.contains jobId = true) :
    s.Keeps tick := fun jobId hmem => h jobId (Std.ExtTreeMap.mem_keys.2 hmem)

/-- The news that a job has started here. -/
def started (version : Version) (r : JobStartRequest) : Tick where
  now := 0
  network := some (0 : ℕ)
  input := .gossip version (.v0 (.event (0 : ℕ) (.job (.start r.jobId 0))))

/-- The same restart, after the news that the job has started. -/
def restartOnce : List Tick :=
  [start (10 : ℕ) (7 : ℕ) 5, job (10 : ℕ) (7 : ℕ) (firstJob 5) [(0 : ℕ)], started (10 : ℕ) (firstJob 5),
    stop (10 : ℕ) (7 : ℕ) 5, start (10 : ℕ) (7 : ℕ) 5, job (9 : ℕ) (7 : ℕ) (firstJob 5) [(0 : ℕ)]]

theorem launches_nodup_restartOnce :
    ((launches ((life (0 : ℕ) (10 : ℕ) none).run restartOnce).2).map Run.jobId).Nodup := by
  have hnone : ∀ (s : State) runs tick, s.opening tick = none → s.Settled runs tick := by
    intro s runs tick h sessionId start hopen
    rw [h] at hopen
    cases hopen
  refine launches_nodup (new_life (0 : ℕ) (10 : ℕ) none) restartOnce ?_ ?_
  · refine ⟨keeps_of_keys ?_, keeps_of_keys ?_, keeps_of_keys ?_, keeps_of_keys ?_, keeps_of_keys ?_,
      keeps_of_keys ?_, trivial⟩ <;> decide +kernel
  · refine ⟨hnone _ _ _ rfl, fun _ _ _ r hr => absurd hr (List.not_mem_nil), hnone _ _ _ rfl,
      hnone _ _ _ rfl, hnone _ _ _ rfl, ?_, trivial⟩
    rintro _ _ ⟨⟩ r hr -
    obtain rfl := List.mem_singleton.1 hr
    rfl

end Sush.Terms
