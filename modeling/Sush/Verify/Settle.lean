import Sush.Verify.Eviction
import Sush.Verify.Statuses

/-!
# Settling the past

Once all messages at hand are drained, a life rules on the jobs that a previous life left behind: it
declares interrupted every job that a replayed start of this sled says is running, and it announces how
the job of the boundary record ended if replay gave that job no status. The first remembers its rulings
in `reaped` and the second in `adjudicated`, and neither looks at the memory of the other. So a start
of the boundary job that is replayed after the record was ruled on brings a second verdict
(`ruled_twice_lateStart`). Where this does not happen, and no ruled job is forgotten by the history
before the record is looked at, each job is ruled on at most once (`rulings_nodup`). And a verdict is
only ever passed on a job that was really left behind (`interrupted_leftover`).
-/

namespace Sush

open Lib

section

variable [World] [Crypto]

/-! ## What a step does to the past -/

/-- The zombie marks after an event. -/
def State.zombiesAfter (s : State) (version : Version) (baseboard : BaseboardId) :
    JobEvent → BTreeSet JobId
  | .start jobId _ =>
    if s.isSettledOn jobId baseboard = false ∧ baseboard = s.rack.ownBaseboard ∧
        s.past.isLive version = false then
      s.past.zombies.insert jobId
    else s.past.zombies
  | .stop jobId _ _ _ | .error jobId _ _ =>
    if baseboard = s.rack.ownBaseboard then s.past.zombies.erase jobId else s.past.zombies
  | .skipped _ _ _ => s.past.zombies

theorem past_handleJobEvent (s : State) (version : Version) (baseboard : BaseboardId)
    (event : JobEvent) : (s.handleJobEvent version baseboard event).1.past =
      { s.past with zombies := s.zombiesAfter version baseboard event } := by
  cases event with
  | start jobId when_ =>
    simp only [State.handleJobEvent, State.zombiesAfter]
    cases hsettled : s.isSettledOn jobId baseboard with
    | true => simp
    | false =>
      simp only [Bool.false_eq_true, if_false, true_and, Bool.not_eq_true]
      split <;> rfl
  | stop jobId when_ result output | error jobId when_ cause =>
    simp only [State.handleJobEvent, State.zombiesAfter, State.transition, State.clearEnded]
    split <;> rfl
  | skipped jobId when_ reason => rfl

variable [Hashing]

variable {jobId : JobId} {s : State} {event : JobEvent}

/-- The input is neither an event of a job nor the end of a drain. -/
def Input.LeavesPast : Input → Prop
  | .gossip _ (.v0 (.event _ (.job _))) | .drained => False
  | _ => True

section PastStep

variable {s : State} {tick : Tick}

theorem past_job {actor : KeyId} {queued : QueuedJob} (haccept : s.Accepts tick actor queued) :
    (s.step tick).1.past = s.past := by
  by_cases hmine : ∃ a, (s.opened tick).session = .active a ∧
      a.session.sessionId = queued.job.payload.sessionId
  · obtain ⟨a, ha, hsession⟩ := hmine
    obtain ⟨b, js, a', p, -, -, -, heq⟩ := step_job_eq haccept ha hsession
    obtain ⟨c, -, -, he⟩ := enqueueJob_active (s := { s with session := .active a }) rfl tick.now
      queued actor
    rw [heq, he]
  · obtain ⟨p, heq⟩ := step_refused_eq haccept fun a ha hid => hmine ⟨a, ha, hid⟩
    rw [heq]

theorem past_request {version : Version} {request : Request}
    (hinput : tick.input = .gossip version (.v0 (.request request))) :
    (s.step tick).1.past = s.past := by
  cases request with
  | session actor request =>
    simp only [State.step, hinput, State.update]
    cases request with
    | start preimage =>
      simp only [State.handleSessionRequest, State.startSession]
      repeat' split
      all_goals rfl
    | stop sessionId | allowAttach sessionId keyId access | denyAttach sessionId keyId =>
      exact asStarter_rec (P := fun r => r.1.past = s.past) rfl fun a _ _ _ => rfl
    | skip sessionId jobId =>
      refine asStarter_rec (P := fun r => r.1.past = s.past) rfl fun a ha _ _ => ?_
      cases hskip : a.session.canSkip jobId with
      | false =>
        unfold State.skipJob Session.skipJob
        rw [hskip]
        rfl
      | true =>
        obtain ⟨js, a', -, heq⟩ := skipJob_eq tick.now tick.network version actor ha hskip
        rw [heq]
  | job actor request =>
    cases request with
    | start signed params sleds =>
      cases hverify : s.certs.verify signed with
      | error e => simp only [State.step, hinput, State.update, State.handleJobRequest, hverify]
      | ok job =>
        obtain rfl := Certificates.signed_of_verify hverify
        have haccept : s.Accepts tick actor ⟨job, params, sleds, !s.past.isLive version⟩ :=
          ⟨version, hinput, hverify, rfl⟩
        exact past_job haccept
    | stop jobId =>
      simp only [State.step, hinput, State.update, State.handleJobRequest]
      split
      · rfl
      · split
        · rfl
        · unfold State.cancelJob
          split <;> rfl

theorem past_step (h : tick.input.LeavesPast) : (s.step tick).1.past = s.past := by
  obtain ⟨now, network, input⟩ := tick
  cases input with
  | cubbies cubbies => rfl
  | drained => exact h.elim
  | gossip version message =>
    cases message with
    | unknown unknown message => rfl
    | v0 message =>
      cases message with
      | event baseboard event =>
        cases event with
        | version info => rfl
        | job event => exact h.elim
      | request request => exact past_request rfl

omit [Hashing] in
theorem zombies_event {version : Version} {baseboard : BaseboardId}
    (h : (s.zombiesAfter version baseboard event).contains jobId = true) :
    s.past.zombies.contains jobId = true ∨
      (∃ when_, event = .start jobId when_) ∧ s.isSettledOn jobId baseboard = false ∧
        baseboard = s.rack.ownBaseboard ∧ s.past.isLive version = false := by
  cases event with
  | start j when_ =>
    simp only [State.zombiesAfter] at h
    split at h
    · next hmark =>
      rw [Std.ExtTreeSet.contains_insert, Bool.or_eq_true, beq_iff_eq, compare_eq_iff_eq] at h
      rcases h with rfl | h
      · exact .inr ⟨⟨when_, rfl⟩, hmark⟩
      · exact .inl h
    · exact .inl h
  | stop j when_ result output | error j when_ cause =>
    simp only [State.zombiesAfter] at h
    split at h
    · rw [Std.ExtTreeSet.contains_erase, Bool.and_eq_true] at h
      exact .inl h.2
    · exact .inl h
  | skipped j when_ reason => exact .inl h

omit [Crypto] [Hashing] in
theorem Input.past_cases (input : Input) : input = .drained ∨ input.LeavesPast ∨
    ∃ version baseboard event, input = .gossip version (.v0 (.event baseboard (.job event))) := by
  cases input with
  | cubbies cubbies => exact .inr (.inl trivial)
  | drained => exact .inl rfl
  | gossip version message =>
    cases message with
    | unknown unknown message => exact .inr (.inl trivial)
    | v0 message =>
      cases message with
      | request request => exact .inr (.inl trivial)
      | event baseboard event =>
        cases event with
        | version info => exact .inr (.inl trivial)
        | job event => exact .inr (.inr ⟨version, baseboard, event, rfl⟩)

theorem past_of_not_drained (h : tick.input ≠ .drained) : (s.step tick).1.past =
    { s.past with zombies := (s.step tick).1.past.zombies } := by
  rcases tick.input.past_cases with hdrained | hleaves | ⟨version, baseboard, event, hinput⟩
  · exact absurd hdrained h
  · rw [past_step hleaves]
  · rw [step_event hinput, past_handleJobEvent]

theorem zombies_step (h : (s.step tick).1.past.zombies.contains jobId = true) :
    s.past.zombies.contains jobId = true ∨
      ∃ version when_, tick.input =
          .gossip version (.v0 (.event s.rack.ownBaseboard (.job (.start jobId when_)))) ∧
        s.isSettledOn jobId s.rack.ownBaseboard = false ∧ s.past.isLive version = false := by
  rcases tick.input.past_cases with hdrained | hleaves | ⟨version, baseboard, event, hinput⟩
  · obtain ⟨reaped, heq, -⟩ := settle_eq s tick.now tick.network
    simp only [State.step, hdrained, heq] at h
    exact .inl h
  · rw [past_step hleaves] at h
    exact .inl h
  · rw [step_event hinput, past_handleJobEvent] at h
    rcases zombies_event h with hold | ⟨⟨when_, rfl⟩, hsettled, rfl, hreplayed⟩
    · exact .inl hold
    · exact .inr ⟨version, when_, hinput, hsettled, hreplayed⟩

theorem runningOk_step (h : s.history.RunningOk) : (s.step tick).1.history.RunningOk := by
  rcases step_writes s tick with heq | ⟨jobId, baseboard, new, rank, queue, -, heq⟩
  · rwa [heq]
  · rw [heq]
    exact h.setJobStatus

omit [Crypto] [Hashing] in
theorem JobEvent.next_started {old : Option JobStatus} {id : JobId} {time : DateTime}
    (h : event.next old = some (.started id time)) :
    event = .start id time ∧ old.any JobStatus.isTerminal = false := by
  cases event with
  | start jobId when_ =>
    unfold JobEvent.next at h
    simp only at h
    split at h
    · cases h
    · next hold =>
      cases h
      exact ⟨rfl, by simpa using hold⟩
  | stop jobId when_ result output =>
    unfold JobEvent.next State.stopTransition at h
    simp only at h
    split at h <;> cases h
  | error jobId when_ cause | skipped jobId when_ cause =>
    unfold JobEvent.next State.endTransition at h
    simp only at h
    split at h <;> cases h

theorem running_step (hok : s.history.RunningOk) {baseboard : BaseboardId}
    (hrun : (s.step tick).1.history.running.contains (toLex (jobId, baseboard)) = true) :
    s.history.running.contains (toLex (jobId, baseboard)) = true ∨
      ∃ version when_, tick.input =
          .gossip version (.v0 (.event baseboard (.job (.start jobId when_)))) ∧
        s.isSettledOn jobId baseboard = false := by
  obtain ⟨id, time, hstatus⟩ := (runningOk_step hok).started hrun
  rcases statusOn_step s tick jobId baseboard with ⟨new, hw, hnew⟩ | hsame | ⟨-, hnone⟩
  · obtain rfl : new = .started id time := Option.some.inj (hnew.symm.trans hstatus)
    right
    generalize hstarted : JobStatus.started id time = new at hw
    cases hw with
    | @event version _ event _ hinput hnext =>
      subst hstarted
      obtain ⟨rfl, hold⟩ := JobEvent.next_started hnext
      exact ⟨version, time, hinput, hold⟩
    | enqueue => cases hstarted
    | cancel _ _ _ _ _ hnext =>
      subst hstarted
      unfold State.cancelTransition at hnext
      split at hnext <;> cases hnext
  · rw [hsame] at hstatus
    exact .inl (BTreeMap.contains_iff.2 ⟨time, (hok jobId baseboard time).2 ⟨id, hstatus⟩⟩)
  · rw [hnone] at hstatus
    cases hstatus

end PastStep

/-! ## One ruling per job -/

def Output.subject? : Output → Option JobId
  | .gossip (.event _ (.job event)) => some event.jobId
  | _ => none

/-- The jobs that a step rules on: those it reaps, and the boundary job if it announces an ending for
it. -/
def State.rulings (s : State) (tick : Tick) : List JobId :=
  match tick.input with
  | .drained =>
    let (s', reaped) := s.reapZombies tick.now
    reaped.filterMap Output.subject? ++
      if tick.network.isSome then
        ((s'.adjudicateBoundary tick.now).2.head?.bind Output.subject?).toList
      else []
  | _ => []

def State.ruleStep (s : State) (tick : Tick) : State × List JobId := ((s.step tick).1, s.rulings tick)

/-- The boundary job, if settling now rules on it. -/
def State.adjudged (s : State) (network : Option Network) : Option JobId :=
  (s.past.boundary.map Boundary.job).filter fun jobId =>
    network.isSome ∧ s.past.adjudicated ≠ some jobId ∧
      s.history.statusOn jobId s.rack.ownBaseboard = none

section Rulings

variable {s : State} {tick : Tick}

omit [Crypto] [Hashing] in
theorem endingEvents_head (now : DateTime) (jobId : JobId) (status : Option JobStatus) :
    ∃ event rest, State.endingEvents now jobId status = event :: rest ∧ event.jobId = jobId := by
  unfold State.endingEvents
  split <;> exact ⟨_, _, rfl, rfl⟩

omit [Hashing] in
theorem head_ruling (s : State) (now : DateTime) {network : Option Network}
    (hnetwork : network.isSome = true) :
    ((s.ruling now).map (Output.jobEvent s.rack.ownBaseboard)).head?.bind Output.subject? =
      s.adjudged network := by
  unfold State.ruling State.adjudged
  cases s.past.boundary with
  | none => rfl
  | some boundary =>
    by_cases hruled : s.past.adjudicated = some boundary.job
    · simp [hruled, Option.filter]
    · by_cases hstatus : s.history.statusOn boundary.job s.rack.ownBaseboard = none
      · obtain ⟨event, rest, heq, hid⟩ := endingEvents_head now boundary.job boundary.status
        simp [hruled, hstatus, hnetwork, heq, Output.jobEvent, Output.subject?, hid, Option.filter]
      · simp [hruled, hstatus, Option.isSome_iff_ne_none, Option.filter]

omit [Hashing] in
theorem rulings_drained (hinput : tick.input = .drained) :
    s.rulings tick = s.leftovers ++ (s.adjudged tick.network).toList := by
  obtain ⟨reaped, heq, -⟩ := reapZombies_eq s tick.now
  have hreaped : (s.leftovers.map fun jobId => Output.jobEvent s.rack.ownBaseboard
      (.error jobId tick.now .interrupted)).filterMap Output.subject? = s.leftovers := by
    rw [List.filterMap_map]
    exact List.filterMap_some
  unfold State.rulings
  simp only [hinput, heq, hreaped, adjudicateBoundary_eq]
  congr 1
  cases hnetwork : tick.network.isSome with
  | true =>
    rw [← head_ruling s tick.now hnetwork]
    rfl
  | false => simp [State.adjudged, hnetwork]

omit [Hashing] in
theorem adjudged_eq_some {network : Option Network} (h : s.adjudged network = some jobId) :
    network.isSome = true ∧
      s.past.boundary.map Boundary.job = some jobId ∧ s.past.adjudicated ≠ some jobId ∧
      s.history.statusOn jobId s.rack.ownBaseboard = none := by
  obtain ⟨hboundary, hrest⟩ := Option.filter_eq_some_iff.1 h
  simp only [decide_eq_true_eq] at hrest
  exact ⟨hrest.1, hboundary, hrest.2⟩

omit [Hashing] in
theorem mem_leftovers :
    jobId ∈ s.leftovers ↔
      s.past.zombies.contains jobId = true ∧
        s.history.running.contains (toLex (jobId, s.rack.ownBaseboard)) = true ∧
        s.past.reaped.contains jobId = false := by
  unfold State.leftovers State.zombies
  rw [List.mem_filter, List.mem_filter, Std.ExtTreeSet.mem_toList, Std.ExtTreeSet.mem_iff_contains]
  simp only [Bool.not_eq_true', and_assoc]

/-- The step makes no second ruling possible. A start of this sled for a boundary job that has been
ruled on is live, and the job bears no mark from before; and no job that was reaped has lost its status
when the boundary record is ruled on. -/
def State.RulesOnce (s : State) (tick : Tick) : Prop :=
  (∀ version jobId when_, tick.input =
      .gossip version (.v0 (.event s.rack.ownBaseboard (.job (.start jobId when_)))) →
    s.past.adjudicated = some jobId → s.isSettledOn jobId s.rack.ownBaseboard = false →
    s.past.reaped.contains jobId = false →
    s.past.isLive version = true ∧ s.past.zombies.contains jobId = false) ∧
  (tick.input = .drained → ∀ jobId, s.adjudged tick.network = some jobId →
    s.past.reaped.contains jobId = false)

/-- What a ruling leaves: a job that was ruled on is marked as reaped, or it is the boundary job, which
was adjudicated and which nothing will reap. -/
structure Ruled (s : State) (rulings : List JobId) : Prop where
  running : s.history.RunningOk
  nodup : rulings.Nodup
  done : ∀ jobId ∈ rulings, s.past.reaped.contains jobId = true ∨
    s.past.boundary.map Boundary.job = some jobId ∧ s.past.adjudicated = some jobId ∧
      ¬(s.past.zombies.contains jobId = true ∧
        s.history.running.contains (toLex (jobId, s.rack.ownBaseboard)) = true)

theorem ownBaseboard_step (s : State) (tick : Tick) :
    (s.step tick).1.rack.ownBaseboard = s.rack.ownBaseboard :=
  (SameLife.refl s).step.own

theorem Ruled.settle {rulings : List JobId} (h : Ruled s rulings)
    (hkept : ∀ jobId, s.adjudged tick.network = some jobId → s.past.reaped.contains jobId = false)
    (hdrained : tick.input = .drained) : Ruled (s.step tick).1 (rulings ++ s.rulings tick) := by
  rw [rulings_drained hdrained]
  -- a job without a status does not run
  have hstill : ∀ jobId, s.adjudged tick.network = some jobId →
      ¬s.history.running.contains (toLex (jobId, s.rack.ownBaseboard)) = true := by
    intro jobId hjob hrun
    obtain ⟨id, time, hstatus⟩ := h.running.started hrun
    rw [(adjudged_eq_some hjob).2.2.2] at hstatus
    cases hstatus
  have hleft : ∀ jobId ∈ s.leftovers, jobId ∉ rulings := by
    intro jobId hleft hold
    obtain ⟨hzombie, hrun, hunreaped⟩ := mem_leftovers.1 hleft
    rcases h.done jobId hold with hreaped | ⟨-, -, hsafe⟩
    · rw [hunreaped] at hreaped
      cases hreaped
    · exact hsafe ⟨hzombie, hrun⟩
  have hjudged : ∀ jobId, s.adjudged tick.network = some jobId → jobId ∉ rulings := by
    intro jobId hjob hold
    rcases h.done jobId hold with hreaped | ⟨-, hadjudicated, -⟩
    · rw [hkept jobId hjob] at hreaped
      cases hreaped
    · exact (adjudged_eq_some hjob).2.2.1 hadjudicated
  obtain ⟨reaped, heq, hmem⟩ := settle_eq s tick.now tick.network
  have hsettle : s.step tick = s.settle tick.now tick.network := by
    simp only [State.step, hdrained]
  refine ⟨runningOk_step h.running, ?_, ?_⟩
  · refine List.nodup_append'.2 ⟨h.nodup, List.nodup_append'.2 ⟨(nodup_zombies s).filter _, ?_, ?_⟩, ?_⟩
    · cases s.adjudged tick.network with
      | none => exact List.nodup_nil
      | some jobId => exact List.nodup_singleton jobId
    · intro jobId hreap hjob
      exact hstill jobId (Option.mem_toList.1 hjob) (mem_leftovers.1 hreap).2.1
    · intro jobId hold hnew
      rcases List.mem_append.1 hnew with hreap | hjob
      · exact hleft jobId hreap hold
      · exact hjudged jobId (Option.mem_toList.1 hjob) hold
  · rw [hsettle, heq]
    intro jobId hjob
    rcases List.mem_append.1 hjob with hold | hnew
    · rcases h.done jobId hold with hreaped | ⟨hboundary, hadjudicated, hsafe⟩
      · exact .inl ((hmem jobId).2 (.inl hreaped))
      · refine .inr ⟨hboundary, ?_, hsafe⟩
        simp only [hboundary, hadjudicated, Option.some_or, ite_self]
    · rcases List.mem_append.1 hnew with hreap | hjob
      · exact .inl ((hmem jobId).2 (.inr (List.mem_of_mem_filter hreap)))
      · have hjob := Option.mem_toList.1 hjob
        obtain ⟨hnetwork, hboundary, -, -⟩ := adjudged_eq_some hjob
        refine .inr ⟨hboundary, ?_, fun hrun => hstill jobId hjob hrun.2⟩
        simp only [hnetwork, if_true, hboundary, Option.some_or]

theorem Ruled.step {rulings : List JobId} (hstep : s.RulesOnce tick) (h : Ruled s rulings) :
    Ruled (s.step tick).1 (rulings ++ s.rulings tick) := by
  have hown := ownBaseboard_step s tick
  by_cases hdrained : tick.input = .drained
  · exact h.settle (hstep.2 hdrained) hdrained
  · have hnone : s.rulings tick = [] := by
      unfold State.rulings
      split
      · next heq => exact absurd heq hdrained
      · rfl
    rw [hnone, List.append_nil]
    have hpast := past_of_not_drained (s := s) hdrained
    refine ⟨runningOk_step h.running, h.nodup, fun jobId hjob => ?_⟩
    rcases h.done jobId hjob with hreaped | ⟨hboundary, hadjudicated, hsafe⟩
    · left
      rw [hpast]
      exact hreaped
    · by_cases hreaped : s.past.reaped.contains jobId = true
      · left
        rw [hpast]
        exact hreaped
      · refine .inr ⟨by rw [hpast]; exact hboundary, by rw [hpast]; exact hadjudicated, ?_⟩
        rintro ⟨hzombie, hrun⟩
        rw [hown] at hrun
        -- the mark and the start both come from before, or one comes from a start that is not allowed
        rcases zombies_step hzombie with hzombie | ⟨version, when_, hinput, hsettled, hreplayed⟩
        · rcases running_step h.running hrun with hrun | ⟨version, when_, hinput, hsettled⟩
          · exact hsafe ⟨hzombie, hrun⟩
          · have hunmarked := (hstep.1 version jobId when_ hinput hadjudicated hsettled
              (Bool.eq_false_iff.2 hreaped)).2
            rw [hzombie] at hunmarked
            cases hunmarked
        · have hlive := (hstep.1 version jobId when_ hinput hadjudicated hsettled
            (Bool.eq_false_iff.2 hreaped)).1
          rw [hreplayed] at hlive
          cases hlive

end Rulings

/-- **One ruling per job and life.** In every run of a life in which no step makes a second ruling
possible, no job is ruled on twice, whether by reaping, by adjudication, or by both. -/
theorem rulings_nodup {current : VersionInfo} {own : BaseboardId} {anchors : List Certificate}
    {past : Past} {s₀ : State} (h₀ : State.new current own anchors past = .ok s₀) (ticks : List Tick)
    (honce : Always State.ruleStep (fun s _ tick => s.RulesOnce tick) s₀ [] ticks) :
    (run State.ruleStep s₀ ticks).2.Nodup := by
  obtain ⟨-, -, -, -, hempty, -⟩ := new_eq h₀
  have hinit : Ruled s₀ [] := by
    refine ⟨?_, List.nodup_nil, fun jobId hjob => absurd hjob List.not_mem_nil⟩
    rw [hempty]
    exact .empty
  exact (run_invariant_of_always State.ruleStep (P := fun s _ rulings => Ruled s rulings)
    (fun s _ rulings tick hstep h => h.step hstep) honce hinit).nodup

/-! ## Only leftovers are declared interrupted -/

/-- A replayed start of this sled has set the status of the job, and every event of this sled about the
job since then was a start. -/
def LeftRunning (s₀ : State) (ticks : List Tick) (own : BaseboardId) (jobId : JobId) : Prop :=
  ∃ pre tick post version when_, ticks = pre ++ tick :: post ∧
    tick.input = .gossip version (.v0 (.event own (.job (.start jobId when_)))) ∧
    (s₀.run pre).1.past.isLive version = false ∧ (s₀.run pre).1.isSettledOn jobId own = false ∧
    ∀ later ∈ post, ∀ event, later.eventOf jobId own = some event → ∃ when_, event = .start jobId when_

/-- Every zombie has started, and while it runs it was left running. -/
def ZombiesOk (s₀ : State) (ticks : List Tick) (s : State) : Prop :=
  ∀ jobId, s.past.zombies.contains jobId = true →
    2 ≤ phase (s.history.statusOn jobId s.rack.ownBaseboard) ∧
      ∀ id time, s.history.statusOn jobId s.rack.ownBaseboard = some (.started id time) →
        LeftRunning s₀ ticks s.rack.ownBaseboard jobId

section Leftovers

variable {s₀ : State} {ticks : List Tick} {tick : Tick} {own : BaseboardId} {jobId : JobId}

theorem LeftRunning.concat (h : LeftRunning s₀ ticks own jobId)
    (htick : ∀ event, tick.eventOf jobId own = some event → ∃ when_, event = .start jobId when_) :
    LeftRunning s₀ (ticks ++ [tick]) own jobId := by
  obtain ⟨pre, start, post, version, when_, rfl, hinput, hreplayed, hopen, hlater⟩ := h
  refine ⟨pre, start, post ++ [tick], version, when_, by simp, hinput, hreplayed, hopen, ?_⟩
  intro later hmem
  rcases List.mem_append.1 hmem with hmem | hmem
  · exact hlater later hmem
  · rw [List.mem_singleton.1 hmem]
    exact htick

/-- A zombie that runs before and after a step saw no event of this sled that ends it. -/
theorem eventOf_zombie (hretains : s.Retains tick) {id id' : JobId} {time time' : DateTime}
    (hbefore : s.history.statusOn jobId s.rack.ownBaseboard = some (.started id time))
    (hafter : (s.step tick).1.history.statusOn jobId s.rack.ownBaseboard =
      some (.started id' time')) (hzombie : (s.step tick).1.past.zombies.contains jobId = true)
    (hevent : tick.eventOf jobId s.rack.ownBaseboard = some event) :
    ∃ when_, event = .start jobId when_ := by
  obtain ⟨rfl, version, hinput⟩ := eventOf_eq_some.1 hevent
  cases event with
  | start jobId when_ => exact ⟨when_, rfl⟩
  | stop jobId when_ result output | error jobId when_ cause =>
    exfalso
    rw [step_event hinput, past_handleJobEvent] at hzombie
    simp [State.zombiesAfter, JobEvent.jobId] at hzombie
  | skipped jobId when_ reason =>
    exfalso
    have hnext : (JobEvent.skipped jobId when_ reason).next (s.history.statusOn
        (JobEvent.skipped jobId when_ reason).jobId s.rack.ownBaseboard) =
        some (.skipped jobId when_ reason) := by
      rw [hbefore]
      rfl
    cases hafter.symm.trans (hretains.statusOn_of_writes (.event hinput hnext))

theorem ZombiesOk.step (hs : s = (s₀.run ticks).1) (hretains : s.Retains tick)
    (h : ZombiesOk s₀ ticks s) : ZombiesOk s₀ (ticks ++ [tick]) (s.step tick).1 := by
  intro jobId hzombie
  rw [ownBaseboard_step]
  rcases zombies_step hzombie with hold | ⟨version, when_, hinput, hsettled, hreplayed⟩
  · obtain ⟨hphase, hleft⟩ := h jobId hold
    have hafter := hphase.trans (hretains.advances jobId s.rack.ownBaseboard).phase
    refine ⟨hafter, fun id time hstarted => ?_⟩
    -- a status that has begun and is `started` now was `started` before
    have hle := (hretains.advances jobId s.rack.ownBaseboard).phase
    rw [hstarted] at hle
    cases hbefore : s.history.statusOn jobId s.rack.ownBaseboard with
    | none => rw [hbefore] at hphase; simp at hphase
    | some status =>
      rw [hbefore] at hphase hle
      cases status with
      | started id' time' =>
        exact (hleft id' time' hbefore).concat fun event =>
          eventOf_zombie hretains hbefore hstarted hzombie
      | queued | cancelled | error | stopped | skipped => simp at hphase hle
  · have hnext : (JobEvent.start jobId when_).next
        (s.history.statusOn jobId s.rack.ownBaseboard) = some (.started jobId when_) :=
      if_neg (Bool.eq_false_iff.1 hsettled)
    have hstarted : (s.step tick).1.history.statusOn jobId s.rack.ownBaseboard =
        some (.started jobId when_) := hretains.statusOn_of_writes (.event hinput hnext)
    refine ⟨by rw [hstarted]; simp, fun _ _ _ => ?_⟩
    subst hs
    exact ⟨ticks, tick, [], version, when_, rfl, hinput, hreplayed, hsettled,
      fun later hlater => absurd hlater List.not_mem_nil⟩

omit [Crypto] [Hashing] in
theorem interrupted_endingEvents {now when_ : DateTime} {job jobId : JobId}
    {status : Option JobStatus}
    (h : JobEvent.error jobId when_ .interrupted ∈ State.endingEvents now job status) :
    job = jobId ∧ ∀ id timeStarted timeStopped result output,
      status ≠ some (.stopped id timeStarted timeStopped result output) := by
  unfold State.endingEvents at h
  split at h
  · simp at h
  · cases List.mem_singleton.1 h
    exact ⟨rfl, fun _ _ _ _ _ => nofun⟩
  · next hstopped _ =>
    cases List.mem_singleton.1 h
    exact ⟨rfl, fun _ _ _ _ _ heq => hstopped _ _ _ _ _ heq⟩

omit [Hashing] in
theorem mem_ruling {now : DateTime} (h : event ∈ s.ruling now) :
    ∃ boundary, s.past.boundary = some boundary ∧
      s.history.statusOn boundary.job s.rack.ownBaseboard = none ∧
      event ∈ State.endingEvents now boundary.job boundary.status := by
  unfold State.ruling at h
  split at h
  · cases h
  · next boundary hboundary =>
    split at h
    · cases h
    · next hopen =>
      refine ⟨boundary, hboundary, ?_, h⟩
      simpa using (not_or.1 hopen).2

theorem ZombiesOk.leftover (h : ZombiesOk s₀ ticks s) (hrunning : s.history.RunningOk)
    (hleft : jobId ∈ s.leftovers) :
    LeftRunning s₀ ticks s.rack.ownBaseboard jobId ∧
      ∀ status, s.history.statusOn jobId s.rack.ownBaseboard = some status →
        status.isTerminal = false := by
  obtain ⟨hzombie, hrun, -⟩ := mem_leftovers.1 hleft
  obtain ⟨id, time, hstarted⟩ := hrunning.started hrun
  refine ⟨(h jobId hzombie).2 id time hstarted, fun status hstatus => ?_⟩
  obtain rfl := Option.some.inj (hstarted.symm.trans hstatus)
  rfl

omit [Hashing] in
/-- Adjudication declares interrupted only the job of the record of this universe, if it has no status
here and no stop on record. -/
theorem interrupted_ruling {now when_ : DateTime}
    (h : .error jobId when_ .interrupted ∈ s.ruling now) :
    ∃ boundary, s.past.committed = some boundary ∧ boundary.network = s.past.network ∧
      boundary.job = jobId ∧ s.history.statusOn jobId s.rack.ownBaseboard = none ∧
      ∀ id timeStarted timeStopped result output,
        boundary.status ≠ some (.stopped id timeStarted timeStopped result output) := by
  obtain ⟨boundary, hboundary, hnone, hending⟩ := mem_ruling h
  obtain ⟨rfl, hstopped⟩ := interrupted_endingEvents hending
  obtain ⟨hcommitted, hnetwork⟩ := Option.filter_eq_some_iff.1 hboundary
  exact ⟨boundary, hcommitted, of_decide_eq_true hnetwork, rfl, hnone, hstopped⟩

theorem zombiesOk_run (hempty : s₀.history = .empty) (hnone : s₀.past.zombies = ∅)
    (hretains : Always State.step (fun s _ tick => s.Retains tick) s₀ [] ticks) :
    (s₀.run ticks).1.history.RunningOk ∧ ZombiesOk s₀ ticks (s₀.run ticks).1 := by
  have hrun := run_invariant_of_always State.step
    (P := fun s ticks _ => s = (s₀.run ticks).1 ∧ s.history.RunningOk ∧ ZombiesOk s₀ ticks s)
    (fun s ticks _ tick hstep h => ?_) hretains ⟨rfl, ?_, ?_⟩
  · exact hrun.2
  · obtain ⟨hs, hrunning, hzombies⟩ := h
    refine ⟨?_, runningOk_step hrunning, hzombies.step hs hstep⟩
    unfold State.run at hs ⊢
    rw [run_concat, ← hs]
  · rw [hempty]
    exact .empty
  · intro jobId hzombie
    rw [hnone] at hzombie
    cases hzombie

end Leftovers

/-- **Only leftovers are declared interrupted.** In every run of a life that evicts nothing, what
settling reaps was started by a replayed start of this sled, and no event of this sled has ended it
since, so its status is no ending. Any other job it declares interrupted is that of the record of this
universe, has no status here, and has no stop on record. -/
theorem interrupted_leftover {current : VersionInfo} {own : BaseboardId}
    {anchors : List Certificate} {birth : Version} {committed : Option Boundary} {network : Network}
    {s₀ : State} (h₀ : State.new current own anchors (Past.new birth committed network) = .ok s₀)
    (ticks : List Tick)
    (hretains : Always State.step (fun s _ tick => s.Retains tick) s₀ [] ticks) (tick : Tick)
    (hdrained : tick.input = .drained) :
    (∀ o ∈ ((s₀.run ticks).1.reapZombies tick.now).2,
      ∃ jobId, o = .jobEvent own (.error jobId tick.now .interrupted) ∧
        LeftRunning s₀ ticks own jobId ∧
        ∀ status, (s₀.run ticks).1.history.statusOn jobId own = some status →
          status.isTerminal = false) ∧
    ∀ jobId when_, .jobEvent own (.error jobId when_ .interrupted) ∈
        ((s₀.run ticks).1.step tick).2 →
      .jobEvent own (.error jobId when_ .interrupted) ∈ ((s₀.run ticks).1.reapZombies tick.now).2 ∨
      ∃ boundary, committed = some boundary ∧ boundary.network = network ∧ boundary.job = jobId ∧
        (s₀.run ticks).1.history.statusOn jobId own = none ∧
        ∀ id timeStarted timeStopped result output,
          boundary.status ≠ some (.stopped id timeStarted timeStopped result output) := by
  obtain ⟨-, hown, hpast, -, hempty, -⟩ := new_eq h₀
  obtain ⟨hrunning, hzombies⟩ := zombiesOk_run hempty (by rw [hpast]; rfl) hretains
  have hlife := sameLife_run s₀ ticks
  generalize (s₀.run ticks).1 = s at hlife hrunning hzombies ⊢
  have hsame : s.rack.ownBaseboard = own := hlife.own.trans hown
  subst hsame
  obtain ⟨reaped, hreap, -⟩ := reapZombies_eq s tick.now
  rw [hreap]
  constructor
  · intro o ho
    obtain ⟨jobId, hleft, rfl⟩ := List.mem_map.1 ho
    exact ⟨jobId, rfl, hzombies.leftover hrunning hleft⟩
  · intro jobId when_ hmem
    obtain ⟨reaped', hsettle, -⟩ := settle_eq s tick.now tick.network
    simp only [State.step, hdrained, hsettle] at hmem
    rcases List.mem_append.1 hmem with hleft | hrule
    · exact .inl hleft
    · right
      obtain ⟨event, hevent, hsaid⟩ := List.mem_map.1 hrule
      have hruling : event ∈ s.ruling tick.now := by
        split at hevent
        · exact hevent
        · cases hevent
      cases hsaid
      obtain ⟨boundary, hcommitted, hnetwork, hrest⟩ := interrupted_ruling hruling
      refine ⟨boundary, ?_, ?_, hrest⟩
      · rw [← hcommitted, hlife.committed, hpast]
        rfl
      · rw [hnetwork, hlife.network, hpast]
        rfl

end

end Sush

namespace Sush.Terms

open Lib

attribute [local instance] world hashing crypto

/-- The job of the record is ruled on, its start is replayed, and the next drain ends. -/
def lateStart : List Tick :=
  [drained, event (5 : ℕ) (0 : ℕ) (.start (firstJob 5).jobId 1), drained]

/-- The job is ruled on twice: it is declared interrupted from the record, and again as a zombie. -/
theorem ruled_twice_lateStart :
    (run State.ruleStep (life (0 : ℕ) (10 : ℕ) (some (record 5 (firstJob 5)))) lateStart).2 =
      [(firstJob 5).jobId, (firstJob 5).jobId] ∧
    ((life (0 : ℕ) (10 : ℕ) (some (record 5 (firstJob 5)))).run lateStart).2 =
      [.jobEvent (0 : ℕ) (.error (firstJob 5).jobId 0 .interrupted),
        .jobEvent (0 : ℕ) (.error (firstJob 5).jobId 0 .interrupted)] :=
  ⟨rfl, rfl⟩

/-- The start of the job of the record is replayed before the first drain ends. -/
def earlyStart : List Tick :=
  [event (5 : ℕ) (0 : ℕ) (.start (firstJob 5).jobId 1), drained, drained]

theorem rulings_nodup_earlyStart :
    (run State.ruleStep (life (0 : ℕ) (10 : ℕ) (some (record 5 (firstJob 5)))) earlyStart).2.Nodup := by
  refine rulings_nodup (new_life (0 : ℕ) (10 : ℕ) (some (record 5 (firstJob 5)))) earlyStart
    ⟨⟨?_, ?_⟩, ⟨?_, ?_⟩, ⟨?_, ?_⟩, trivial⟩
  · intro version jobId when_ _ hadjudicated
    cases hadjudicated
  · intro hinput
    cases hinput
  · intro version jobId when_ hinput
    cases hinput
  · intro _ jobId hjob
    cases hjob
  · intro version jobId when_ hinput
    cases hinput
  · intro _ jobId hjob
    cases hjob

theorem interrupted_leftover_earlyStart :
    LeftRunning (life (0 : ℕ) (10 : ℕ) (some (record 5 (firstJob 5)))) (earlyStart.take 1) (0 : ℕ)
      (firstJob 5).jobId := by
  have hmain := interrupted_leftover (new_life (0 : ℕ) (10 : ℕ) (some (record 5 (firstJob 5))))
    (earlyStart.take 1) ⟨retains_of_size (by decide +kernel), trivial⟩ drained rfl
  obtain ⟨jobId, hsaid, hleft, -⟩ := hmain.1
    (.jobEvent (0 : ℕ) (.error (firstJob 5).jobId 0 .interrupted)) (List.mem_singleton_self _)
  cases hsaid
  exact hleft

end Sush.Terms
