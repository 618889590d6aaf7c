import Sush.Verify.Settle

/-!
# A recorded ending survives a crash

While its job is not evicted from the history, an own status of a job that has none yet ends once,
unless it ends as interrupted and the job then turns out to have stopped (`Heard`). The boundary record
takes the endings in any order and keeps the one that the history has in the end. A later life in the
same universe announces the recorded ending with the events that lead there from no status at all.

Eviction breaks both halves. If the job is evicted after it failed, it can start and stop as if for the
first time, and then the order in which the two endings are recorded decides which of them is kept
(`ending_replaced_evicted`). And a sled whose history is full of running jobs evicts the job as soon as
it hears how it ended (`ending_forgotten_evicted`).
-/

namespace Sush

open Lib

section

variable [World]

def BoundaryStore.recordAll (store : BoundaryStore) (statuses : List JobStatus) : BoundaryStore :=
  statuses.foldl BoundaryStore.recordStatus store

def JobStatus.isEnding : JobStatus → Bool
  | error .. | stopped .. => true
  | _ => false

/-- What was reported on the way to a status: nothing before the job ended, then its ending, and at
most one correction of an interrupted ending by a stop. -/
inductive Heard (jobId : JobId) : Option JobStatus → List JobStatus → Prop
  | unended {status : Option JobStatus} (h : status.any JobStatus.isTerminal = false) :
    Heard jobId status []
  | ended {status : JobStatus} (hid : status.jobId = jobId) (h : status.isTerminal = true) :
    Heard jobId (some status) [status]
  | corrected {timeError timeStarted timeStopped : DateTime} {result : Except ProcessError Int32}
    {output : JobOutputState} :
    Heard jobId (some (.stopped jobId timeStarted timeStopped result output))
      [.error jobId timeError .interrupted, .stopped jobId timeStarted timeStopped result output]

section Record

variable {jobId : JobId} {boundary : Boundary} {status : JobStatus}

theorem recordStatus_of_none (hjob : boundary.job = status.jobId) (hnone : boundary.status = none) :
    BoundaryStore.recordStatus ⟨some boundary⟩ status =
      ⟨some { boundary with status := some status }⟩ := by
  unfold BoundaryStore.recordStatus BoundaryStore.updated
  simp only [hnone, BoundaryStore.displaces, hjob, and_self, if_true]

/-- **The record keeps the last ending**, in whatever order the endings are recorded. -/
theorem Heard.recordAll {statuses order : List JobStatus} (h : Heard jobId (some status) statuses)
    (hended : status.isTerminal = true) (hjob : boundary.job = jobId) (hnone : boundary.status = none)
    (horder : order.Perm statuses) :
    BoundaryStore.recordAll ⟨some boundary⟩ order =
      ⟨some { boundary with status := some status }⟩ := by
  cases h with
  | unended h => simp [hended] at h
  | ended hid _ =>
    rw [List.perm_singleton.1 horder]
    exact recordStatus_of_none (hjob.trans hid.symm) hnone
  | @corrected timeError timeStarted timeStopped result output =>
    unfold BoundaryStore.recordAll
    rcases List.perm_pair.1 horder with rfl | rfl
    · rw [List.foldl_cons, List.foldl_cons, recordStatus_of_none hjob hnone]
      simp [BoundaryStore.recordStatus, BoundaryStore.updated, BoundaryStore.displaces, hjob,
        JobStatus.jobId]
    · rw [List.foldl_cons, List.foldl_cons, recordStatus_of_none hjob hnone]
      simp [BoundaryStore.recordStatus, BoundaryStore.updated, BoundaryStore.displaces]

theorem Heard.jobId_eq {statuses : List JobStatus} (h : Heard jobId (some status) statuses)
    (hended : status.isTerminal = true) : status.jobId = jobId := by
  cases h with
  | unended h => simp [hended] at h
  | ended hid _ => exact hid
  | corrected => rfl

theorem JobEvent.next_jobId {event : JobEvent} {old : Option JobStatus}
    (h : event.next old = some status) : status.jobId = event.jobId := by
  cases event with
  | start j when_ =>
    simp only [JobEvent.next] at h
    split at h <;> cases h
    rfl
  | stop j when_ result output =>
    simp only [JobEvent.next, State.stopTransition] at h
    split at h <;> cases h <;> rfl
  | error j when_ cause | skipped j when_ cause =>
    simp only [JobEvent.next, State.endTransition] at h
    split at h <;> cases h <;> rfl

theorem JobEvent.next_of_terminal {event : JobEvent} {new : JobStatus}
    (hnext : event.next (some status) = some new) (hended : status.isTerminal = true) :
    (∃ j time, status = .error j time .interrupted) ∧
      ∃ j timeStarted timeStopped result output,
        new = .stopped j timeStarted timeStopped result output := by
  rcases (JobEvent.next_advances hnext).ending status rfl hended with hsame | hcorrected
  · cases hsame
    exact absurd rfl (JobEvent.next_ne hnext hended)
  · obtain ⟨herror, j, timeStarted, timeStopped, result, output, hnew⟩ := hcorrected
    exact ⟨herror, j, timeStarted, timeStopped, result, output, Option.some.inj hnew⟩

theorem Heard.event {old : Option JobStatus} {statuses : List JobStatus} {event : JobEvent}
    (h : Heard jobId old statuses) (hid : event.jobId = jobId)
    {new : JobStatus} (hnext : event.next old = some new) :
    Heard jobId (some new) (statuses ++ if new.isTerminal then [new] else []) := by
  have hnew : new.jobId = jobId := (JobEvent.next_jobId hnext).trans hid
  cases h with
  | unended _ =>
    cases hended : new.isTerminal with
    | false => exact .unended hended
    | true => exact .ended hnew hended
  | ended hold hended =>
    obtain ⟨⟨j, time, rfl⟩, j', timeStarted, timeStopped, result, output, rfl⟩ :=
      JobEvent.next_of_terminal hnext hended
    obtain rfl : j = jobId := hold
    obtain rfl : j' = j := hnew
    exact .corrected
  | corrected =>
    obtain ⟨⟨j, time, hcontra⟩, -⟩ := JobEvent.next_of_terminal hnext rfl
    cases hcontra

end Record

variable [Crypto] [Hashing]

variable {n : ℕ} {jobId : JobId} {ticks : List Tick}

/-- The input delivers an event of the job on the sled. -/
def Tick.EventOf (jobId : JobId) (sled : BaseboardId) (tick : Tick) : Prop :=
  ∃ event, tick.eventOf jobId sled = some event

section Run

variable {s : State} {tick : Tick} {jobId : JobId}

/-- **One own event** of the job is reported if it ends the job. -/
theorem Heard.step {statuses : List JobStatus}
    (h : Heard jobId (s.history.statusOn jobId s.rack.ownBaseboard) statuses)
    (hkeeps : s.KeepsJob jobId tick) (hevent : tick.EventOf jobId s.rack.ownBaseboard) :
    Heard jobId ((s.step tick).1.history.statusOn jobId s.rack.ownBaseboard)
      (statuses ++ rans (s.step tick).2) := by
  obtain ⟨event, hevent⟩ := hevent
  obtain ⟨rfl, version, hinput⟩ := eventOf_eq_some.1 hevent
  cases hnext : event.next (s.history.statusOn event.jobId s.rack.ownBaseboard) with
  | none =>
    rw [step_event hinput, (handleJobEvent_none hnext).1, (handleJobEvent_none hnext).2]
    simpa [rans] using h
  | some new =>
    have hstatus := hkeeps.statusOn_of_writes (.event hinput hnext)
    have hout : rans (s.step tick).2 = if new.isTerminal then [new] else [] := by
      rw [step_event hinput, (handleJobEvent_some hnext).2]
      cases new.isTerminal <;> simp [rans, Output.ran?]
    rw [hstatus, hout]
    exact h.event rfl hnext

theorem heard_run (hnone : s.history.statusOn jobId s.rack.ownBaseboard = none)
    (hevents : ∀ tick ∈ ticks, tick.EventOf jobId s.rack.ownBaseboard)
    (hkeeps : Always State.step (fun s _ tick => s.KeepsJob jobId tick) s [] ticks) :
    Heard jobId ((s.run ticks).1.history.statusOn jobId s.rack.ownBaseboard)
      (rans (s.run ticks).2) := by
  have hrun := run_invariant_of_always State.step
    (P := fun s' _ os => SameLife s s' ∧
      Heard jobId (s'.history.statusOn jobId s.rack.ownBaseboard) (rans os))
    (fun s' _ os tick hstep h => ?_) (hkeeps.and (always_of_forall hevents))
    ⟨.refl s, by rw [hnone]; exact .unended rfl⟩
  · exact hrun.2
  · obtain ⟨hlife, hheard⟩ := h
    refine ⟨hlife.step, ?_⟩
    rw [← hlife.own] at hheard hstep ⊢
    have := hheard.step hstep.1 hstep.2
    simpa [rans] using this

end Run

/-! ## The later life -/

omit [Crypto] [Hashing] in
theorem foldl_endingEvents {status : JobStatus} (h : status.isEnding = true) (now : DateTime) :
    (State.endingEvents now status.jobId (some status)).foldl JobEvent.apply none = some status := by
  cases status with
  | error j time cause => rfl
  | stopped j timeStarted timeStopped result output => rfl
  | cancelled | queued | started | skipped => cases h

omit [Crypto] [Hashing] in
theorem jobId_of_mem_endingEvents {now : DateTime} {status : Option JobStatus} {event : JobEvent}
    (h : event ∈ State.endingEvents now jobId status) : event.jobId = jobId := by
  unfold State.endingEvents at h
  split at h
  · rcases List.mem_cons.1 h with rfl | h
    · rfl
    · rw [List.mem_singleton.1 h]
      rfl
  · rw [List.mem_singleton.1 h]
    rfl
  · rw [List.mem_singleton.1 h]
    rfl

/-- The inputs deliver these events of a sled, in order, at whatever versions. -/
def Carries (sled : BaseboardId) (events : List JobEvent) (ticks : List Tick) : Prop :=
  List.Forall₂ (fun event tick => ∃ version, tick.input =
    .gossip version (.v0 (.event sled (.job event)))) events ticks

omit [Crypto] [Hashing] in
theorem Carries.eventOf {sled : BaseboardId} {events : List JobEvent}
    (h : Carries sled events ticks) (jobId : JobId) :
    ticks.filterMap (Tick.eventOf jobId sled) = events.filter (·.jobId = jobId) ∧
      ∀ tick ∈ ticks, ¬tick.input.IsRequest := by
  induction h with
  | nil => exact ⟨rfl, by simp⟩
  | @cons event tick events ticks hinput _ ih =>
    obtain ⟨version, hinput⟩ := hinput
    constructor
    · rw [List.filterMap_cons, ih.1]
      by_cases hid : event.jobId = jobId
      · rw [eventOf_eq_some.2 ⟨hid, version, hinput⟩, List.filter_cons_of_pos (by simpa using hid)]
      · have hnone : tick.eventOf jobId sled = none := by
          unfold Tick.eventOf
          rw [hinput]
          exact if_neg fun hboth => hid hboth.1
        rw [hnone, List.filter_cons_of_neg (by simpa using hid)]
    · intro t ht
      rcases List.mem_cons.1 ht with rfl | ht
      · rw [hinput]
        exact id
      · exact ih.2 t ht

/-- The input ends a drain while there is a universe. -/
def Tick.Rules (tick : Tick) : Prop := tick.input = .drained ∧ tick.network.isSome = true

theorem adjudicated_step {s : State} {tick : Tick} (h : ¬tick.Rules) :
    (s.step tick).1.past.adjudicated = s.past.adjudicated := by
  by_cases hdrained : tick.input = .drained
  · have hnetwork : ¬tick.network.isSome = true := fun hnetwork => h ⟨hdrained, hnetwork⟩
    obtain ⟨reaped, heq, -⟩ := settle_eq s tick.now tick.network
    simp only [State.step, hdrained, heq, if_neg hnetwork]
  · rw [past_of_not_drained hdrained]

theorem runningOk_run {s : State} (h : s.history.RunningOk) (ticks : List Tick) :
    (s.run ticks).1.history.RunningOk :=
  run_invariant State.step (P := fun s' _ _ => s'.history.RunningOk)
    (fun _ _ _ _ h => runningOk_step h) h ticks

/-- **What a later life says of the recorded job.** Its first settling in a universe puts out, after
interrupted verdicts on other jobs, the events that announce the recorded ending. -/
theorem settle_recorded {current : VersionInfo} {own : BaseboardId} {anchors : List Certificate}
    {birth : Version} {boundary : Boundary} {s₀ : State}
    (h₀ : State.new current own anchors (Past.new birth (some boundary) boundary.network) = .ok s₀)
    (hfirst : ∀ tick ∈ ticks, ¬tick.Rules)
    (hnone : (s₀.run ticks).1.history.statusOn boundary.job own = none) {tick : Tick}
    (hrules : tick.Rules) :
    ∃ others : List JobEvent, (∀ event ∈ others, event.jobId ≠ boundary.job) ∧
      ((s₀.run ticks).1.step tick).2 =
        (others ++ State.endingEvents tick.now boundary.job boundary.status).map
          (Output.jobEvent own) := by
  obtain ⟨-, hown, hpast, -, hempty, -⟩ := new_eq h₀
  have hlife := sameLife_run s₀ ticks
  have hok : (s₀.run ticks).1.history.RunningOk :=
    runningOk_run (by rw [hempty]; exact .empty) ticks
  have hadjudicated : (s₀.run ticks).1.past.adjudicated = none := by
    refine run_invariant_of_always State.step (P := fun s _ _ => s.past.adjudicated = none)
      (fun s _ _ tick hnot h => (adjudicated_step hnot).trans h) (always_of_forall hfirst) ?_
    rw [hpast]
    rfl
  have hboundary : (s₀.run ticks).1.past.boundary = some boundary := by
    unfold Past.boundary
    rw [hlife.committed, hlife.network, hpast]
    simp [Past.new, Option.filter]
  generalize (s₀.run ticks).1 = s at hlife hok hadjudicated hboundary hnone ⊢
  have hsled : s.rack.ownBaseboard = own := hlife.own.trans hown
  refine ⟨s.leftovers.map fun jobId => .error jobId tick.now .interrupted, ?_, ?_⟩
  · intro event hmem
    obtain ⟨jobId, hleft, rfl⟩ := List.mem_map.1 hmem
    rintro rfl
    obtain ⟨id, time, hstatus⟩ := hok.started (mem_leftovers.1 hleft).2.1
    rw [hsled] at hstatus
    cases hnone.symm.trans hstatus
  · have hruling : s.ruling tick.now =
        State.endingEvents tick.now boundary.job boundary.status := by
      unfold State.ruling
      rw [hboundary, hsled]
      simp only [hadjudicated, hnone]
      exact if_neg (by simp)
    obtain ⟨reaped, heq, -⟩ := settle_eq s tick.now tick.network
    simp only [State.step, hrules.1, heq, if_pos hrules.2, hruling, hsled, List.map_append,
      List.map_map]
    rfl

/-- **A recorded ending survives a crash**, as long as its job is not evicted. -/
theorem ending_survives {s : State} {own : BaseboardId} (hown : s.rack.ownBaseboard = own)
    {jobId : JobId} {boundary : Boundary} (hjob : boundary.job = jobId)
    (hopen : boundary.status = none) (hnone : s.history.statusOn jobId own = none)
    {ticks : List Tick} (hevents : ∀ tick ∈ ticks, tick.EventOf jobId own)
    (hkeeps : Always State.step (fun s _ tick => s.KeepsJob jobId tick) s [] ticks)
    {status : JobStatus} (hstatus : (s.run ticks).1.history.statusOn jobId own = some status)
    (hended : status.isEnding = true) {order : List JobStatus}
    (horder : order.Perm (rans (s.run ticks).2)) :
    BoundaryStore.recordAll ⟨some boundary⟩ order =
        ⟨some { boundary with status := some status }⟩ ∧
      ∀ (current : VersionInfo) (anchors : List Certificate) (birth : Version) (s₀ : State),
        State.new current own anchors
          (Past.new birth (some { boundary with status := some status }) boundary.network) = .ok s₀ →
        ∀ replay : List Tick, (∀ tick ∈ replay, ¬tick.Rules) →
          (s₀.run replay).1.history.statusOn jobId own = none →
        ∀ tick : Tick, tick.Rules →
          ∃ events : List JobEvent,
            ((s₀.run replay).1.step tick).2 = events.map (Output.jobEvent own) ∧
            ∀ (r : State) (news : List Tick), r.history.statusOn jobId own = none →
              Carries own events news →
              Always State.step (fun s _ tick => s.KeepsJob jobId tick) r [] news →
              (r.run news).1.history.statusOn jobId own = some status := by
  subst hown hjob
  have hterminal : status.isTerminal = true := by
    cases status with
    | error | stopped => rfl
    | cancelled | queued | started | skipped => cases hended
  have hheard := heard_run hnone hevents hkeeps
  rw [hstatus] at hheard
  refine ⟨hheard.recordAll hterminal rfl hopen horder, ?_⟩
  intro current anchors birth s₀ h₀ replay hfirst hunseen tick hrules
  obtain ⟨others, hothers, hout⟩ := settle_recorded h₀ hfirst hunseen hrules
  refine ⟨_, hout, fun r news hsilent hcarries hkept => ?_⟩
  obtain ⟨hnews, hnoRequest⟩ := hcarries.eventOf boundary.job
  have hskipped : others.filter (·.jobId = boundary.job) = [] :=
    List.filter_eq_nil_iff.2 fun event hmem => by simpa using hothers event hmem
  have htold : (State.endingEvents tick.now boundary.job (some status)).filter
      (·.jobId = boundary.job) = State.endingEvents tick.now boundary.job (some status) :=
    List.filter_eq_self.2 fun event hmem => by simpa using jobId_of_mem_endingEvents hmem
  rw [statusOn_run_events hkept hnoRequest, hsilent, hnews, List.filter_append, hskipped, htold,
    List.nil_append, ← hheard.jobId_eq hterminal]
  exact foldl_endingEvents hended tick.now

/-! ## A history full of running jobs -/

/-- No session is active, the jobs that run are `jobs`, and the history knows these and `more`. -/
structure State.Crowded (s : State) (jobs more : List JobId) : Prop where
  crowd : s.history.Crowd jobs
  known : ∀ k, s.history.contains k = true → k ∈ jobs ++ more
  idle : s.session = .inactive

section Crowded

variable {s : State} {tick : Tick} {jobs more : List JobId} {version : Version} {sled : BaseboardId}
  {event : JobEvent} {new : JobStatus}

theorem step_event_idle (hidle : s.session = .inactive)
    (hinput : tick.input = .gossip version (.v0 (.event sled (.job event))))
    (hnext : event.next (s.history.statusOn event.jobId sled) = some new) :
    (s.step tick).1.history =
        (s.history.record event.jobId sled new (some (World.rank version))).gc none ∧
      (s.step tick).1.session = .inactive := by
  rw [step_event hinput]
  have hsession := (handleEvent_quiet s version sled (.job event)).1.session
  refine ⟨?_, hsession.trans hidle⟩
  rw [(handleJobEvent_some hnext).1, hidle]
  rfl

omit [Hashing] in
theorem State.Crowded.size_record (h : s.Crowded jobs more) (rank : Option Rank) :
    (s.history.record event.jobId sled new rank).jobStatus.size ≤
      jobs.length + more.length + 1 := by
  have hsize : s.history.jobStatus.size ≤ (jobs ++ more).length :=
    JobHistory.size_le_length h.known
  have hinsert : (s.history.record event.jobId sled new rank).jobStatus.size ≤
      s.history.jobStatus.size + 1 := Std.ExtTreeMap.size_insert_le
  rw [List.length_append] at hsize
  omega

theorem State.Crowded.start (h : s.Crowded jobs more) {when_ : DateTime}
    (hinput : tick.input = .gossip version (.v0 (.event sled (.job (.start jobId when_)))))
    (hnew : s.history.contains jobId = false) (hroom : jobs.length + more.length < maxHistory) :
    (s.step tick).1.Crowded (jobId :: jobs) more ∧
      (s.step tick).1.history.statusOn jobId sled = some (.started jobId when_) := by
  have hnext : (JobEvent.start jobId when_).next (s.history.statusOn jobId sled) =
      some (.started jobId when_) := by
    rw [JobHistory.statusOn_of_not_contains hnew]
    rfl
  obtain ⟨hhistory, hidle⟩ := step_event_idle h.idle hinput hnext
  rw [JobHistory.gc_of_le ((h.size_record _).trans hroom)] at hhistory
  have hjob : jobId ∉ jobs := fun hmem => by
    rw [h.crowd.known jobId hmem] at hnew
    cases hnew
  refine ⟨⟨?_, fun k hk => ?_, hidle⟩, ?_⟩
  · rw [hhistory]
    exact h.crowd.record_started hjob when_
  · rw [hhistory] at hk
    rcases JobHistory.contains_record.1 hk with rfl | hk
    · exact .head _
    · exact .tail _ (h.known k hk)
  · rw [hhistory, JobHistory.statusOn_record, if_pos ⟨rfl, rfl⟩]

theorem State.Crowded.starts {started : List JobId} (h : s.Crowded jobs [])
    (hnodup : (started.reverse ++ jobs).Nodup)
    (hroom : started.length + jobs.length ≤ maxHistory) (deliver : JobId → Tick)
    (hinput : ∀ jobId, ∃ version, (deliver jobId).input =
      .gossip version (.v0 (.event sled (.job (.start jobId 0))))) :
    (s.run (started.map deliver)).1.Crowded (started.reverse ++ jobs) [] := by
  induction started generalizing s jobs with
  | nil => exact h
  | cons jobId started ih =>
    have hsplit : (jobId :: started).reverse ++ jobs = started.reverse ++ (jobId :: jobs) := by simp
    rw [hsplit] at hnodup ⊢
    obtain ⟨version, hdelivery⟩ := hinput jobId
    have hfresh : jobId ∉ jobs := (List.nodup_cons.1 (List.nodup_append.1 hnodup).2.1).1
    have hnew : s.history.contains jobId = false := by
      rw [← Bool.not_eq_true]
      intro hk
      exact hfresh (by simpa using h.known jobId hk)
    have hlength : (jobId :: started).length = started.length + 1 := rfl
    have hnext := (h.start hdelivery hnew (by simp only [List.length_nil]; omega)).1
    exact ih hnext hnodup (by simp only [List.length_cons]; omega)

/-- An ending is heard of a job that does not run, where there is room. -/
theorem State.Crowded.ending (h : s.Crowded jobs more)
    (hinput : tick.input = .gossip version (.v0 (.event sled (.job event))))
    (hnext : event.next (s.history.statusOn event.jobId sled) = some new)
    (hended : new.since = none) (hfresh : event.jobId ∉ jobs)
    (hroom : jobs.length + more.length < maxHistory) :
    (s.step tick).1.Crowded jobs (event.jobId :: more) ∧
      (s.step tick).1.history.contains event.jobId = true := by
  obtain ⟨hhistory, hidle⟩ := step_event_idle h.idle hinput hnext
  rw [JobHistory.gc_of_le ((h.size_record _).trans hroom)] at hhistory
  refine ⟨⟨?_, fun k hk => ?_, hidle⟩, ?_⟩
  · rw [hhistory]
    exact h.crowd.record_ended hfresh hended
  · rw [hhistory] at hk
    rcases JobHistory.contains_record.1 hk with rfl | hk
    · exact List.mem_append_right _ (.head _)
    · rcases List.mem_append.1 (h.known k hk) with hk | hk
      · exact List.mem_append_left _ hk
      · exact List.mem_append_right _ (.tail _ hk)
  · rw [hhistory]
    exact JobHistory.contains_record.2 (.inl rfl)

/-- An ending that is heard where there is no room is forgotten, with every other job that does not
run. -/
theorem State.Crowded.overflow (h : s.Crowded jobs more)
    (hlow : maxHistory - maxHistory / 16 < jobs.length)
    (hinput : tick.input = .gossip version (.v0 (.event sled (.job event))))
    (hnext : event.next (s.history.statusOn event.jobId sled) = some new)
    (hended : new.since = none) (hmore : ∀ k ∈ more, s.history.contains k = true)
    (hnodup : (event.jobId :: (jobs ++ more)).Nodup)
    (hfull : maxHistory ≤ jobs.length + more.length) : (s.step tick).1.Crowded jobs [] := by
  obtain ⟨hhistory, hidle⟩ := step_event_idle h.idle hinput hnext
  have hfresh : event.jobId ∉ jobs := fun hmem =>
    (List.nodup_cons.1 hnodup).1 (List.mem_append_left _ hmem)
  have hcrowd : JobHistory.Crowd jobs
      (s.history.record event.jobId sled new (some (World.rank version))) :=
    h.crowd.record_ended hfresh hended
  have hsize : maxHistory <
      (s.history.record event.jobId sled new (some (World.rank version))).jobStatus.size := by
    have hlength := JobHistory.length_le_size
      (h := s.history.record event.jobId sled new (some (World.rank version))) hnodup fun k hk => by
        rw [JobHistory.contains_record]
        rcases List.mem_cons.1 hk with rfl | hk
        · exact .inl rfl
        · rcases List.mem_append.1 hk with hk | hk
          · exact .inr (h.crowd.known k hk)
          · exact .inr (hmore k hk)
    simp only [List.length_cons, List.length_append] at hlength
    omega
  obtain ⟨hrest, honly⟩ := hcrowd.gc hlow hsize
  rw [← hhistory] at hrest honly
  exact ⟨hrest, fun k hk => by simpa using honly k hk, hidle⟩

omit [Hashing] in
theorem State.Crowded.statusOn_of_not_mem (h : s.Crowded jobs more) (hjob : jobId ∉ jobs ++ more)
    (sled : BaseboardId) : s.history.statusOn jobId sled = none := by
  refine JobHistory.statusOn_of_not_contains ?_ sled
  rw [← Bool.not_eq_true]
  exact fun hk => hjob (h.known jobId hk)

theorem rans_own_event (hown : s.rack.ownBaseboard = sled)
    (hinput : tick.input = .gossip version (.v0 (.event sled (.job event))))
    (hnext : event.next (s.history.statusOn event.jobId sled) = some new) :
    rans (s.step tick).2 = if new.isTerminal then [new] else [] := by
  rw [step_event hinput, (handleJobEvent_some hnext).2, hown]
  cases new.isTerminal <;> simp [rans, Output.ran?]

/-- **A job that fails in a full crowd can start and stop as if it were new**: it is evicted as soon as
it has failed, and two endings are reported. -/
theorem State.Crowded.revive (h : s.Crowded jobs more) {own : BaseboardId}
    (hown : s.rack.ownBaseboard = own) (hlow : maxHistory - maxHistory / 16 < jobs.length)
    (hmore : ∀ k ∈ more, s.history.contains k = true) (hnodup : (jobId :: (jobs ++ more)).Nodup)
    (hfull : maxHistory ≤ jobs.length + more.length) (hroom : jobs.length < maxHistory)
    {fails starts stops : Tick} {t₁ t₂ t₃ : DateTime} {cause : ProcessError}
    {result : Except ProcessError Int32} {output : JobOutputState}
    (hfails : fails.input = .gossip version (.v0 (.event own (.job (.error jobId t₁ cause)))))
    (hstarts : starts.input = .gossip version (.v0 (.event own (.job (.start jobId t₂)))))
    (hstops : stops.input = .gossip version (.v0 (.event own (.job (.stop jobId t₃ result output))))) :
    s.history.statusOn jobId own = none ∧
      (s.run [fails, starts, stops]).1.history.statusOn jobId own =
        some (.stopped jobId t₂ t₃ result output) ∧
      rans (s.run [fails, starts, stops]).2 =
        [.error jobId t₁ cause, .stopped jobId t₂ t₃ result output] := by
  subst hown
  have hfresh := (List.nodup_cons.1 hnodup).1
  have hfresh' : jobId ∉ jobs := fun hmem => hfresh (List.mem_append_left _ hmem)
  have hnone := h.statusOn_of_not_mem hfresh s.rack.ownBaseboard
  -- it fails, and is evicted
  have hfail : (JobEvent.error jobId t₁ cause).next
      (s.history.statusOn jobId s.rack.ownBaseboard) = some (.error jobId t₁ cause) := by
    rw [hnone]
    rfl
  have h₁ := h.overflow hlow hfails hfail rfl hmore hnodup hfull
  have hlife₁ : SameLife s (s.step fails).1 := (SameLife.refl s).step
  -- it starts, and there is room
  have hunknown : (s.step fails).1.history.contains jobId = false := by
    rw [← Bool.not_eq_true]
    exact fun hk => hfresh' (by simpa using h₁.known jobId hk)
  have hstart : (JobEvent.start jobId t₂).next
      ((s.step fails).1.history.statusOn jobId s.rack.ownBaseboard) = some (.started jobId t₂) := by
    rw [JobHistory.statusOn_of_not_contains hunknown]
    rfl
  obtain ⟨h₂, hstarted⟩ := h₁.start hstarts hunknown (by simpa using hroom)
  have hlife₂ : SameLife s ((s.step fails).1.step starts).1 := hlife₁.step
  -- it stops, and its job is known already
  have hstop : (JobEvent.stop jobId t₃ result output).next
      (((s.step fails).1.step starts).1.history.statusOn jobId s.rack.ownBaseboard) =
        some (.stopped jobId t₂ t₃ result output) := by
    rw [hstarted]
    rfl
  refine ⟨hnone, ?_, ?_⟩
  · have hhistory : (((s.step fails).1.step starts).1.step stops).1.history =
        (((s.step fails).1.step starts).1.history.record jobId s.rack.ownBaseboard
          (.stopped jobId t₂ t₃ result output) (some (World.rank version))).gc none :=
      (step_event_idle h₂.idle hstops hstop).1
    have hsize : (((s.step fails).1.step starts).1.history.record jobId s.rack.ownBaseboard
        (.stopped jobId t₂ t₃ result output) (some (World.rank version))).jobStatus.size ≤
          (jobId :: jobs).length := JobHistory.size_le_length fun k hk => by
      rcases JobHistory.contains_record.1 hk with rfl | hk
      · exact .head _
      · simpa using h₂.known k hk
    show (((s.step fails).1.step starts).1.step stops).1.history.statusOn jobId _ = _
    rw [hhistory, JobHistory.gc_of_le (hsize.trans hroom), JobHistory.statusOn_record,
      if_pos ⟨rfl, rfl⟩]
  · have hout₁ := rans_own_event rfl hfails hfail
    have hout₂ := rans_own_event hlife₁.own hstarts hstart
    have hout₃ := rans_own_event hlife₂.own hstops hstop
    have hall : (s.run [fails, starts, stops]).2 = (s.step fails).2 ++
        (((s.step fails).1.step starts).2 ++ ((((s.step fails).1.step starts).1.step stops).2 ++ [])) :=
      rfl
    rw [hall, List.append_nil]
    unfold rans at hout₁ hout₂ hout₃ ⊢
    rw [List.filterMap_append, List.filterMap_append, hout₁, hout₂, hout₃]
    rfl

end Crowded

end

end Sush

namespace Sush.Terms

open Lib

attribute [local instance] world hashing crypto

/-- The boundary record names the job `0`. -/
def recordZero : Boundary := { record 5 (firstJob 5) with job := (0 : ℕ) }

/-- The job `0` is declared interrupted on the sled `0`, and then turns out to have stopped. -/
def interruptedThenStopped : List Tick :=
  [event (10 : ℕ) (0 : ℕ) (.error (0 : ℕ) 0 .interrupted),
    event (10 : ℕ) (0 : ℕ) (.stop (0 : ℕ) 1 (.ok 0) noOutput)]

def announced : List Tick :=
  [event (12 : ℕ) (0 : ℕ) (.start (0 : ℕ) 0), event (12 : ℕ) (0 : ℕ) (.stop (0 : ℕ) 1 (.ok 0) noOutput)]

theorem ending_survives_corrected :
    BoundaryStore.recordAll ⟨some recordZero⟩
        [.stopped (0 : ℕ) 0 1 (.ok 0) noOutput, .error (0 : ℕ) 0 .interrupted] =
      ⟨some { recordZero with status := some (.stopped (0 : ℕ) 0 1 (.ok 0) noOutput) }⟩ ∧
    ((life (1 : ℕ) (10 : ℕ) none).run announced).1.history.statusOn (0 : ℕ) (0 : ℕ) =
      some (.stopped (0 : ℕ) 0 1 (.ok 0) noOutput) := by
  have hevents : ∀ tick ∈ interruptedThenStopped, tick.EventOf (0 : ℕ) (0 : ℕ) := by
    intro tick htick
    fin_cases htick
    · exact ⟨_, eventOf_eq_some.2 ⟨rfl, (10 : ℕ), rfl⟩⟩
    · exact ⟨_, eventOf_eq_some.2 ⟨rfl, (10 : ℕ), rfl⟩⟩
  have hkeeps : Always State.step (fun s _ tick => s.KeepsJob (0 : ℕ) tick)
      (life (0 : ℕ) (10 : ℕ) none) [] interruptedThenStopped := by
    refine ⟨(retains_of_size ?_).keepsJob _, (retains_of_size ?_).keepsJob _, trivial⟩ <;>
      decide +kernel
  have hkept : Always State.step (fun s _ tick => s.KeepsJob (0 : ℕ) tick)
      (life (1 : ℕ) (10 : ℕ) none) [] announced := by
    refine ⟨(retains_of_size ?_).keepsJob _, (retains_of_size ?_).keepsJob _, trivial⟩ <;>
      decide +kernel
  have hjob : recordZero.job = (0 : ℕ) := rfl
  have hstatus : ((life (0 : ℕ) (10 : ℕ) none).run interruptedThenStopped).1.history.statusOn
      (0 : ℕ) (0 : ℕ) = some (.stopped (0 : ℕ) 0 1 (.ok 0) noOutput) := rfl
  obtain ⟨hrecord, hlater⟩ :=
    ending_survives rfl hjob rfl rfl hevents hkeeps hstatus rfl (List.Perm.swap _ _ [])
  refine ⟨hrecord, ?_⟩
  obtain ⟨events, hout, hnews⟩ := hlater build anchors (11 : ℕ) _ (new_life (0 : ℕ) (11 : ℕ) _) []
    (by simp) rfl drained ⟨rfl, rfl⟩
  have hinjective : Function.Injective (Output.jobEvent (0 : ℕ)) := fun a b h => by
    cases h
    rfl
  obtain rfl : [.start (0 : ℕ) 0, .stop (0 : ℕ) 1 (.ok 0) noOutput] = events :=
    List.map_injective_iff.2 hinjective hout
  exact hnews _ announced rfl (.cons ⟨(12 : ℕ), rfl⟩ (.cons ⟨(12 : ℕ), rfl⟩ .nil)) hkept

/-- The jobs `1` to `n`. -/
def crowd (n : ℕ) : List JobId := (List.range n).map Nat.succ

theorem crowd_nodup (n : ℕ) : (crowd n).Nodup :=
  (List.nodup_range).map Nat.succ_injective

theorem crowd_length (n : ℕ) : (crowd n).length = n := by
  unfold crowd
  rw [List.length_map, List.length_range]

theorem mem_crowd {k : ℕ} : k ∈ crowd n ↔ 0 < k ∧ k ≤ n := by
  unfold crowd
  rw [List.mem_map]
  constructor
  · rintro ⟨i, hi, rfl⟩
    have := List.mem_range.1 hi
    exact ⟨Nat.succ_pos i, this⟩
  · rintro ⟨hpos, hle⟩
    exact ⟨k - 1, List.mem_range.2 (by omega), Nat.succ_pred_eq_of_pos hpos⟩

/-- The jobs `1` to `n` start on the sled `9`. -/
def crowdStarts (n : ℕ) : List Tick := (crowd n).map fun jobId => event (1 : ℕ) (9 : ℕ) (.start jobId 0)

theorem crowded_run (own birth : ℕ) (hn : n ≤ maxHistory) :
    ((life own birth none).run (crowdStarts n)).1.Crowded (crowd n).reverse [] := by
  have hfirst : (life own birth none).Crowded [] [] :=
    ⟨.empty, fun k hk => (Bool.false_ne_true hk).elim, rfl⟩
  have hroom : (crowd n).length + ([] : List JobId).length ≤ maxHistory := by
    rw [crowd_length]
    exact hn
  have hnodup : ((crowd n).reverse ++ []).Nodup := by
    rw [List.append_nil]
    exact List.nodup_reverse.2 (crowd_nodup n)
  have hrun := hfirst.starts hnodup hroom
    (fun jobId => event (1 : ℕ) (9 : ℕ) (.start jobId 0)) fun jobId => ⟨(1 : ℕ), rfl⟩
  rwa [List.append_nil] at hrun

/-- The sled `0` hears of `n` running jobs and of one more that failed. -/
def fullHistory (n : ℕ) : State :=
  ((life (0 : ℕ) (10 : ℕ) none).run
    (crowdStarts n ++ [event (1 : ℕ) (9 : ℕ) (.error (n + 1 : ℕ) 0 .invalidCommand)])).1

/-- The job `0` fails here, and then starts and stops. -/
def failsThenStops : List Tick :=
  [event (10 : ℕ) (0 : ℕ) (.error (0 : ℕ) 0 .invalidCommand), event (10 : ℕ) (0 : ℕ) (.start (0 : ℕ) 0),
    event (10 : ℕ) (0 : ℕ) (.stop (0 : ℕ) 0 (.ok 0) noOutput)]

theorem crowded_fullHistory (hn : n + 1 = maxHistory) :
    (fullHistory n).Crowded (crowd n).reverse [(n + 1 : ℕ)] ∧
      (fullHistory n).history.contains (n + 1 : ℕ) = true := by
  unfold fullHistory
  rw [State.run_append]
  have hcrowded := crowded_run (0 : ℕ) (10 : ℕ) (n := n) (by omega)
  have hfresh : (n + 1 : ℕ) ∉ (crowd n).reverse := by
    rw [List.mem_reverse, mem_crowd]
    omega
  have hroom : (crowd n).reverse.length + ([] : List JobId).length < maxHistory := by
    rw [List.length_reverse, crowd_length]
    exact Nat.lt_of_succ_le hn.le
  have hnext : (JobEvent.error (n + 1 : ℕ) 0 .invalidCommand).next
      (((life (0 : ℕ) (10 : ℕ) none).run (crowdStarts n)).1.history.statusOn (n + 1 : ℕ) (9 : ℕ)) =
        some (.error (n + 1 : ℕ) 0 .invalidCommand) := by
    rw [hcrowded.statusOn_of_not_mem (by simpa using hfresh)]
    rfl
  exact hcrowded.ending rfl hnext rfl hfresh hroom

/-- **The record keeps an ending that the history does not have**: the job is evicted as soon as it
has failed, and its stop is recorded too late. -/
theorem ending_replaced_evicted (hn : n + 1 = maxHistory) :
    (fullHistory n).history.statusOn (0 : ℕ) (0 : ℕ) = none ∧
    ((fullHistory n).run failsThenStops).1.history.statusOn (0 : ℕ) (0 : ℕ) =
      some (.stopped (0 : ℕ) 0 0 (.ok 0) noOutput) ∧
    rans ((fullHistory n).run failsThenStops).2 =
      [.error (0 : ℕ) 0 .invalidCommand, .stopped (0 : ℕ) 0 0 (.ok 0) noOutput] := by
  obtain ⟨hcrowded, hknown⟩ := crowded_fullHistory hn
  have hown : (fullHistory n).rack.ownBaseboard = (0 : ℕ) := (sameLife_run _ _).own
  have hlength : (crowd n).reverse.length = n := by rw [List.length_reverse, crowd_length]
  have hbound : maxHistory = 65536 := rfl
  have hnodup : ((0 : ℕ) :: ((crowd n).reverse ++ [n + 1])).Nodup := by
    rw [List.nodup_cons, List.nodup_append, List.mem_append, List.mem_reverse, mem_crowd]
    refine ⟨by simp, List.nodup_reverse.2 (crowd_nodup n), List.nodup_singleton _, ?_⟩
    intro k hk k' hk'
    rw [List.mem_reverse, mem_crowd] at hk
    rw [List.mem_singleton] at hk'
    omega
  refine hcrowded.revive hown ?_ ?_ hnodup ?_ ?_ rfl rfl rfl
  · rw [hlength, hbound]
    omega
  · intro k hk
    rw [List.mem_singleton.1 hk]
    exact hknown
  · rw [hlength]
    exact hn.symm.le
  · rw [hlength]
    exact Nat.lt_of_succ_le hn.le

/-- The sled `1` hears of running jobs only. -/
def runningHistory (n : ℕ) : State := ((life (1 : ℕ) (10 : ℕ) none).run (crowdStarts n)).1

/-- **A sled forgets the ending that it is told**, as its history is full of running jobs. -/
theorem ending_forgotten_evicted (hn : n = maxHistory) :
    (runningHistory n).history.statusOn (0 : ℕ) (0 : ℕ) = none ∧
    ((runningHistory n).step (event (10 : ℕ) (0 : ℕ)
      (.error (0 : ℕ) 0 .invalidCommand))).1.history.statusOn (0 : ℕ) (0 : ℕ) = none := by
  have hcrowded : (runningHistory n).Crowded (crowd n).reverse [] :=
    crowded_run (1 : ℕ) (10 : ℕ) hn.le
  have hlength : (crowd n).reverse.length = n := by rw [List.length_reverse, crowd_length]
  have hbound : maxHistory = 65536 := rfl
  have hfresh : (0 : ℕ) ∉ (crowd n).reverse ++ [] := by
    rw [List.append_nil, List.mem_reverse, mem_crowd]
    omega
  have hnone := hcrowded.statusOn_of_not_mem hfresh (0 : ℕ)
  have hnext : (JobEvent.error (0 : ℕ) 0 .invalidCommand).next
      ((runningHistory n).history.statusOn (0 : ℕ) (0 : ℕ)) =
        some (.error (0 : ℕ) 0 .invalidCommand) := by
    rw [hnone]
    rfl
  have hnodup : ((0 : ℕ) :: ((crowd n).reverse ++ [])).Nodup := by
    refine List.nodup_cons.2 ⟨hfresh, ?_⟩
    rw [List.append_nil]
    exact List.nodup_reverse.2 (crowd_nodup n)
  have hafter : ((runningHistory n).step (event (10 : ℕ) (0 : ℕ)
      (.error (0 : ℕ) 0 .invalidCommand))).1.Crowded (crowd n).reverse [] := by
    refine hcrowded.overflow ?_ rfl hnext rfl (by simp) hnodup ?_
    · rw [hlength]
      omega
    · rw [hlength]
      exact hn.symm.le
  exact ⟨hnone, hafter.statusOn_of_not_mem hfresh (0 : ℕ)⟩

/-- The record with the failure of the job `0`, and the life that a restart begins with it. -/
def failedZero : Boundary := { recordZero with status := some (.error (0 : ℕ) 0 .invalidCommand) }

/-- **Both halves fail when the job is evicted.** On the sled `0` the job fails, starts and stops; the
history says that it stopped and the record that it failed. And the failure that the next life
announces leaves no status on a sled that knows as many running jobs as a history holds. -/
theorem ending_lost_evicted :
    ((fullHistory 65535).history.statusOn (0 : ℕ) (0 : ℕ) = none ∧
      ((fullHistory 65535).run failsThenStops).1.history.statusOn (0 : ℕ) (0 : ℕ) =
        some (.stopped (0 : ℕ) 0 0 (.ok 0) noOutput) ∧
      BoundaryStore.recordAll ⟨some recordZero⟩ (rans ((fullHistory 65535).run failsThenStops).2) =
        ⟨some failedZero⟩) ∧
    ((life (0 : ℕ) (10 : ℕ) (some failedZero)).step drained).2 =
        [.jobEvent (0 : ℕ) (.error (0 : ℕ) 0 .invalidCommand)] ∧
      (runningHistory 65536).history.statusOn (0 : ℕ) (0 : ℕ) = none ∧
      ((runningHistory 65536).step (event (10 : ℕ) (0 : ℕ)
        (.error (0 : ℕ) 0 .invalidCommand))).1.history.statusOn (0 : ℕ) (0 : ℕ) = none := by
  obtain ⟨hnone, hstopped, hrans⟩ := ending_replaced_evicted (n := 65535) rfl
  refine ⟨⟨hnone, hstopped, ?_⟩, rfl, ending_forgotten_evicted rfl⟩
  rw [hrans]
  rfl

end Sush.Terms
