import Sush.Server.Driver
import Sush.Verify.Scenario
import Sush.Verify.Statuses

/-!
# Jobs do not cross universes

At a swap the driver dooms the jobs whose stop token the executor holds, and from then on drops their
events. A job that will still send events is a source: it is queued, at the launcher, has a task, or
has its last event in the channel. A source is a source once, and after its last event is taken it
sends nothing (`Driver.Tracked`). So if every source holds its stop token, or was doomed before,
whenever the universe changes, no event of a job crosses. A stop request, a refusal at a full queue and
an ending heard back take the token away before the last event, and then the event does cross.
-/

namespace Sush

variable [World]

/-! ## Sources of events -/

/-- The jobs whose last event is among `events`. -/
def finals (events : List JobEvent) : List JobId := (events.filter JobEvent.isFinal).map JobEvent.jobId

@[simp] theorem finals_append {events events' : List JobEvent} :
    finals (events ++ events') = finals events ++ finals events' := by
  unfold finals
  rw [List.filter_append, List.map_append]

theorem finals_cons_of_final {event : JobEvent} {events : List JobEvent} (h : event.isFinal = true) :
    finals (event :: events) = event.jobId :: finals events := by
  unfold finals
  rw [List.filter_cons_of_pos h, List.map_cons]

theorem finals_cons_of_not_final {event : JobEvent} {events : List JobEvent}
    (h : event.isFinal = false) : finals (event :: events) = finals events := by
  unfold finals
  rw [List.filter_cons_of_neg (by simp [h])]

def Launcher.launch? : Launcher → Option Run
  | .idle => none
  | .waiting launch | .storing launch | .committed launch | .failed launch _ => some launch

namespace Executor

def pending (e : Executor) : List Run := e.launcher.launch?.toList ++ e.queue

def taskIds (e : Executor) : List JobId := e.tasks.map Task.jobId

/-- The jobs that will still send events, or whose last event was not taken yet. -/
def sources (e : Executor) : List JobId :=
  e.pending.map Run.jobId ++ (e.taskIds ++ finals e.events)

/-- An event that is not the last one of its job comes before that one. -/
def Announced (e : Executor) : Prop :=
  ∀ pre event post, e.events = pre ++ event :: post → event.isFinal = false →
    event.jobId ∈ e.taskIds ++ finals post

/-- What holds of the executor's sources: each is one once, and was launched. -/
structure Tracked (e : Executor) (launched : List JobId) : Prop where
  nodup : e.sources.Nodup
  launched : e.sources ⊆ launched
  announced : e.Announced

variable {e e' : Executor} {event : JobEvent} {launched : List JobId}

variable {events : List JobEvent} {launch : Run} {j : JobId}

/-- The events grow by one: a job announces its start, or its task ends. -/
theorem Announced.concat (h : e.Announced) (hevents : e'.events = e.events ++ [event])
    (htasks : e.taskIds ⊆ e'.taskIds ++ finals [event])
    (hevent : event.isFinal = false → event.jobId ∈ e'.taskIds) : e'.Announced := by
  intro pre event' post hsplit hfinal
  rw [hevents] at hsplit
  rcases Lib.split_concat hsplit with ⟨-, -, rfl⟩ | ⟨post', rfl, hsplit'⟩
  · exact List.mem_append_left _ (hevent hfinal)
  · have hmem := h pre event' post' hsplit' hfinal
    have htask := @htasks event'.jobId
    grind [finals_append]

theorem Announced.of_subset (h : e.Announced) (hevents : e'.events = e.events)
    (htasks : e.taskIds ⊆ e'.taskIds) : e'.Announced := by
  intro pre event post hsplit hfinal
  rcases List.mem_append.1 (h pre event post (hevents ▸ hsplit) hfinal) with hmem | hmem
  · exact List.mem_append_left _ (htasks hmem)
  · exact List.mem_append_right _ hmem

theorem Announced.tail (h : e.Announced) (hevents : e.events = event :: events) :
    ({ e with events := events } : Executor).Announced := by
  intro pre event' post hsplit hfinal
  refine h (event :: pre) event' post ?_ hfinal
  rw [hevents, show events = pre ++ event' :: post from hsplit]
  rfl

theorem Announced.mem_sources (h : e.Announced) (hevents : e.events = event :: events) :
    event.jobId ∈ e.sources := by
  refine List.mem_append_right _ ?_
  cases hfinal : event.isFinal with
  | true =>
    rw [hevents, finals_cons_of_final hfinal]
    exact List.mem_append_right _ (.head _)
  | false =>
    rw [hevents, finals_cons_of_not_final hfinal]
    exact h [] event events hevents hfinal

theorem Tracked.of_perm (h : e.Tracked launched) (hperm : e'.sources.Perm e.sources)
    (hannounced : e'.Announced) : e'.Tracked launched :=
  ⟨hperm.nodup_iff.2 h.nodup, fun _ hj => h.launched (hperm.subset hj), hannounced⟩

theorem Tracked.of_eq (h : e.Tracked launched) (hpending : e'.pending = e.pending)
    (htasks : e'.tasks = e.tasks) (hevents : e'.events = e.events) : e'.Tracked launched := by
  refine h.of_perm ?_ ?_
  · unfold sources taskIds
    rw [hpending, htasks, hevents]
  · unfold Announced taskIds
    rw [htasks, hevents]
    exact h.announced

/-! ## The executor's tasks keep the sources -/

theorem tracked_finish {place : ℕ} {task : Task} (h : e.Tracked launched)
    (htask : e.tasks[place]? = some task) (hfinal : event.isFinal = true)
    (hid : event.jobId = task.jobId) :
    ({ e with tasks := e.tasks.eraseIdx place, events := e.events ++ [event] } : Executor).Tracked
      launched := by
  obtain ⟨hlt, hget⟩ := List.getElem?_eq_some_iff.1 htask
  have hperm : (task.jobId :: (e.tasks.eraseIdx place).map Task.jobId).Perm e.taskIds := by
    have := List.getElem_cons_eraseIdx_perm hlt
    rw [hget] at this
    exact this.map Task.jobId
  have hlast : finals [event] = [task.jobId] := by rw [finals_cons_of_final hfinal, hid]; rfl
  refine h.of_perm (List.Perm.append_left _ ?_) (h.announced.concat rfl ?_ ?_)
  · have hmove : ((e.tasks.eraseIdx place).map Task.jobId ++ finals (e.events ++ [event])).Perm
        (task.jobId :: ((e.tasks.eraseIdx place).map Task.jobId ++ finals e.events)) := by
      rw [finals_append, hlast, ← List.append_assoc]
      exact List.perm_append_singleton _ _
    exact hmove.trans (hperm.append_right _)
  · rw [hlast]
    intro j hj
    exact (List.perm_append_comm.subset (hperm.symm.subset hj) : j ∈ _ ++ [task.jobId])
  · intro hnot
    rw [hfinal] at hnot
    cases hnot

theorem tracked_launch (h : e.Tracked launched) (action : ExecutorAct) :
    (e.launch action).1.Tracked launched := by
  cases action with
  | receive =>
    unfold launch
    dsimp only
    split
    · next launch queue hidle hqueue =>
      refine h.of_eq ?_ rfl rfl
      unfold pending
      rw [hidle, hqueue]
      rfl
    · exact h
  | lock =>
    unfold launch
    dsimp only
    split
    · next launch hwaiting =>
      split
      · refine h.of_eq ?_ rfl rfl
        unfold pending
        rw [hwaiting]
        rfl
      · exact h
    · exact h
  | stored result =>
    unfold launch
    dsimp only
    split
    · next launch hstoring =>
      refine h.of_eq ?_ rfl rfl
      unfold pending
      rw [hstoring]
      rfl
    · next launch cause hstoring =>
      refine h.of_eq ?_ rfl rfl
      unfold pending
      rw [hstoring]
      rfl
    · exact h
  | spawn =>
    unfold launch
    dsimp only
    split
    · next launch hcommitted =>
      refine h.of_perm ?_ (h.announced.of_subset rfl ?_)
      · have hsources : e.sources =
            launch.jobId :: (e.queue.map Run.jobId ++ (e.taskIds ++ finals e.events)) := by
          unfold sources pending
          rw [hcommitted]
          rfl
        rw [hsources, ← List.append_assoc]
        refine List.Perm.trans (List.Perm.of_eq ?_) List.perm_middle
        simp [sources, pending, taskIds, Launcher.launch?, Task.jobId]
      · unfold taskIds
        rw [List.map_append]
        exact List.subset_append_left _ _
    · exact h
  | abandon now =>
    unfold launch
    dsimp only
    split
    · next launch cause hfailed =>
      have hlast : finals [.error launch.jobId now cause] = [launch.jobId] :=
        finals_cons_of_final rfl
      refine h.of_perm ?_ (h.announced.concat rfl (List.subset_append_left _ _) (by simp [JobEvent.isFinal]))
      have hsources : e.sources =
          launch.jobId :: (e.queue.map Run.jobId ++ (e.taskIds ++ finals e.events)) := by
        unfold sources pending
        rw [hfailed]
        rfl
      rw [hsources]
      refine List.Perm.trans (List.Perm.of_eq ?_) (List.perm_append_singleton _ _)
      simp [sources, pending, taskIds, Launcher.launch?, hlast]
    · exact h
  | _ => exact h

theorem taskIds_running {place : ℕ} (htask : e.tasks[place]? = some (.spawning launch))
    (htasks : e'.tasks = e.tasks.set place (.running launch.jobId)) : e'.taskIds = e.taskIds := by
  have hget : e.taskIds[place]? = some launch.jobId := by
    unfold taskIds
    rw [List.getElem?_map, htask]
    rfl
  obtain ⟨hlt, hid⟩ := List.getElem?_eq_some_iff.1 hget
  calc e'.taskIds
    _ = (e.tasks.set place (.running launch.jobId)).map Task.jobId := by rw [← htasks]; rfl
    _ = e.taskIds.set place launch.jobId := List.map_set
    _ = e.taskIds := by rw [← hid, List.set_getElem_self]

theorem tracked_runTask (h : e.Tracked launched) (action : ExecutorAct) :
    (e.runTask action).Tracked launched := by
  cases action with
  | taskError place now error =>
    unfold runTask
    dsimp only
    split
    · next jobId reason htask => exact tracked_finish h htask rfl rfl
    · next task hnot htask => exact tracked_finish h htask rfl rfl
    · exact h
  | taskStart place now =>
    unfold runTask
    dsimp only
    split
    · next launch htask =>
      have hmem : launch.jobId ∈ e.taskIds := List.mem_map.2 ⟨_, List.mem_of_getElem? htask, rfl⟩
      have hlast : finals [.start launch.jobId now] = [] := finals_cons_of_not_final rfl
      refine h.of_perm (List.Perm.of_eq ?_) (h.announced.concat rfl ?_ ?_)
      · unfold sources
        rw [taskIds_running htask rfl, finals_append, hlast, List.append_nil]
        rfl
      · intro j hj
        refine List.mem_append_left _ ?_
        rwa [taskIds_running htask rfl]
      · rw [taskIds_running htask rfl]
        exact fun _ => hmem
    · exact h
  | taskEnd place now result output =>
    unfold runTask
    dsimp only
    split
    · next jobId htask => exact tracked_finish h htask rfl rfl
    · exact h
  | _ => exact h

theorem tracked_recordEnding (h : e.Tracked launched) (action : ExecutorAct) :
    (e.recordEnding action).Tracked launched := by
  cases action with
  | lockEnding place =>
    unfold recordEnding
    dsimp only
    split
    · split
      · exact h.of_eq rfl rfl rfl
      · exact h
    · exact h
  | recorded stored =>
    unfold recordEnding
    dsimp only
    split
    · exact h.of_eq rfl rfl rfl
    · exact h
  | _ => exact h

/-- **The executor's own steps** neither make sources nor lose them. -/
theorem tracked_step (h : e.Tracked launched) {action : ExecutorAct} (hcall : action.isCall = false) :
    (e.step action).1.Tracked launched := by
  cases action with
  | jobStart _ | jobStop _ | jobStopped _ | recordStatus _ => cases hcall
  | shutdown => exact h.of_eq rfl rfl rfl
  | receive | lock | stored _ | spawn | abandon _ => exact tracked_launch h _
  | lockEnding place => exact tracked_recordEnding h (.lockEnding place)
  | recorded stored => exact tracked_recordEnding h (.recorded stored)
  | taskError place now error => exact tracked_runTask h (.taskError place now error)
  | taskStart place now => exact tracked_runTask h (.taskStart place now)
  | taskEnd place now result output => exact tracked_runTask h (.taskEnd place now result output)

/-- A launch makes one source, whether it is queued or refused, and none once the executor has shut
down. -/
theorem jobStart_sources (launch : Run) :
    (e.jobStart launch).1.sources.Perm (launch.jobId :: e.sources) ∨
      (e.jobStart launch).1.sources = e.sources := by
  unfold jobStart
  split
  · next hopen =>
    dsimp only
    split
    · refine .inl (List.Perm.trans (List.Perm.of_eq ?_) List.perm_middle)
      simp [sources, pending, taskIds]
    · unfold jobRefused
      rw [if_pos (show _ = true from hopen)]
      have hsources : e.sources = (e.pending.map Run.jobId ++ e.taskIds) ++ finals e.events := by
        simp [sources]
      rw [hsources]
      refine .inl ((List.Perm.of_eq ?_).trans List.perm_middle)
      simp [sources, pending, taskIds, Task.jobId]
  · exact .inr rfl

theorem announced_jobStart (h : e.Announced) (launch : Run) : (e.jobStart launch).1.Announced := by
  unfold jobStart
  split
  · next hopen =>
    dsimp only
    split
    · exact h.of_subset rfl (List.Subset.refl _)
    · unfold jobRefused
      rw [if_pos (show _ = true from hopen)]
      refine h.of_subset rfl ?_
      unfold taskIds
      rw [List.map_append]
      exact List.subset_append_left _ _
  · exact h

theorem mem_sources_jobStart (hj : j ∈ (e.jobStart launch).1.sources) :
    j = launch.jobId ∨ j ∈ e.sources := by
  rcases jobStart_sources launch with hperm | heq
  · exact List.mem_cons.1 (hperm.subset hj)
  · exact .inr (heq ▸ hj)

theorem tracked_jobStart (h : e.Tracked launched) (hnew : launch.jobId ∉ launched) :
    (e.jobStart launch).1.Tracked (launched ++ [launch.jobId]) := by
  have hfresh : launch.jobId ∉ e.sources := fun hmem => hnew (h.launched hmem)
  refine ⟨?_, ?_, announced_jobStart h.announced launch⟩
  · rcases jobStart_sources launch with hperm | heq
    · exact hperm.nodup_iff.2 (List.nodup_cons.2 ⟨hfresh, h.nodup⟩)
    · exact heq ▸ h.nodup
  · intro j hj
    rcases mem_sources_jobStart hj with rfl | hold
    · exact List.mem_append_right _ (.head _)
    · exact List.mem_append_left _ (h.launched hold)

/-- **The oldest event is taken**; its job is no source any more if the event was its last. -/
theorem tracked_take (h : e.Tracked launched) (hevents : e.events = event :: events) :
    ({ e with events := events } : Executor).Tracked launched ∧
      ({ e with events := events } : Executor).sources ⊆ e.sources ∧
      (event.isFinal = true → event.jobId ∉ ({ e with events := events } : Executor).sources) := by
  have hsources : e.sources =
      (e.pending.map Run.jobId ++ e.taskIds) ++ finals (event :: events) := by
    simp [sources, hevents]
  have htaken : ({ e with events := events } : Executor).sources =
      (e.pending.map Run.jobId ++ e.taskIds) ++ finals events := by
    simp [sources, pending, taskIds]
  cases hfinal : event.isFinal with
  | true =>
    rw [finals_cons_of_final hfinal] at hsources
    have hperm : e.sources.Perm (event.jobId :: ({ e with events := events } : Executor).sources) := by
      rw [hsources, htaken]
      exact List.perm_middle
    have hnodup := List.nodup_cons.1 (hperm.nodup_iff.1 h.nodup)
    have hsub : ({ e with events := events } : Executor).sources ⊆ e.sources := fun j hj =>
      hperm.symm.subset (.tail _ hj)
    exact ⟨⟨hnodup.2, fun j hj => h.launched (hsub hj), h.announced.tail hevents⟩, hsub,
      fun _ => hnodup.1⟩
  | false =>
    rw [finals_cons_of_not_final hfinal, ← htaken] at hsources
    refine ⟨h.of_perm (List.Perm.of_eq hsources.symm) (h.announced.tail hevents), ?_, ?_⟩
    · exact fun j hj => hsources ▸ hj
    · exact fun hcontra => absurd hcontra Bool.false_ne_true

end Executor

/-! ## The driver -/

namespace DriverOut

@[simp] def launched? : DriverOut → Option JobId
  | launched run => some run.jobId
  | _ => none

/-- Whether this is neither a swap nor an event that is forwarded. -/
def isPlain : DriverOut → Bool
  | swapped _ | forwarded _ => false
  | _ => true

end DriverOut

def launchedOf (outs : List DriverOut) : List JobId := outs.filterMap DriverOut.launched?

theorem launchedOf_concat {outs : List DriverOut} {o : DriverOut} :
    launchedOf (outs ++ [o]) = launchedOf outs ++ o.launched?.toList := by
  unfold launchedOf
  rw [List.filterMap_append, List.filterMap_cons]
  cases o.launched? <;> rfl

theorem launchedOf_concat_of_none {outs : List DriverOut} {o : DriverOut} (h : o.launched? = none) :
    launchedOf (outs ++ [o]) = launchedOf outs := by
  rw [launchedOf_concat, h]
  exact List.append_nil _

theorem launchedOf_append {outs outs' : List DriverOut} :
    launchedOf (outs ++ outs') = launchedOf outs ++ launchedOf outs' :=
  List.filterMap_append

variable [Crypto]

namespace Driver

/-- What holds of the driver after it was seen to do `outs`: a source launched before a swap is
doomed, and no event was forwarded after a swap of a job launched before it. -/
structure Tracked (d : Driver) (outs : List DriverOut) : Prop where
  executor : d.executor.Tracked (launchedOf outs)
  doomed : ∀ before network after, outs = before ++ .swapped network :: after →
    ∀ j ∈ launchedOf before, j ∈ d.executor.sources → d.doomed.contains j
  stays : ∀ before network between event after,
    outs = before ++ .swapped network :: (between ++ .forwarded event :: after) →
    event.jobId ∉ launchedOf before

variable {d d' : Driver} {outs : List DriverOut} {o : DriverOut}

/-- The driver is seen to do something that is neither a swap nor a forwarded event, and has no
doomed source less. -/
theorem Tracked.plain (h : d.Tracked outs) (ho : o.isPlain = true)
    (hexecutor : d'.executor.Tracked (launchedOf (outs ++ [o])))
    (hdoomed : ∀ j ∈ d'.executor.sources, j ∈ launchedOf outs →
      j ∈ d.executor.sources ∧ (d.doomed.contains j → d'.doomed.contains j)) :
    d'.Tracked (outs ++ [o]) := by
  refine ⟨hexecutor, ?_, ?_⟩
  · intro before network after hsplit j hj hsource
    rcases Lib.split_concat hsplit with ⟨-, -, rfl⟩ | ⟨after, rfl, rfl⟩
    · cases ho
    · have hlaunched : j ∈ launchedOf (before ++ .swapped network :: after) := by
        rw [launchedOf_append]
        exact List.mem_append_left _ hj
      obtain ⟨hsource', hkeep⟩ := hdoomed j hsource hlaunched
      exact hkeep (h.doomed before network after rfl j hj hsource')
  · intro before network between event after hsplit
    have hcut : outs ++ [o] = (before ++ .swapped network :: between) ++ .forwarded event :: after := by
      simpa using hsplit
    rcases Lib.split_concat hcut with ⟨-, -, rfl⟩ | ⟨after, rfl, rfl⟩
    · cases ho
    · exact h.stays before network between event after (by simp)

theorem Tracked.of_eq (h : d.Tracked outs) (hexecutor : d'.executor.Tracked (launchedOf outs))
    (hdoomed : ∀ j ∈ d'.executor.sources,
      j ∈ d.executor.sources ∧ (d.doomed.contains j → d'.doomed.contains j)) : d'.Tracked outs :=
  ⟨hexecutor, fun before network after hsplit j hj hsource =>
    (hdoomed j hsource).2 (h.doomed before network after hsplit j hj (hdoomed j hsource).1), h.stays⟩

/-- **One output is carried out.** -/
theorem tracked_applyOutput (h : d.Tracked outs) (output : Output)
    (hnodup : (launchedOf (outs ++ (d.applyOutput output).2)).Nodup) :
    (d.applyOutput output).1.Tracked (outs ++ (d.applyOutput output).2) := by
  cases output with
  | run run =>
    have hlaunched : launchedOf (outs ++ [.launched run]) = launchedOf outs ++ [run.jobId] :=
      launchedOf_concat
    have hnew : run.jobId ∉ launchedOf outs := by
      intro hmem
      have := hlaunched ▸ hnodup
      exact List.disjoint_of_nodup_append this hmem (.head _)
    refine h.plain rfl ?_ ?_
    · rw [hlaunched]
      exact Executor.tracked_jobStart h.executor hnew
    · intro j hj hold
      rcases Executor.mem_sources_jobStart hj with rfl | hsource
      · exact absurd hold hnew
      · exact ⟨hsource, id⟩
  | stop jobId =>
    refine h.plain rfl ?_ fun j hj _ => ⟨hj, id⟩
    rw [launchedOf_concat_of_none rfl]
    exact h.executor.of_eq rfl rfl rfl
  | ran status =>
    rw [show (d.applyOutput (.ran status)).2 = [] from rfl, List.append_nil]
    exact h.of_eq (h.executor.of_eq rfl rfl rfl) fun j hj => ⟨hj, id⟩
  | gossip message =>
    unfold applyOutput
    dsimp only
    split
    · refine h.plain rfl ?_ fun j hj _ => ⟨hj, id⟩
      rw [launchedOf_concat_of_none rfl]
      exact h.executor
    · rwa [List.append_nil]

theorem tracked_applyOutputs (h : d.Tracked outs) (outputs : List Output)
    (hnodup : (launchedOf (outs ++ (d.applyOutputs outputs).2)).Nodup) :
    (d.applyOutputs outputs).1.Tracked (outs ++ (d.applyOutputs outputs).2) := by
  refine Lib.run_invariant applyOutput
    (P := fun d _ os => (launchedOf (outs ++ os)).Nodup → d.Tracked (outs ++ os)) ?_ ?_ outputs hnodup
  · intro d _ os output ih hnodup
    rw [← List.append_assoc] at hnodup ⊢
    have hbefore : (launchedOf (outs ++ os)).Nodup := by
      rw [launchedOf_append] at hnodup
      exact (List.nodup_append.1 hnodup).1
    exact tracked_applyOutput (ih hbefore) output hnodup
  · intro _
    rwa [List.append_nil]

/-- **The executor's next event** is dropped if its job crossed a swap. -/
theorem tracked_handleEvent (h : d.Tracked outs) :
    d.handleEvent.1.Tracked (outs ++ d.handleEvent.2) := by
  unfold handleEvent
  split
  · rwa [List.append_nil]
  next event events hevents =>
  obtain ⟨htaken, hsub, hlast⟩ := Executor.tracked_take h.executor hevents
  dsimp only
  split
  · refine h.plain rfl ?_ ?_
    · rw [launchedOf_concat]
      simpa using htaken
    · intro j hj _
      refine ⟨hsub hj, fun hdoomed => ?_⟩
      dsimp only
      split
      · next hfinal =>
        have hne : event.jobId ≠ j := fun heq => hlast hfinal (heq ▸ hj)
        exact BTreeSet.contains_erase_iff.2 ⟨hne, hdoomed⟩
      · exact hdoomed
  next hnot =>
  have hkept : ({ d with executor := { d.executor with events := events } } : Driver).Tracked outs :=
    h.of_eq htaken fun j hj => ⟨hsub hj, id⟩
  split
  · refine ⟨?_, ?_, ?_⟩
    · rw [launchedOf_concat]
      simpa using htaken
    · intro before network after hsplit
      rcases Lib.split_concat hsplit with ⟨-, -, heq⟩ | ⟨after, rfl, hsplit'⟩
      · cases heq
      · exact hkept.doomed before network after hsplit'
    · intro before network between event' after hsplit hmem
      have hcut : outs ++ [.forwarded event] =
          (before ++ .swapped network :: between) ++ .forwarded event' :: after := by
        simpa using hsplit
      rcases Lib.split_concat hcut with ⟨-, hbefore, heq⟩ | ⟨after, rfl, hsplit'⟩
      · cases heq
        have hsource := h.executor.announced.mem_sources hevents
        exact hnot (h.doomed before network between hbefore.symm _ hmem hsource)
      · exact h.stays before network between event' after (by simpa using hsplit') hmem
  · rwa [List.append_nil]

/-! ## A swap -/

theorem foldl_kill_eq (jobs : List JobId) : jobs.foldl kill d = { d with
    executor := { d.executor with stop := jobs.foldl (fun stop j => stop.erase j) d.executor.stop }
    doomed := jobs.foldl (fun doomed j => doomed.insert j) d.doomed } := by
  induction jobs generalizing d with
  | nil => rfl
  | cons j jobs ih =>
    rw [List.foldl_cons, ih]
    rfl

omit [Crypto] in
theorem contains_foldl_insert {doomed : BTreeSet JobId} {jobs : List JobId} :
    (jobs.foldl (fun doomed j => doomed.insert j) doomed).contains j = true ↔
      j ∈ jobs ∨ doomed.contains j = true := by
  induction jobs generalizing doomed with
  | nil => simp
  | cons k jobs ih =>
    rw [List.foldl_cons, ih, BTreeSet.contains_insert_iff, List.mem_cons]
    grind

/-- Every source holds its stop token, or was doomed at an earlier swap. -/
def TokensHeld (d : Driver) : Prop :=
  ∀ j ∈ d.executor.sources, d.executor.inFlight.contains j = true ∨ d.doomed.contains j = true

def SwapsHeld (d : Driver) : DriverAct → Prop
  | .swap .. => d.TokensHeld
  | _ => True

theorem tracked_killInFlight {launched : List JobId} (h : d.executor.Tracked launched) :
    d.killInFlight.executor.Tracked launched := by
  unfold killInFlight
  rw [foldl_kill_eq]
  exact h.of_eq rfl rfl rfl

theorem killInFlight_sources : d.killInFlight.executor.sources = d.executor.sources := by
  unfold killInFlight
  rw [foldl_kill_eq]
  rfl

theorem contains_doomed_killInFlight :
    d.killInFlight.doomed.contains j = true ↔
      d.executor.inFlight.contains j = true ∨ d.doomed.contains j = true := by
  unfold killInFlight
  rw [foldl_kill_eq, contains_foldl_insert, BTreeSet.mem_toList_iff]

/-- **A swap** dooms every source. -/
theorem tracked_swap (h : d.Tracked outs) (hheld : d.TokensHeld) (config : Config)
    (network : Network) (birth : Version) (cubbies : Cubbies) :
    (d.swap config network birth cubbies).1.Tracked
      (outs ++ (d.swap config network birth cubbies).2) := by
  unfold swap
  split
  · refine ⟨?_, ?_, ?_⟩
    · rw [launchedOf_concat_of_none rfl]
      exact tracked_killInFlight h.executor
    · intro before network' after hsplit j hj hsource
      have hold : j ∈ d.executor.sources := killInFlight_sources ▸ hsource
      rcases Lib.split_concat hsplit with ⟨-, rfl, -⟩ | ⟨after, rfl, hsplit'⟩
      · exact contains_doomed_killInFlight.2 (hheld j hold)
      · have hdoomed := h.doomed before network' after hsplit' j hj hold
        exact contains_doomed_killInFlight.2 (.inr hdoomed)
    · intro before network' between event after hsplit
      have hcut : outs ++ [.swapped network] =
          (before ++ .swapped network' :: between) ++ .forwarded event :: after := by
        simpa using hsplit
      rcases Lib.split_concat hcut with ⟨-, -, heq⟩ | ⟨after, rfl, hsplit'⟩
      · cases heq
      · exact h.stays before network' between event after (by simpa using hsplit')
  · rwa [List.append_nil]

theorem tracked_new {state : State} {store : BoundaryStore} {network : Network} :
    (Driver.new state store network).Tracked [] where
  executor := ⟨List.nodup_nil, List.nil_subset _, fun _ _ _ hsplit _ => by
    simp [new, Executor.new] at hsplit⟩
  doomed := fun _ _ _ hsplit => by simp at hsplit
  stays := fun _ _ _ _ _ hsplit => by simp at hsplit

variable [Hashing]

/-- **One action** keeps what holds of the driver, if every source holds its token when the action
is a swap. -/
theorem tracked_step (config : Config) (action : DriverAct) (h : d.Tracked outs)
    (hheld : d.SwapsHeld action) (hnodup : (launchedOf (outs ++ (d.step config action).2)).Nodup) :
    (d.step config action).1.Tracked (outs ++ (d.step config action).2) := by
  cases action with
  | request request =>
    unfold step
    dsimp only
    split
    · refine h.plain rfl ?_ fun j hj _ => ⟨hj, id⟩
      rw [launchedOf_concat_of_none rfl]
      exact h.executor
    · rwa [List.append_nil]
  | event => exact tracked_handleEvent h
  | input now input =>
    refine tracked_applyOutputs ?_ _ hnodup
    exact h.of_eq h.executor fun j hj => ⟨hj, id⟩
  | swap network birth cubbies => exact tracked_swap h hheld config network birth cubbies
  | drain =>
    rw [show (d.step config .drain).2 = [] from rfl, List.append_nil]
    exact h.of_eq h.executor fun j hj => ⟨hj, id⟩
  | task action =>
    unfold step
    dsimp only
    split
    · rwa [List.append_nil]
    · next hcall =>
      have hown : d.executor.Tracked d.executor.sources :=
        ⟨h.executor.nodup, List.Subset.refl _, h.executor.announced⟩
      have hcall' : action.isCall = false := Bool.eq_false_iff.2 hcall
      rw [List.append_nil]
      refine h.of_eq (Executor.tracked_step h.executor hcall') fun j hj => ⟨?_, id⟩
      exact (Executor.tracked_step hown hcall').launched hj

/-- **Jobs do not cross universes** while every swap finds the stop token of every job that will still
send events: no event is forwarded after a swap of a job that was launched before it. -/
theorem jobs_stay_behind (config : Config) (state : State) (store : BoundaryStore)
    (network : Network) (acts : List DriverAct)
    (hheld : Lib.Always (Driver.step config) (fun d _ action => d.SwapsHeld action)
      (Driver.new state store network) [] acts)
    (hdistinct : (launchedOf ((Driver.new state store network).run config acts).2).Nodup)
    {before between after : List DriverOut} {next : Network} {event : JobEvent}
    (hrun : ((Driver.new state store network).run config acts).2 =
      before ++ .swapped next :: (between ++ .forwarded event :: after)) :
    event.jobId ∉ launchedOf before := by
  have htracked : ((Driver.new state store network).run config acts).1.Tracked
      ((Driver.new state store network).run config acts).2 := by
    refine Lib.run_invariant_of_always (Driver.step config)
      (P := fun d _ outs => (launchedOf outs).Nodup → d.Tracked outs) ?_ hheld
      (fun _ => tracked_new) hdistinct
    intro d _ outs action hheld ih hnodup
    have hbefore : (launchedOf outs).Nodup := by
      rw [launchedOf_append] at hnodup
      exact (List.nodup_append.1 hnodup).1
    exact tracked_step config action (ih hbefore) hheld hnodup
  exact htracked.stays before next between event after hrun

end Driver

end Sush

namespace Sush.Terms

attribute [local instance] world hashing crypto

/-- The driver's configuration on the sled `1`. -/
def config : Driver.Config where
  current := build
  ownBaseboard := (1 : ℕ)
  anchors := anchors

/-- The driver of the sled `1`, in the universe `0`. -/
def driver : Driver := Driver.new (life (1 : ℕ) (2 : ℕ) none) ⟨none⟩ (0 : ℕ)

/-- The first job of the session with sequence number `seq` is launched, spawned and started, by
requests at `version`. -/
def launchFirst (version : Version) (seq : SessionSeq) : List DriverAct :=
  [.input 0 (start version (0 : ℕ) seq).input,
    .input 0 (job version (0 : ℕ) (firstJob seq) [(1 : ℕ)]).input,
    .task .receive, .task .lock, .task (.stored (.ok ())), .task .spawn, .task (.taskStart 0 0)]

/-- The universe changes, the job ends, and its events are taken. -/
def swapThenEnd : List DriverAct :=
  [.swap (1 : ℕ) (3 : ℕ) ∅, .task (.taskEnd 0 0 (.ok 0) noOutput), .event, .event]

def stopFirst : DriverAct :=
  .input 0 (deliver (2 : ℕ) (.job (0 : ℕ) (.stop (firstJob 1).jobId))).input

/-- A job that was stopped before the universe changed reports its end, and its start, to the new
universe. -/
theorem forwarded_afterStop :
    (driver.run config (launchFirst (2 : ℕ) 1 ++ stopFirst :: swapThenEnd)).2 =
      [.launched (launch 1 (firstJob 1)), .stopped (firstJob 1).jobId, .swapped (1 : ℕ),
        .forwarded (.start (firstJob 1).jobId 0),
        .forwarded (.stop (firstJob 1).jobId 0 (.ok 0) noOutput)] := by
  rfl

/-- Without the stop, the events of the job are dropped; those of a job that the new universe
launches are forwarded. -/
def twoUniverses : List DriverAct :=
  launchFirst (2 : ℕ) 1 ++ swapThenEnd ++ launchFirst (3 : ℕ) 2 ++ [.event]

theorem run_twoUniverses : (driver.run config twoUniverses).2 =
    [.launched (launch 1 (firstJob 1))] ++ .swapped (1 : ℕ) ::
      ([.dropped (.start (firstJob 1).jobId 0),
        .dropped (.stop (firstJob 1).jobId 0 (.ok 0) noOutput),
        .launched { launch 2 (firstJob 2) with
          boundary := { record 2 (firstJob 2) with network := (1 : ℕ) } }] ++
      .forwarded (.start (firstJob 2).jobId 0) :: []) := by
  rfl

theorem jobs_stay_behind_twoUniverses :
    (JobEvent.start (firstJob 2).jobId 0).jobId ∉ launchedOf [.launched (launch 1 (firstJob 1))] := by
  have hheld : Lib.Always (Driver.step config) (fun d _ action => d.SwapsHeld action) driver []
      twoUniverses := by
    refine ⟨trivial, trivial, trivial, trivial, trivial, trivial, trivial, ?_, trivial, trivial,
      trivial, trivial, trivial, trivial, trivial, trivial, trivial, trivial, trivial, trivial⟩
    intro j hj
    have hmem : j ∈ [(firstJob 1).jobId] := hj
    rw [List.mem_singleton.1 hmem]
    exact .inl rfl
  have hdistinct : (launchedOf (driver.run config twoUniverses).2).Nodup := by
    rw [run_twoUniverses]
    decide +kernel
  exact Driver.jobs_stay_behind config _ _ _ twoUniverses hheld hdistinct run_twoUniverses

end Sush.Terms
