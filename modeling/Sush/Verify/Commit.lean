import Sush.Server.Executor
import Sush.Verify.Scenario

/-!
# Commit before run

The launcher takes launches in the order they were queued and one at a time, so the launches whose
boundary it has tried to store, the one it is at and those that wait are always the launches that were
queued, in order. What it then does with a launch is decided by how that store ended, which comes from
outside (`Executor.stores` reads it off the actions), and it acts on one store before it begins the
next: the stores and what settles the launches go pairwise (`Settles`), but for a last store that is
not acted on yet. It writes the boundary record only while it holds the guard, and a task that records
an ending holds the guard from the moment it reads the record until it writes it back, so what it
writes differs from the record in the ending only (the last field of `Executor.Ordered`).
-/

namespace Sush

variable [World]

/-! ## What happened to the launches -/

namespace ExecutorOut

@[simp] def queued? : ExecutorOut → Option Run
  | queued launch => some launch
  | _ => none

@[simp] def committed? : ExecutorOut → Option Run
  | committed launch => some launch
  | _ => none

/-- Whether a launch is done with: spawned, or given up. -/
@[simp] def settles : ExecutorOut → Bool
  | spawned _ | abandoned _ _ => true
  | _ => false

end ExecutorOut

def queuedOf (outs : List ExecutorOut) : List Run := outs.filterMap ExecutorOut.queued?

def settlements (outs : List ExecutorOut) : List ExecutorOut := outs.filter ExecutorOut.settles

@[simp] theorem queuedOf_append (outs new : List ExecutorOut) :
    queuedOf (outs ++ new) = queuedOf outs ++ queuedOf new :=
  List.filterMap_append

@[simp] theorem queuedOf_singleton (out : ExecutorOut) : queuedOf [out] = out.queued?.toList := by
  cases out <;> rfl

@[simp] theorem settlements_append (outs new : List ExecutorOut) :
    settlements (outs ++ new) = settlements outs ++ settlements new :=
  List.filter_append ..

@[simp] theorem settlements_singleton (out : ExecutorOut) :
    settlements [out] = if out.settles then [out] else [] := by
  cases out <;> rfl

/-! ## The stores -/

/-- A store of the launcher that ends: for which launch, and how. -/
def Executor.stored? (e : Executor) : ExecutorAct → Option (Run × Except String Unit)
  | .stored result =>
    match e.launcher with
    | .storing launch => some (launch, result)
    | _ => none
  | _ => none

def Executor.stores (e : Executor) (acts : List ExecutorAct) : List (Run × Except String Unit) :=
  Lib.seen Executor.step Executor.stored? e acts

def committedOf (stores : List (Run × Except String Unit)) : List Run :=
  stores.filterMap fun store => store.2.toOption.map fun _ => store.1

/-- What a store leads to: a launch whose boundary was stored is spawned, and any other is given up with
an event that reports the error of its store. -/
inductive Settles : Run × Except String Unit → ExecutorOut → Prop
  | spawned {launch : Run} : Settles (launch, .ok ()) (.spawned launch)
  | abandoned {launch : Run} {cause : String} {now : DateTime} :
      Settles (launch, .error cause) (.abandoned launch
        (.error launch.jobId now (.io "recording the execution boundary" cause)))

def Launcher.unstored : Launcher → List Run
  | .waiting launch | .storing launch => [launch]
  | _ => []

/-- The store that the launcher has still to act on. -/
def Launcher.unsettled : Launcher → List (Run × Except String Unit)
  | .committed launch => [(launch, .ok ())]
  | .failed launch (.io _ cause) => [(launch, .error cause)]
  | _ => []

def Launcher.isStoring : Launcher → Bool
  | .storing _ => true
  | _ => false

def Boundary.unended (boundary : Boundary) : Boundary := { boundary with status := none }

/-- What holds of the executor after these stores and outputs, from the record `first`. -/
structure Executor.Ordered (first : BoundaryStore) (e : Executor)
    (stores : List (Run × Except String Unit)) (outs : List ExecutorOut) : Prop where
  queued : queuedOf outs = stores.map Prod.fst ++ (e.launcher.unstored ++ e.queue)
  settled : ∃ settled, stores = settled ++ e.launcher.unsettled ∧
    List.Forall₂ Settles settled (settlements outs)
  failed : ∀ launch error, e.launcher = .failed launch error →
    ∃ cause, error = .io "recording the execution boundary" cause
  held : e.store.boundary.map Boundary.unended =
    ((committedOf stores).getLast?.map (·.boundary.unended)).or (first.boundary.map Boundary.unended)
  recording : ∀ boundary, e.recording = some boundary →
    e.store.boundary.map Boundary.unended = some boundary.unended ∧ e.launcher.isStoring = false

namespace Executor

variable {first : BoundaryStore} {e e' : Executor} {stores : List (Run × Except String Unit)}
  {outs : List ExecutorOut}

theorem Ordered.of_eq (h : e.Ordered first stores outs) (hqueue : e'.queue = e.queue)
    (hlauncher : e'.launcher = e.launcher) (hstore : e'.store = e.store)
    (hrecording : e'.recording = e.recording) : e'.Ordered first stores outs := by
  obtain ⟨hqueued, hsettled, hfailed, hheld, hrec⟩ := h
  refine ⟨?_, hlauncher ▸ hsettled, hlauncher ▸ hfailed, hstore ▸ hheld, ?_⟩
  · rw [hlauncher, hqueue]
    exact hqueued
  · rw [hrecording, hstore, hlauncher]
    exact hrec

/-- **A launch is queued** behind all others, or refused. -/
theorem ordered_jobStart (h : e.Ordered first stores outs) (launch : Run) :
    (e.jobStart launch).1.Ordered first stores (outs ++ (e.jobStart launch).2) := by
  unfold jobStart
  split
  · dsimp only
    split
    · refine ⟨?_, ?_, h.failed, h.held, h.recording⟩
      · simp [h.queued]
      · simpa using h.settled
    · have hrefused : e.Ordered first stores (outs ++ [.refused launch]) := by
        refine ⟨?_, ?_, h.failed, h.held, h.recording⟩
        · simp [h.queued]
        · simpa using h.settled
      refine hrefused.of_eq ?_ ?_ ?_ ?_ <;> unfold jobRefused <;> split <;> rfl
  · rw [List.append_nil]
    exact h

theorem Ordered.stored (h : e.Ordered first stores outs) {launch : Run} (hs : e.launcher = .storing launch)
    (result : Except String Unit) : (e.launch (.stored result)).1.Ordered first
      (stores ++ [(launch, result)]) (outs ++ (e.launch (.stored result)).2) := by
  obtain ⟨settled, hstores, hpairs⟩ := h.settled
  have hnone : stores = settled := by simpa [hs, Launcher.unsettled] using hstores
  have hfree : ∀ b, e.recording ≠ some b := by
    intro b hb
    have hnot := (h.recording b hb).2
    rw [hs] at hnot
    cases hnot
  have hqueued := h.queued
  cases result with
  | ok u =>
    simp only [Executor.launch, hs]
    refine ⟨?_, ⟨settled, by simp [hnone, Launcher.unsettled], ?_⟩, (fun _ _ hf => by cases hf), ?_,
      fun b hb => absurd hb (hfree b)⟩
    · simpa [hs, Launcher.unstored] using hqueued
    · simpa using hpairs
    · simp [BoundaryStore.advance, committedOf, Except.toOption]
  | error cause =>
    simp only [Executor.launch, hs]
    refine ⟨?_, ⟨settled, by simp [hnone, Launcher.unsettled], ?_⟩, fun _ _ hf => ?_, ?_,
      fun b hb => absurd hb (hfree b)⟩
    · simpa [hs, Launcher.unstored] using hqueued
    · simpa using hpairs
    · cases hf
      exact ⟨cause, rfl⟩
    · simpa [committedOf, Except.toOption] using h.held

theorem Ordered.settle (h : e.Ordered first stores outs) {store : Run × Except String Unit}
    {out : ExecutorOut} (hlast : e.launcher.unsettled = [store]) (hsettles : Settles store out)
    (hunstored : e.launcher.unstored = []) {tasks : List Task} {events : List JobEvent} :
    ({ e with launcher := .idle, tasks, events } : Executor).Ordered first stores (outs ++ [out]) := by
  obtain ⟨settled, hstores, hpairs⟩ := h.settled
  have hout : out.settles = true ∧ out.queued? = none := by
    cases hsettles <;> exact ⟨rfl, rfl⟩
  have hqueued := h.queued
  rw [hunstored] at hqueued
  refine ⟨?_, ⟨stores, (List.append_nil _).symm, ?_⟩, fun _ _ hf => ?_, h.held,
    fun b hb => ⟨(h.recording b hb).1, rfl⟩⟩
  · rw [queuedOf_append, queuedOf_singleton, hout.2, hqueued]
    simp [Launcher.unstored]
  · rw [hstores, hlast, settlements_append, settlements_singleton, if_pos hout.1]
    exact List.rel_append hpairs (.cons hsettles .nil)
  · cases hf

/-- **The launcher's own actions.** -/
theorem ordered_launch (h : e.Ordered first stores outs) (action : ExecutorAct) :
    (e.launch action).1.Ordered first (stores ++ (e.stored? action).toList)
      (outs ++ (e.launch action).2) := by
  have hsame : e.Ordered first (stores ++ []) (outs ++ []) := by
    rwa [List.append_nil, List.append_nil]
  cases action with
  | receive =>
    unfold launch
    dsimp only [stored?]
    split
    · next launch queue hidle hqueue =>
      obtain ⟨hqueued, hsettled, -, hheld, hrec⟩ := hsame
      refine ⟨?_, ?_, (fun _ _ hf => by cases hf), hheld, fun b hb => ⟨(hrec b hb).1, rfl⟩⟩
      · simpa [hidle, hqueue, Launcher.unstored] using hqueued
      · simpa [hidle, Launcher.unsettled] using hsettled
    · exact hsame
  | lock =>
    unfold launch
    dsimp only [stored?]
    split
    · next launch hw =>
      split
      · next hunlocked =>
        obtain ⟨hqueued, hsettled, -, hheld, -⟩ := hsame
        refine ⟨?_, ?_, (fun _ _ hf => by cases hf), hheld, fun b hb => ?_⟩
        · simpa [hw, Launcher.unstored] using hqueued
        · simpa [hw, Launcher.unsettled] using hsettled
        · have hfree := Option.isNone_iff_eq_none.1 (Bool.and_eq_true_iff.1 hunlocked).1
          rw [show e.recording = some b from hb] at hfree
          cases hfree
      · exact hsame
    · exact hsame
  | stored result =>
    cases hl : e.launcher with
    | storing launch =>
      have hstored : e.stored? (.stored result) = some (launch, result) := by simp only [stored?, hl]
      rw [hstored]
      exact h.stored hl result
    | idle | waiting | committed | failed => simpa [launch, stored?, hl] using hsame
  | spawn =>
    cases hl : e.launcher with
    | committed launch =>
      simp only [Executor.launch, stored?, hl, Option.toList_none, List.append_nil]
      exact h.settle (by rw [hl]; rfl) .spawned (by rw [hl]; rfl)
    | idle | waiting | storing | failed => simpa [launch, stored?, hl] using hsame
  | abandon now =>
    cases hl : e.launcher with
    | failed launch error =>
      obtain ⟨cause, rfl⟩ := h.failed launch error hl
      simp only [Executor.launch, stored?, hl, Option.toList_none, List.append_nil]
      exact h.settle (by rw [hl]; rfl) .abandoned (by rw [hl]; rfl)
    | idle | waiting | storing | committed => simpa [launch, stored?, hl] using hsame
  | _ => exact hsame

theorem unended_updated {store : BoundaryStore} {status : JobStatus} {boundary : Boundary}
    (h : store.updated status = some boundary) :
    store.boundary.map Boundary.unended = some boundary.unended := by
  unfold BoundaryStore.updated at h
  split at h
  · next held hheld =>
    split at h
    · cases h
      rw [hheld]
      rfl
    · cases h
  · cases h

/-- **An ending is recorded** under the guard, over the record it was read from. -/
theorem ordered_recordEnding (h : e.Ordered first stores outs) (action : ExecutorAct) :
    (e.recordEnding action).Ordered first stores outs ∧
      (e.recordEnding action).store.boundary.map Boundary.unended =
        e.store.boundary.map Boundary.unended := by
  cases action with
  | lockEnding place =>
    unfold recordEnding
    dsimp only
    split
    · split
      · next status _ hunlocked =>
        refine ⟨⟨h.queued, h.settled, h.failed, h.held, fun b hb => ?_⟩, rfl⟩
        refine ⟨unended_updated hb, ?_⟩
        have hlauncher := (Bool.and_eq_true_iff.1 hunlocked).2
        change e.launcher.isStoring = false
        cases hl : e.launcher with
        | storing launch =>
          rw [hl] at hlauncher
          cases hlauncher
        | idle | waiting | committed | failed => rfl
      · exact ⟨h, rfl⟩
    · exact ⟨h, rfl⟩
  | recorded stored =>
    unfold recordEnding
    dsimp only
    split
    · next b hb =>
      have hsame : (if stored then ⟨some b⟩ else e.store : BoundaryStore).boundary.map
          Boundary.unended = e.store.boundary.map Boundary.unended := by
        split
        · exact (h.recording b hb).1.symm
        · rfl
      refine ⟨⟨h.queued, h.settled, h.failed, hsame.trans h.held, fun b' hb' => ?_⟩, hsame⟩
      cases hb'
    · exact ⟨h, rfl⟩
  | _ => exact ⟨h, rfl⟩

theorem ordered_runTask (h : e.Ordered first stores outs) (action : ExecutorAct) :
    (e.runTask action).Ordered first stores outs := by
  cases action with
  | taskError place now error =>
    unfold runTask
    dsimp only
    split <;> exact h.of_eq rfl rfl rfl rfl
  | taskStart place now =>
    unfold runTask
    dsimp only
    split <;> exact h.of_eq rfl rfl rfl rfl
  | taskEnd place now result output =>
    unfold runTask
    dsimp only
    split <;> exact h.of_eq rfl rfl rfl rfl
  | _ => exact h

theorem ordered_step (h : e.Ordered first stores outs) (action : ExecutorAct) :
    (e.step action).1.Ordered first (stores ++ (e.stored? action).toList)
      (outs ++ (e.step action).2) := by
  have hsilent : ∀ e' : Executor, e'.Ordered first stores outs →
      e'.Ordered first (stores ++ []) (outs ++ []) := fun e' h' => by
    rwa [List.append_nil, List.append_nil]
  cases action with
  | jobStart launch =>
    rw [show (e.stored? (.jobStart launch)).toList = [] from rfl, List.append_nil]
    exact ordered_jobStart h launch
  | jobStop jobId => exact hsilent _ (h.of_eq rfl rfl rfl rfl)
  | jobStopped jobId => exact hsilent _ (h.of_eq rfl rfl rfl rfl)
  | recordStatus status => exact hsilent _ (h.of_eq rfl rfl rfl rfl)
  | shutdown => exact hsilent _ (h.of_eq rfl rfl rfl rfl)
  | receive => exact ordered_launch h .receive
  | lock => exact ordered_launch h .lock
  | stored result => exact ordered_launch h (.stored result)
  | spawn => exact ordered_launch h .spawn
  | abandon now => exact ordered_launch h (.abandon now)
  | lockEnding place => exact hsilent _ (ordered_recordEnding h (.lockEnding place)).1
  | recorded stored => exact hsilent _ (ordered_recordEnding h (.recorded stored)).1
  | taskError place now error => exact hsilent _ (ordered_runTask h (.taskError place now error))
  | taskStart place now => exact hsilent _ (ordered_runTask h (.taskStart place now))
  | taskEnd place now result output =>
    exact hsilent _ (ordered_runTask h (.taskEnd place now result output))

theorem ordered_run (first : BoundaryStore) (acts : List ExecutorAct) :
    ((new first).run acts).1.Ordered first ((new first).stores acts) ((new first).run acts).2 := by
  refine Lib.run_invariant_of_splits Executor.step
    (P := fun e acts outs => e.Ordered first ((new first).stores acts) outs) ?_
    ⟨rfl, ⟨[], rfl, .nil⟩, (fun _ _ h => by cases h), rfl, fun _ h => by cases h⟩
  intro pre action _ _ h
  rw [stores, Lib.seen_concat, Lib.run_concat]
  exact ordered_step h action

end Executor

end Sush
