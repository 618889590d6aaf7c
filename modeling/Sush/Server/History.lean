import Sush.Lib.Firsts
import Sush.Lib.Loop
import Sush.Server.Messages

/-!
# Job history and status

`server/src/history.rs`: the statuses of all jobs everywhere, a causal index over them that decides
what is evicted first, and the index of running jobs. `gc` evicts once more than `maxHistory` jobs
have a status. The queue of waiting jobs (`state.rs`) stands here because eviction spares it.
-/

namespace Sush

open Lib (iterate)

variable [World]

/-- A job waiting in the session queue for its turn in the chain. -/
structure QueuedJob where
  job : VerifiedJob
  params : JobStartParams
  sleds : BTreeSet BaseboardId
  /-- Whether the request is history that predates our join. -/
  replayed : Bool

abbrev QueuedJobs : Type := BTreeMap JobId QueuedJob

/-- Maximum number of jobs with a status to retain before evicting them. -/
def maxHistory : ℕ := 32 * 2048

/-- Bounded job status history. -/
structure JobHistory where
  causalJobs : BTreeSet (Rank ×ₗ JobId ×ₗ BaseboardId)
  jobStatus : BTreeMap JobId JobStatusMap
  running : BTreeMap (JobId ×ₗ BaseboardId) DateTime

namespace JobHistory

/-- The empty history. -/
def empty : JobHistory := ⟨∅, ∅, ∅⟩

/-- Whether a status is known for the given job. -/
def contains (h : JobHistory) (jobId : JobId) : Bool := h.jobStatus.contains jobId

/-- The last known status of a job on each sled. -/
def getJobStatus (h : JobHistory) (jobId : JobId) : Option JobStatusMap := h.jobStatus[jobId]?

/-- The last known status of a job on one sled. -/
def statusOn (h : JobHistory) (jobId : JobId) (target : BaseboardId) : Option JobStatus :=
  (h.getJobStatus jobId).bind (·[target]?)

/-! ## Eviction -/

/-- The jobs that have a causal entry, in causal order, with repetitions. -/
def causalIds (h : JobHistory) : List JobId :=
  h.causalJobs.toList.map fun entry => (ofLex (ofLex entry).2).1

/-- The jobs `gc` must spare: those queued locally and those running anywhere. -/
def ineligible (h : JobHistory) (queued : Option QueuedJobs) : BTreeSet JobId :=
  .ofList ((queued.elim [] (·.keys)) ++ h.running.keys.map fun key => (ofLex key).1) compare

/-- The job to evict next: the first one with no causal entry, or else the causally oldest. -/
def victim (ineligible causal : BTreeSet JobId) (h : JobHistory) : Option JobId :=
  (h.jobStatus.keys.find? fun id => !ineligible.contains id && !causal.contains id).or
    (h.causalIds.find? fun id => !ineligible.contains id && h.jobStatus.contains id)

/-- Forget a job. -/
def evict (h : JobHistory) (jobId : JobId) : JobHistory where
  causalJobs := h.causalJobs.filter fun entry => (ofLex (ofLex entry).2).1 ≠ jobId
  jobStatus := h.jobStatus.erase jobId
  running := h.running

/-- One round of eviction, until a low-water mark is reached. -/
def evictNext (ineligible causal : BTreeSet JobId) (h : JobHistory) : Option JobHistory :=
  if maxHistory - maxHistory / 16 < h.jobStatus.size then
    (victim ineligible causal h).map h.evict
  else none

/-- Evict the causally oldest jobs once more than `maxHistory` have a status. -/
def gc (h : JobHistory) (queued : Option QueuedJobs) : JobHistory :=
  if h.jobStatus.size ≤ maxHistory then h
  else
    let ineligible := h.ineligible queued
    let causal : BTreeSet JobId := .ofList h.causalIds compare
    iterate (evictNext ineligible causal) h.jobStatus.size h

/-! ## Updates -/

/-- Set the status of a job on one sled, before eviction. -/
def record (h : JobHistory) (jobId : JobId) (target : BaseboardId) (status : JobStatus)
    (rank : Option Rank) : JobHistory where
  causalJobs :=
    match rank with
    | some rank => h.causalJobs.insert (toLex (rank, toLex (jobId, target)))
    | none => h.causalJobs
  jobStatus := h.jobStatus.insert jobId (((h.jobStatus[jobId]?).getD ∅).insert target status)
  running :=
    match status with
    | .started _ timeStarted => h.running.insert (toLex (jobId, target)) timeStarted
    | _ => h.running.erase (toLex (jobId, target))

/-- Set the status of a job on one sled. -/
def setJobStatus (h : JobHistory) (jobId : JobId) (target : BaseboardId) (status : JobStatus)
    (rank : Option Rank) (queued : Option QueuedJobs) : JobHistory :=
  (h.record jobId target status rank).gc queued

/-- Set the status of a job on one sled if `transition` gives a new one for the old. -/
def transitionJobStatus (h : JobHistory) (jobId : JobId) (target : BaseboardId)
    (rank : Option Rank) (transition : Option JobStatus → Option JobStatus)
    (queued : Option QueuedJobs) : JobHistory × Option JobStatus :=
  match transition (h.statusOn jobId target) with
  | some new => (h.setJobStatus jobId target new rank queued, some new)
  | none => (h, none)

/-! ## The listing -/

/-- The latest timestamp of a job on any sled. -/
def latest (h : JobHistory) (jobId : JobId) : WithBot DateTime :=
  ((h.jobStatus[jobId]?).elim [] (·.values)).foldr (fun status time => max ↑status.time time) ⊥

/-- The jobs with no causal entry, by the time of their latest status. -/
def acausal (h : JobHistory) : List JobId :=
  let causal : BTreeSet JobId := .ofList h.causalIds compare
  (h.jobStatus.keys.filter fun id => !causal.contains id).insertionSort
    fun j k => h.latest k ≤ h.latest j

/-- The jobs with a causal entry, from the newest to the oldest. -/
def newestFirst (h : JobHistory) : List JobId := Lib.firsts ∅ h.causalIds.reverse

/-- The status maps of the jobs, one for each job: first those with no causal entry. -/
def iter (h : JobHistory) : List JobStatusMap :=
  (h.acausal ++ h.newestFirst).filterMap fun id => h.jobStatus[id]?

/-! ## What the operations leave known -/

section Known

variable {h : JobHistory} {jobId k : JobId} {target : BaseboardId} {status : JobStatus}
  {rank : Option Rank} {queued : Option QueuedJobs} {m : JobStatusMap}

theorem contains_iff : h.contains k = true ↔ ∃ m, h.getJobStatus k = some m :=
  BTreeMap.contains_iff

theorem contains_eq_false_iff : h.contains k = false ↔ h.getJobStatus k = none :=
  BTreeMap.contains_eq_false_iff

@[simp] theorem getJobStatus_empty : empty.getJobStatus k = none :=
  Std.ExtTreeMap.getElem?_empty

@[simp] theorem contains_empty : empty.contains k = false :=
  contains_eq_false_iff.2 getJobStatus_empty

theorem getJobStatus_record : (h.record jobId target status rank).getJobStatus k =
    if jobId = k then some (((h.getJobStatus jobId).getD ∅).insert target status)
    else h.getJobStatus k :=
  BTreeMap.get_insert

theorem contains_record : (h.record jobId target status rank).contains k = true ↔
    jobId = k ∨ h.contains k = true := by
  rw [contains_iff, contains_iff, getJobStatus_record]
  by_cases hk : jobId = k
  · simp [hk]
  · simp [hk]

theorem getJobStatus_evict (hk : (h.evict jobId).getJobStatus k = some m) :
    h.getJobStatus k = some m := by
  have he : (h.evict jobId).getJobStatus k = if jobId = k then none else h.getJobStatus k :=
    BTreeMap.get_erase
  rw [he] at hk
  split at hk
  · cases hk
  · exact hk

theorem gc_of_le (hsize : h.jobStatus.size ≤ maxHistory) : h.gc queued = h := if_pos hsize

theorem getJobStatus_gc (hk : (h.gc queued).getJobStatus k = some m) :
    h.getJobStatus k = some m := by
  unfold gc at hk
  split at hk
  · exact hk
  · refine Lib.iterate_invariant
      (P := fun h' : JobHistory => h'.getJobStatus k = some m → h.getJobStatus k = some m) ?_ _ id hk
    intro h₁ h₂ hround ih h₂k
    unfold evictNext at hround
    split at hround
    · obtain ⟨v, -, rfl⟩ := Option.map_eq_some_iff.1 hround
      exact ih (getJobStatus_evict h₂k)
    · cases hround

theorem getJobStatus_setJobStatus
    (hk : (h.setJobStatus jobId target status rank queued).getJobStatus k = some m) :
    (jobId = k ∧ m = ((h.getJobStatus jobId).getD ∅).insert target status) ∨
      (jobId ≠ k ∧ h.getJobStatus k = some m) := by
  have hr := getJobStatus_gc hk
  rw [getJobStatus_record] at hr
  split at hr
  · next he => exact .inl ⟨he, (Option.some.inj hr).symm⟩
  · next hne => exact .inr ⟨hne, hr⟩

theorem contains_of_setJobStatus
    (hk : (h.setJobStatus jobId target status rank queued).contains k = true) :
    jobId = k ∨ h.contains k = true := by
  obtain ⟨m, hm⟩ := contains_iff.1 hk
  rcases getJobStatus_setJobStatus hm with ⟨he, -⟩ | ⟨-, hm⟩
  · exact .inl he
  · exact .inr (contains_iff.2 ⟨m, hm⟩)

theorem transitionJobStatus_cases (h : JobHistory) (jobId : JobId) (target : BaseboardId)
    (rank : Option Rank) (queued : Option QueuedJobs) (f : Option JobStatus → Option JobStatus) :
    (h.transitionJobStatus jobId target rank f queued).1 = h ∨
      ∃ new, f (h.statusOn jobId target) = some new ∧
        (h.transitionJobStatus jobId target rank f queued).1 =
          h.setJobStatus jobId target new rank queued := by
  unfold transitionJobStatus
  cases hf : f (h.statusOn jobId target) with
  | none => exact .inl rfl
  | some new => exact .inr ⟨new, rfl, rfl⟩

theorem contains_of_transitionJobStatus {f : Option JobStatus → Option JobStatus}
    (hk : (h.transitionJobStatus jobId target rank f queued).1.contains k = true) :
    jobId = k ∨ h.contains k = true := by
  rcases h.transitionJobStatus_cases jobId target rank queued f with he | ⟨new, -, he⟩
  · exact .inr (he ▸ hk)
  · rw [he] at hk
    exact contains_of_setJobStatus hk

theorem statusOn_record (k : JobId) (sled : BaseboardId) :
    (h.record jobId target status rank).statusOn k sled =
      if jobId = k ∧ target = sled then some status else h.statusOn k sled := by
  unfold statusOn
  rw [getJobStatus_record]
  by_cases hk : jobId = k
  · subst hk
    rw [if_pos rfl, Option.bind_some, BTreeMap.get_insert]
    by_cases hs : target = sled
    · rw [if_pos hs, if_pos ⟨rfl, hs⟩]
    · rw [if_neg hs, if_neg fun hboth => hs hboth.2]
      cases h.getJobStatus jobId with
      | none => exact Std.ExtTreeMap.getElem?_empty
      | some m => rfl
  · rw [if_neg hk, if_neg fun hboth => hk hboth.1]

/-- A status that is set stands unless its job is evicted. -/
theorem statusOn_setJobStatus (h : JobHistory) (jobId : JobId) (target : BaseboardId)
    (status : JobStatus) (rank : Option Rank) (queued : Option QueuedJobs) (k : JobId)
    (sled : BaseboardId) :
    (h.setJobStatus jobId target status rank queued).statusOn k sled =
        (h.record jobId target status rank).statusOn k sled ∨
      (h.setJobStatus jobId target status rank queued).contains k = false ∧
        (h.setJobStatus jobId target status rank queued).statusOn k sled = none := by
  cases hk : (h.setJobStatus jobId target status rank queued).getJobStatus k with
  | none => exact .inr ⟨contains_eq_false_iff.2 hk, by rw [statusOn, hk]; rfl⟩
  | some m =>
    left
    rw [statusOn, statusOn, hk, getJobStatus_gc hk]

theorem statusOn_of_not_contains (hk : h.contains k = false) (sled : BaseboardId) :
    h.statusOn k sled = none := by
  rw [statusOn, contains_eq_false_iff.1 hk]
  rfl

end Known

end JobHistory

end Sush
