import Sush.Server.History

/-!
# The index of running jobs

`running` holds a job on a sled exactly while its status there is `started`. Eviction keeps this true
because it spares every job that runs anywhere: it takes no victim among the ineligible jobs, so what
it leaves of them is what it found.
-/

namespace Sush

open Lib

variable [World]

variable {ineligible causal : BTreeSet JobId}

def JobStatus.since : JobStatus → Option DateTime
  | .started _ time => some time
  | _ => none

namespace JobHistory

variable {h : JobHistory} {jobId k : JobId} {sled target : BaseboardId} {status : JobStatus}
  {rank : Option Rank} {queued : Option QueuedJobs}

theorem victim_eligible (hv : victim ineligible causal h = some k) :
    ineligible.contains k = false := by
  unfold victim at hv
  rcases Option.or_eq_some_iff.1 hv with hv | ⟨-, hv⟩
  · have hfound := List.find?_some hv
    simp only [Bool.and_eq_true, Bool.not_eq_true'] at hfound
    exact hfound.1
  · have hfound := List.find?_some hv
    simp only [Bool.and_eq_true, Bool.not_eq_true'] at hfound
    exact hfound.1

theorem gc_spares (h : JobHistory) (queued : Option QueuedJobs) :
    (h.gc queued).running = h.running ∧
      ∀ k, (h.ineligible queued).contains k = true →
        (h.gc queued).getJobStatus k = h.getJobStatus k := by
  unfold gc
  split
  · exact ⟨rfl, fun _ _ => rfl⟩
  · refine iterate_invariant (P := fun h' : JobHistory => h'.running = h.running ∧
      ∀ k, (h.ineligible queued).contains k = true → h'.getJobStatus k = h.getJobStatus k)
      ?_ _ ⟨rfl, fun _ _ => rfl⟩
    intro h₁ h₂ hround ih
    unfold evictNext at hround
    split at hround
    · obtain ⟨v, hv, rfl⟩ := Option.map_eq_some_iff.1 hround
      refine ⟨ih.1, fun k hk => ?_⟩
      have hne : v ≠ k := by
        rintro rfl
        rw [victim_eligible hv] at hk
        cases hk
      have hkept : (h₁.evict v).getJobStatus k = h₁.getJobStatus k :=
        BTreeMap.get_erase.trans (if_neg hne)
      rw [hkept, ih.2 k hk]
    · cases hround

theorem ineligible_of_running (queued : Option QueuedJobs)
    (hrun : h.running.contains (toLex (jobId, sled)) = true) :
    (h.ineligible queued).contains jobId = true := by
  unfold ineligible
  rw [Std.ExtTreeSet.contains_ofList, List.contains_iff_mem]
  refine List.mem_append_right _ (List.mem_map.2 ⟨toLex (jobId, sled), ?_, rfl⟩)
  exact BTreeMap.mem_keys_iff.2 hrun

theorem ineligible_of_queued {queue : QueuedJobs} (hk : queue.contains jobId = true) :
    (h.ineligible (some queue)).contains jobId = true := by
  unfold ineligible
  rw [Std.ExtTreeSet.contains_ofList, List.contains_iff_mem]
  exact List.mem_append_left _ (BTreeMap.mem_keys_iff.2 hk)

theorem statusOn_setJobStatus_of_queued {queue : QueuedJobs} (hk : queue.contains k = true)
    (sled : BaseboardId) :
    (h.setJobStatus jobId target status rank (some queue)).statusOn k sled =
      (h.record jobId target status rank).statusOn k sled := by
  unfold statusOn JobHistory.setJobStatus
  rw [(gc_spares _ _).2 k (ineligible_of_queued hk)]

/-! ## What eviction achieves -/

theorem mem_causalIds_evict : k ∈ (h.evict jobId).causalIds ↔ k ∈ h.causalIds ∧ k ≠ jobId := by
  unfold causalIds evict
  rw [List.mem_map, List.mem_map]
  constructor
  · rintro ⟨entry, hentry, rfl⟩
    obtain ⟨hmem, hne⟩ := BTreeSet.mem_toList_filter.1 hentry
    exact ⟨⟨entry, hmem, rfl⟩, of_decide_eq_true hne⟩
  · rintro ⟨⟨entry, hmem, rfl⟩, hne⟩
    exact ⟨entry, BTreeSet.mem_toList_filter.2 ⟨hmem, decide_eq_true hne⟩, rfl⟩

theorem ineligible_of_victim_none
    (hcausal : ∀ k, h.contains k = true → causal.contains k = true → k ∈ h.causalIds)
    (hv : victim ineligible causal h = none) (hk : h.contains k = true) :
    ineligible.contains k = true := by
  unfold victim at hv
  obtain ⟨hkeys, hids⟩ := Option.or_eq_none_iff.1 hv
  have hkey := List.find?_eq_none.1 hkeys k (BTreeMap.mem_keys_iff.2 hk)
  cases heligible : ineligible.contains k with
  | true => rfl
  | false =>
    have hindexed : causal.contains k = true := by
      rw [heligible] at hkey
      simpa using hkey
    have hid := List.find?_eq_none.1 hids k (hcausal k hk hindexed)
    rw [heligible, show h.jobStatus.contains k = true from hk] at hid
    exact absurd rfl hid

theorem contains_of_victim (hv : victim ineligible causal h = some k) : h.contains k = true := by
  unfold victim at hv
  rcases Option.or_eq_some_iff.1 hv with hv | ⟨-, hv⟩
  · exact BTreeMap.mem_keys_iff.1 (List.mem_of_find?_eq_some hv)
  · have hfound := List.find?_some hv
    exact (Bool.and_eq_true_iff.1 hfound).2

theorem evictNext_eq_some_iff {h' : JobHistory} :
    evictNext ineligible causal h = some h' ↔ maxHistory - maxHistory / 16 < h.jobStatus.size ∧
      ∃ v, victim ineligible causal h = some v ∧ h' = h.evict v := by
  unfold evictNext
  split
  · rename_i hlow
    rw [Option.map_eq_some_iff, and_iff_right hlow]
    exact exists_congr fun v => and_congr_right fun _ => eq_comm
  · rename_i hlow
    exact iff_of_false (by simp) fun hboth => hlow hboth.1

theorem evictNext_eq_some {h' : JobHistory} (hround : evictNext ineligible causal h = some h') :
    ∃ v, h' = h.evict v ∧ h.contains v = true := by
  obtain ⟨-, v, hv, heq⟩ := evictNext_eq_some_iff.1 hround
  exact ⟨v, heq, contains_of_victim hv⟩

/-- **Eviction goes on until it reaches the low-water mark or has nothing more to evict.** -/
theorem gc_eligible (hsize : maxHistory < h.jobStatus.size) (hk : (h.gc queued).contains k = true) :
    (h.ineligible queued).contains k = true ∨
      (h.gc queued).jobStatus.size ≤ maxHistory - maxHistory / 16 := by
  unfold gc at hk ⊢
  rw [if_neg (Nat.not_le.2 hsize)] at hk ⊢
  simp only at hk ⊢
  have hdone : evictNext (h.ineligible queued) (.ofList h.causalIds compare)
      (iterate (evictNext (h.ineligible queued) (.ofList h.causalIds compare)) h.jobStatus.size h) =
        none := by
    refine iterate_done (fun h' => h'.jobStatus.size) (fun h₁ h₂ hround => ?_) le_rfl
    obtain ⟨v, rfl, hv⟩ := evictNext_eq_some hround
    obtain ⟨m, hm⟩ := contains_iff.1 hv
    exact BTreeMap.size_erase_lt hm
  -- the causal index loses a job only with its statuses
  have hindexed : ∀ k,
      (iterate (evictNext (h.ineligible queued) (.ofList h.causalIds compare)) h.jobStatus.size
        h).contains k = true → k ∈ h.causalIds →
      k ∈ (iterate (evictNext (h.ineligible queued) (.ofList h.causalIds compare))
        h.jobStatus.size h).causalIds := by
    refine iterate_invariant
      (P := fun h' : JobHistory => ∀ k, h'.contains k = true → k ∈ h.causalIds → k ∈ h'.causalIds)
      (fun h₁ h₂ hround ih k hk hid => ?_) _ fun _ _ hid => hid
    obtain ⟨v, rfl, hv⟩ := evictNext_eq_some hround
    obtain ⟨m, hm⟩ := contains_iff.1 hk
    have hne : k ≠ v := by
      rintro rfl
      rw [show (h₁.evict k).getJobStatus k = none from BTreeMap.get_erase.trans (if_pos rfl)] at hm
      cases hm
    refine mem_causalIds_evict.2 ⟨ih k ?_ hid, hne⟩
    exact contains_iff.2 ⟨m, getJobStatus_evict hm⟩
  generalize iterate _ _ h = rest at hk hdone hindexed ⊢
  unfold evictNext at hdone
  split at hdone
  · left
    refine ineligible_of_victim_none ?_ (Option.map_eq_none_iff.1 hdone) hk
    intro k hk hcausal
    refine hindexed k hk ?_
    rw [Std.ExtTreeSet.contains_ofList, List.contains_iff_mem] at hcausal
    exact hcausal
  · next hlow => exact .inr (Nat.not_lt.1 hlow)

theorem running_record (j : JobId) (b : BaseboardId) :
    (h.record jobId target status rank).running[toLex (j, b)]? =
      if jobId = j ∧ target = b then status.since else h.running[toLex (j, b)]? := by
  have hkey : toLex (jobId, target) = toLex (j, b) ↔ jobId = j ∧ target = b := by
    rw [toLex_inj, Prod.mk.injEq]
  unfold record
  cases status with
  | started id time => simp only [BTreeMap.get_insert, hkey, JobStatus.since]
  | cancelled | queued | error | stopped | skipped =>
    simp only [BTreeMap.get_erase, hkey, JobStatus.since]

/-- The index of running jobs says which statuses are `started`, and since when. -/
def RunningOk (h : JobHistory) : Prop :=
  ∀ jobId sled time, h.running[toLex (jobId, sled)]? = some time ↔
    ∃ id, h.statusOn jobId sled = some (.started id time)

namespace RunningOk

theorem empty : RunningOk JobHistory.empty := by
  intro jobId sled time
  constructor
  · intro hrun
    cases hrun
  · rintro ⟨id, hstatus⟩
    cases hstatus

theorem record (hok : RunningOk h) : RunningOk (h.record jobId target status rank) := by
  intro j b time
  rw [statusOn_record, running_record]
  split
  · cases status with
    | started id since => simp [JobStatus.since]
    | cancelled | queued | error | stopped | skipped => simp [JobStatus.since]
  · exact hok j b time

theorem gc (hok : RunningOk h) : RunningOk (h.gc queued) := by
  intro j b time
  rw [(h.gc_spares queued).1]
  constructor
  · intro hrun
    obtain ⟨id, hstatus⟩ := (hok j b time).1 hrun
    have hspared := (h.gc_spares queued).2 j
      (ineligible_of_running queued (BTreeMap.contains_iff.2 ⟨time, hrun⟩))
    exact ⟨id, by rw [statusOn, hspared]; exact hstatus⟩
  · rintro ⟨id, hstatus⟩
    obtain ⟨m, hm, hb⟩ := Option.bind_eq_some_iff.1 hstatus
    refine (hok j b time).2 ⟨id, ?_⟩
    rw [statusOn, getJobStatus_gc hm]
    exact hb

theorem setJobStatus (hok : RunningOk h) :
    RunningOk (h.setJobStatus jobId target status rank queued) :=
  hok.record.gc

/-- A job that runs on a sled has the status `started` there. -/
theorem started (hok : RunningOk h) (hrun : h.running.contains (toLex (jobId, sled)) = true) :
    ∃ id time, h.statusOn jobId sled = some (.started id time) := by
  obtain ⟨time, htime⟩ := BTreeMap.contains_iff.1 hrun
  obtain ⟨id, hstatus⟩ := (hok jobId sled time).1 htime
  exact ⟨id, time, hstatus⟩

end RunningOk

/-! ## A history full of running jobs -/

theorem size_le_length {jobs : List JobId} (hjobs : ∀ k, h.contains k = true → k ∈ jobs) :
    h.jobStatus.size ≤ jobs.length := by
  calc h.jobStatus.size
    _ ≤ jobs.toFinset.card := BTreeMap.size_le_card fun k m hm => by
      exact List.mem_toFinset.2 (hjobs k (contains_iff.2 ⟨m, hm⟩))
    _ ≤ jobs.length := List.toFinset_card_le _

theorem length_le_size {jobs : List JobId} (hnodup : jobs.Nodup)
    (hjobs : ∀ k ∈ jobs, h.contains k = true) : jobs.length ≤ h.jobStatus.size := by
  rw [← List.toFinset_card_of_nodup hnodup]
  exact BTreeMap.card_le_size fun k hk => hjobs k (List.mem_toFinset.1 hk)

/-- The jobs that run anywhere are these, without repetition. -/
structure Crowd (jobs : List JobId) (h : JobHistory) : Prop where
  nodup : jobs.Nodup
  known : ∀ j ∈ jobs, h.contains j = true
  running : ∀ j, j ∈ jobs ↔ ∃ sled, h.running.contains (toLex (j, sled)) = true

namespace Crowd

variable {jobs : List JobId}

theorem empty : Crowd [] JobHistory.empty where
  nodup := List.nodup_nil
  known := by simp
  running j := by
    refine iff_of_false List.not_mem_nil ?_
    rintro ⟨sled, hrun⟩
    cases hrun

theorem record_ended (hcrowd : Crowd jobs h) (hjob : jobId ∉ jobs) (hended : status.since = none) :
    Crowd jobs (h.record jobId target status rank) := by
  refine ⟨hcrowd.nodup, fun j hj => contains_record.2 (.inr (hcrowd.known j hj)), fun j => ?_⟩
  have hnot : ¬∃ sled, h.running.contains (toLex (jobId, sled)) = true :=
    fun hrun => hjob ((hcrowd.running jobId).2 hrun)
  rw [hcrowd.running]
  refine exists_congr fun sled => ?_
  rw [BTreeMap.contains_iff, BTreeMap.contains_iff, running_record]
  split
  · next hboth =>
    obtain ⟨rfl, -⟩ := hboth
    rw [hended]
    refine iff_of_false (fun hrun => hnot ⟨sled, BTreeMap.contains_iff.2 hrun⟩) (by simp)
  · rfl

theorem record_started (hcrowd : Crowd jobs h) (hjob : jobId ∉ jobs) (time : DateTime) :
    Crowd (jobId :: jobs) (h.record jobId target (.started jobId time) rank) := by
  refine ⟨List.nodup_cons.2 ⟨hjob, hcrowd.nodup⟩, fun j hj => ?_, fun j => ?_⟩
  · rcases List.mem_cons.1 hj with rfl | hj
    · exact contains_record.2 (.inl rfl)
    · exact contains_record.2 (.inr (hcrowd.known j hj))
  · simp only [BTreeMap.contains_iff, running_record, List.mem_cons]
    constructor
    · rintro (rfl | hj)
      · exact ⟨target, time, if_pos ⟨rfl, rfl⟩⟩
      · obtain ⟨sled, hrun⟩ := (hcrowd.running j).1 hj
        obtain ⟨since, hsince⟩ := BTreeMap.contains_iff.1 hrun
        have hne : ¬(jobId = j ∧ target = sled) := by
          rintro ⟨rfl, -⟩
          exact hjob hj
        exact ⟨sled, since, by rw [if_neg hne, hsince]⟩
    · rintro ⟨sled, since, hsince⟩
      split at hsince
      · next hboth => exact .inl hboth.1.symm
      · exact .inr ((hcrowd.running j).2 ⟨sled, BTreeMap.contains_iff.2 ⟨since, hsince⟩⟩)

/-- **Eviction from a crowd** leaves the running jobs and nothing else. -/
theorem gc (hcrowd : Crowd jobs h) (hlow : maxHistory - maxHistory / 16 < jobs.length)
    (hsize : maxHistory < h.jobStatus.size) :
    Crowd jobs (h.gc none) ∧ ∀ k, (h.gc none).contains k = true → k ∈ jobs := by
  have hspared : ∀ j ∈ jobs, (h.gc none).contains j = true := by
    intro j hj
    obtain ⟨sled, hrun⟩ := (hcrowd.running j).1 hj
    obtain ⟨m, hm⟩ := contains_iff.1 (hcrowd.known j hj)
    have hkept := (h.gc_spares none).2 j (ineligible_of_running none hrun)
    exact contains_iff.2 ⟨m, hkept.trans hm⟩
  have hcrowd' : Crowd jobs (h.gc none) :=
    ⟨hcrowd.nodup, hspared, by rw [(h.gc_spares none).1]; exact hcrowd.running⟩
  refine ⟨hcrowd', fun k hk => ?_⟩
  rcases gc_eligible hsize hk with hineligible | hreached
  · unfold ineligible at hineligible
    rw [Std.ExtTreeSet.contains_ofList, List.contains_iff_mem] at hineligible
    obtain ⟨key, hkey, rfl⟩ := List.mem_map.1 hineligible
    refine (hcrowd.running _).2 ⟨(ofLex key).2, ?_⟩
    exact BTreeMap.mem_keys_iff.1 hkey
  · have hlarge : jobs.length ≤ (h.gc none).jobStatus.size :=
      length_le_size hcrowd.nodup hspared
    omega

end Crowd

end JobHistory

end Sush
