import Sush.Verify.Eviction

/-!
# The history over any calls

The history has three indexes that are updated apart: the statuses, the running jobs and the causal
entries. Over any calls they stay consistent (`RunningOk`, `CausalOk`).

The eviction loop decides by a copy of the causal index that it made before its first round. A job leaves
the causal index only with its statuses, so for the jobs that are still known the copy is as good as the
index itself (`mem_causalIds_of_rounds`). Hence the loop spares what it must, takes jobs without a causal
entry first, and ends only at the low-water mark or with nothing left to evict.
-/

namespace Sush

open Lib
open Relation (ReflTransGen)

variable [World]

namespace JobHistory

variable {h b : JobHistory} {jobId k : JobId} {target : BaseboardId} {status : JobStatus}
  {rank : Option Rank} {queued : Option QueuedJobs}

/-! ## The causal index -/

/-- Every job with a causal entry has a status. -/
def CausalOk (h : JobHistory) : Prop := ∀ k ∈ h.causalIds, h.contains k = true

theorem contains_evict : (h.evict jobId).contains k = true ↔ h.contains k = true ∧ k ≠ jobId := by
  have he : (h.evict jobId).getJobStatus k = if jobId = k then none else h.getJobStatus k :=
    BTreeMap.get_erase
  rw [contains_iff, contains_iff, he]
  by_cases hk : jobId = k
  · simp [hk]
  · simp [hk, Ne.symm hk]

theorem mem_causalIds_record (hk : k ∈ (h.record jobId target status rank).causalIds) :
    k = jobId ∨ k ∈ h.causalIds := by
  unfold causalIds at hk ⊢
  obtain ⟨entry, hentry, rfl⟩ := List.mem_map.1 hk
  cases rank with
  | none => exact .inr (List.mem_map.2 ⟨entry, hentry, rfl⟩)
  | some rank =>
    rw [BTreeSet.mem_toList_iff] at hentry
    rcases BTreeSet.contains_insert_iff.1 hentry with rfl | hold
    · exact .inl rfl
    · exact .inr (List.mem_map.2 ⟨entry, BTreeSet.mem_toList_iff.2 hold, rfl⟩)

namespace CausalOk

theorem empty : CausalOk JobHistory.empty := by
  intro k hk
  cases hk

theorem record (hok : CausalOk h) : CausalOk (h.record jobId target status rank) := by
  intro k hk
  rw [contains_record]
  rcases mem_causalIds_record hk with rfl | hk
  · exact .inl rfl
  · exact .inr (hok k hk)

theorem evict (hok : CausalOk h) : CausalOk (h.evict jobId) := by
  intro k hk
  obtain ⟨hk, hne⟩ := mem_causalIds_evict.1 hk
  exact contains_evict.2 ⟨hok k hk, hne⟩

theorem gc (hok : CausalOk h) : CausalOk (h.gc queued) := by
  unfold JobHistory.gc
  split
  · exact hok
  · refine iterate_invariant (P := CausalOk) (fun h₁ h₂ hround hok₁ => ?_) _ hok
    obtain ⟨v, rfl, -⟩ := evictNext_eq_some hround
    exact hok₁.evict

end CausalOk

/-! ## The eviction loop -/

/-- The jobs that eviction must spare: those that run anywhere, and those that wait here. -/
def Spared (h : JobHistory) (queued : Option QueuedJobs) (k : JobId) : Prop :=
  (∃ sled, h.running.contains (toLex (k, sled)) = true) ∨
    ∃ queue, queued = some queue ∧ queue.contains k = true

theorem contains_ineligible : (h.ineligible queued).contains k = true ↔ h.Spared queued k := by
  constructor
  · intro hk
    rw [ineligible, Std.ExtTreeSet.contains_ofList, List.contains_iff_mem, List.mem_append] at hk
    rcases hk with hk | hk
    · cases queued with
      | none => cases hk
      | some queue => exact .inr ⟨queue, rfl, BTreeMap.mem_keys_iff.1 hk⟩
    · obtain ⟨key, hkey, rfl⟩ := List.mem_map.1 hk
      exact .inl ⟨(ofLex key).2, BTreeMap.mem_keys_iff.1 hkey⟩
  · rintro (⟨sled, hrun⟩ | ⟨queue, rfl, hqueue⟩)
    · exact ineligible_of_running queued hrun
    · exact ineligible_of_queued hqueue

/-- A round of the loop that `gc` runs from `b`. -/
def gcRound (b : JobHistory) (queued : Option QueuedJobs) : JobHistory → Option JobHistory :=
  evictNext (b.ineligible queued) (.ofList b.causalIds compare)

theorem gc_eq_iterate (hsize : maxHistory < b.jobStatus.size) :
    b.gc queued = iterate (b.gcRound queued) b.jobStatus.size b := if_neg (Nat.not_le.2 hsize)

theorem gc_halts (hsize : maxHistory < b.jobStatus.size) :
    ∃ n ≤ b.jobStatus.size, Halts (b.gcRound queued) n b (b.gc queued) := by
  rw [gc_eq_iterate hsize]
  refine halts_iterate (fun h : JobHistory => h.jobStatus.size) (fun h₁ h₂ hround => ?_) le_rfl
  obtain ⟨v, rfl, hv⟩ := evictNext_eq_some hround
  obtain ⟨m, hm⟩ := contains_iff.1 hv
  exact BTreeMap.size_erase_lt hm

theorem mem_causalIds_of_rounds {mid : JobHistory}
    (hmid : ReflTransGen (Round (b.gcRound queued)) b mid) :
    (∀ k ∈ mid.causalIds, k ∈ b.causalIds) ∧
      ∀ k ∈ b.causalIds, mid.contains k = true → k ∈ mid.causalIds := by
  induction hmid with
  | refl => exact ⟨fun _ hk => hk, fun _ hk _ => hk⟩
  | tail _ hround ih =>
    obtain ⟨v, rfl, -⟩ := evictNext_eq_some hround
    refine ⟨fun k hk => ih.1 k (mem_causalIds_evict.1 hk).1, fun k hk hcontains => ?_⟩
    obtain ⟨hcontains, hne⟩ := contains_evict.1 hcontains
    exact mem_causalIds_evict.2 ⟨ih.2 k hk hcontains, hne⟩

theorem evicts_in_order {mid mid' : JobHistory}
    (hmid : ReflTransGen (Round (b.gcRound queued)) b mid) (hround : b.gcRound queued mid = some mid') :
    ∃ v, mid' = mid.evict v ∧ mid.contains v = true ∧ ¬b.Spared queued v ∧
      (v ∈ mid.causalIds →
        ∀ k, mid.contains k = true → ¬b.Spared queued k → k ∈ mid.causalIds) := by
  obtain ⟨hsub, hkept⟩ := mem_causalIds_of_rounds hmid
  obtain ⟨-, v, hv, rfl⟩ := evictNext_eq_some_iff.1 hround
  have hcopy : ∀ k, (Std.ExtTreeSet.ofList b.causalIds compare).contains k = true ↔
      k ∈ b.causalIds := by
    intro k
    rw [Std.ExtTreeSet.contains_ofList, List.contains_iff_mem]
  refine ⟨v, rfl, contains_of_victim hv, ?_, fun hcausal k hk hfree => ?_⟩
  · rw [← contains_ineligible, victim_eligible hv]
    exact Bool.false_ne_true
  · rcases Option.or_eq_some_iff.1 hv with hv | ⟨hnone, -⟩
    -- the first choice has no causal entry
    · have hfound := List.find?_some hv
      simp only [Bool.and_eq_true, Bool.not_eq_true', ← Bool.not_eq_true, hcopy] at hfound
      exact absurd (hsub v hcausal) hfound.2
    -- and there is none of it left
    · have hkey := List.find?_eq_none.1 hnone k (BTreeMap.mem_keys_iff.2 hk)
      simp only [Bool.and_eq_true, Bool.not_eq_true', ← Bool.not_eq_true, hcopy, contains_ineligible,
        not_and, not_not] at hkey
      exact hkept k (hkey hfree) hk

/-! ## Calls -/

/-- A call that may set a status. -/
inductive Call where
  | setJobStatus (jobId : JobId) (target : BaseboardId) (status : JobStatus) (rank : Option Rank)
      (queued : Option QueuedJobs)
  | transitionJobStatus (jobId : JobId) (target : BaseboardId) (rank : Option Rank)
      (transition : Option JobStatus → Option JobStatus) (queued : Option QueuedJobs)

/-- The history after a call. -/
def call (h : JobHistory) : Call → JobHistory
  | .setJobStatus jobId target status rank queued => h.setJobStatus jobId target status rank queued
  | .transitionJobStatus jobId target rank transition queued =>
    (h.transitionJobStatus jobId target rank transition queued).1

def calls (h : JobHistory) (cs : List Call) : JobHistory := cs.foldl call h

def Call.waiting : Call → Option QueuedJobs
  | setJobStatus _ _ _ _ queued => queued
  | transitionJobStatus _ _ _ _ queued => queued

/-- What a call leaves before it evicts, if it sets a status at all. -/
def recorded (h : JobHistory) : Call → Option JobHistory
  | .setJobStatus jobId target status rank _ => some (h.record jobId target status rank)
  | .transitionJobStatus jobId target rank transition _ =>
    (transition (h.statusOn jobId target)).map fun new => h.record jobId target new rank

theorem call_eq (h : JobHistory) (c : Call) : h.call c = (h.recorded c).elim h (·.gc c.waiting) := by
  cases c with
  | setJobStatus => rfl
  | transitionJobStatus jobId target rank transition queued =>
    simp only [call, recorded, transitionJobStatus, Call.waiting]
    cases transition (h.statusOn jobId target) <;> rfl

theorem calls_invariant {P : JobHistory → Prop}
    (hrecord : ∀ h jobId target status rank, P h → P (JobHistory.record h jobId target status rank))
    (hgc : ∀ h queued, P h → P (JobHistory.gc h queued)) (hh : P h) (cs : List Call) :
    P (h.calls cs) := by
  induction cs generalizing h with
  | nil => exact hh
  | cons c cs ih =>
    refine ih ?_
    cases c with
    | setJobStatus jobId target status rank queued => exact hgc _ _ (hrecord _ _ _ _ _ hh)
    | transitionJobStatus jobId target rank transition queued =>
      rcases h.transitionJobStatus_cases jobId target rank queued transition with heq | ⟨new, -, heq⟩
      · rw [call, heq]
        exact hh
      · rw [call, heq]
        exact hgc _ _ (hrecord _ _ _ _ _ hh)

theorem runningOk_calls (cs : List Call) : RunningOk (empty.calls cs) :=
  calls_invariant (fun _ _ _ _ _ hok => hok.record) (fun _ _ hok => hok.gc) RunningOk.empty cs

theorem causalOk_calls (cs : List Call) : CausalOk (empty.calls cs) :=
  calls_invariant (fun _ _ _ _ _ hok => hok.record) (fun _ _ hok => hok.gc) CausalOk.empty cs

/-- **The history's representation and its eviction.** After any calls, the index of running jobs says
which statuses are `started` and since when, and every job with a causal entry has a status. A call that
sets no status changes nothing. Of any other: it evicts nothing that runs anywhere or is in the queue
that it is given; it evicts only if it leaves more than `maxHistory` jobs; the loop then ends, at the
low-water mark or with every job that remains running or queued; and every round takes a job that need
not be spared, with a causal entry only if every such job has one. -/
theorem history_consistent (cs : List Call) :
    let h := empty.calls cs
    (∀ jobId sled time, h.running[toLex (jobId, sled)]? = some time ↔
      ∃ id, h.statusOn jobId sled = some (.started id time)) ∧
    (∀ k ∈ h.causalIds, h.contains k = true) ∧
    ∀ c : Call, (h.recorded c = none → h.call c = h) ∧ ∀ b, h.recorded c = some b →
      (∀ k, b.Spared c.waiting k → (h.call c).getJobStatus k = b.getJobStatus k) ∧
      (b.jobStatus.size ≤ maxHistory → h.call c = b) ∧
      (maxHistory < b.jobStatus.size →
        (∃ n ≤ b.jobStatus.size, Halts (b.gcRound c.waiting) n b (h.call c)) ∧
        ((h.call c).jobStatus.size ≤ maxHistory - maxHistory / 16 ∨
          ∀ k, (h.call c).contains k = true → (h.call c).Spared c.waiting k) ∧
        ∀ mid mid', ReflTransGen (Round (b.gcRound c.waiting)) b mid →
          b.gcRound c.waiting mid = some mid' →
          ∃ v, mid' = mid.evict v ∧ mid.contains v = true ∧ ¬b.Spared c.waiting v ∧
            (v ∈ mid.causalIds →
              ∀ k, mid.contains k = true → ¬b.Spared c.waiting k → k ∈ mid.causalIds)) := by
  intro h
  refine ⟨runningOk_calls cs, causalOk_calls cs, fun c => ⟨fun hnone => ?_, fun b hb => ?_⟩⟩
  · rw [call_eq, hnone]
    rfl
  · have hcall : h.call c = b.gc c.waiting := by
      rw [call_eq, hb]
      rfl
    rw [hcall]
    have hsame : ∀ k, (b.gc c.waiting).Spared c.waiting k ↔ b.Spared c.waiting k := by
      intro k
      rw [Spared, (gc_spares b c.waiting).1, Spared]
    refine ⟨fun k hk => (gc_spares b c.waiting).2 k (contains_ineligible.2 hk), gc_of_le,
      fun hsize => ⟨gc_halts hsize, ?_, fun mid mid' => evicts_in_order⟩⟩
    by_cases hlow : (b.gc c.waiting).jobStatus.size ≤ maxHistory - maxHistory / 16
    · exact .inl hlow
    · refine .inr fun k hk => (hsame k).2 (contains_ineligible.1 ?_)
      exact (gc_eligible hsize hk).resolve_right hlow

end JobHistory

end Sush
