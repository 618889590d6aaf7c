import Sush.Server.Manager
import Sush.Verify.Histories
import Sush.Verify.Scenario

/-!
# The listing of the history

The listing reads the jobs without a causal entry off the statuses and the others off the causal index,
from which it takes the first occurrence of each. Since every job with a causal entry has a status
(`CausalOk`), it has every job once. It is served in pages. A limit of zero is documented to mean all
jobs, and is taken literally instead (`page_empty_oneJob`).
-/

namespace Sush

open Lib

variable [World]

namespace JobHistory

variable {h : JobHistory} {k : JobId}

def entryJob (entry : Rank ×ₗ JobId ×ₗ BaseboardId) : JobId := (ofLex (ofLex entry).2).1

def entries (h : JobHistory) (k : JobId) : Set (Rank ×ₗ JobId ×ₗ BaseboardId) :=
  {entry | h.causalJobs.contains entry = true ∧ entryJob entry = k}

theorem mem_acausal : k ∈ h.acausal ↔ h.contains k = true ∧ k ∉ h.causalIds := by
  rw [acausal, (List.perm_insertionSort _ _).mem_iff, List.mem_filter, BTreeMap.mem_keys_iff,
    Bool.not_eq_true', ← Bool.not_eq_true, Std.ExtTreeSet.contains_ofList, List.contains_iff_mem]
  rfl

theorem nodup_acausal : h.acausal.Nodup := by
  have hkeys : h.jobStatus.keys.Nodup := h.jobStatus.nodup_keys
  exact (List.perm_insertionSort _ _).nodup_iff.2 (hkeys.filter _)

theorem pairwise_acausal : h.acausal.Pairwise fun j k => h.latest k ≤ h.latest j := by
  have : Std.Total fun j k : JobId => h.latest k ≤ h.latest j := ⟨fun j k => le_total _ _⟩
  have : IsTrans JobId fun j k => h.latest k ≤ h.latest j := ⟨fun _ _ _ hjk hkl => hkl.trans hjk⟩
  exact List.pairwise_insertionSort _ _

theorem mem_newestFirst : k ∈ h.newestFirst ↔ k ∈ h.causalIds := by
  rw [newestFirst, mem_firsts, List.mem_reverse]
  simp

theorem entriesOf_reverse : entriesOf entryJob h.causalJobs.toList.reverse k = h.entries k := by
  ext entry
  simp only [entriesOf, entries, Set.mem_ofPred_eq, List.mem_reverse, BTreeSet.mem_toList_iff]

theorem pairwise_newestFirst : h.newestFirst.Pairwise fun j k =>
    ∀ e e', IsGreatest (h.entries j) e → IsGreatest (h.entries k) e' → e' < e := by
  have hdecreasing : h.causalJobs.toList.reverse.Pairwise (· > ·) := by
    rw [List.pairwise_reverse]
    exact Std.ExtTreeSet.ordered_toList.imp fun hlt => compare_lt_iff_lt.1 hlt
  have hfirsts : (firsts ∅ (h.causalJobs.toList.reverse.map entryJob)).Pairwise _ :=
    pairwise_firsts hdecreasing
  simp only [entriesOf_reverse] at hfirsts
  rw [newestFirst, causalIds, ← List.map_reverse]
  exact hfirsts

theorem exists_isGreatest_entries (hk : k ∈ h.causalIds) : ∃ e, IsGreatest (h.entries k) e := by
  let found : Finset _ := (h.causalJobs.toList.filter (entryJob · = k)).toFinset
  have hfound : (found : Set _) = h.entries k := by
    ext entry
    simp [found, entries, BTreeSet.mem_toList_iff]
  obtain ⟨entry, hentry, hjob⟩ := List.mem_map.1 hk
  have hne : found.Nonempty := ⟨entry, by simpa [found] using ⟨hentry, hjob⟩⟩
  rw [← hfound]
  exact ⟨_, found.isGreatest_max' hne⟩

theorem mem_order (hok : CausalOk h) : k ∈ h.acausal ++ h.newestFirst ↔ h.contains k = true := by
  rw [List.mem_append, mem_acausal, mem_newestFirst]
  constructor
  · rintro (hk | hk)
    · exact hk.1
    · exact hok k hk
  · intro hk
    by_cases hcausal : k ∈ h.causalIds
    · exact .inr hcausal
    · exact .inl ⟨hk, hcausal⟩

theorem nodup_order : (h.acausal ++ h.newestFirst).Nodup := by
  refine List.nodup_append.2 ⟨nodup_acausal, nodup_firsts, ?_⟩
  rintro k hk _ hk' rfl
  exact (mem_acausal.1 hk).2 (mem_newestFirst.1 hk')

theorem map_iter (hok : CausalOk h) :
    h.iter.map some = (h.acausal ++ h.newestFirst).map h.getJobStatus := by
  have hsome : ∀ k ∈ h.acausal ++ h.newestFirst, ∃ m, h.getJobStatus k = some m :=
    fun k hk => contains_iff.1 ((mem_order hok).1 hk)
  rw [iter]
  change ((h.acausal ++ h.newestFirst).filterMap h.getJobStatus).map some = _
  generalize h.acausal ++ h.newestFirst = ids at hsome ⊢
  induction ids with
  | nil => rfl
  | cons k ids ih =>
    obtain ⟨m, hm⟩ := hsome k (.head _)
    rw [List.filterMap_cons_some hm, List.map_cons, List.map_cons, hm,
      ih fun j hj => hsome j (.tail _ hj)]

end JobHistory

variable [Crypto]

/-- A page as it is documented: a limit of zero means all jobs. -/
def documentedPage (listing : List JobStatusMap) (limit offset : ℕ) : List JobStatusMap :=
  if limit = 0 then listing.drop offset else (listing.drop offset).take limit

/-- **The listing is complete.** Over any calls, it has each job that is known once: first the jobs without
a causal entry, the latest first, then the others in the order of their greatest causal entries, the
greatest first. Pages of any positive limit make up the listing. A page is as documented exactly if the
limit is positive or the offset is past the end. -/
theorem listing_complete (s : State) (cs : List JobHistory.Call)
    (hs : s.history = JobHistory.empty.calls cs) :
    let h := s.history
    (h.iter.map some = (h.acausal ++ h.newestFirst).map h.getJobStatus ∧
      (h.acausal ++ h.newestFirst).Nodup ∧
      ∀ k, k ∈ h.acausal ++ h.newestFirst ↔ h.contains k = true) ∧
    ((∀ k ∈ h.acausal, h.entries k = ∅) ∧
      h.acausal.Pairwise fun j k => h.latest k ≤ h.latest j) ∧
    ((∀ k ∈ h.newestFirst, ∃ e, IsGreatest (h.entries k) e) ∧
      h.newestFirst.Pairwise fun j k =>
        ∀ e e', IsGreatest (h.entries j) e → IsGreatest (h.entries k) e' → e' < e) ∧
    (∀ limit > 0, ∀ n, h.iter.length ≤ n * limit →
      (List.range n).flatMap (fun i => JobManager.jobHistory s limit (i * limit)) = h.iter) ∧
    ∀ limit offset, JobManager.jobHistory s limit offset = documentedPage h.iter limit offset ↔
      (0 < limit ∨ h.iter.length ≤ offset) := by
  intro h
  have hok : h.CausalOk := by
    rw [show h = JobHistory.empty.calls cs from hs]
    exact JobHistory.causalOk_calls cs
  refine ⟨⟨JobHistory.map_iter hok, JobHistory.nodup_order, fun k => JobHistory.mem_order hok⟩,
    ⟨fun k hk => ?_, JobHistory.pairwise_acausal⟩,
    ⟨fun k hk => JobHistory.exists_isGreatest_entries (JobHistory.mem_newestFirst.1 hk),
      JobHistory.pairwise_newestFirst⟩, fun limit _ n hn => ?_, fun limit offset => ?_⟩
  · refine Set.eq_empty_of_forall_notMem fun entry hentry => ?_
    refine (JobHistory.mem_acausal.1 hk).2 (List.mem_map.2 ⟨entry, ?_, hentry.2⟩)
    exact BTreeSet.mem_toList_iff.2 hentry.1
  · unfold JobManager.jobHistory
    rw [take_pages]
    exact List.take_of_length_le hn
  · unfold JobManager.jobHistory documentedPage
    by_cases hlimit : limit = 0
    · subst hlimit
      simp [h, eq_comm]
    · rw [if_neg hlimit]
      exact iff_of_true rfl (.inl (Nat.pos_of_ne_zero hlimit))

end Sush

namespace Sush.Terms

attribute [local instance] world hashing crypto

/-- A life in which one job was queued. -/
def oneJob : State :=
  { life (0 : ℕ) (10 : ℕ) none with
    history := JobHistory.empty.calls
      [.setJobStatus (1 : ℕ) (0 : ℕ) (.queued (1 : ℕ) 0 (7 : ℕ)) none none] }

theorem length_iter_oneJob : oneJob.history.iter.length = 1 := by rfl

/-- A limit of zero gives no job, where all are documented. -/
theorem page_empty_oneJob : oneJob.history.iter.length = 1 ∧
    JobManager.jobHistory oneJob 0 0 = [] ∧
    JobManager.jobHistory oneJob 0 0 ≠ documentedPage oneJob.history.iter 0 0 := by
  refine ⟨length_iter_oneJob, rfl, fun heq => ?_⟩
  have hlength : (JobManager.jobHistory oneJob 0 0).length = oneJob.history.iter.length :=
    congrArg List.length heq
  rw [length_iter_oneJob] at hlength
  cases hlength

/-- A limit of one gives the job. -/
theorem listing_complete_oneJob : oneJob.history.iter.length = 1 ∧
    JobManager.jobHistory oneJob 1 0 = documentedPage oneJob.history.iter 1 0 :=
  ⟨length_iter_oneJob, ((listing_complete oneJob _ rfl).2.2.2.2 1 0).2 (.inl one_pos)⟩

end Sush.Terms
