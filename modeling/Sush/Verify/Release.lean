import Sush.Verify.Chain

/-!
# The release loop

The loop passes the waiting jobs in chain order until none waits at the next position (`Passes`). What
becomes of each job is decided by what the loop does not change: the sled, its past, its history and
the session. So the outputs of the loop are those of the jobs it passes, one after the other
(`releaseReadyJobs_eq`), and an attachment point is made for each launch.
-/

namespace Sush

open Lib

variable [World]

def attachmentsAfter (attachments : BTreeSet JobId) (runs : List Run) : BTreeSet JobId :=
  runs.foldl (fun set run => set.insert run.jobId) attachments

theorem mem_attachmentsAfter {attachments : BTreeSet JobId} {runs : List Run} {jobId : JobId} :
    (attachmentsAfter attachments runs).contains jobId = true ↔
      attachments.contains jobId = true ∨ ∃ r ∈ runs, r.jobId = jobId := by
  unfold attachmentsAfter
  induction runs generalizing attachments with
  | nil => simp
  | cons r runs ih =>
    rw [List.foldl_cons, ih]
    simp only [Std.ExtTreeSet.contains_insert, Bool.or_eq_true, beq_iff_eq, compare_eq_iff_eq,
      List.mem_cons, exists_eq_or_imp]
    constructor
    · rintro ((h | h) | h)
      · exact .inr (.inl h)
      · exact .inl h
      · exact .inr (.inr h)
    · rintro (h | h | h)
      · exact .inl (.inr h)
      · exact .inl (.inl h)
      · exact .inr h

variable [Hashing]

/-- The jobs `js` are passed in turn, until no job waits at the next position. -/
inductive Passes : ActiveSession → List QueuedJob → ActiveSession → Prop
  | done {a : ActiveSession} (h : a.queuedJobs[a.session.nextJobId]? = none) : Passes a [] a
  | pass {a b : ActiveSession} {queued : QueuedJob} {js : List QueuedJob}
    (hq : a.queuedJobs[a.session.nextJobId]? = some queued)
    (h : Passes (State.advance a queued) js b) : Passes a (queued :: js) b

section Passes

variable {a b : ActiveSession} {js : List QueuedJob}

theorem Passes.same (h : Passes a js b) : SameSession a b := by
  induction h with
  | done => exact ⟨rfl, rfl, rfl, rfl⟩
  | pass _ _ ih => exact ⟨ih.id, ih.seq, ih.live, ih.starter⟩

theorem Passes.settled (h : Passes a js b) : b.queuedJobs[b.session.nextJobId]? = none := by
  induction h with
  | done h => exact h
  | pass _ _ ih => exact ih

theorem Passes.grants (h : Passes a js b) : b.attachGrants = a.attachGrants := by
  induction h with
  | done => rfl
  | pass _ _ ih => exact ih

theorem Passes.queue (h : Passes a js b) (jobId : JobId) :
    b.queuedJobs[jobId]? = a.queuedJobs[jobId]? ∨
      b.queuedJobs[jobId]? = none ∧ ∃ queued ∈ js, a.queuedJobs[jobId]? = some queued := by
  induction h with
  | done => exact .inl rfl
  | @pass a b queued js hq _ ih =>
    simp only [State.advance, BTreeMap.get_erase] at ih
    by_cases hnext : a.session.nextJobId = jobId
    · subst hnext
      rw [if_pos rfl] at ih
      refine .inr ⟨?_, queued, .head _, hq⟩
      rcases ih with ih | ⟨ih, -⟩ <;> exact ih
    · rw [if_neg hnext] at ih
      rcases ih with hsame | ⟨hnone, q, hmem, hq⟩
      · exact .inl hsame
      · exact .inr ⟨hnone, q, .tail _ hmem, hq⟩

theorem Passes.mem (h : Passes a js b) {queued : QueuedJob} (hmem : queued ∈ js) :
    ∃ jobId : JobId, a.queuedJobs[jobId]? = some queued := by
  induction h with
  | done => cases hmem
  | @pass a b next js hq _ ih =>
    cases hmem with
    | head => exact ⟨_, hq⟩
    | tail _ hmem =>
      obtain ⟨jobId, hjob⟩ := ih hmem
      simp only [State.advance, BTreeMap.get_erase] at hjob
      split at hjob
      · cases hjob
      · exact ⟨jobId, hjob⟩

theorem Passes.reaches (h : Passes a js b)
    (hids : ∀ (jobId : JobId) (queued : QueuedJob), a.queuedJobs[jobId]? = some queued →
      queued.job.payload.jobId = jobId) :
    jobChain.Reaches a.session.nextJobId b.session.nextJobId := by
  induction h with
  | done => exact .refl
  | @pass a b queued js hq _ ih =>
    have hedge : jobChain.Edge a.session.nextJobId (State.advance a queued).session.nextJobId := by
      rw [← hids _ _ hq]
      exact .after queued.job.payload
    refine .head hedge (ih fun jobId queued' hq' => ?_)
    rw [State.advance, BTreeMap.get_erase] at hq'
    split at hq'
    · cases hq'
    · exact hids jobId queued' hq'

end Passes

variable [Crypto]

/-- What is put out for a job that is passed: nothing while there is no universe. -/
def State.released (s : State) (now : DateTime) (network : Option Network) (a : ActiveSession)
    (queued : QueuedJob) : List Output :=
  network.elim [] fun network => (s.releaseJob now network a queued).2

section Loop

variable {s : State} {a : ActiveSession} {now : DateTime}

theorem attachments_releaseJob (s : State) (now : DateTime) (network : Network) (a : ActiveSession)
    (queued : QueuedJob) : (s.releaseJob now network a queued).1 =
      { s with
        attachments := attachmentsAfter s.attachments
          (launches (s.releaseJob now network a queued).2) } := by
  unfold State.releaseJob
  simp only
  split
  · split
    · split <;> rfl
    · split
      · split <;> rfl
      · split
        · split <;> rfl
        · rfl
  · rfl

theorem outputs_releaseJob {s' : State} (network : Network) (queued : QueuedJob) {a' : ActiveSession}
    (hrack : s'.rack = s.rack) (hpast : s'.past = s.past) (hhistory : s'.history = s.history)
    (hsame : SameSession a a') :
    (s'.releaseJob now network a' queued).2 = (s.releaseJob now network a queued).2 := by
  have hrun : State.runOf network a' queued = State.runOf network a queued := by
    unfold State.runOf
    rw [hsame.id, hsame.seq]
  unfold State.releaseJob
  simp only [hrack, hpast, hhistory, hsame.id, hsame.seq, hsame.live, hrun]
  split
  · split
    · rfl
    · split
      · rfl
      · split
        · split <;> rfl
        · rfl
  · rfl

theorem released_congr {s' : State} (network : Option Network) {a' : ActiveSession}
    (hrack : s'.rack = s.rack) (hpast : s'.past = s.past) (hhistory : s'.history = s.history)
    (hsame : SameSession a a') : s'.released now network a' = s.released now network a := by
  funext queued
  cases network with
  | none => rfl
  | some network => exact outputs_releaseJob network queued hrack hpast hhistory hsame

theorem iterate_drainNext (n : ℕ) (ha : s.session = .active a) (hn : a.queuedJobs.size ≤ n) :
    ∃ js a', Passes a js a' ∧ iterate State.drainNext n s = { s with session := .active a' } := by
  induction n generalizing s a with
  | zero =>
    cases hq : a.queuedJobs[a.session.nextJobId]? with
    | none => exact ⟨[], a, .done hq, by rw [iterate_zero, ← ha]⟩
    | some queued =>
      have hlt := BTreeMap.size_erase_lt hq
      omega
  | succ n ih =>
    cases hq : a.queuedJobs[a.session.nextJobId]? with
    | none =>
      have hbody : s.drainNext = none := by simp only [State.drainNext, ha, hq]
      exact ⟨[], a, .done hq, by rw [iterate_of_none hbody, ← ha]⟩
    | some queued =>
      have hbody : s.drainNext = some { s with session := .active (State.advance a queued) } := by
        simp only [State.drainNext, ha, hq]
      have hlt : (State.advance a queued).queuedJobs.size < a.queuedJobs.size :=
        BTreeMap.size_erase_lt hq
      obtain ⟨js, a', hpass, heq⟩ := ih (s := { s with session := .active (State.advance a queued) })
        rfl (by omega)
      exact ⟨queued :: js, a', .pass hq hpass, by rw [iterate_succ_of_some hbody, heq]⟩

theorem iterate_releaseNext (network : Network) (n : ℕ) (os : List Output)
    (ha : s.session = .active a) (hn : a.queuedJobs.size ≤ n) :
    ∃ js a', Passes a js a' ∧
      let out := js.flatMap fun queued => (s.releaseJob now network a queued).2
      iterate (State.releaseNext now network) n (s, os) =
        ({ s with
            session := .active a'
            attachments := attachmentsAfter s.attachments (launches out) }, os ++ out) := by
  induction n generalizing s a os with
  | zero =>
    cases hq : a.queuedJobs[a.session.nextJobId]? with
    | none => exact ⟨[], a, .done hq, by simp [iterate_zero, ← ha, attachmentsAfter, launches]⟩
    | some queued =>
      have hlt := BTreeMap.size_erase_lt hq
      omega
  | succ n ih =>
    cases hq : a.queuedJobs[a.session.nextJobId]? with
    | none =>
      have hbody : State.releaseNext now network (s, os) = none := by
        simp only [State.releaseNext, ha, hq]
      exact ⟨[], a, .done hq, by simp [iterate_of_none hbody, ← ha, attachmentsAfter, launches]⟩
    | some queued =>
      let out := (s.releaseJob now network a queued).2
      let s₁ : State :=
        { s with
          session := .active (State.advance a queued)
          attachments := attachmentsAfter s.attachments (launches out) }
      have hbody : State.releaseNext now network (s, os) = some (s₁, os ++ out) := by
        simp only [State.releaseNext, ha, hq, attachments_releaseJob s, s₁, out]
      have hlt : (State.advance a queued).queuedJobs.size < a.queuedJobs.size :=
        BTreeMap.size_erase_lt hq
      obtain ⟨js, a', hpass, heq⟩ := ih (s := s₁) (os ++ out) rfl (by omega)
      -- the jobs after this one are judged as they would have been before it
      have hout : ∀ q, (s₁.releaseJob now network (State.advance a queued) q).2 =
          (s.releaseJob now network a q).2 :=
        fun q => outputs_releaseJob network q rfl rfl rfl ⟨rfl, rfl, rfl, rfl⟩
      simp only [hout] at heq
      refine ⟨queued :: js, a', .pass hq hpass, ?_⟩
      rw [iterate_succ_of_some hbody, heq]
      simp only [List.flatMap_cons, launches_append, attachmentsAfter, List.foldl_append,
        List.append_assoc, s₁, out]

/-- **What the release loop does**: it passes the jobs whose turn has come, puts out what becomes of
each, and keeps an attachment point for each launch. -/
theorem releaseReadyJobs_eq (now : DateTime) (network : Option Network)
    (ha : s.session = .active a) : ∃ js a', Passes a js a' ∧
      let out := js.flatMap (s.released now network a)
      s.releaseReadyJobs now network =
        ({ s with
            session := .active a'
            attachments := attachmentsAfter s.attachments (launches out) }, out) := by
  have hsize : a.queuedJobs.size ≤ s.queueSize := by
    unfold State.queueSize
    rw [ha]
    exact le_rfl
  unfold State.releaseReadyJobs
  cases network with
  | none =>
    obtain ⟨js, a', hpass, heq⟩ := iterate_drainNext _ ha hsize
    refine ⟨js, a', hpass, ?_⟩
    have hnone : js.flatMap (s.released now none a) = [] := by simp [State.released]
    simp only [hnone, heq]
    rfl
  | some network =>
    obtain ⟨js, a', hpass, heq⟩ := iterate_releaseNext network _ [] ha hsize
    exact ⟨js, a', hpass, heq⟩

theorem releaseReadyJobs_of_inactive (now : DateTime) (network : Option Network)
    (h : s.session = .inactive) : s.releaseReadyJobs now network = (s, []) := by
  have hdrain : s.drainNext = none := by simp only [State.drainNext, h]
  have hnext : ∀ network, State.releaseNext now network (s, []) = none := by
    intro network
    simp only [State.releaseNext, h]
  unfold State.releaseReadyJobs
  cases network with
  | none => simp only [iterate_of_none hdrain]
  | some network => simp only [iterate_of_none (hnext network)]

/-- What is put out for a job that is passed: nothing, the news that it does not run, or its launch. -/
theorem released_cases (s : State) (now : DateTime) (network : Option Network) (a : ActiveSession)
    (queued : QueuedJob) : s.released now network a queued = [] ∨
      (∃ event, s.released now network a queued = [.jobEvent s.rack.ownBaseboard event]) ∨
      ∃ home, s.released now network a queued = [.run (State.runOf home a queued)] := by
  cases network with
  | none => exact .inl rfl
  | some network =>
    simp only [State.released, Option.elim_some, State.releaseJob]
    repeat' split
    all_goals first
      | exact .inl rfl
      | exact .inr (.inl ⟨_, rfl⟩)
      | exact .inr (.inr ⟨_, rfl⟩)

theorem mem_launches_released {network : Option Network} {js : List QueuedJob} {r : Run}
    (h : r ∈ launches (js.flatMap (s.released now network a))) :
    ∃ queued ∈ js, ∃ network, r = State.runOf network a queued := by
  obtain ⟨queued, hmem, hout⟩ := List.mem_flatMap.1 (mem_launches.1 h)
  refine ⟨queued, hmem, ?_⟩
  rcases released_cases s now network a queued with hnone | ⟨event, hnews⟩ | ⟨home, hrun⟩
  · rw [hnone] at hout
    cases hout
  · rw [hnews] at hout
    cases List.mem_singleton.1 hout
  · rw [hrun] at hout
    cases List.mem_singleton.1 hout
    exact ⟨home, rfl⟩

end Loop

end Sush
