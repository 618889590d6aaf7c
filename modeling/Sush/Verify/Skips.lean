import Sush.Verify.Traffic

/-!
# Skips and the order of delivery

A skip applies only while its job is the next one or at the chain head, and is ignored when it comes
too late. So two sleds that get the same jobs and skips of a session in different orders may burn
different jobs (`skips_diverge_late`). Nothing else keeps them apart: they end at the same position
exactly if the same skips took effect (`skips_converge_iff`).
-/

namespace Sush

open Lib SkipChain Sequencer

section

variable [World] [Hashing]

/-- The plan of a session that goes on from where `a` stands, with the jobs `D`. -/
def ActiveSession.plan (a : ActiveSession) (D : List JobStartRequest) (known : JobId → Prop) :
    Plan where
  picks p request := (a.session.front.head = some request ∧ request.jobId = p) ∨
    (a.session.front.Ahead jobChain p ∧ request ∈ D ∧ request.jobId = p)
  front := a.session.front
  origin := a.session.front.origin jobChain
  session := a
  known := known

section Plan

variable {a : ActiveSession} {D D' : List JobStartRequest} {known : JobId → Prop}

theorem ActiveSession.pos_plan (p : JobId) (request : JobStartRequest)
    (h : (a.plan D known).picks p request) : request.jobId = p := by
  rcases h with ⟨-, h⟩ | ⟨-, -, h⟩
  · exact h
  · exact h

theorem ActiveSession.picks_plan (hsub : D' ⊆ D) : (a.plan D known).Picks D' where
  pos := ActiveSession.pos_plan
  pick _ hmem hahead := .inr ⟨hahead, hsub hmem, rfl⟩

theorem ActiveSession.follows_plan (hempty : a.queuedJobs = ∅) :
    Follows jobChain (a.plan D known).picks (a.plan D known).front (a.plan D known).origin ∅ []
      a.sequencer where
  trail := Trail.start a.session.front_ok fun request h => .inl ⟨h, rfl⟩
  ahead _ h := h
  queue := by
    intro p request h
    simp [ActiveSession.sequencer, hempty] at h
  kept := by simp

variable [CollisionFree]

theorem ActiveSession.picks_rightUnique (hnodup : (D.map JobStartRequest.jobId).Nodup) :
    Relator.RightUnique (a.plan D known).picks := by
  have hhead : ∀ {request}, a.session.front.head = some request →
      ¬a.session.front.Ahead jobChain request.jobId :=
    fun h => Front.not_ahead_head CollisionFree.chain_free a.session.front_ok h
  rintro p request request' (⟨h, rfl⟩ | ⟨hahead, hmem, rfl⟩) (⟨h', hid⟩ | ⟨hahead', hmem', hid⟩)
  · rw [h] at h'
    exact Option.some.inj h'
  · exact absurd hahead' (hhead h)
  · exact absurd (hid ▸ hahead) (hhead h')
  · exact List.inj_on_of_nodup_map hnodup hmem hmem' hid.symm

theorem ActiveSession.pick_mem {p : JobId} {request : JobStartRequest}
    (h : (a.plan D known).picks p request) (hahead : (a.plan D known).front.Ahead jobChain p) :
    request ∈ D := by
  rcases h with ⟨h, rfl⟩ | ⟨-, hmem, -⟩
  · exact absurd hahead (Front.not_ahead_head CollisionFree.chain_free a.session.front_ok h)
  · exact hmem

end Plan

variable [Crypto]

theorem pending_stale [CollisionFree] {ticks : List Tick} {s : State} {a : ActiveSession}
    (hslot : SlotOk ticks s.slot) (ha : s.session = .active a) {start : PendingStart}
    (hpeek : s.pendingStarts.peek a.session.sessionId = some start) :
    rankOf start.preimage.seq a.session.sessionId ≤ a.rank := by
  obtain ⟨hid, -⟩ := hslot.pending _ start hpeek
  have hclaim : s.slot.1 = some (claimOf a.session.sessionId a.seq a.session.startedBy) := by
    unfold State.slot
    rw [ha]
    rfl
  obtain ⟨preimage, actor, -, hc⟩ := hslot.active _ hclaim
  simp only [claimOf, Claim.mk.injEq] at hc
  have heq : start.preimage = preimage := CollisionFree.sessionId_injective (hid.trans hc.1)
  have hseq : a.seq = preimage.seq := (Prod.mk.inj (toLex.injective hc.2.1)).1
  unfold ActiveSession.rank
  rw [heq, hseq]

/-- One order of delivery. -/
theorem sequenced_of_order [CollisionFree] {before ticks : List Tick} {s : State} {a : ActiveSession}
    {D : List JobStartRequest} {starter : KeyId} (hslot : SlotOk before s.slot)
    (ha : s.session = .active a) (hempty : a.queuedJobs = ∅)
    (hstarter : a.session.startedBy = some starter)
    (htraffic : ∀ tick ∈ ticks, tick.input.Traffic s.certs a.session.sessionId starter)
    (hnodup : ((requests s.certs ticks).map JobStartRequest.jobId).Nodup)
    (hcount : (requests s.certs ticks).length ≤ maxQueuedJobs)
    (hunknown : ∀ request ∈ requests s.certs ticks, s.history.contains request.jobId = false)
    (hsub : requests s.certs ticks ⊆ D) :
    ∃ a', a'.sequencer.Settled ∧ Sequenced (a.plan D fun jobId => s.history.contains jobId = true)
      (s.burnt ticks) (requests s.certs ticks) (launches (s.run ticks).2) (s.run ticks).1 a' := by
  have hstart : Sequenced (a.plan D fun jobId => s.history.contains jobId = true) ∅ [] [] s a := by
    refine ⟨ha, ⟨rfl, rfl, rfl, rfl⟩, ActiveSession.follows_plan hempty, ?_, fun _ h => .inl h,
      by simp, fun start hpeek => pending_stale hslot ha hpeek⟩
    simp [hempty]
  have hfresh : ∀ request ∈ requests s.certs ticks, ¬s.history.contains request.jobId = true :=
    fun request hmem => Bool.eq_false_iff.1 (hunknown request hmem)
  have hrun := sequenced_run hstarter ticks htraffic rfl (ActiveSession.picks_plan hsub) hnodup hfresh
    hcount (a.sequencer_settled (by simp [hempty])) hstart
  simpa using hrun

/-- **Skips converge.** Jobs of the active session, with different identifiers and none of them known,
and skips by its starter arrive in two orders. The session ends at the same position exactly if the
skips burn the same jobs in both. -/
theorem skips_converge_iff [CollisionFree] {current : VersionInfo} {own : BaseboardId}
    {anchors : List Certificate} {past : Past} {s₀ : State}
    (h₀ : State.new current own anchors past = .ok s₀) (before : List Tick) {a : ActiveSession}
    (ha : (s₀.run before).1.session = .active a) (hempty : a.queuedJobs = ∅) {starter : KeyId}
    (hstarter : a.session.startedBy = some starter) {ticks₁ ticks₂ : List Tick}
    (hperm : (ticks₁.map Tick.input).Perm (ticks₂.map Tick.input))
    (htraffic : ∀ tick ∈ ticks₁, tick.input.Traffic s₀.certs a.session.sessionId starter)
    (hnodup : ((requests s₀.certs ticks₁).map JobStartRequest.jobId).Nodup)
    (hcount : (requests s₀.certs ticks₁).length ≤ maxQueuedJobs)
    (hunknown : ∀ request ∈ requests s₀.certs ticks₁,
      (s₀.run before).1.history.contains request.jobId = false) :
    let s := (s₀.run before).1
    ∃ a₁ a₂, (s.run ticks₁).1.session = .active a₁ ∧ (s.run ticks₂).1.session = .active a₂ ∧
      SameSession a a₁ ∧ SameSession a a₂ ∧
      (a₁.session.nextJobId = a₂.session.nextJobId ↔ s.burnt ticks₁ = s.burnt ticks₂) := by
  intro s
  obtain ⟨-, -, -, hinactive, -, hpending⟩ := new_eq h₀
  have hslot : SlotOk before s.slot := slotOk_run hinactive hpending before
  have hrequests : (requests s₀.certs ticks₁).Perm (requests s₀.certs ticks₂) := by
    rw [requests_eq_filterMap, requests_eq_filterMap]
    exact hperm.filterMap _
  have htraffic₂ : ∀ tick ∈ ticks₂,
      tick.input.Traffic s₀.certs a.session.sessionId starter := by
    intro tick hmem
    obtain ⟨tick', hmem', heq⟩ :=
      List.mem_map.1 (hperm.symm.subset (List.mem_map_of_mem (f := Tick.input) hmem))
    exact heq ▸ htraffic tick' hmem'
  rw [← (sameLife_run s₀ before).certs] at htraffic htraffic₂ hnodup hcount hunknown hrequests
  obtain ⟨a₁, hsettled₁, h₁⟩ := sequenced_of_order hslot ha hempty hstarter htraffic hnodup hcount
    hunknown (List.Subset.refl _)
  obtain ⟨a₂, hsettled₂, h₂⟩ := sequenced_of_order hslot ha hempty hstarter htraffic₂
    ((hrequests.map _).nodup_iff.1 hnodup) (hrequests.length_eq ▸ hcount)
    (fun request hmem => hunknown request (hrequests.symm.subset hmem)) hrequests.symm.subset
  refine ⟨a₁, a₂, h₁.active, h₂.active, h₁.same, h₂.same, ?_⟩
  exact h₁.follows.trail.next_eq_iff CollisionFree.chain_free ActiveSession.pos_plan
    (ActiveSession.picks_rightUnique hnodup) h₂.follows.trail
    (h₁.follows.stuck CollisionFree.chain_free ActiveSession.pos_plan
      (fun _ _ => ActiveSession.pick_mem) hsettled₁)
    (h₂.follows.stuck CollisionFree.chain_free ActiveSession.pos_plan
      (fun _ _ h hahead => hrequests.subset (ActiveSession.pick_mem h hahead)) hsettled₂)

end

end Sush

namespace Sush.Terms

open Lib SkipChain

attribute [local instance] world hashing crypto collisionFree

/-- A life whose session `5` has released its first job. -/
def begun : List Tick :=
  [start (10 : ℕ) (7 : ℕ) 5, job (10 : ℕ) (7 : ℕ) (firstJob 5) [(0 : ℕ)]]

def secondJob : JobStartRequest := jobAfter (firstJob 5)

def second : Tick := job (10 : ℕ) (7 : ℕ) secondJob [(0 : ℕ)]

def third : Tick := job (10 : ℕ) (7 : ℕ) (jobAfter secondJob) [(0 : ℕ)]

def skipSecond : Tick := skip (10 : ℕ) (7 : ℕ) secondJob

/-- The skip of the second job, if it comes after the release of the third, is ignored. -/
theorem skips_diverge_late :
    let s := ((life (0 : ℕ) (10 : ℕ) none).run begun).1
    s.session.queuedJobs.map (·.size) = some 0 ∧
    s.history.contains secondJob.jobId = false ∧
    s.history.contains (jobAfter secondJob).jobId = false ∧
    position s [second, third, skipSecond] = some (session 5, after (jobAfter secondJob)) ∧
    position s [second, skipSecond, third] = some (session 5, burned secondJob.jobId) ∧
    after (jobAfter secondJob) ≠ burned secondJob.jobId := by
  refine ⟨rfl, rfl, rfl, rfl, rfl, ?_⟩
  exact collisionFree.chain_free.after_ne_burned _ _

/-- A skip that comes right before or right after its job burns it either way. -/
theorem skips_converge_iff_second :
    ∃ a₁ a₂,
      (((life (0 : ℕ) (10 : ℕ) none).run begun).1.run [second, skipSecond]).1.session = .active a₁ ∧
      (((life (0 : ℕ) (10 : ℕ) none).run begun).1.run [skipSecond, second]).1.session = .active a₂ ∧
      a₁.session.nextJobId = a₂.session.nextJobId := by
  have hperm : ([second, skipSecond].map Tick.input).Perm ([skipSecond, second].map Tick.input) :=
    .swap _ _ _
  have htraffic : ∀ tick ∈ [second, skipSecond], tick.input.Traffic
      (life (0 : ℕ) (10 : ℕ) none).certs (session 5) (7 : ℕ) := by
    simp only [List.forall_mem_cons]
    exact ⟨.job rfl rfl, .skip, by simp⟩
  have hrequests : requests (life (0 : ℕ) (10 : ℕ) none).certs [second, skipSecond] = [secondJob] :=
    rfl
  obtain ⟨a₁, a₂, h₁, h₂, -, -, hiff⟩ := skips_converge_iff (new_life (0 : ℕ) (10 : ℕ) none) begun rfl
    rfl rfl hperm htraffic (by rw [hrequests]; simp) (by rw [hrequests]; decide)
    (by rw [hrequests]; simp only [List.forall_mem_singleton]; rfl)
  have hburnt₁ : ((life (0 : ℕ) (10 : ℕ) none).run begun).1.burnt [second, skipSecond] =
      { j | none = some j } ∪ ({ j | some secondJob.jobId = some j } ∪ ∅) := rfl
  have hburnt₂ : ((life (0 : ℕ) (10 : ℕ) none).run begun).1.burnt [skipSecond, second] =
      { j | some secondJob.jobId = some j } ∪ ({ j | none = some j } ∪ ∅) := rfl
  rw [hburnt₁, hburnt₂] at hiff
  exact ⟨a₁, a₂, h₁, h₂, hiff.2 (by simp)⟩

end Sush.Terms
