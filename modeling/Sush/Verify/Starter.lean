import Sush.Verify.Slot

/-!
# The starter of a session

Only the starter of the active session may stop it, skip its jobs, stop its jobs and say who may
attach to them. From anyone else these requests leave no trace (`starter_only`).

The starter is the key that made the start, and a start that is already pending is not displaced. But
a pending start can be evicted by other starts, and it is taken out when the session opens. Whoever
resubmits it then becomes the starter (`starter_displaced_evicted`). As long as a start by another key
arrives only where it is ignored, the starter is the key of the first start (`starter_is_first`).
-/

namespace Sush

open Lib

section

variable [World]

/-- The key that makes a request which only the starter of the active session may make. -/
def Input.starterOnly : Input → Option KeyId
  | .gossip _ (.v0 (.request (.session actor (.stop _)))) => some actor
  | .gossip _ (.v0 (.request (.session actor (.skip ..)))) => some actor
  | .gossip _ (.v0 (.request (.session actor (.allowAttach ..)))) => some actor
  | .gossip _ (.v0 (.request (.session actor (.denyAttach ..)))) => some actor
  | .gossip _ (.v0 (.request (.job actor (.stop _)))) => some actor
  | _ => none

variable [Crypto]

/-- The input is a request of the starter only, and someone else makes it. -/
def State.foreign (s : State) (tick : Tick) : Bool :=
  tick.input.starterOnly.any fun actor => (s.session.session).bind Session.startedBy ≠ some actor

theorem asStarter_foreign {s : State} {actor : KeyId}
    (h : (s.session.session).bind Session.startedBy ≠ some actor) (sessionId : SessionId)
    (act : ActiveSession → State × List Output) : s.asStarter sessionId actor act = (s, []) := by
  unfold State.asStarter
  cases ha : s.session with
  | inactive => rfl
  | active a =>
    rw [ha] at h
    have hstarter : ¬(a.session.sessionId = sessionId ∧ a.session.startedBy = some actor) :=
      fun hboth => h hboth.2
    exact if_neg hstarter

variable [Hashing]

theorem step_foreign {s : State} {tick : Tick} (h : s.foreign tick = true) :
    s.step tick = (s, []) := by
  obtain ⟨now, network, input⟩ := tick
  obtain ⟨actor, hinput, hactor⟩ := (Option.any_eq_true _ _).1 h
  have hactor : (s.session.session).bind Session.startedBy ≠ some actor := of_decide_eq_true hactor
  change input.starterOnly = some actor at hinput
  unfold Input.starterOnly at hinput
  split at hinput <;> cases hinput
  case h_5 =>
    simp only [State.step, State.update, State.handleJobRequest]
    rw [if_pos hactor]
  all_goals exact asStarter_foreign hactor _ _

/-- **Requests of the starter are inert from anyone else**: to leave them out of the inputs changes
neither the final state nor the outputs. -/
theorem starter_only (s : State) (ticks : List Tick) :
    s.run (prune State.step State.foreign s ticks) = s.run ticks :=
  run_prune fun _ _ => step_foreign

/-! ## Who becomes the starter -/

/-- The key that makes a start of `sessionId`. -/
def Input.starter (sessionId : SessionId) : Input → Option KeyId
  | .gossip _ (.v0 (.request (.session actor (.start preimage)))) =>
    if preimage.sessionId = sessionId then some actor else none
  | _ => none

/-- The key that made the first start of `sessionId`. -/
def firstStarter (sessionId : SessionId) (ticks : List Tick) : Option KeyId :=
  ticks.findSome? fun tick => tick.input.starter sessionId

omit [Crypto] in
theorem firstStarter_concat (sessionId : SessionId) (ticks : List Tick) (tick : Tick) :
    firstStarter sessionId (ticks ++ [tick]) =
      (firstStarter sessionId ticks).or (tick.input.starter sessionId) := by
  unfold firstStarter
  rw [List.findSome?_append]
  simp

/-- The input is no start by another key than the first one, or the start is ignored: the session is
active, does not outrank the active one, or a start of it is pending. -/
def State.Faithful (s : State) (ticks : List Tick) (tick : Tick) : Prop :=
  ∀ preimage actor first, tick.input.Starts preimage actor →
    firstStarter preimage.sessionId ticks = some first → first ≠ actor →
      (∃ a, s.session = .active a ∧ a.session.sessionId = preimage.sessionId) ∨
        rankOf preimage.seq preimage.sessionId ≤ s.session.rank ∨
        s.pendingStarts.contains preimage.sessionId = true

/-- The starts that wait, and the active session, are by the keys of the first starts. -/
structure StartersFirst (ticks : List Tick)
    (x : Option SlotClaim × LruCache SessionId PendingStart) : Prop where
  pending : ∀ sessionId start, x.2.peek sessionId = some start →
    firstStarter sessionId ticks = some start.actor
  active : ∀ c, x.1 = some c → ∃ actor, c.owner = some actor ∧ firstStarter c.key ticks = some actor

omit [Crypto] in
theorem firstStarter_mono {sessionId : SessionId} {ticks : List Tick} {actor : KeyId} (tick : Tick)
    (h : firstStarter sessionId ticks = some actor) :
    firstStarter sessionId (ticks ++ [tick]) = some actor := by
  rw [firstStarter_concat, h]
  rfl

theorem StartersFirst.step {s : State} {ticks : List Tick} {tick : Tick}
    (hfaithful : s.Faithful ticks tick) (h : StartersFirst ticks s.slot) :
    StartersFirst (ticks ++ [tick]) (s.step tick).1.slot := by
  have hmono : StartersFirst (ticks ++ [tick]) s.slot := by
    constructor
    · intro sessionId start hpeek
      exact firstStarter_mono tick (h.pending sessionId start hpeek)
    · intro c hc
      obtain ⟨actor, howner, hfirst⟩ := h.active c hc
      exact ⟨actor, howner, firstStarter_mono tick hfirst⟩
  have herase : ∀ sessionId k start, (s.pendingStarts.erase sessionId).peek k = some start →
      firstStarter k (ticks ++ [tick]) = some start.actor := by
    intro sessionId k start hpeek
    rw [LruCache.peek_erase] at hpeek
    split at hpeek
    · cases hpeek
    · exact hmono.pending k start hpeek
  have hmove := slot_move s tick
  generalize (s.step tick).1.slot = y at hmove ⊢
  cases hmove with
  | @hold version actor preimage hinput hother hrank hnew =>
    refine ⟨fun sessionId start hpeek => ?_, hmono.active⟩
    rcases LruCache.peek_put_cases hpeek with ⟨rfl, rfl⟩ | hpeek
    · have hthis : tick.input.starter preimage.sessionId = some actor := by
        rw [hinput]
        exact if_pos rfl
      rw [firstStarter_concat, hthis]
      cases hfirst : firstStarter preimage.sessionId ticks with
      | none => rfl
      | some first =>
        -- a start by another key would have been ignored
        by_cases heq : first = actor
        · rw [heq]
          rfl
        · rcases hfaithful preimage actor first ⟨version, hinput⟩ hfirst heq with
            ⟨a, ha, hid⟩ | hle | hpending
          · exact absurd hid (hother a ha)
          · exact absurd hle hrank
          · rw [hnew] at hpending
            cases hpending
    · exact hmono.pending sessionId start hpeek
  | leave hinput ha hstarter => exact ⟨hmono.pending, by simp⟩
  | stale hjob hpeek hrank => exact ⟨herase _, hmono.active⟩
  | @win job start hjob hpeek hrank =>
    refine ⟨herase _, ?_⟩
    rintro c ⟨⟩
    exact ⟨start.actor, rfl, hmono.pending _ start hpeek⟩
  | _ => exact hmono

/-- **The starter of an active session is the key of its first start**, in every run in which a start
by another key arrives only while the session is active, is outranked, or has a start pending. -/
theorem starter_is_first {current : VersionInfo} {own : BaseboardId} {anchors : List Certificate}
    {past : Past} {s₀ : State} (h₀ : State.new current own anchors past = .ok s₀)
    {ticks : List Tick} (hfaithful : ∀ pre tick post, ticks = pre ++ tick :: post →
      (s₀.run pre).1.Faithful pre tick)
    {a : ActiveSession} (ha : (s₀.run ticks).1.session = .active a) :
    ∃ actor, a.session.startedBy = some actor ∧
      firstStarter a.session.sessionId ticks = some actor := by
  obtain ⟨-, -, -, hinactive, -, hempty⟩ := new_eq h₀
  have hrun : StartersFirst ticks (s₀.run ticks).1.slot := by
    refine run_invariant_of_splits State.step (P := fun s ticks _ => StartersFirst ticks s.slot)
      (fun pre tick post hsplit h => ?_) ?_
    · rw [run_concat]
      exact h.step (hfaithful pre tick post hsplit)
    · constructor
      · simp [State.slot, hempty]
      · simp [State.slot, hinactive, SessionState.claim]
  refine hrun.active (claimOf a.session.sessionId a.seq a.session.startedBy) ?_
  unfold State.slot
  rw [ha]
  rfl

end

end Sush

namespace Sush.Terms

open Lib

attribute [local instance] world hashing crypto

/-- Ten starts of other sessions evict the pending one, and then another key resubmits it. -/
def evicted : List Tick :=
  [start (10 : ℕ) (7 : ℕ) 5] ++ ([6, 7, 8, 9, 10, 11, 12, 13, 14, 15] : List (Fin (2 ^ 44))).map
    (start (10 : ℕ) (9 : ℕ)) ++
    [start (10 : ℕ) (8 : ℕ) 5, job (10 : ℕ) (7 : ℕ) (firstJob 5) [(0 : ℕ)]]

/-- Key `7` started the session, and key `8` is its starter. -/
theorem starter_displaced_evicted :
    firstStarter (session 5) evicted = some (7 : ℕ) ∧
    ((life (0 : ℕ) (10 : ℕ) none).run evicted).1.session.session.map
        (fun x => (x.sessionId, x.startedBy)) = some (session 5, some (8 : ℕ)) :=
  ⟨rfl, rfl⟩

def resubmitted : List Tick :=
  [start (10 : ℕ) (7 : ℕ) 5, start (10 : ℕ) (8 : ℕ) 5,
    job (10 : ℕ) (8 : ℕ) (firstJob 5) [(0 : ℕ)]]

theorem starter_is_first_resubmitted : ∃ a,
    ((life (0 : ℕ) (10 : ℕ) none).run resubmitted).1.session = .active a ∧
    ∃ actor, a.session.startedBy = some actor ∧
      firstStarter a.session.sessionId resubmitted = some actor := by
  refine ⟨_, rfl, starter_is_first (new_life (0 : ℕ) (10 : ℕ) none) ?_ rfl⟩
  intro pre tick post hsplit preimage actor first hstart hfirst hne
  obtain ⟨version, hinput⟩ := hstart
  match pre, hsplit with
  | [], _ => cases hfirst
  | [_], hsplit =>
    cases hsplit
    cases hinput
    exact .inr (.inr rfl)
  | [_, _], hsplit =>
    cases hsplit
    cases hinput
  | [_, _, _], hsplit => cases hsplit
  | _ :: _ :: _ :: _ :: _, hsplit => cases hsplit

end Sush.Terms
