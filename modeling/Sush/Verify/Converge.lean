import Sush.Lib.Orders
import Sush.Verify.Slot

/-!
# Which session is left

While the starts that wait are few enough for none to be evicted, the slot of a state runs the race
of its inputs (`race_run`). So the slot at the end of a run is known from the race: without stops it
holds the confirmed session of greatest rank, in whatever order the inputs arrived
(`highest_rank_wins`), and with stops it does not depend on the order either, as long as the messages
are settled as events of the race (`sessions_converge`).
-/

namespace Sush

open Lib

section

variable [World]

/-- The slot of a state as a race. -/
def raceOf (x : Option SlotClaim × LruCache SessionId PendingStart) : SlotRace where
  holder := x.1
  pending sessionId := (x.2.peek sessionId).map (PendingStart.claim sessionId)

theorem raceOf_erase (holder : Option SlotClaim) (c : LruCache SessionId PendingStart)
    (sessionId : SessionId) : raceOf (holder, c.erase sessionId) =
      ⟨holder, Function.update (raceOf (holder, c)).pending sessionId none⟩ := by
  unfold raceOf
  congr
  funext k
  by_cases hk : k = sessionId
  · subst hk
    simp [LruCache.peek_erase]
  · simp [LruCache.peek_erase, Function.update_of_ne hk, Ne.symm hk]

theorem raceOf_put {holder : Option SlotClaim} {c : LruCache SessionId PendingStart}
    {sessionId : SessionId} {start : PendingStart}
    (hroom : (c.erase sessionId).entries.length < c.cap) :
    raceOf (holder, c.put sessionId start) =
      ⟨holder, Function.update (raceOf (holder, c)).pending sessionId
        (some (start.claim sessionId))⟩ := by
  unfold raceOf
  congr
  funext k
  by_cases hk : k = sessionId
  · subst hk
    simp [LruCache.peek_put hroom]
  · simp [LruCache.peek_put hroom, Function.update_of_ne hk, Ne.symm hk]

variable [Crypto]

theorem raceOf_rank (s : State) : (raceOf s.slot).rank = s.session.rank :=
  (rank_eq_claim s.session).symm

variable [Hashing]

section Refine

variable {s : State} {tick : Tick}

theorem drops_iff {preimage : SessionPreimage} {actor : KeyId} :
    (raceOf s.slot).Drops (claimOf preimage.sessionId preimage.seq (some actor)) ↔
      (∃ a, s.session = .active a ∧ a.session.sessionId = preimage.sessionId) ∨
        rankOf preimage.seq preimage.sessionId ≤ s.session.rank ∨
        s.pendingStarts.contains preimage.sessionId = true := by
  unfold Race.Drops
  rw [raceOf_rank]
  refine or_congr ?_ (or_congr Iff.rfl ?_)
  · cases hs : s.session with
    | inactive => simp [raceOf, State.slot, hs, SessionState.claim]
    | active a => simp [raceOf, State.slot, hs, SessionState.claim, claimOf]
  · simp [raceOf, State.slot, claimOf, LruCache.contains]

/-- **The slot refines a race**: while there is room for a start that arrives, one step of the state
is one step of the race. -/
theorem race_step (hroom : ∀ preimage actor, tick.input.Starts preimage actor →
      (s.pendingStarts.erase preimage.sessionId).entries.length < s.pendingStarts.cap) :
    raceOf (s.step tick).1.slot = (raceOf s.slot).step (slotEvent s.certs tick.input) := by
  have hmove := slot_move s tick
  generalize (s.step tick).1.slot = y at hmove ⊢
  cases hmove with
  | idle hevent =>
    rw [hevent]
    rfl
  | @drop version actor preimage hinput hdrop =>
    rw [slotEvent_eq_offer.2 ⟨preimage, actor, ⟨version, hinput⟩, rfl⟩]
    exact (if_pos (drops_iff.2 hdrop)).symm
  | @hold version actor preimage hinput hother hrank hnew =>
    rw [slotEvent_eq_offer.2 ⟨preimage, actor, ⟨version, hinput⟩, rfl⟩,
      raceOf_put (hroom preimage actor ⟨version, hinput⟩)]
    have hkeep : ¬(raceOf s.slot).Drops (claimOf preimage.sessionId preimage.seq (some actor)) := by
      rw [drops_iff]
      rintro (⟨a, ha, hid⟩ | h | h)
      · exact hother a ha hid
      · exact hrank h
      · rw [hnew] at h; cases h
    exact (if_neg hkeep).symm
  | @ignore version actor sessionId hinput hother =>
    rw [slotEvent_eq_yield.2 ⟨actor, ⟨version, hinput⟩, rfl⟩]
    cases hs : s.session with
    | inactive => simp [Race.step, raceOf, State.slot, hs, SessionState.claim]
    | active a =>
      have hno := hother a hs
      simp only [Race.step, raceOf, State.slot, hs, SessionState.claim, claimOf]
      rw [if_neg hno]
  | @leave version actor a hinput ha hstarter =>
    rw [slotEvent_eq_yield.2 ⟨actor, ⟨version, hinput⟩, rfl⟩]
    simp [Race.step, raceOf, State.slot, ha, SessionState.claim, claimOf, hstarter]
  | @unknown job hjob hpeek =>
    obtain ⟨version, actor, signed, params, sleds, hinput, hverify⟩ := verifiedJob_eq_some hjob
    rw [slotEvent_eq_confirm.2 ⟨version, actor, signed, params, sleds, job, hinput, hverify, rfl⟩]
    simp [Race.step, raceOf, State.slot, hpeek]
  | @stale job start hjob hpeek hrank =>
    obtain ⟨version, actor, signed, params, sleds, hinput, hverify⟩ := verifiedJob_eq_some hjob
    rw [slotEvent_eq_confirm.2 ⟨version, actor, signed, params, sleds, job, hinput, hverify, rfl⟩,
      raceOf_erase]
    have hrank' : ((start.claim job.payload.sessionId).rank : SessionRank) ≤
        (raceOf s.slot).rank := by
      rw [raceOf_rank]
      exact hrank
    simp only [Race.step]
    rw [show (raceOf s.slot).pending job.payload.sessionId =
      some (start.claim job.payload.sessionId) by simp [raceOf, State.slot, hpeek]]
    simp only [if_pos hrank']
    rfl
  | @win job start hjob hpeek hrank =>
    obtain ⟨version, actor, signed, params, sleds, hinput, hverify⟩ := verifiedJob_eq_some hjob
    rw [slotEvent_eq_confirm.2 ⟨version, actor, signed, params, sleds, job, hinput, hverify, rfl⟩,
      raceOf_erase]
    have hrank' : ¬((start.claim job.payload.sessionId).rank : SessionRank) ≤
        (raceOf s.slot).rank := by
      rw [raceOf_rank]
      exact hrank
    simp only [Race.step]
    rw [show (raceOf s.slot).pending job.payload.sessionId =
      some (start.claim job.payload.sessionId) by simp [raceOf, State.slot, hpeek]]
    simp only [if_neg hrank']
    rfl

theorem cap_step (s : State) (tick : Tick) :
    (s.step tick).1.pendingStarts.cap = s.pendingStarts.cap := by
  change (s.step tick).1.slot.2.cap = s.pendingStarts.cap
  have hmove := slot_move s tick
  generalize (s.step tick).1.slot = y at hmove ⊢
  cases hmove <;> rfl

/-- **The slot runs the race of its inputs**, if at most `maxPendingStarts` sessions are started. -/
theorem race_run {s₀ : State} (hinactive : s₀.session = .inactive)
    (hempty : s₀.pendingStarts = LruCache.new maxPendingStarts) {ids : Finset SessionId}
    (hcard : ids.card ≤ maxPendingStarts) (ticks : List Tick)
    (hids : ∀ preimage actor, StartDelivered ticks preimage actor → preimage.sessionId ∈ ids) :
    raceOf (s₀.run ticks).1.slot =
      Race.empty.run (ticks.map fun tick => slotEvent s₀.certs tick.input) := by
  suffices hrun : SameLife s₀ (s₀.run ticks).1 ∧ SlotOk ticks (s₀.run ticks).1.slot ∧
      (s₀.run ticks).1.pendingStarts.cap = maxPendingStarts ∧
      ((∀ preimage actor, StartDelivered ticks preimage actor → preimage.sessionId ∈ ids) →
        raceOf (s₀.run ticks).1.slot =
          Race.empty.run (ticks.map fun tick => slotEvent s₀.certs tick.input)) from hrun.2.2.2 hids
  refine run_invariant State.step
    (P := fun s ticks _ => SameLife s₀ s ∧ SlotOk ticks s.slot ∧
      s.pendingStarts.cap = maxPendingStarts ∧
      ((∀ preimage actor, StartDelivered ticks preimage actor → preimage.sessionId ∈ ids) →
        raceOf s.slot = Race.empty.run (ticks.map fun tick => slotEvent s₀.certs tick.input)))
    ?_ ⟨.refl s₀, slotOk_run hinactive hempty [], by rw [hempty]; rfl, fun _ => ?_⟩ ticks
  · rintro s pre _ tick ⟨hlife, hok, hcap, hrace⟩
    refine ⟨hlife.step, hok.step, (cap_step s tick).trans hcap, fun hids => ?_⟩
    have hpre : ∀ preimage actor, StartDelivered pre preimage actor → preimage.sessionId ∈ ids :=
      fun preimage actor h => hids preimage actor (h.mono (by simp))
    rw [List.map_append, List.map_singleton, Race.run, List.foldl_concat, ← Race.run, ← hrace hpre,
      ← hlife.certs]
    refine race_step fun preimage actor hstart => ?_
    refine LruCache.length_erase_lt (hids preimage actor ⟨tick, by simp, hstart⟩) ?_
      (hcap.symm ▸ hcard)
    intro sessionId hmem
    obtain ⟨start, hpeek⟩ := LruCache.mem_keys_iff.1 hmem
    obtain ⟨rfl, hstart⟩ := hok.pending sessionId start hpeek
    exact hpre _ _ hstart
  · simp [raceOf, State.slot, hinactive, hempty, SessionState.claim, Race.run, Race.empty]

end Refine

/-! ## Without stops -/

/-- One of the inputs delivered a verified job of the session. -/
def JobDelivered (certs : Certificates) (ticks : List Tick) (sessionId : SessionId) : Prop :=
  ∃ tick ∈ ticks, tick.input.Confirms certs sessionId

section Events

variable {certs : Certificates} {ticks : List Tick} {sessionId : SessionId}

theorem mem_offer {c : SlotClaim} :
    .offer c ∈ ticks.map (fun tick => slotEvent certs tick.input) ↔ ∃ preimage actor,
      StartDelivered ticks preimage actor ∧
        c = claimOf preimage.sessionId preimage.seq (some actor) := by
  rw [List.mem_map]
  constructor
  · rintro ⟨tick, hmem, hevent⟩
    obtain ⟨preimage, actor, hstart, rfl⟩ := slotEvent_eq_offer.1 hevent
    exact ⟨preimage, actor, ⟨tick, hmem, hstart⟩, rfl⟩
  · rintro ⟨preimage, actor, ⟨tick, hmem, hstart⟩, rfl⟩
    exact ⟨tick, hmem, slotEvent_eq_offer.2 ⟨preimage, actor, hstart, rfl⟩⟩

theorem mem_confirm : .confirm sessionId ∈ ticks.map (fun tick => slotEvent certs tick.input) ↔
    JobDelivered certs ticks sessionId := by
  rw [List.mem_map]
  constructor
  · rintro ⟨tick, hmem, hevent⟩
    exact ⟨tick, hmem, slotEvent_eq_confirm.1 hevent⟩
  · rintro ⟨tick, hmem, hjob⟩
    exact ⟨tick, hmem, slotEvent_eq_confirm.2 hjob⟩

theorem ne_of_no_stops (hstops : ∀ tick ∈ ticks, ∀ sessionId actor,
    ¬tick.input.Stops sessionId actor) (pre post : List SlotEvent) (owner : Option KeyId) :
    ticks.map (fun tick => slotEvent certs tick.input) ≠ pre ++ .yield sessionId owner :: post := by
  intro hes
  have hyield : .yield sessionId owner ∈ ticks.map (fun tick => slotEvent certs tick.input) := by
    rw [hes]
    simp
  obtain ⟨tick, hmem, hevent⟩ := List.mem_map.1 hyield
  obtain ⟨actor, hstop, -⟩ := slotEvent_eq_yield.1 hevent
  exact hstops tick hmem sessionId actor hstop

end Events

theorem rank_le_step {s : State} {tick : Tick}
    (hstop : ∀ sessionId actor, ¬tick.input.Stops sessionId actor) :
    s.session.rank ≤ (s.step tick).1.session.rank := by
  have hmove := slot_move s tick
  rw [rank_eq_claim, rank_eq_claim]
  change (s.session.claim.elim _ _ : SessionRank) ≤ (s.step tick).1.slot.1.elim _ _
  generalize (s.step tick).1.slot = y at hmove ⊢
  cases hmove with
  | leave hinput ha hstarter => exact absurd ⟨_, hinput⟩ (hstop _ _)
  | win hjob hpeek hrank =>
    rw [rank_eq_claim] at hrank
    exact (not_le.1 hrank).le
  | _ => exact le_rfl

theorem ranked_slotEvent (hinj : Function.Injective SessionPreimage.sessionId) {ι : Type}
    (certs : Certificates) (input : ι → Input) : Race.Ranked fun i => slotEvent certs (input i) := by
  intro i j c d hc hd
  obtain ⟨p, _, -, rfl⟩ := slotEvent_eq_offer.1 hc
  obtain ⟨q, _, -, rfl⟩ := slotEvent_eq_offer.1 hd
  constructor
  · intro hkey
    obtain rfl := hinj hkey
    rfl
  · exact fun hrank => (Prod.mk.inj (toLex.injective hrank)).2

/-- **The highest rank wins.** If no session is stopped, at most `maxPendingStarts` sessions are
started and every verified job comes after a start of its session, then the rank of the active
session never goes down, and in the end the active session is the one of greatest rank among those
with a verified job; there is none if no job was verified. -/
theorem highest_rank_wins (hinj : Function.Injective SessionPreimage.sessionId)
    {current : VersionInfo} {own : BaseboardId} {anchors : List Certificate} {past : Past}
    {s₀ : State} (h₀ : State.new current own anchors past = .ok s₀) (ticks : List Tick)
    (hstops : ∀ tick ∈ ticks, ∀ sessionId actor, ¬tick.input.Stops sessionId actor)
    (ids : Finset SessionId) (hcard : ids.card ≤ maxPendingStarts)
    (hids : ∀ preimage actor, StartDelivered ticks preimage actor → preimage.sessionId ∈ ids)
    (hstarted : ∀ before tick rest sessionId, ticks = before ++ tick :: rest →
      tick.input.Confirms s₀.certs sessionId →
      ∃ preimage actor, StartDelivered before preimage actor ∧ preimage.sessionId = sessionId) :
    (∀ before tick rest, ticks = before ++ tick :: rest →
      (s₀.run before).1.session.rank ≤ (s₀.run (before ++ [tick])).1.session.rank) ∧
    ((∀ sessionId, ¬JobDelivered s₀.certs ticks sessionId) →
      (s₀.run ticks).1.session = .inactive) ∧
    (∀ sessionId, JobDelivered s₀.certs ticks sessionId → ∃ a,
      (s₀.run ticks).1.session = .active a ∧ JobDelivered s₀.certs ticks a.session.sessionId ∧
      (∃ preimage actor, StartDelivered ticks preimage actor ∧
        preimage.sessionId = a.session.sessionId ∧ preimage.seq = a.seq) ∧
      ∀ preimage actor, StartDelivered ticks preimage actor →
        JobDelivered s₀.certs ticks preimage.sessionId →
        rankOf preimage.seq preimage.sessionId ≤ a.rank) := by
  obtain ⟨-, -, -, hinactive, -, hempty⟩ := new_eq h₀
  have hrace := race_run hinactive hempty hcard ticks hids
  have hholder : (s₀.run ticks).1.session.claim =
      (Race.empty.run (ticks.map fun tick => slotEvent s₀.certs tick.input)).holder := by
    rw [← hrace]
    rfl
  refine ⟨?_, ?_, ?_⟩
  · rintro before tick rest rfl
    have hconcat : (s₀.run (before ++ [tick])).1 = ((s₀.run before).1.step tick).1 := by
      unfold State.run
      rw [run_concat]
    rw [hconcat]
    exact rank_le_step (hstops tick (by simp))
  · intro hnone
    apply inactive_of_claim
    rw [hholder]
    exact Race.holder_run_of_not_confirmed fun sessionId h => hnone sessionId (mem_confirm.1 h)
  · rintro sessionId ⟨tick, hmem, hjob⟩
    -- the session of greatest rank among those with a verified job
    obtain ⟨before, rest, hsplit⟩ := List.append_of_mem hmem
    obtain ⟨preimage, actor, hstart, rfl⟩ := hstarted before tick rest sessionId hsplit hjob
    have hsub : before ⊆ ticks := by rw [hsplit]; simp
    obtain ⟨started, hstarted', hstart⟩ := hstart.mono hsub
    obtain ⟨w, hconfirm, -, htop⟩ := Race.exists_top (fun c d hc hd => by
        obtain ⟨i, -, hi⟩ := List.mem_map.1 hc
        obtain ⟨j, -, hj⟩ := List.mem_map.1 hd
        exact ranked_slotEvent hinj s₀.certs Tick.input i j c d hi hj)
      (mem_offer.2 ⟨preimage, actor, ⟨started, hstarted', hstart⟩, rfl⟩)
      (mem_confirm.2 ⟨tick, hmem, hjob⟩)
    have hfavours : Race.Favours w (ticks.map fun tick => slotEvent s₀.certs tick.input) := by
      refine ⟨fun pre post hes => ?_, htop, fun pre a post hes => ?_⟩
      · obtain ⟨before, rest, hticks, rfl, hrest⟩ := List.map_eq_append_iff.1 hes
        obtain ⟨tick, rest', rfl, hevent, -⟩ := List.map_eq_cons_iff.1 hrest
        obtain ⟨preimage, actor, hstart, hid⟩ :=
          hstarted before tick rest' w hticks (slotEvent_eq_confirm.1 hevent)
        exact ⟨_, mem_offer.2 ⟨preimage, actor, hstart, rfl⟩, hid⟩
      · exact absurd hes (ne_of_no_stops hstops pre post a)
    obtain ⟨⟨c, hc, hkey⟩, -⟩ := Race.held_run hfavours hconfirm
    obtain ⟨hoffer, hconfirm⟩ := (Race.sound_run _).holder c hc
    obtain ⟨won, starter, hwon, rfl⟩ := mem_offer.1 hoffer
    rw [hc] at hholder
    obtain ⟨a, ha, hid, hseq, -⟩ := active_of_claim hholder
    refine ⟨a, ha, hid ▸ mem_confirm.1 hconfirm, ⟨won, starter, hwon, hid.symm, hseq.symm⟩, ?_⟩
    intro other actor' hother hjob'
    have hrank : a.rank = rankOf won.seq won.sessionId := by rw [← hid, ← hseq]; rfl
    rw [hrank]
    by_cases hsame : other.sessionId = won.sessionId
    · rw [hinj hsame]
    · exact WithBot.coe_le_coe.2 (htop _ _ hoffer (mem_offer.2 ⟨other, actor', hother, rfl⟩) hkey
        (hkey ▸ hsame) (mem_confirm.2 hjob')).le

/-! ## With stops -/

section Orders

variable {ι : Type} {before : ι → ι → Prop} {certs : Certificates} {input : ι → Input}

/-- A verified job of a session has a start of the session among its causes. -/
abbrev JobsStarted (before : ι → ι → Prop) (certs : Certificates) (input : ι → Input) : Prop :=
  ∀ i sessionId, (input i).Confirms certs sessionId → ∃ j preimage actor,
    before j i ∧ (input j).Starts preimage actor ∧ preimage.sessionId = sessionId

theorem offered_of_jobsStarted (h : JobsStarted before certs input) :
    Race.Offered before fun i => slotEvent certs (input i) := by
  intro i sessionId hjob
  obtain ⟨j, preimage, actor, hbefore, hstart, hid⟩ := h i sessionId (slotEvent_eq_confirm.1 hjob)
  exact ⟨j, _, hbefore, slotEvent_eq_offer.2 ⟨preimage, actor, hstart, rfl⟩, hid⟩

/-- The session in the slot after any order of delivery. -/
theorem session_of_order {current : VersionInfo} {own : BaseboardId} {anchors : List Certificate}
    {past : Past} {s₀ : State} (h₀ : State.new current own anchors past = .ok s₀)
    {ids : Finset SessionId} (hcard : ids.card ≤ maxPendingStarts) {tick : ι → Tick}
    (hids : ∀ i preimage actor, (tick i).input.Starts preimage actor → preimage.sessionId ∈ ids)
    (l : List ι) : (s₀.run (l.map tick)).1.session.session.map Session.sessionId =
      Race.outcome (fun i => slotEvent s₀.certs (tick i).input) Set.univ l := by
  obtain ⟨-, -, -, hinactive, -, hempty⟩ := new_eq h₀
  have hrace := race_run hinactive hempty hcard (l.map tick) (fun preimage actor hstart => by
    obtain ⟨_, hmem, hstart⟩ := hstart
    obtain ⟨i, -, rfl⟩ := List.mem_map.1 hmem
    exact hids i preimage actor hstart)
  rw [List.map_map] at hrace
  have hholder := congrArg (fun x : SlotRace => x.holder.map Claim.key) hrace
  unfold Race.outcome Race.events
  simp only [Race.within_univ]
  refine Eq.trans ?_ hholder
  cases h : (s₀.run (l.map tick)).1.session <;> simp [raceOf, State.slot, h] <;> rfl

end Orders

end

end Sush

namespace Sush.Terms

open Lib

attribute [local instance] world hashing crypto collisionFree

/-- Two sessions compete. -/
def twoSessions : List Tick :=
  [start (10 : ℕ) (7 : ℕ) 5, start (10 : ℕ) (8 : ℕ) 6, job (10 : ℕ) (8 : ℕ) (firstJob 6) [(0 : ℕ)],
    job (10 : ℕ) (7 : ℕ) (firstJob 5) [(0 : ℕ)]]

/-- The session with the greater sequence number is in the slot in the end, although the job of the
other one comes last. -/
theorem highest_rank_wins_twoSessions :
    ∃ a, ((life (0 : ℕ) (10 : ℕ) none).run twoSessions).1.session = .active a ∧
      rankOf 6 (session 6) ≤ a.rank := by
  have hwins := highest_rank_wins CollisionFree.sessionId_injective (new_life (0 : ℕ) (10 : ℕ) none)
    twoSessions ?_ {session 5, session 6} ?_ ?_ ?_
  · have hjob : JobDelivered (life (0 : ℕ) (10 : ℕ) none).certs twoSessions (session 6) :=
      ⟨_, .tail _ (.tail _ (.head _)), slotEvent_eq_confirm.1 rfl⟩
    obtain ⟨a, ha, -, -, htop⟩ := hwins.2.2 (session 6) hjob
    exact ⟨a, ha, htop (preimage 6) (8 : ℕ) ⟨_, .tail _ (.head _), _, rfl⟩ hjob⟩
  · simp only [twoSessions, List.forall_mem_cons]
    refine ⟨?_, ?_, ?_, ?_, by simp⟩ <;> rintro sessionId actor ⟨version, h⟩ <;> cases h
  · exact Finset.card_le_two.trans (by decide)
  · rintro p actor ⟨tick, hmem, version, hinput⟩
    simp only [twoSessions, List.mem_cons, List.not_mem_nil, or_false] at hmem
    rcases hmem with rfl | rfl | rfl | rfl <;> cases hinput
    · exact Finset.mem_insert_self _ _
    · exact Finset.mem_insert_of_mem (Finset.mem_singleton_self _)
  · intro before tick rest sessionId hticks hjob
    have hevent := slotEvent_eq_confirm.2 hjob
    simp only [twoSessions, List.cons_eq_append_iff, List.cons.injEq, List.nil_eq_append_iff] at hticks
    rcases hticks with ⟨rfl, rfl, -⟩ | ⟨_, rfl, ⟨rfl, rfl, -⟩ | ⟨_, rfl, ⟨rfl, rfl, -⟩ |
      ⟨_, rfl, ⟨rfl, rfl, -⟩ | ⟨_, rfl, rfl, h⟩⟩⟩⟩
    · cases hevent
    · cases hevent
    · cases hevent
      exact ⟨preimage 6, (8 : ℕ), ⟨_, .tail _ (.head _), _, rfl⟩, rfl⟩
    · cases hevent
      exact ⟨preimage 5, (7 : ℕ), ⟨_, .head _, _, rfl⟩, rfl⟩
    · cases h

def stopRace : Fin 3 → Tick :=
  ![start (10 : ℕ) (7 : ℕ) 5, job (10 : ℕ) (7 : ℕ) (firstJob 5) [(0 : ℕ)], stop (10 : ℕ) (7 : ℕ) 5]

/-- The start comes before the job and the stop. -/
abbrev startFirst (i j : Fin 3) : Prop := i = 0 ∧ j ≠ 0

/-- A session with a job and its stop, and next to them a session of lower rank with a job. -/
def freedSlot : Fin 5 → Tick :=
  ![start (10 : ℕ) (7 : ℕ) 6, job (10 : ℕ) (7 : ℕ) (firstJob 6) [(0 : ℕ)], stop (10 : ℕ) (7 : ℕ) 6,
    start (10 : ℕ) (8 : ℕ) 5, job (10 : ℕ) (8 : ℕ) (firstJob 5) [(0 : ℕ)]]

/-- The messages of each session come in order. -/
abbrev perSession (i j : Fin 5) : Prop := i < j ∧ (j < 3 ∨ 3 ≤ i)

/-- That every stop finds its session in the slot is not enough: what the freed slot holds in the end
depends on whether the job of the other session came before the stop or after it. -/
theorem sessions_diverge_freedSlot :
    LinearExtension perSession [3, 4, 0, 1, 2] ∧ LinearExtension perSession [0, 1, 2, 3, 4] ∧
    (∀ before ∈ [[3, 4, 0, 1], [0, 1]], ((life (0 : ℕ) (10 : ℕ) none).run
      (before.map freedSlot)).1.session.session.map Session.sessionId = some (session 6)) ∧
    ((life (0 : ℕ) (10 : ℕ) none).run ([3, 4, 0, 1, 2].map freedSlot)).1.session.session.map
      Session.sessionId = none ∧
    ((life (0 : ℕ) (10 : ℕ) none).run ([0, 1, 2, 3, 4].map freedSlot)).1.session.session.map
      Session.sessionId = some (session 5) := by
  refine ⟨.of_pairwise (by decide) (by decide) (by decide) (by decide),
    .of_pairwise (by decide) (by decide) (by decide) (by decide), ?_, rfl, rfl⟩
  simp only [List.forall_mem_cons]
  exact ⟨rfl, rfl, by simp⟩

/-- A session with two jobs that race and its stop by the starter, and then a session of lower rank. -/
def jobRace : Fin 6 → Tick :=
  ![start (10 : ℕ) (7 : ℕ) 6, job (10 : ℕ) (7 : ℕ) (firstJob 6) [(0 : ℕ)],
    job (10 : ℕ) (7 : ℕ) (jobAfter (firstJob 6)) [(0 : ℕ)], stop (10 : ℕ) (7 : ℕ) 6,
    start (10 : ℕ) (7 : ℕ) 5, job (10 : ℕ) (7 : ℕ) (firstJob 5) [(0 : ℕ)]]

/-- Only the jobs of the first session are not ordered. -/
abbrev jobsRace (i j : Fin 6) : Prop := i < j ∧ ¬(i = 1 ∧ j = 2)

end Sush.Terms
