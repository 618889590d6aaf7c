import Sush.Lib.Race
import Sush.Verify.Release

/-!
# The session slot

The slot of a state, seen without queues and chains, is a race (`Sush.Lib.Race`): a session start is
an offer, a verified job confirms the start of its session, and a session stop is a yield. Nothing
else touches the slot (`race_step`), as long as no pending start is evicted.
-/

namespace Sush

open Lib

section

variable [World]

abbrev SlotClaim : Type := Claim SessionId (SessionSeq ×ₗ SessionId) (Option KeyId)

abbrev SlotRace : Type := Race SessionId (SessionSeq ×ₗ SessionId) (Option KeyId)

abbrev SlotEvent : Type := Race.Event SessionId (SessionSeq ×ₗ SessionId) (Option KeyId)

/-- The claim of a session with sequence number `seq` and starter `owner`. -/
def claimOf (sessionId : SessionId) (seq : SessionSeq) (owner : Option KeyId) : SlotClaim :=
  ⟨sessionId, toLex (seq, sessionId), owner⟩

def PendingStart.claim (sessionId : SessionId) (start : PendingStart) : SlotClaim :=
  claimOf sessionId start.preimage.seq (some start.actor)

def SessionState.claim : SessionState → Option SlotClaim
  | inactive => none
  | active a => some (claimOf a.session.sessionId a.seq a.session.startedBy)

theorem rank_eq_claim (σ : SessionState) :
    σ.rank = σ.claim.elim ⊥ fun c => (c.rank : SessionRank) := by
  cases σ <;> rfl

theorem active_of_claim {σ : SessionState} {sessionId : SessionId} {seq : SessionSeq}
    {owner : Option KeyId} (h : σ.claim = some (claimOf sessionId seq owner)) :
    ∃ a, σ = .active a ∧ a.session.sessionId = sessionId ∧ a.seq = seq ∧
      a.session.startedBy = owner := by
  cases σ with
  | inactive => cases h
  | active a =>
    simp only [SessionState.claim, claimOf, Option.some.injEq, Claim.mk.injEq] at h
    obtain ⟨rfl, hrank, rfl⟩ := h
    have hseq : a.seq = seq := (Prod.mk.inj (toLex.injective hrank)).1
    exact ⟨a, rfl, rfl, hseq, rfl⟩

theorem inactive_of_claim {σ : SessionState} (h : σ.claim = none) : σ = .inactive := by
  cases σ with
  | inactive => rfl
  | active a => cases h

/-- The input delivers a start of a session. -/
def Input.Starts (input : Input) (preimage : SessionPreimage) (actor : KeyId) : Prop :=
  ∃ version, input = .gossip version (.v0 (.request (.session actor (.start preimage))))

/-- The input delivers a stop of a session. -/
def Input.Stops (input : Input) (sessionId : SessionId) (actor : KeyId) : Prop :=
  ∃ version, input = .gossip version (.v0 (.request (.session actor (.stop sessionId))))

/-- One of the inputs delivered this start. -/
def StartDelivered (ticks : List Tick) (preimage : SessionPreimage) (actor : KeyId) : Prop :=
  ∃ tick ∈ ticks, tick.input.Starts preimage actor

theorem StartDelivered.mono {ticks ticks' : List Tick} {preimage : SessionPreimage} {actor : KeyId}
    (h : StartDelivered ticks preimage actor) (hsub : ticks ⊆ ticks') :
    StartDelivered ticks' preimage actor := by
  obtain ⟨tick, hmem, hinput⟩ := h
  exact ⟨tick, hsub hmem, hinput⟩

variable [Crypto]

def State.slot (s : State) : Option SlotClaim × LruCache SessionId PendingStart :=
  (s.session.claim, s.pendingStarts)

/-! ## What leaves the slot alone -/

section Frame

variable {s : State} {now : DateTime}

theorem slot_eq {s' : State} (hs : s'.session.claim = s.session.claim)
    (hp : s'.pendingStarts = s.pendingStarts) : s'.slot = s.slot := by
  unfold State.slot
  rw [hs, hp]

theorem slot_enqueueJob (queued : QueuedJob) (actor : KeyId) :
    (s.enqueueJob now queued actor).slot = s.slot := by
  cases ha : s.session with
  | inactive => simp only [State.enqueueJob, ha]
  | active a =>
    rcases enqueueJob_cases now ha queued actor with he | ⟨history, -, he⟩
    · rw [he]
    · rw [he]
      exact slot_eq (by rw [ha]; rfl) rfl

theorem slot_cancelJob (jobId : JobId) (actor : KeyId) (replayed : Bool) :
    (s.cancelJob now jobId actor replayed).slot = s.slot := by
  cases ha : s.session with
  | inactive => simp only [State.cancelJob, ha]
  | active a =>
    obtain ⟨history, -, he⟩ := cancelJob_eq now ha jobId actor replayed
    rw [he]
    exact slot_eq (by rw [ha]; rfl) rfl

theorem slot_clearEnded {baseboard : BaseboardId} {jobId : JobId} :
    (s.clearEnded baseboard jobId).slot = s.slot := by
  unfold State.clearEnded
  split <;> rfl

theorem slot_handleEvent (version : Version) (baseboard : BaseboardId) (event : Event) :
    (s.handleEvent version baseboard event).1.slot = s.slot := by
  obtain event | info := event
  · cases event with
    | start jobId when_ =>
      simp only [State.handleEvent, State.handleJobEvent]
      split <;> rfl
    | stop jobId when_ result output => exact slot_clearEnded
    | error jobId when_ error => exact slot_clearEnded
    | skipped jobId when_ reason => rfl
  · rfl

theorem slot_settle {network : Option Network} : (s.settle now network).1.slot = s.slot := by
  obtain ⟨reaped, heq, -⟩ := settle_eq s now network
  rw [heq]
  rfl

variable [Hashing]

theorem slot_releaseReadyJobs (network : Option Network) :
    (s.releaseReadyJobs now network).1.slot = s.slot := by
  cases ha : s.session with
  | inactive => rw [releaseReadyJobs_of_inactive now network ha]
  | active a =>
    obtain ⟨js, a', hpass, heq⟩ := releaseReadyJobs_eq now network ha
    rw [heq]
    refine slot_eq ?_ rfl
    rw [ha]
    simp only [SessionState.claim, hpass.same.id, hpass.same.seq, hpass.same.starter]

end Frame

/-! ## What moves the slot -/

/-- What an input means for the slot, under some trust anchors. -/
def slotEvent [Hashing] (certs : Certificates) : Input → SlotEvent
  | .gossip _ (.v0 (.request (.session actor (.start preimage)))) =>
    .offer (claimOf preimage.sessionId preimage.seq (some actor))
  | .gossip _ (.v0 (.request (.session actor (.stop sessionId)))) => .yield sessionId (some actor)
  | .gossip _ (.v0 (.request (.job _ (.start signed _ _)))) =>
    match certs.verify signed with
    | .ok job => .confirm job.payload.sessionId
    | .error _ => .idle
  | _ => .idle

/-- The input delivers a job of a session that verifies. -/
def Input.Confirms (certs : Certificates) (input : Input) (sessionId : SessionId) : Prop :=
  ∃ version actor signed params sleds job,
    input = .gossip version (.v0 (.request (.job actor (.start signed params sleds)))) ∧
    certs.verify signed = .ok job ∧ job.payload.sessionId = sessionId

variable [Hashing]

section Event

variable {certs : Certificates} {input : Input} {sessionId : SessionId}

theorem slotEvent_eq_offer {c : SlotClaim} : slotEvent certs input = .offer c ↔
    ∃ preimage actor, input.Starts preimage actor ∧
      c = claimOf preimage.sessionId preimage.seq (some actor) := by
  constructor
  · intro h
    unfold slotEvent at h
    split at h
    · next version actor preimage => cases h; exact ⟨preimage, actor, ⟨version, rfl⟩, rfl⟩
    · cases h
    · split at h <;> cases h
    · cases h
  · rintro ⟨preimage, actor, ⟨version, rfl⟩, rfl⟩
    rfl

theorem slotEvent_eq_yield {owner : Option KeyId} : slotEvent certs input = .yield sessionId owner ↔
    ∃ actor, input.Stops sessionId actor ∧ owner = some actor := by
  constructor
  · intro h
    unfold slotEvent at h
    split at h
    · cases h
    · next version actor sessionId' => cases h; exact ⟨actor, ⟨version, rfl⟩, rfl⟩
    · split at h <;> cases h
    · cases h
  · rintro ⟨actor, ⟨version, rfl⟩, rfl⟩
    rfl

theorem slotEvent_eq_confirm :
    slotEvent certs input = .confirm sessionId ↔ input.Confirms certs sessionId := by
  constructor
  · intro h
    unfold slotEvent at h
    split at h
    · cases h
    · cases h
    · next version actor signed params sleds =>
      split at h
      · next job hverify =>
        cases h
        exact ⟨version, actor, signed, params, sleds, job, rfl, hverify, rfl⟩
      · cases h
    · cases h
  · rintro ⟨version, actor, signed, params, sleds, job, rfl, hverify, rfl⟩
    simp only [slotEvent, hverify]

end Event

/-- All that a step can do to the slot. -/
inductive SlotMove (s : State) (tick : Tick) :
    Option SlotClaim × LruCache SessionId PendingStart → Prop
  | idle (hevent : slotEvent s.certs tick.input = .idle) : SlotMove s tick s.slot
  | drop {version : Version} {actor : KeyId} {preimage : SessionPreimage}
    (hinput : tick.input = .gossip version (.v0 (.request (.session actor (.start preimage)))))
    (hdrop : (∃ a, s.session = .active a ∧ a.session.sessionId = preimage.sessionId) ∨
      rankOf preimage.seq preimage.sessionId ≤ s.session.rank ∨
      s.pendingStarts.contains preimage.sessionId = true) :
    SlotMove s tick s.slot
  | hold {version : Version} {actor : KeyId} {preimage : SessionPreimage}
    (hinput : tick.input = .gossip version (.v0 (.request (.session actor (.start preimage)))))
    (hother : ∀ a, s.session = .active a → a.session.sessionId ≠ preimage.sessionId)
    (hrank : ¬rankOf preimage.seq preimage.sessionId ≤ s.session.rank)
    (hnew : s.pendingStarts.contains preimage.sessionId = false) :
    SlotMove s tick (s.session.claim, s.pendingStarts.put preimage.sessionId
      { preimage, actor, live := s.past.isLive version })
  | ignore {version : Version} {actor : KeyId} {sessionId : SessionId}
    (hinput : tick.input = .gossip version (.v0 (.request (.session actor (.stop sessionId)))))
    (hother : ∀ a, s.session = .active a →
      ¬(a.session.sessionId = sessionId ∧ a.session.startedBy = some actor)) :
    SlotMove s tick s.slot
  | leave {version : Version} {actor : KeyId} {a : ActiveSession}
    (hinput : tick.input = .gossip version
      (.v0 (.request (.session actor (.stop a.session.sessionId)))))
    (ha : s.session = .active a) (hstarter : a.session.startedBy = some actor) :
    SlotMove s tick (none, s.pendingStarts)
  | unknown {job : VerifiedJob} (hjob : s.verifiedJob tick = some job)
    (hpeek : s.pendingStarts.peek job.payload.sessionId = none) : SlotMove s tick s.slot
  | stale {job : VerifiedJob} {start : PendingStart} (hjob : s.verifiedJob tick = some job)
    (hpeek : s.pendingStarts.peek job.payload.sessionId = some start)
    (hrank : rankOf start.preimage.seq job.payload.sessionId ≤ s.session.rank) :
    SlotMove s tick (s.session.claim, s.pendingStarts.erase job.payload.sessionId)
  | win {job : VerifiedJob} {start : PendingStart} (hjob : s.verifiedJob tick = some job)
    (hpeek : s.pendingStarts.peek job.payload.sessionId = some start)
    (hrank : ¬rankOf start.preimage.seq job.payload.sessionId ≤ s.session.rank) :
    SlotMove s tick
      (some (start.claim job.payload.sessionId), s.pendingStarts.erase job.payload.sessionId)

section Moves

variable {s : State} {tick : Tick}

theorem startSession_move {version : Version} {actor : KeyId} {preimage : SessionPreimage}
    (hinput : tick.input = .gossip version (.v0 (.request (.session actor (.start preimage))))) :
    SlotMove s tick (s.startSession version actor preimage).slot := by
  by_cases hsame : ∃ a, s.session = .active a ∧ a.session.sessionId = preimage.sessionId
  · have hid : s.startSession version actor preimage = s := by
      obtain ⟨a, ha, hid⟩ := hsame
      simp [State.startSession, ha, hid]
    rw [hid]
    exact .drop hinput (.inl hsame)
  · have hother : ∀ a, s.session = .active a → a.session.sessionId ≠ preimage.sessionId :=
      fun a ha hid => hsame ⟨a, ha, hid⟩
    by_cases hrank : rankOf preimage.seq preimage.sessionId ≤ s.session.rank
    · have hid : s.startSession version actor preimage = s := by
        cases ha : s.session with
        | inactive =>
          rw [ha] at hrank
          exact absurd hrank (not_le.2 (WithBot.bot_lt_coe _))
        | active a =>
          rw [ha] at hrank
          simp [State.startSession, ha, hother a ha, hrank]
      rw [hid]
      exact .drop hinput (.inr (.inl hrank))
    · cases hpend : s.pendingStarts.contains preimage.sessionId with
      | true =>
        have hid : s.startSession version actor preimage = s := by
          cases ha : s.session with
          | inactive => simp [State.startSession, ha, hpend]
          | active a => simp [State.startSession, ha, hpend]
        rw [hid]
        exact .drop hinput (.inr (.inr hpend))
      | false =>
        have hput : s.startSession version actor preimage =
            { s with
              pendingStarts := s.pendingStarts.put preimage.sessionId
                { preimage, actor, live := s.past.isLive version } } := by
          cases ha : s.session with
          | inactive => simp [State.startSession, ha, hpend]
          | active a =>
            rw [ha] at hrank
            simp [State.startSession, ha, hpend, hother a ha, hrank]
        rw [hput]
        exact .hold hinput hother hrank hpend

theorem confirmStart_move {job : VerifiedJob} (hjob : s.verifiedJob tick = some job)
    (now : DateTime) : SlotMove s tick (s.confirmStart now job.payload.sessionId).1.slot := by
  unfold State.confirmStart LruCache.pop
  cases hpeek : s.pendingStarts.peek job.payload.sessionId with
  | none => exact .unknown hjob hpeek
  | some start =>
    simp only
    split
    · next hrank => exact .stale hjob hpeek hrank
    · next hrank =>
      have hclaim : (some (start.claim job.payload.sessionId),
          s.pendingStarts.erase job.payload.sessionId) =
          (State.activate { s with pendingStarts := s.pendingStarts.erase job.payload.sessionId }
            job.payload.sessionId start).slot := by
        unfold State.activate State.slot SessionState.claim State.openSession
        simp only
        split <;> rfl
      rw [← hclaim]
      exact .win hjob hpeek hrank

theorem slot_startJob (now : DateTime) (network : Option Network) (version : Version)
    (actor : KeyId) (job : VerifiedJob) (params : JobStartParams) (sleds : BTreeSet BaseboardId) :
    (s.startJob now network version actor job params sleds).1.slot =
      (s.confirmStart now job.payload.sessionId).1.slot := by
  unfold State.startJob
  simp only
  split
  · exact (slot_releaseReadyJobs _).trans (slot_enqueueJob _ _)
  · split <;> rfl

theorem handleSessionRequest_move (s : State) (tick : Tick) {version : Version} {actor : KeyId}
    {request : SessionRequest}
    (hinput : tick.input = .gossip version (.v0 (.request (.session actor request)))) :
    SlotMove s tick
      (s.handleSessionRequest tick.now tick.network version actor request).1.slot := by
  have hidle : slotEvent s.certs tick.input = .idle → ∀ r : State × List Output,
      r.1.slot = s.slot → SlotMove s tick r.1.slot := by
    intro hevent r hr
    rw [hr]
    exact .idle hevent
  cases request with
  | start preimage => exact startSession_move hinput
  | stop sessionId =>
    simp only [State.handleSessionRequest, State.asStarter]
    split
    · next a ha =>
      split
      · next h =>
        obtain ⟨rfl, hstarter⟩ := h
        exact .leave hinput ha hstarter
      · next h =>
        refine .ignore hinput fun a' ha' => ?_
        rw [ha] at ha'
        cases ha'
        exact h
    · next ha =>
      refine .ignore hinput fun a' ha' => ?_
      rw [ha] at ha'
      cases ha'
  | allowAttach sessionId keyId access =>
    refine hidle (by rw [hinput]; rfl) _ ?_
    refine asStarter_rec (P := fun r => r.1.slot = s.slot) rfl fun a ha _ _ => ?_
    exact slot_eq (by rw [ha]; rfl) rfl
  | denyAttach sessionId keyId =>
    refine hidle (by rw [hinput]; rfl) _ ?_
    refine asStarter_rec (P := fun r => r.1.slot = s.slot) rfl fun a ha _ _ => ?_
    exact slot_eq (by rw [ha]; rfl) rfl
  | skip sessionId jobId =>
    refine hidle (by rw [hinput]; rfl) _ ?_
    refine asStarter_rec (P := fun r => r.1.slot = s.slot) rfl fun a ha _ _ => ?_
    unfold State.skipJob Session.skipJob
    cases a.session.canSkip jobId with
    | false => rfl
    | true =>
      refine (slot_releaseReadyJobs _).trans ((slot_cancelJob _ _ _).trans ?_)
      exact slot_eq (by rw [ha]; rfl) rfl

theorem handleJobRequest_move (s : State) (tick : Tick) {version : Version} {actor : KeyId}
    {request : JobRequest} (hinput : tick.input = .gossip version (.v0 (.request (.job actor request)))) :
    SlotMove s tick
      (s.handleJobRequest tick.now tick.network version actor request).1.slot := by
  cases request with
  | start signed params sleds =>
    simp only [State.handleJobRequest]
    cases hverify : s.certs.verify signed with
    | error e => exact .idle (by rw [hinput]; simp only [slotEvent, hverify])
    | ok job =>
      have hjob : s.verifiedJob tick = some job := by
        unfold State.verifiedJob
        rw [hinput]
        simp only [hverify]
        rfl
      simp only
      rw [slot_startJob]
      exact confirmStart_move hjob tick.now
  | stop jobId =>
    have hslot : (s.handleJobRequest tick.now tick.network version actor (.stop jobId)).1.slot =
        s.slot := by
      simp only [State.handleJobRequest]
      split
      · rfl
      · split
        · rfl
        · exact slot_cancelJob _ _ _
    rw [hslot]
    exact .idle (by rw [hinput]; rfl)

end Moves

/-- **What a step can do to the slot.** -/
theorem slot_move (s : State) (tick : Tick) : SlotMove s tick (s.step tick).1.slot := by
  obtain ⟨now, network, input⟩ := tick
  cases input with
  | cubbies cubbies => exact .idle rfl
  | drained =>
    have hslot : (s.settle now network).1.slot = s.slot := slot_settle
    simp only [State.step, hslot]
    exact .idle rfl
  | gossip version message =>
    cases message with
    | unknown unknown message => exact .idle rfl
    | v0 message =>
      cases message with
      | event baseboard event =>
        have hslot : (s.handleEvent version baseboard event).1.slot = s.slot :=
          slot_handleEvent version baseboard event
        simp only [State.step, State.update, hslot]
        exact .idle rfl
      | request request =>
        cases request with
        | session actor request =>
          exact handleSessionRequest_move s ⟨now, network, _⟩ rfl
        | job actor request => exact handleJobRequest_move s ⟨now, network, _⟩ rfl

/-! ## Where claims come from -/

/-- What waits for the slot and what is in it comes from starts that were delivered. -/
structure SlotOk (ticks : List Tick) (x : Option SlotClaim × LruCache SessionId PendingStart) :
    Prop where
  pending : ∀ sessionId start, x.2.peek sessionId = some start →
    start.preimage.sessionId = sessionId ∧ StartDelivered ticks start.preimage start.actor
  active : ∀ c, x.1 = some c → ∃ preimage actor, StartDelivered ticks preimage actor ∧
    c = claimOf preimage.sessionId preimage.seq (some actor)

section Ok

variable {s : State} {tick : Tick} {ticks : List Tick}

theorem SlotOk.step (h : SlotOk ticks s.slot) : SlotOk (ticks ++ [tick]) (s.step tick).1.slot := by
  have hsub : ticks ⊆ ticks ++ [tick] := by simp
  have hmono : SlotOk (ticks ++ [tick]) s.slot := by
    constructor
    · intro sessionId start hpeek
      obtain ⟨hid, hstart⟩ := h.pending sessionId start hpeek
      exact ⟨hid, hstart.mono hsub⟩
    · intro c hc
      obtain ⟨preimage, actor, hstart, rfl⟩ := h.active c hc
      exact ⟨preimage, actor, hstart.mono hsub, rfl⟩
  have herase : ∀ sessionId, SlotOk (ticks ++ [tick])
      (s.session.claim, s.pendingStarts.erase sessionId) := by
    refine fun sessionId => ⟨fun sessionId' start hpeek => ?_, hmono.active⟩
    rw [LruCache.peek_erase] at hpeek
    split at hpeek
    · cases hpeek
    · exact hmono.pending sessionId' start hpeek
  have hmove := slot_move s tick
  generalize (s.step tick).1.slot = y at hmove ⊢
  cases hmove with
  | @hold version actor preimage hinput hother hrank hnew =>
    refine ⟨fun sessionId start hpeek => ?_, hmono.active⟩
    rcases LruCache.peek_put_cases hpeek with ⟨rfl, rfl⟩ | hpeek
    · exact ⟨rfl, tick, by simp, version, hinput⟩
    · exact hmono.pending sessionId start hpeek
  | leave hinput ha hstarter => exact ⟨hmono.pending, by simp⟩
  | stale hjob hpeek hrank => exact herase _
  | @win job start hjob hpeek hrank =>
    refine ⟨(herase job.payload.sessionId).pending, ?_⟩
    rintro c ⟨⟩
    obtain ⟨hid, hstart⟩ := hmono.pending _ start hpeek
    exact ⟨start.preimage, start.actor, hstart, by rw [hid]; rfl⟩
  | _ => exact hmono

theorem slotOk_run {s₀ : State} (hinactive : s₀.session = .inactive)
    (hempty : s₀.pendingStarts = LruCache.new maxPendingStarts) (ticks : List Tick) :
    SlotOk ticks (s₀.run ticks).1.slot := by
  refine run_invariant State.step (P := fun s ticks _ => SlotOk ticks s.slot)
    (fun _ _ _ _ h => h.step) ?_ ticks
  constructor
  · simp [State.slot, hempty]
  · simp [State.slot, hinactive, SessionState.claim]

end Ok

/-! ## Who may change the slot -/

/-- **Who may change the slot.** An input leaves the session in the slot, its sequence number and its
starter as they are, or it is a stop of the active session by its starter, or a verified job whose
session was started before in this life and outranks the active one. The new session then has the
sequence number and the starter of that start. -/
theorem slot_authority {current : VersionInfo} {own : BaseboardId} {anchors : List Certificate}
    {past : Past} {s₀ : State} (h₀ : State.new current own anchors past = .ok s₀)
    (ticks : List Tick) (tick : Tick) :
    let s := (s₀.run ticks).1
    let s' := (s.step tick).1
    s'.session.claim = s.session.claim ∨
      (∃ version actor a, s.session = .active a ∧
        tick.input = .gossip version
          (.v0 (.request (.session actor (.stop a.session.sessionId)))) ∧
        a.session.startedBy = some actor ∧ s'.session = .inactive) ∨
      (∃ version actor signed params sleds certs job, tick.input = .gossip version
          (.v0 (.request (.job actor (.start signed params sleds)))) ∧
        Certificates.new anchors = .ok certs ∧ certs.verify signed = .ok job ∧
        ∃ preimage starter, StartDelivered ticks preimage starter ∧
          preimage.sessionId = job.payload.sessionId ∧
          s.session.rank < rankOf preimage.seq job.payload.sessionId ∧
          ∃ a', s'.session = .active a' ∧ a'.session.sessionId = job.payload.sessionId ∧
            a'.seq = preimage.seq ∧ a'.session.startedBy = some starter) := by
  intro s s'
  obtain ⟨hcerts, -, -, hinactive, -, hempty⟩ := new_eq h₀
  have hok : SlotOk ticks s.slot := slotOk_run hinactive hempty ticks
  have hlife : SameLife s₀ s := sameLife_run s₀ ticks
  have hmove := slot_move s tick
  generalize hy : (s.step tick).1.slot = y at hmove
  have hclaim : s'.session.claim = y.1 := by rw [← hy]; rfl
  cases hmove with
  | @leave version actor a hinput ha hstarter =>
    exact .inr (.inl ⟨version, actor, a, ha, hinput, hstarter, inactive_of_claim hclaim⟩)
  | @win job start hjob hpeek hrank =>
    obtain ⟨version, actor, signed, params, sleds, hinput, hverify⟩ := verifiedJob_eq_some hjob
    obtain ⟨hid, hstart⟩ := hok.pending _ start hpeek
    rw [hlife.certs] at hverify
    exact .inr (.inr ⟨version, actor, signed, params, sleds, _, job, hinput, hcerts, hverify,
      start.preimage, start.actor, hstart, hid, not_le.1 hrank, active_of_claim hclaim⟩)
  | _ => exact .inl hclaim

end

end Sush

namespace Sush.Terms

open Lib

attribute [local instance] world hashing crypto

/-- The first job of a started session puts the session in the slot. -/
theorem slot_authority_firstJob :
    ((life (0 : ℕ) (10 : ℕ) none).run
      [start (10 : ℕ) (7 : ℕ) 5, job (10 : ℕ) (8 : ℕ) (firstJob 5) [(0 : ℕ)]]).1.session.claim =
        some (claimOf (session 5) 5 (some (7 : ℕ))) ∧
    ∃ preimage starter, StartDelivered [start (10 : ℕ) (7 : ℕ) 5] preimage starter ∧
      preimage.sessionId = session 5 := by
  refine ⟨rfl, ?_⟩
  have hnew := slot_authority (new_life (0 : ℕ) (10 : ℕ) none) [start (10 : ℕ) (7 : ℕ) 5]
    (job (10 : ℕ) (8 : ℕ) (firstJob 5) [(0 : ℕ)])
  rcases hnew with hsame | ⟨_, _, _, ha, _⟩ | hwon
  · exact absurd hsame (fun h => Option.some_ne_none (claimOf (session 5) 5 (some (7 : ℕ))) h)
  · cases ha
  · obtain ⟨_, _, _, _, _, certs, job, hinput, hcerts, hverify, preimage, starter, hstart, hid, -⟩ :=
      hwon
    cases hinput
    cases hcerts
    cases hverify
    exact ⟨preimage, starter, hstart, hid⟩

end Sush.Terms
