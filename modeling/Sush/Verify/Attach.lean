import Sush.Server.Manager
import Sush.Verify.Scenario
import Sush.Verify.Turns

/-!
# Who may attach to a job

Access is looked up in the session that is active now: its starter has it, and whoever the starter
granted it. But an attachment point outlives the session in which its job was launched. A key that is
the starter of the next session is handed the attachment points of the jobs that still run from the
one before (`attached_across_sessions`). If every attachment point that is left when a session opens is
of a job of that session, a key is handed the attachment points of its own session only
(`attach_authority`).
-/

namespace Sush

open Lib

section

variable [World]

/-- The input grants or denies `keyId` the jobs of `sessionId`. -/
def Input.Regrants (input : Input) (sessionId : SessionId) (keyId actor : KeyId) : Prop :=
  ∃ version,
    (∃ access, input = .gossip version
      (.v0 (.request (.session actor (.allowAttach sessionId keyId access))))) ∨
    input = .gossip version (.v0 (.request (.session actor (.denyAttach sessionId keyId))))

/-- The session `sessionId`, started by `starter`, is in the slot. -/
def SessionState.Holds (σ : SessionState) (sessionId : SessionId) (starter : KeyId) : Prop :=
  ∃ a, σ = .active a ∧ a.session.sessionId = sessionId ∧ a.session.startedBy = some starter

variable [Crypto] [Hashing]

/-- The starter granted `keyId` this access to the jobs of the session, neither denied nor changed it
since, and the session has been in the slot ever since. -/
def Granted (s₀ : State) (ticks : List Tick) (sessionId : SessionId) (starter keyId : KeyId)
    (access : Access) : Prop :=
  ∃ pre tick post version, ticks = pre ++ tick :: post ∧
    tick.input = .gossip version
      (.v0 (.request (.session starter (.allowAttach sessionId keyId access)))) ∧
    (∀ later ∈ post, ¬later.input.Regrants sessionId keyId starter) ∧
    ∀ mid rest, tick :: post = mid ++ rest →
      (s₀.run (pre ++ mid)).1.session.Holds sessionId starter

/-- If the input opens a session, every attachment point is of a job launched in that session. -/
def State.Unattached (s : State) (runs : List Run) (tick : Tick) : Prop :=
  ∀ sessionId start, s.opening tick = some (sessionId, start) →
    ∀ jobId, s.attachments.contains jobId = true →
      ∃ r ∈ runs, r.jobId = jobId ∧ r.boundary.session = sessionId

section Grants

variable {s₀ : State} {ticks : List Tick} {tick : Tick} {sessionId : SessionId}
  {starter keyId : KeyId} {access : Access}

theorem Granted.extend (hkeep : ¬tick.input.Regrants sessionId keyId starter)
    (hholds : (s₀.run (ticks ++ [tick])).1.session.Holds sessionId starter)
    (h : Granted s₀ ticks sessionId starter keyId access) :
    Granted s₀ (ticks ++ [tick]) sessionId starter keyId access := by
  obtain ⟨pre, grant, post, version, rfl, hinput, hlater, hmid⟩ := h
  refine ⟨pre, grant, post ++ [tick], version, by simp, hinput, ?_, ?_⟩
  · intro later hmem
    rcases List.mem_append.1 hmem with hmem | hmem
    · exact hlater later hmem
    · rw [List.mem_singleton.1 hmem]
      exact hkeep
  · intro mid rest hsplit
    rcases List.eq_nil_or_concat rest with rfl | ⟨rest', last, rfl⟩
    · have hall : pre ++ mid = pre ++ grant :: post ++ [tick] := by simpa using hsplit.symm
      rw [hall]
      exact hholds
    · have hsplit' : grant :: post = mid ++ rest' := by
        have hcut : (grant :: post) ++ [tick] = (mid ++ rest') ++ [last] := by simpa using hsplit
        exact (List.append_inj' hcut rfl).1
      exact hmid mid rest' hsplit'

theorem grants_step {s : State} {a' : ActiveSession} (ha' : (s.step tick).1.session = .active a')
    (hgrant : a'.attachGrants[keyId]? = some access) :
    ∃ a, s.session = .active a ∧ SameSession a a' ∧
      (a.attachGrants[keyId]? = some access ∨
        ∃ starter, a.session.startedBy = some starter ∧
          tick.input.Regrants a.session.sessionId keyId starter) := by
  have hopened : ∀ a, (s.opened tick).session = .active a → a.attachGrants[keyId]? = some access →
      s.session = .active a := by
    intro a ha hgrant
    rcases opened_session s tick with ⟨-, hsame⟩ | ⟨start, b, -, hb, -, hempty⟩
    · rw [← hsame, ha]
    · rw [hb] at ha
      cases ha
      rw [hempty, Std.ExtTreeMap.getElem?_empty] at hgrant
      cases hgrant
  have hturn := step_turn s tick
  generalize (s.step tick).1.session = σ, (s.step tick).1.history = history,
    (s.step tick).1.attachments = attachments, (s.step tick).2 = os at hturn ha'
  cases hturn with
  | idle | settle _ | event _ => exact ⟨a', ha', ⟨rfl, rfl, rfl, rfl⟩, .inl hgrant⟩
  | stop _ _ _ => cases ha'
  | @allow version actor k access' a hinput ha hstarter =>
    cases ha'
    refine ⟨a, ha, ⟨rfl, rfl, rfl, rfl⟩, ?_⟩
    by_cases hk : k = keyId
    · subst hk
      exact .inr ⟨actor, hstarter, version, .inl ⟨access', hinput⟩⟩
    · rw [BTreeMap.get_insert, if_neg hk] at hgrant
      exact .inl hgrant
  | @deny version actor k a hinput ha hstarter =>
    cases ha'
    refine ⟨a, ha, ⟨rfl, rfl, rfl, rfl⟩, .inl ?_⟩
    rw [BTreeMap.get_erase] at hgrant
    split at hgrant
    · cases hgrant
    · exact hgrant
  | @skip _ _ _ a _ _ _ _ ha _ _ _ hpass =>
    cases ha'
    refine ⟨a, ha, ⟨hpass.same.id, hpass.same.seq, hpass.same.live, hpass.same.starter⟩, .inl ?_⟩
    rw [hpass.grants] at hgrant
    exact hgrant
  | @cancel _ _ _ a _ ha _ _ =>
    cases ha'
    exact ⟨a, ha, ⟨rfl, rfl, rfl, rfl⟩, .inl hgrant⟩
  | refuse _ _ => exact ⟨a', hopened a' ha' hgrant, ⟨rfl, rfl, rfl, rfl⟩, .inl hgrant⟩
  | @job actor queued a b _ js e _ ha hsession he hb hpass =>
    cases ha'
    obtain ⟨hsame, hgrants⟩ := enqueueJob_same (he ▸ hb)
    rw [hpass.grants, hgrants] at hgrant
    exact ⟨a, hopened a ha hgrant, hsame.trans hpass.same, .inl hgrant⟩

theorem step_regrants {s : State} {a : ActiveSession} (ha : s.session = .active a)
    (hstarter : a.session.startedBy = some starter)
    (hinput : tick.input.Regrants a.session.sessionId keyId starter) :
    ∃ grants, (s.step tick).1.session = .active { a with attachGrants := grants } ∧
      ∀ access, grants[keyId]? = some access → ∃ version, tick.input = .gossip version
        (.v0 (.request (.session starter (.allowAttach a.session.sessionId keyId access)))) := by
  obtain ⟨version, ⟨access, hinput⟩ | hinput⟩ := hinput
  · refine ⟨a.attachGrants.insert keyId access, ?_, fun access' hgrant => ⟨version, ?_⟩⟩
    · simp only [State.step, hinput, State.update, State.handleSessionRequest, State.asStarter, ha,
        hstarter, and_self, if_true]
    · rw [BTreeMap.get_insert, if_pos rfl] at hgrant
      cases hgrant
      exact hinput
  · refine ⟨a.attachGrants.erase keyId, ?_, fun access' hgrant => ?_⟩
    · simp only [State.step, hinput, State.update, State.handleSessionRequest, State.asStarter, ha,
        hstarter, and_self, if_true]
    · rw [BTreeMap.get_erase, if_pos rfl] at hgrant
      cases hgrant

/-- **Every grant was made by the starter of the session**, and stands since. -/
theorem granted_run (s₀ : State) (hinactive : s₀.session = .inactive) (ticks : List Tick) :
    ∀ a keyId access, (s₀.run ticks).1.session = .active a →
      a.attachGrants[keyId]? = some access → ∃ starter, a.session.startedBy = some starter ∧
        Granted s₀ ticks a.session.sessionId starter keyId access := by
  refine run_invariant_of_splits State.step
    (P := fun s ticks _ => ∀ a keyId access, s.session = .active a →
      a.attachGrants[keyId]? = some access → ∃ starter, a.session.startedBy = some starter ∧
        Granted s₀ ticks a.session.sessionId starter keyId access) ?_ ?_
  · intro pre tick post hsplit ih a' keyId access ha' hgrant
    rw [run_concat] at ha'
    obtain ⟨a, ha, hsame, hold⟩ := grants_step ha' hgrant
    have hafter : (s₀.run (pre ++ [tick])).1.session = .active a' := by
      unfold State.run
      rw [run_concat]
      exact ha'
    have hid := hsame.id
    by_cases hre : ∃ starter, a.session.startedBy = some starter ∧
        tick.input.Regrants a.session.sessionId keyId starter
    · -- the grant is made now
      obtain ⟨starter, hstarter, hinput⟩ := hre
      obtain ⟨grants, hstep, hmade⟩ := step_regrants ha hstarter hinput
      rw [ha'] at hstep
      cases hstep
      obtain ⟨version, hallow⟩ := hmade access hgrant
      refine ⟨starter, hstarter, pre, tick, [], version, rfl, hallow, by simp, ?_⟩
      intro mid rest hmid
      rcases mid with _ | ⟨_, mid⟩
      · rw [List.append_nil]
        exact ⟨a, ha, rfl, hstarter⟩
      · obtain ⟨rfl, hnil⟩ := List.cons.inj hmid
        obtain ⟨rfl, -⟩ := List.append_eq_nil_iff.1 hnil.symm
        exact ⟨_, hafter, rfl, hstarter⟩
    · -- it was made before
      rcases hold with hold | hnow
      · obtain ⟨starter, hstarter, hgranted⟩ := ih a keyId access ha hold
        have hstarter' : a'.session.startedBy = some starter := hsame.starter.trans hstarter
        rw [← hid] at hgranted
        refine ⟨starter, hstarter', hgranted.extend ?_ ⟨a', hafter, rfl, hstarter'⟩⟩
        rw [hid]
        exact fun hinput => hre ⟨starter, hstarter, hinput⟩
      · exact absurd hnow hre
  · intro a _ _ ha
    rw [hinactive] at ha
    cases ha

end Grants

/-! ## Attachment points -/

omit [Hashing] in
theorem attachments_handleJobEvent {s : State} {version : Version} {baseboard : BaseboardId}
    {event : JobEvent} {jobId : JobId}
    (h : (s.handleJobEvent version baseboard event).1.attachments.contains jobId = true) :
    s.attachments.contains jobId = true := by
  have hclear : ∀ ended, (s.clearEnded baseboard ended).attachments.contains jobId = true →
      s.attachments.contains jobId = true := by
    intro ended h
    unfold State.clearEnded at h
    split at h
    · rw [Std.ExtTreeSet.contains_erase, Bool.and_eq_true] at h
      exact h.2
    · exact h
  cases event with
  | start started when_ =>
    simp only [State.handleJobEvent] at h
    split at h <;> exact h
  | stop ended when_ result output => exact hclear ended h
  | error ended when_ error => exact hclear ended h
  | skipped skipped when_ reason => exact h

/-- While a session is in the slot, every attachment point is of a job launched in it. -/
def AttachedHere (s : State) (runs : List Run) : Prop :=
  ∀ a, s.session = .active a → ∀ jobId, s.attachments.contains jobId = true →
    ∃ r ∈ runs, r.jobId = jobId ∧ r.boundary.session = a.session.sessionId

theorem AttachedHere.step {s : State} {runs : List Run} {tick : Tick}
    (hclear : s.Unattached runs tick) (h : AttachedHere s runs) :
    AttachedHere (s.step tick).1 (runs ++ launches (s.step tick).2) := by
  have hopened : ∀ a, (s.opened tick).session = .active a → ∀ jobId,
      s.attachments.contains jobId = true →
      ∃ r ∈ runs, r.jobId = jobId ∧ r.boundary.session = a.session.sessionId := by
    intro a ha
    rcases opened_session s tick with ⟨-, hsame⟩ | ⟨start, b, hopen, hb, -, -⟩
    · exact h a (hsame.symm.trans ha)
    · rw [hb] at ha
      cases ha
      exact hclear _ start hopen
  have hmore : ∀ {sessionId jobId new}, (∃ r ∈ runs, r.jobId = jobId ∧
      r.boundary.session = sessionId) → ∃ r ∈ runs ++ new, r.jobId = jobId ∧
        r.boundary.session = sessionId :=
    fun ⟨r, hr, hrest⟩ => ⟨r, List.mem_append_left _ hr, hrest⟩
  intro a' ha' jobId hmem
  have hturn := step_turn s tick
  generalize (s.step tick).1.session = σ, (s.step tick).1.history = history,
    (s.step tick).1.attachments = attachments, (s.step tick).2 = os at hturn ha' hmem ⊢
  cases hturn with
  | idle | settle _ => exact hmore (h a' ha' jobId hmem)
  | event _ => exact hmore (h a' ha' jobId (attachments_handleJobEvent hmem))
  | stop _ _ _ => cases ha'
  | allow _ ha _ | deny _ ha _ | cancel _ ha _ _ =>
    cases ha'
    exact hmore (h _ ha jobId hmem)
  | refuse _ _ => exact hmore (hopened a' ha' jobId hmem)
  | @skip _ _ _ a _ _ _ _ ha _ _ _ hpass =>
    cases ha'
    have hid : a'.session.sessionId = a.session.sessionId := hpass.same.id
    rw [hid]
    rcases mem_attachmentsAfter.1 hmem with hmem | ⟨r, hr, hjob⟩
    · exact hmore (h a ha jobId hmem)
    · obtain ⟨queued, -, network, rfl⟩ := mem_launches_released hr
      exact ⟨_, List.mem_append_right _ hr, hjob, rfl⟩
  | @job actor queued a b _ js e _ ha hsession he hb hpass =>
    cases ha'
    obtain ⟨⟨hid, -, -, -⟩, -⟩ := enqueueJob_same (he ▸ hb)
    rw [hpass.same.id, hid]
    rcases mem_attachmentsAfter.1 hmem with hmem | ⟨r, hr, hjob⟩
    · exact hmore (hopened a ha jobId hmem)
    · obtain ⟨queued, -, network, rfl⟩ := mem_launches_released hr
      refine ⟨_, List.mem_append_right _ ?_, hjob, hid⟩
      rw [launches_append]
      exact List.mem_append_right _ hr

/-- **Who is handed an attachment point**: the starter of the session the job was launched in, or a
key that the starter has granted this access to and not denied it since. This holds in every run in
which the attachment points that are left when a session opens are of its own jobs. -/
theorem attach_authority {current : VersionInfo} {own : BaseboardId} {anchors : List Certificate}
    {past : Past} {s₀ : State} (h₀ : State.new current own anchors past = .ok s₀)
    {ticks : List Tick}
    (hclear : Always State.step (fun s os tick => s.Unattached (launches os) tick) s₀ [] ticks)
    {Sender : Type} {channel : JobId → Option Sender} {authn : KeyId} {jobId : JobId}
    {target : BaseboardId} {sender : Sender} {access : Access}
    (h : JobManager.jobAttachment own (s₀.run ticks).1 channel authn jobId target =
      .ok (sender, access)) :
    ∃ a, (s₀.run ticks).1.session = .active a ∧
      (∃ r ∈ launches (s₀.run ticks).2, r.jobId = jobId ∧
        r.boundary.session = a.session.sessionId) ∧
      (a.session.startedBy = some authn ∧ access = .readWrite ∨
        ∃ starter, a.session.startedBy = some starter ∧
          Granted s₀ ticks a.session.sessionId starter authn access) := by
  obtain ⟨-, -, -, hinactive, -, -⟩ := new_eq h₀
  have hhere : AttachedHere (s₀.run ticks).1 (launches (s₀.run ticks).2) := by
    refine run_invariant_of_always State.step
      (P := fun s _ os => AttachedHere s (launches os)) (fun s _ os tick hC h => ?_) hclear ?_
    · rw [launches_append]
      exact h.step hC
    · intro a ha
      rw [hinactive] at ha
      cases ha
  have hgrants := granted_run s₀ hinactive ticks
  generalize (s₀.run ticks).1 = s at h hhere hgrants ⊢
  unfold JobManager.jobAttachment SessionState.attachAccess at h
  cases ha : s.session with
  | inactive => simp [ha] at h
  | active a =>
    have hattached : s.attachments.contains jobId = true := by
      by_contra hnot
      simp only [State.getAttachment, if_neg hnot, ite_self] at h
      split at h <;> cases h
    refine ⟨a, rfl, hhere a ha jobId hattached, ?_⟩
    by_cases hstarter : a.session.startedBy = some authn
    · simp only [ha, if_pos hstarter] at h
      split at h
      · cases h
        exact .inl ⟨hstarter, rfl⟩
      · cases h
    · simp only [ha, if_neg hstarter] at h
      cases hgrant : a.attachGrants[authn]? with
      | none => simp [hgrant] at h
      | some granted =>
        simp only [hgrant] at h
        split at h
        · cases h
          exact .inr (hgrants a authn access ha hgrant)
        · cases h

end

end Sush

namespace Sush.Terms

open Lib

attribute [local instance] world hashing crypto

/-- Key `7` starts a session and its first job, and key `8` starts the next session. -/
def nextSession : List Tick :=
  [start (10 : ℕ) (7 : ℕ) 5, job (10 : ℕ) (7 : ℕ) (firstJob 5) [(0 : ℕ)],
    start (10 : ℕ) (8 : ℕ) 6, job (10 : ℕ) (8 : ℕ) (firstJob 6) [(0 : ℕ)]]

/-- Key `8` is handed the attachment point of the job of session `5`, of which it is neither the
starter nor a grantee. -/
theorem attached_across_sessions :
    JobManager.jobAttachment (0 : ℕ) ((life (0 : ℕ) (10 : ℕ) none).run nextSession).1
        (fun _ => some ()) (8 : ℕ) (firstJob 5).jobId (0 : ℕ) = .ok ((), .readWrite) ∧
    (launches ((life (0 : ℕ) (10 : ℕ) none).run nextSession).2).map
        (fun r => (r.jobId, r.boundary.session)) =
      [((firstJob 5).jobId, session 5), ((firstJob 6).jobId, session 6)] ∧
    (firstJob 5).jobId ≠ (firstJob 6).jobId :=
  ⟨rfl, rfl, by decide⟩

/-- Key `7` starts a session and its first job, and lets key `8` read it. -/
def readGranted : List Tick :=
  [start (10 : ℕ) (7 : ℕ) 5, job (10 : ℕ) (7 : ℕ) (firstJob 5) [(0 : ℕ)],
    deliver (10 : ℕ) (.session (7 : ℕ) (.allowAttach (session 5) (8 : ℕ) .readOnly))]

theorem attach_authority_readGranted :
    ∃ a, ((life (0 : ℕ) (10 : ℕ) none).run readGranted).1.session = .active a ∧
      (∃ r ∈ launches ((life (0 : ℕ) (10 : ℕ) none).run readGranted).2,
        r.jobId = (firstJob 5).jobId ∧ r.boundary.session = a.session.sessionId) ∧
      (a.session.startedBy = some (8 : ℕ) ∧ Access.readOnly = .readWrite ∨
        ∃ starter, a.session.startedBy = some starter ∧
          Granted (life (0 : ℕ) (10 : ℕ) none) readGranted a.session.sessionId starter (8 : ℕ)
            .readOnly) := by
  have hclear : Always State.step (fun s os tick => s.Unattached (launches os) tick)
      (life (0 : ℕ) (10 : ℕ) none) [] readGranted := by
    refine ⟨?_, ?_, ?_, trivial⟩
    · intro sessionId start hopen
      cases hopen
    · intro sessionId start _ jobId hattached
      cases hattached
    · intro sessionId start hopen
      cases hopen
  have hattached : JobManager.jobAttachment (0 : ℕ)
      ((life (0 : ℕ) (10 : ℕ) none).run readGranted).1 (fun _ => some ()) (8 : ℕ)
      (firstJob 5).jobId (0 : ℕ) = .ok ((), .readOnly) := rfl
  exact attach_authority (new_life (0 : ℕ) (10 : ℕ) none) hclear hattached

end Sush.Terms
