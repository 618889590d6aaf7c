import Sush.Client.Session
import Sush.Lib.AckLog
import Sush.Verify.Skips
import Sush.Verify.Arrival

/-!
# Client processes go on where the last one stopped

The file holds what was saved last, or what was attempted to be saved since (`Clients.Saved`), so that is
what a process loads (`loads_last_saved`). Processes that run one after the other and are told of every job
therefore walk along one chain (`Clients.Walked`). A sled that stood where they began comes to where they
stopped, in whatever order their jobs arrive there: of walks over one stock of jobs there is only one that
cannot go on.
-/

namespace Sush

open Lib

variable [World] [Hashing] [SessionJson]

namespace Clients

variable {s : Clients} {outs more : List Out} {session : Option Session}

/-! ## What is loaded -/

/-- One more save, in the log of saves. -/
def noteSave (log : AckLog (Option Session)) : Out → AckLog (Option Session)
  | .saved session acknowledged =>
    if acknowledged then (log.attempt session).ack log.attempts.length else log.attempt session
  | .loaded _ | .accepted _ => log

/-- The saves, beginning with the one that left the file as it was. -/
def savesOf (session : Option Session) (outs : List Out) : AckLog (Option Session) :=
  outs.foldl noteSave ((AckLog.empty.attempt session).ack 0)

/-- The file holds what was saved last, or what was attempted to be saved since. -/
def Saved (file : Option SessionJson.Text) (log : AckLog (Option Session)) : Prop :=
  ∃ session, log.Current session ∧ file = contents session

omit [Hashing] [SessionJson] in
theorem savesOf_append : savesOf session (outs ++ more) = more.foldl noteSave (savesOf session outs) :=
  List.foldl_append ..

omit [Hashing] in
theorem load_contents (session : Option Session) : load (contents session) = session := by
  cases session with
  | none => rfl
  | some session => simp [load, contents, SessionJson.fromJson_toJson]

omit [Hashing] in
theorem saved_new (session : Option Session) : Saved (contents session) (savesOf session []) := by
  refine ⟨session, ?_, rfl⟩
  exact AckLog.current_ack (AckLog.getElem?_attempt_self (l := AckLog.empty) (a := session))

/-- What a step can do. -/
inductive Moves (s : Clients) : Clients × List Out → Prop
  | launch (placed readable : Bool) : Moves s (s.step (.launch placed readable))
  | stay (jobs : List SignedJob) : Moves s (s, jobs.map .accepted)
  | save (jobs : List SignedJob) {id : ℕ} {cli : Cli} (hcli : s.processes[id]? = some cli)
      (hfile : cli.sessionFile = true) (session : Option Session) (acknowledged changed : Bool)
      (hdone : acknowledged = true → changed = true) :
    Moves s (⟨if changed then contents session else s.file,
      s.processes.set id { cli with session := session }⟩,
      jobs.map .accepted ++ [.saved session acknowledged])
  | forget (jobs : List SignedJob) {id : ℕ} {cli : Cli} (hcli : s.processes[id]? = some cli)
      (hfile : cli.sessionFile = false) (session : Option Session) :
    Moves s (⟨s.file, s.processes.set id { cli with session := session }⟩, jobs.map .accepted)

theorem moves_save {id : ℕ} {cli : Cli} (hcli : s.processes[id]? = some cli) (session : Option Session)
    (write : FileWrite) (jobs : List SignedJob) :
    s.Moves ((s.save id cli session write).1, jobs.map .accepted ++ (s.save id cli session write).2) := by
  unfold Clients.save
  dsimp only
  split
  · next hfile =>
    cases write with
    | done => exact .save jobs hcli hfile session true true fun _ => rfl
    | failed changed => exact .save jobs hcli hfile session false changed fun h => by cases h
  · next hfile =>
    rw [List.append_nil]
    exact .forget jobs hcli (Bool.not_eq_true _ ▸ hfile) session

theorem moves_step (s : Clients) (act : Act) : s.Moves (s.step act) := by
  cases act with
  | launch placed readable => exact .launch placed readable
  | change id change write =>
    simp only [Clients.step]
    split
    · exact .stay []
    next cli hcli =>
      split
      · exact .stay []
      · exact moves_save hcli _ write []
  | jobStart id command keyId signature accepted told write =>
    simp only [Clients.step]
    split
    · exact .stay []
    next cli hcli =>
      split
      · exact .stay []
      have haccepted : ∀ job, (if accepted then [Out.accepted job] else []) =
          (if accepted then [job] else []).map Out.accepted := by
        intro job
        cases accepted <;> rfl
      rw [haccepted]
      split
      · exact moves_save hcli _ write _
      · exact .stay _

omit [Hashing] [SessionJson] in
@[simp] theorem foldl_noteSave_accepted (log : AckLog (Option Session)) (jobs : List SignedJob) :
    (jobs.map Out.accepted).foldl noteSave log = log := by
  rw [List.foldl_map]
  exact List.foldl_fixed jobs

theorem Saved.step {log : AckLog (Option Session)} (h : Saved s.file log) (act : Act) :
    Saved (s.step act).1.file ((s.step act).2.foldl noteSave log) := by
  generalize hmoved : s.step act = moved
  cases hmoved ▸ s.moves_step act with
  | launch => exact h
  | stay jobs => simpa using h
  | forget jobs => simpa using h
  | save jobs _ _ session acknowledged changed hdone =>
    rw [List.foldl_append, foldl_noteSave_accepted]
    cases acknowledged with
    | true => exact ⟨session, AckLog.current_ack AckLog.getElem?_attempt_self, if_pos (hdone rfl)⟩
    | false =>
      cases changed with
      | true => exact ⟨session, ⟨_, AckLog.getElem?_attempt_self, AckLog.since_attempt_self⟩, rfl⟩
      | false =>
        obtain ⟨old, hcurrent, hfile⟩ := h
        exact ⟨old, hcurrent.attempt, hfile⟩

theorem loaded_step (s : Clients) (act : Act) {loaded : Session} {pre post : List Out}
    (h : (s.step act).2 = pre ++ .loaded (some loaded) :: post) : pre = [] ∧ load s.file = some loaded := by
  have hmem : Out.loaded (some loaded) ∈ (s.step act).2 := by
    rw [h]
    simp
  generalize hmoved : s.step act = moved at h hmem
  cases hmoved ▸ s.moves_step act with
  | launch placed readable =>
    obtain ⟨hpre, ⟨-, hloaded⟩, -⟩ : pre = [] ∧
        ((placed = true ∧ readable = true) ∧ some loaded = load s.file) ∧ post = [] := by
      simpa [Clients.step, List.singleton_eq_append_iff] using h
    exact ⟨hpre, hloaded.symm⟩
  | stay jobs => simp at hmem
  | forget jobs => simp at hmem
  | save jobs => simp at hmem

/-- A process with a place for the file saves each change of its session. -/
theorem saves_change (s : Clients) (act : Act) {id : ℕ} {cli cli' : Cli}
    (hcli : s.processes[id]? = some cli) (hfile : cli.sessionFile = true)
    (hcli' : (s.step act).1.processes[id]? = some cli') (hne : cli'.session ≠ cli.session) :
    ∃ acknowledged, .saved cli'.session acknowledged ∈ (s.step act).2 := by
  have hset : ∀ {id₀ : ℕ} {cli₀ : Cli} {session : Option Session}, s.processes[id₀]? = some cli₀ →
      (s.processes.set id₀ { cli₀ with session := session })[id]? = some cli' →
      cli₀ = cli ∧ cli'.session = session := by
    intro id₀ cli₀ session hcli₀ hset
    rw [List.getElem?_set] at hset
    split at hset
    · next heq =>
      subst heq
      cases hcli₀.symm.trans hcli
      split at hset <;> cases hset
      exact ⟨rfl, rfl⟩
    · cases hcli.symm.trans hset
      exact absurd rfl hne
  generalize hmoved : s.step act = moved at hcli'
  cases hmoved ▸ s.moves_step act with
  | launch placed readable =>
    simp only [Clients.step] at hcli'
    rw [List.getElem?_append_left (List.getElem?_eq_some_iff.1 hcli).1] at hcli'
    cases hcli.symm.trans hcli'
    exact absurd rfl hne
  | stay jobs =>
    cases hcli.symm.trans hcli'
    exact absurd rfl hne
  | forget jobs hcli₀ hnone =>
    obtain ⟨rfl, -⟩ := hset hcli₀ hcli'
    rw [hfile] at hnone
    cases hnone
  | save jobs hcli₀ _ session acknowledged =>
    obtain ⟨-, rfl⟩ := hset hcli₀ hcli'
    exact ⟨acknowledged, by simp⟩

omit [Hashing] [SessionJson] in
theorem acked_of_acknowledged (h : ∀ saved, .saved saved false ∉ outs) :
    ∃ i, (savesOf session outs).acked = some i ∧ i + 1 = (savesOf session outs).attempts.length := by
  induction outs using List.reverseRecOn with
  | nil => exact ⟨0, rfl, rfl⟩
  | append_singleton outs out ih =>
    obtain ⟨i, hacked, hlast⟩ := ih fun saved hmem => h saved (List.mem_append_left _ hmem)
    rw [savesOf_append]
    cases out with
    | loaded loaded => exact ⟨i, hacked, hlast⟩
    | accepted job => exact ⟨i, hacked, hlast⟩
    | saved saved acknowledged =>
      cases acknowledged with
      | false => exact absurd (List.mem_append_right _ List.mem_cons_self) (h saved)
      | true =>
        refine ⟨(savesOf session outs).attempts.length, ?_, ?_⟩
        · exact AckLog.acked_ack AckLog.getElem?_attempt_self
        · simp only [List.foldl_cons, List.foldl_nil, noteSave, if_true, AckLog.attempts_ack]
          simp [AckLog.attempt]

/-- A session that a process loads is the one that was saved last, or one that was attempted to be saved
since; it is the one saved last if every save was acknowledged. -/
def LoadsLast (session : Option Session) (outs : List Out) : Prop :=
  ∀ pre loaded post, outs = pre ++ .loaded (some loaded) :: post →
    (savesOf session pre).Current (some loaded) ∧
    ((∀ saved, .saved saved false ∉ pre) →
      (savesOf session pre).attempts.getLast? = some (some loaded))

/-- The processes run one after the other, can load and save, and are told of every job. -/
def Orderly (s : Clients) (_ : List Out) : Act → Prop
  | .launch placed readable => placed = true ∧ readable = true
  | .change .. => False
  | .jobStart id _ _ _ accepted told write =>
    id + 1 = s.processes.length ∧ accepted = true ∧ told = true ∧ write = .done

def Out.accepted? : Out → Option SignedJob
  | .accepted job => some job
  | .loaded _ | .saved .. => none

def acceptedOf (outs : List Out) : List SignedJob := outs.filterMap Out.accepted?

omit [Hashing] [SessionJson] in
theorem acceptedOf_append : acceptedOf (outs ++ more) = acceptedOf outs ++ acceptedOf more :=
  List.filterMap_append ..

/-- The processes have walked from `begun` to `session`, where the file and the last process are. -/
structure Walked (begun session : Session) (s : Clients) (outs : List Out) : Prop where
  file : s.file = contents (some session)
  last : ∀ cli, s.processes.getLast? = some cli → cli = ⟨some session, true⟩
  walk : Walk jobChain begun.nextJobId ((acceptedOf outs).map Signed.payload) session.nextJobId

theorem Walked.step {begun session : Session} (h : s.Walked begun session outs) {act : Act}
    (hact : s.Orderly outs act) :
    ∃ session', (s.step act).1.Walked begun session' (outs ++ (s.step act).2) := by
  cases act with
  | launch placed readable =>
    obtain ⟨rfl, rfl⟩ := hact
    have hload : load s.file = some session := by rw [h.file, load_contents]
    refine ⟨session, h.file, fun cli hcli => ?_, ?_⟩
    · simp only [Clients.step, Bool.and_self, if_true, hload, List.getLast?_concat, Option.some.injEq] at hcli
      exact hcli.symm
    · rw [acceptedOf_append]
      exact (List.append_nil (acceptedOf outs)).symm ▸ h.walk
  | change => exact hact.elim
  | jobStart id command keyId signature accepted told write =>
    obtain ⟨hid, rfl, rfl, rfl⟩ := hact
    have hcli : s.processes[id]? = some ⟨some session, true⟩ := by
      have hlt : id < s.processes.length := by omega
      have hget : s.processes[id]? = some s.processes[id] := List.getElem?_eq_getElem hlt
      have hlast : s.processes.getLast? = some s.processes[id] := by
        rw [List.getLast?_eq_getElem?, ← hget]
        congr 1
        omega
      rw [hget, h.last _ hlast]
    let job : SignedJob := ⟨request session command, keyId, signature⟩
    have hstep : s.step (.jobStart id command keyId signature true true .done) =
        (⟨contents (some (session.jobStarted job)),
          s.processes.set id ⟨some (session.jobStarted job), true⟩⟩,
          [.accepted job, .saved (some (session.jobStarted job)) true]) := by
      simp only [Clients.step, hcli, Clients.save, if_true, job]
      rfl
    rw [hstep]
    refine ⟨session.jobStarted job, rfl, fun cli hlast => ?_, ?_⟩
    · rw [List.getLast?_eq_getElem?, List.length_set, ← hid, Nat.add_sub_cancel,
        List.getElem?_set_self (by omega)] at hlast
      exact (Option.some.inj hlast).symm
    · rw [acceptedOf_append, List.map_append]
      have hone : Walk jobChain (jobChain.pos job.payload) [job.payload] (jobChain.after job.payload) :=
        .cons .nil
      exact h.walk.append hone

theorem walked_run {session : Session} {acts : List Act}
    (horderly : Always step Orderly (new (some session)) [] acts) :
    ∃ session', (run (some session) acts).1.Walked session session' (run (some session) acts).2 := by
  refine run_invariant_of_always step (P := fun s _ outs => ∃ session', s.Walked session session' outs)
    (fun s _ outs act hact h => ?_) horderly ?_
  · obtain ⟨session', h⟩ := h
    exact h.step hact
  · exact ⟨session, rfl, fun cli h => by simp [new] at h, .nil⟩

end Clients

/-! ## The client and a sled -/

omit [SessionJson] in
theorem walk_queueChain {jobs : List QueuedJob} {p q : JobId}
    (h : Walk jobChain p (jobs.map fun queued => queued.job.payload) q) : Walk queueChain p jobs q := by
  induction jobs generalizing p with
  | nil =>
    cases h
    exact .nil
  | cons queued jobs ih =>
    cases h with
    | cons h => exact .cons (ih h)

omit [SessionJson] in
theorem nodup_of_walk [CollisionFree] {jobs : List QueuedJob} {p q : JobId}
    (h : Walk queueChain p jobs q) : (jobs.map queueChain.pos).Nodup := by
  refine List.pairwise_map.2 (h.pairwise.imp fun hbefore heq => ?_)
  exact CollisionFree.chain_free.before_irrefl _ (heq ▸ before_of_queueChain hbefore)

omit [World] [Hashing] [SessionJson] in
theorem exists_perm_map {α β : Type} {f : α → β} {l : List α} {m : List β} (h : (l.map f).Perm m) :
    ∃ l', l.Perm l' ∧ l'.map f = m := by
  have himage : List.Forall₂ (fun a b => f a = b) l (l.map f) :=
    List.forall₂_map_right_iff.2 (List.forall₂_same.2 fun _ _ => rfl)
  have hcomp : Relation.Comp (List.Forall₂ fun a b => f a = b) List.Perm l m := ⟨_, himage, h⟩
  rw [List.forall₂_comp_perm_eq_perm_comp_forall₂] at hcomp
  obtain ⟨l', hperm, hl'⟩ := hcomp
  refine ⟨l', hperm, List.forall₂_eq_eq_eq ▸ ?_⟩
  exact List.forall₂_map_left_iff.2 hl'

variable [Crypto]

/-- **The client and the sleds agree on what comes next.** Processes that run one after the other, from a
session at the place of the chain where a sled stands with nothing waiting, start jobs and are told of each.
They can load and save, and nothing is skipped, stopped or joined (`Clients.Orderly`). Their jobs, which the
sled does not know, arrive there in any order, no more than can wait, and nothing else arrives
(`State.Arrives`). In the end the sled stands at the place for which the next process will sign its job, with
nothing waiting, and has launched jobs only in the order in which the client started them. -/
theorem client_and_sled_agree [CollisionFree] {current : VersionInfo} {own : BaseboardId}
    {anchors : List Certificate} {past : Past} {s₀ : State}
    (h₀ : State.new current own anchors past = .ok s₀) (before : List Tick) {a : ActiveSession}
    (ha : (s₀.run before).1.session = .active a) (hempty : a.queuedJobs = ∅) {session : Session}
    (hnext : session.nextJobId = a.session.nextJobId) {acts : List Clients.Act}
    (horderly : Always Clients.step Clients.Orderly (Clients.new (some session)) [] acts)
    {network : Option Network} {ticks : List Tick} {jobs : List QueuedJob}
    (hticks : List.Forall₂ ((s₀.run before).1.Arrives a network) ticks jobs)
    (hjobs : (jobs.map fun queued => queued.job.signed).Perm
      (Clients.acceptedOf (Clients.run (some session) acts).2))
    (hcount : jobs.length ≤ maxQueuedJobs) :
    ∃ session' a', Clients.load (Clients.run (some session) acts).1.file = some session' ∧
      ((s₀.run before).1.run ticks).1.session = .active a' ∧
      a'.session.nextJobId = session'.nextJobId ∧ a'.queuedJobs = ∅ ∧
      ((launches ((s₀.run before).1.run ticks).2).map Run.jobId).Sublist
        ((Clients.acceptedOf (Clients.run (some session) acts).2).map fun job => job.payload.jobId) := by
  obtain ⟨session', hwalked⟩ := Clients.walked_run horderly
  obtain ⟨-, -, -, hinactive, -, hpending⟩ := new_eq h₀
  have hslot := slotOk_run hinactive hpending before
  generalize (s₀.run before).1 = s at ha hticks hslot ⊢
  -- the sled's session stays in the slot, since a pending start of it does not outrank it
  have hstart : Arrived s a network [] s a [] [] := by
    refine arrived_start network hempty fun tick actor queued haccept hsession => ?_
    have hstale := opening_of_stale haccept ha fun start hpeek => by
      rw [hsession] at hpeek ⊢
      exact pending_stale hslot ha hpeek
    obtain ⟨hopened, hdisplaced⟩ := opened_of_opening_eq_none hstale
    exact ⟨hopened.trans ha, hdisplaced⟩
  -- the jobs in the order in which the client started them
  obtain ⟨order, hperm, horder⟩ := exists_perm_map hjobs
  have hwalk : Walk queueChain a.session.nextJobId order session'.nextJobId := by
    refine walk_queueChain ?_
    rw [← hnext]
    have hpayloads : (order.map fun queued => queued.job.payload) =
        (Clients.acceptedOf (Clients.run (some session) acts).2).map Signed.payload := by
      rw [← horder, List.map_map]
      rfl
    rw [hpayloads]
    exact hwalked.walk
  have hnodup : (jobs.map queueChain.pos).Nodup :=
    ((hperm.map queueChain.pos).nodup_iff).2 (nodup_of_walk hwalk)
  have hexhausts : Exhausts queueChain jobs a.session.nextJobId order session'.nextJobId :=
    ⟨hwalk, (nodup_of_walk hwalk).of_map, fun j hj => hperm.symm.subset hj,
      fun j hj _ => hperm.subset hj⟩
  obtain ⟨a', js, harrived⟩ := Arrived.run hticks hstart hcount hnodup
  simp only [List.nil_append] at harrived
  obtain ⟨rfl, hplace⟩ := harrived.walk.unique
    (fun i hi j hj hij => List.inj_on_of_nodup_map hnodup hi hj hij) hexhausts
  have hload : Clients.load (Clients.run (some session) acts).1.file = some session' := by
    rw [hwalked.file, Clients.load_contents]
  have hlaunches : ((launches (s.run ticks).2).map Run.jobId).Sublist
      ((Clients.acceptedOf (Clients.run (some session) acts).2).map fun job => job.payload.jobId) := by
    rw [← horder, List.map_map, ← launches_untimed, harrived.outputs, launches_untimed]
    exact launches_sublist s network a js
  rcases harrived.active with rfl | hactive
  · -- nothing was started
    obtain rfl := hperm.nil_eq
    cases hticks
    exact ⟨session', a, hload, ha, hwalk.eq_of_nil, hempty, hlaunches⟩
  · refine ⟨session', a', hload, hactive, hplace, ?_, hlaunches⟩
    refine Std.ExtTreeMap.ext_getElem? fun k => Option.ext fun q => ?_
    rw [harrived.queue]
    constructor
    · rintro ⟨hq, -, hnot⟩
      exact absurd (hperm.subset hq) hnot
    · intro hq
      simp at hq

end Sush

namespace Sush.Terms

open Lib

attribute [local instance] world hashing crypto collisionFree

abbrev sessionJson : SessionJson where
  Text := ℕ × Session
  toJson version session := (version, session)
  fromJson := some
  fromJson_toJson _ _ := rfl

attribute [local instance] sessionJson

/-- The session `5` after its first job. -/
def afterFirst : Session := (Session.new (session 5)).jobStarted (signed (firstJob 5))

/-- Two processes, one after the other, start the second and the third job. -/
def twoProcesses : List Clients.Act :=
  [.launch true true, .jobStart 0 ⟨"", .batch, .all⟩ (0 : ℕ) ⟨0, 0, 1, 0⟩ true true .done,
    .launch true true, .jobStart 1 ⟨"", .batch, .all⟩ (0 : ℕ) ⟨0, 0, 1, 0⟩ true true .done]

theorem client_and_sled_agree_twoProcesses : ∃ session' a',
    Clients.load (Clients.run (some afterFirst) twoProcesses).1.file = some session' ∧
    (((life (0 : ℕ) (10 : ℕ) none).run pastFirst).1.run
      (secondAndThird.reverse.map (job (10 : ℕ) (7 : ℕ) · [(0 : ℕ)]))).1.session = .active a' ∧
    a'.session.nextJobId = session'.nextJobId := by
  obtain ⟨a, ha, hempty, hsession, hnext⟩ : ∃ a,
      ((life (0 : ℕ) (10 : ℕ) none).run pastFirst).1.session = .active a ∧ a.queuedJobs = ∅ ∧
      session 5 = a.session.sessionId ∧ afterFirst.nextJobId = a.session.nextJobId :=
    ⟨_, rfl, rfl, rfl, rfl⟩
  have harrives : List.Forall₂ (((life (0 : ℕ) (10 : ℕ) none).run pastFirst).1.Arrives a (some (0 : ℕ)))
      (secondAndThird.reverse.map (job (10 : ℕ) (7 : ℕ) · [(0 : ℕ)]))
      (secondAndThird.reverse.map (waiting · [(0 : ℕ)])) := by
    rw [List.forall₂_map_left_iff, List.forall₂_map_right_iff, List.forall₂_same]
    intro r hr
    rw [List.mem_reverse] at hr
    fin_cases hr <;> exact ⟨⟨(7 : ℕ), (10 : ℕ), rfl, rfl, rfl⟩, rfl, hsession, rfl, rfl⟩
  have hjobs : ((secondAndThird.reverse.map (waiting · [(0 : ℕ)])).map fun queued => queued.job.signed).Perm
      (Clients.acceptedOf (Clients.run (some afterFirst) twoProcesses).2) :=
    (List.reverse_perm (secondAndThird.map signed))
  have horderly : Always Clients.step Clients.Orderly (Clients.new (some afterFirst)) [] twoProcesses :=
    ⟨⟨rfl, rfl⟩, ⟨rfl, rfl, rfl, rfl⟩, ⟨rfl, rfl⟩, ⟨rfl, rfl, rfl, rfl⟩, trivial⟩
  obtain ⟨session', a', hload, hactive, hplace, -⟩ := client_and_sled_agree
    (new_life (0 : ℕ) (10 : ℕ) none) pastFirst ha hempty hnext horderly harrives hjobs (by decide +kernel)
  exact ⟨session', a', hload, hactive, hplace⟩

end Sush.Terms
