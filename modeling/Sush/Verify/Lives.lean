import Sush.Verify.Resume
import Sush.Verify.Slot

/-!
# At most once across lives

Before a job is launched its boundary record is stored, and the next life begins with the record
stored last. The record is one for all sessions: it says where its own session goes on, and refuses
every other session that does not have a greater sequence number. So it speaks for all the launches
of a life (`Covers`) only if the sequence numbers of the sessions that launch never go down, and no
session starts over after it has launched a job. A session that is stopped gives way to any other,
also to one of lower rank, and then the record no longer says that the first one has run jobs here
(`launched_again_lower`). Where every life opens its sessions forward, no later life launches a job
again (`lives_disjoint`).
-/

namespace Sush

open Lib SkipChain

section

variable [World]

theorem screen_admitted {b : Boundary} {past : Past} {sessionId : SessionId} {seq : SessionSeq} {live : Bool}
    (hb : past.committed = some b) (h : past.screen sessionId seq live = .admitted) :
    b.seq < seq ∨ (b.network = past.network ∧ b.session = sessionId) := by
  unfold Past.screen at h
  rw [hb] at h
  simp only at h
  split at h
  · next hadmit => exact hadmit
  · cases h

theorem boundary_foldl (store : BoundaryStore) (runs : List Run) :
    (runs.foldl (fun store r => store.advance r.boundary) store).boundary =
      (runs.getLast?.map Run.boundary).or store.boundary := by
  induction runs using List.reverseRecOn with
  | nil => rfl
  | append_singleton runs r _ => simp [BoundaryStore.advance]

variable [Hashing]

theorem session_unique [CollisionFree] {sessionId sessionId' : SessionId} {jobId : JobId}
    (h : jobChain.Reaches (first sessionId) jobId) (h' : jobChain.Reaches (first sessionId') jobId) :
    sessionId = sessionId' := by
  rcases CollisionFree.chain_free.comparable h h' with hreach | hreach
  · exact CollisionFree.first_injective (eq_first_of_reaches hreach)
  · exact (CollisionFree.first_injective (eq_first_of_reaches hreach)).symm

/-- The launch is of a session with a ceremony, at a position of that session's chain, and its record
holds the position after it. -/
structure Genuine (r : Run) : Prop where
  preimage : ∃ preimage : SessionPreimage, preimage.sessionId = r.boundary.session ∧
    preimage.seq = r.boundary.seq
  chain : jobChain.Reaches (first r.boundary.session) r.jobId
  successor : r.boundary.successor = after r.job.payload

theorem seq_unique [CollisionFree] {r r' : Run} (h : Genuine r) (h' : Genuine r')
    (hsession : r.boundary.session = r'.boundary.session) : r.boundary.seq = r'.boundary.seq := by
  obtain ⟨p, hp, hseq⟩ := h.preimage
  obtain ⟨p', hp', hseq'⟩ := h'.preimage
  have heq : p = p' := CollisionFree.sessionId_injective (by rw [hp, hp', hsession])
  rw [← hseq, ← hseq', heq]

/-- The record `b` keeps a life that begins with it from launching what `r` launched: the session of
`r` is not above that of `b`, and if it is that of `b`, it goes on past the job. -/
structure Covers (b : Boundary) (r : Run) : Prop where
  seq : r.boundary.seq ≤ b.seq
  passed : r.boundary.session = b.session → ¬jobChain.Reaches b.successor r.jobId

/-- The record `b` is that of one of the launches `runs`, and covers them all. -/
structure SpeaksFor (b : Boundary) (runs : List Run) : Prop where
  source : ∃ r ∈ runs, r.boundary.session = b.session ∧ r.boundary.seq = b.seq ∧
    r.boundary.successor = b.successor
  genuine : ∀ r ∈ runs, Genuine r
  covers : ∀ r ∈ runs, Covers b r

def RecordOf : Option Boundary → List Run → Prop
  | none, runs => runs = []
  | some b, runs => SpeaksFor b runs

theorem RecordOf.genuine {b : Option Boundary} {runs : List Run} (h : RecordOf b runs) (r : Run)
    (hr : r ∈ runs) : Genuine r := by
  cases b with
  | none =>
    rw [h] at hr
    cases hr
  | some b => exact SpeaksFor.genuine h r hr

theorem RecordOf.reload {b : Option Boundary} {runs : List Run} (h : RecordOf b runs)
    (ended : Option JobStatus) :
    RecordOf (b.map fun boundary => { boundary with status := ended }) runs := by
  cases b with
  | none => exact h
  | some b => exact ⟨h.source, h.genuine, fun r hr => ⟨(h.covers r hr).seq, (h.covers r hr).passed⟩⟩

variable [Crypto]

/-- If the input opens a session, that session has launched nothing among `runs`, and it is not below
a session that has. -/
def State.OpensForward (s : State) (runs : List Run) (tick : Tick) : Prop :=
  ∀ sessionId start, s.opening tick = some (sessionId, start) →
    ∀ r ∈ runs, r.boundary.session ≠ sessionId ∧ r.boundary.seq ≤ start.preimage.seq

theorem openAt_eq {s₀ s : State} (h : SameLife s₀ s) (sessionId : SessionId) :
    s.openAt sessionId = s₀.openAt sessionId := by
  unfold State.openAt Past.boundary
  rw [h.committed, h.network]

/-- What a launch says of the life that began as `s₀`. -/
structure LaunchedFrom (s₀ : State) (r : Run) : Prop where
  preimage : ∃ preimage : SessionPreimage, preimage.sessionId = r.boundary.session ∧
    preimage.seq = r.boundary.seq
  chain : jobChain.Reaches (s₀.openAt r.boundary.session) r.jobId
  successor : r.boundary.successor = after r.job.payload
  admitted : ∃ live, s₀.past.screen r.boundary.session r.boundary.seq live = .admitted

/-- What holds in the middle of a life that began as `s₀` and opens its sessions forward. -/
structure Orderly (s₀ : State) (σ : SessionState) (runs : List Run) : Prop where
  named : ∀ a, σ = .active a → ∃ preimage : SessionPreimage,
    preimage.sessionId = a.session.sessionId ∧ preimage.seq = a.seq
  front : ∀ a, σ = .active a →
    FrontFrom a.session.sessionId (s₀.openAt a.session.sessionId) a.session.front
  behind : ∀ a, σ = .active a → ∀ r ∈ runs, r.boundary.seq ≤ a.seq ∧
    (r.boundary.session = a.session.sessionId → ¬a.session.front.Ahead jobChain r.jobId)
  launched : ∀ r ∈ runs, LaunchedFrom s₀ r
  covers : ∀ last, runs.getLast? = some last → ∀ r ∈ runs, Covers last.boundary r

namespace Orderly

variable {s₀ s t : State} {tick : Tick} {ticks : List Tick} {σ : SessionState} {runs new : List Run}
  {a a' : ActiveSession}

theorem stay (hsame : SameSession a a') (hmove : FrontMove tick t a a'.session.front new)
    (h : Orderly s₀ (.active a) runs) : Orderly s₀ (.active a') runs where
  named := by
    rintro _ ⟨⟩
    rw [hsame.id, hsame.seq]
    exact h.named a rfl
  front := by
    rintro _ ⟨⟩
    rw [hsame.id]
    exact (h.front a rfl).move hmove
  behind := by
    rintro _ ⟨⟩ r hr
    rw [hsame.id, hsame.seq]
    obtain ⟨hseq, hnot⟩ := h.behind a rfl r hr
    exact ⟨hseq, fun hid hahead => hnot hid (hmove.ahead hahead)⟩
  launched := h.launched
  covers := h.covers

variable [CollisionFree]

theorem launch (ht : SameLife s₀ t) (hsame : SameSession a a') {network : Network}
    {queued : QueuedJob} (hid : queued.job.payload.jobId = a.session.nextJobId)
    (hrel : t.Releases a queued) (hfront : a'.session.front = jobChain.pass queued.job.payload)
    (h : Orderly s₀ (.active a) runs) (h' : Orderly s₀ (.active a') runs) :
    Orderly s₀ (.active a') (runs ++ [State.runOf network a queued]) := by
  have hnext : jobChain.Reaches (s₀.openAt a.session.sessionId) queued.job.payload.jobId := by
    rw [hid]
    exact reaches_of_sessionChain (h.front a rfl).next
  have hpassed : ¬(jobChain.pass queued.job.payload).Ahead jobChain queued.job.payload.jobId := by
    intro hahead
    have hbefore := Front.before_of_ahead_pass (f := ⟨queued.job.payload.jobId, none⟩) rfl hahead
    exact CollisionFree.chain_free.before_irrefl _ hbefore
  have hbehind : ∀ r ∈ runs ++ [State.runOf network a queued], r.boundary.seq ≤ a'.seq ∧
      (r.boundary.session = a'.session.sessionId → ¬a'.session.front.Ahead jobChain r.jobId) := by
    intro r hr
    rcases List.mem_append.1 hr with hr | hr
    · exact h'.behind a' rfl r hr
    · obtain rfl := List.mem_singleton.1 hr
      rw [hsame.seq, hfront]
      exact ⟨le_rfl, fun _ => hpassed⟩
  refine ⟨h'.named, h'.front, ?_, ?_, ?_⟩
  · rintro _ ⟨⟩
    exact hbehind
  · intro r hr
    rcases List.mem_append.1 hr with hr | hr
    · exact h.launched r hr
    · obtain rfl := List.mem_singleton.1 hr
      exact ⟨h.named a rfl, hnext, rfl, a.live, ht.screen _ _ _ ▸ hrel.admitted⟩
  · -- the record of the launch holds the front it leaves behind
    rintro _ hlast r hr
    rw [List.getLast?_concat] at hlast
    cases hlast
    obtain ⟨hseq, hnot⟩ := hbehind r hr
    rw [hsame.seq] at hseq
    refine ⟨hseq, fun hsession hreach => hnot (hsession.trans hsame.id.symm) ?_⟩
    rw [hfront]
    exact .inl hreach

theorem step (hlife : SameLife s₀ s) (hqueue : QueueOk ticks s) (hslot : SlotOk ticks s.slot)
    (hforward : s.OpensForward runs tick) (h : Orderly s₀ s.session runs) :
    Orderly s₀ (s.step tick).1.session (runs ++ launches (s.step tick).2) := by
  refine step_front (P := fun σ _ runs => Orderly s₀ σ runs) hlife hqueue ?_
    (fun _ _ h => h) ?_ ?_ h
  · rintro sessionId start a hopen rfl hseq hfront h
    have hnew := hforward _ start hopen
    refine ⟨?_, ?_, ?_, h.launched, h.covers⟩
    · rintro _ ⟨⟩
      obtain ⟨-, -, -, hpeek, -⟩ := opening_eq_some hopen
      exact ⟨start.preimage, (hslot.pending _ start hpeek).1, hseq.symm⟩
    · rintro _ ⟨⟩
      rw [hfront, openAt_eq hlife]
      exact .start _
    · rintro _ ⟨⟩ r hr
      obtain ⟨hne, hle⟩ := hnew r hr
      exact ⟨hseq ▸ hle, fun hid => absurd hid hne⟩
  · intro σ runs h
    exact ⟨by simp, by simp, by simp, h.launched, h.covers⟩
  · intro t a a' runs new ht _ hsame hmove h
    have h' := h.stay hsame hmove
    generalize hf : a'.session.front = f at hmove
    cases hmove with
    | stay => simpa using h'
    | burn => simpa using h'
    | pass hid _ hruns =>
      rcases hruns with rfl | ⟨network, -, hrel, rfl⟩
      · simpa using h'
      · exact h.launch ht hsame hid hrel hf h'

end Orderly

theorem orderly_run [CollisionFree] {current : VersionInfo} {own : BaseboardId}
    {anchors : List Certificate} {past : Past} {s₀ : State}
    (h₀ : State.new current own anchors past = .ok s₀) {ticks : List Tick}
    (hforward : Always State.step (fun s os tick => s.OpensForward (launches os) tick) s₀ [] ticks) :
    Orderly s₀ (s₀.run ticks).1.session (launches (s₀.run ticks).2) := by
  obtain ⟨-, -, -, hinactive, -, hempty⟩ := new_eq h₀
  have hstart : SlotOk [] s₀.slot := slotOk_run hinactive hempty []
  have hrun := run_invariant_of_always State.step
    (P := fun s ticks os => SameLife s₀ s ∧ QueueOk ticks s ∧ SlotOk ticks s.slot ∧
      Orderly s₀ s.session (launches os))
    (fun s ticks os tick hstep h => ?_) hforward
    ⟨.refl s₀, .of_inactive hinactive, hstart, by simp [hinactive], by simp [hinactive], by simp,
      by simp, by simp⟩
  · exact hrun.2.2.2
  · obtain ⟨hlife, hqueue, hslot, h⟩ := h
    rw [launches_append]
    exact ⟨hlife.step, hqueue.step, hslot.step, h.step hlife hqueue hslot hstep⟩

/-! ## From one life to the next -/

section Next

variable {s₀ : State} {b : Boundary} {runs : List Run} {r r' : Run}

theorem openAt_cases (s₀ : State) (sessionId : SessionId) :
    (∃ b, s₀.past.committed = some b ∧ b.session = sessionId ∧
      s₀.openAt sessionId = b.successor) ∨ s₀.openAt sessionId = first sessionId := by
  unfold State.openAt
  split
  · next b hb =>
    obtain ⟨hboundary, hsession⟩ := Option.filter_eq_some_iff.1 hb
    obtain ⟨hcommitted, -⟩ := Option.filter_eq_some_iff.1 hboundary
    exact .inl ⟨b, hcommitted, by simpa using hsession, rfl⟩
  · exact .inr rfl

theorem genuine_of_launchedFrom (hrecord : RecordOf s₀.past.committed runs)
    (h : LaunchedFrom s₀ r) : Genuine r := by
  refine ⟨h.preimage, ?_, h.successor⟩
  rcases openAt_cases s₀ r.boundary.session with ⟨b, hb, hsession, hopen⟩ | hopen
  · -- the record's successor is on the chain of its session
    rw [hb] at hrecord
    obtain ⟨r₀, hr₀, hsession₀, -, hsucc⟩ := hrecord.source
    have hgen := hrecord.genuine r₀ hr₀
    have hedge : jobChain.Edge r₀.jobId b.successor := by
      rw [← hsucc, hgen.successor]
      exact .after r₀.job.payload
    have hchain := hgen.chain.tail hedge
    rw [hsession₀, hsession] at hchain
    exact hchain.trans (hopen ▸ h.chain)
  · exact hopen ▸ h.chain

/-- **One life after another.** What a life launches was not launched before, and its record covers
what was. -/
theorem launch_new [CollisionFree] (hb : s₀.past.committed = some b) (hrecord : SpeaksFor b runs)
    (h' : LaunchedFrom s₀ r') (hr : r ∈ runs) :
    r.jobId ≠ r'.jobId ∧ Covers r'.boundary r := by
  have hgen := hrecord.genuine r hr
  have hof : RecordOf s₀.past.committed runs := by
    rw [hb]
    exact hrecord
  have hgen' : Genuine r' := genuine_of_launchedFrom hof h'
  have hcovers := hrecord.covers r hr
  have hsame : r.jobId = r'.jobId → r.boundary.session = r'.boundary.session := fun heq =>
    session_unique hgen.chain (heq ▸ hgen'.chain)
  obtain ⟨live, hadmitted⟩ := h'.admitted
  rcases screen_admitted hb hadmitted with hlt | ⟨hnet, hsession⟩
  · -- a session above the record's: none of the earlier launches is of it
    have hne : r.boundary.session ≠ r'.boundary.session := fun hs =>
      absurd (seq_unique hgen hgen' hs) (hcovers.seq.trans_lt hlt).ne
    exact ⟨fun heq => hne (hsame heq), hcovers.seq.trans hlt.le, fun hs => absurd hs hne⟩
  · -- the record's session, resumed past all its earlier launches
    have hopen : s₀.openAt r'.boundary.session = b.successor :=
      hsession ▸ openAt_of_committed hb hnet
    have hchain := hopen ▸ h'.chain
    refine ⟨fun heq => ?_, ?_, fun hs hreach => ?_⟩
    · exact hcovers.passed ((hsame heq).trans hsession.symm) (heq ▸ hchain)
    · obtain ⟨r₀, hr₀, hsession₀, hseq₀, -⟩ := hrecord.source
      rw [← seq_unique (hrecord.genuine r₀ hr₀) hgen' (hsession₀.trans hsession), hseq₀]
      exact hcovers.seq
    · refine hcovers.passed (hs.trans hsession.symm) ((hchain.tail ?_).trans hreach)
      rw [hgen'.successor]
      exact .after r'.job.payload

end Next

/-! ## Lives -/

/-- One life of a sled. -/
structure Life where
  current : VersionInfo
  anchors : List Certificate
  birth : Version
  /-- The universe it enters. -/
  network : Network
  /-- How the job of the stored record ended, if that has been recorded. -/
  ended : Option JobStatus
  ticks : List Tick

namespace Life

/-- The state a life begins in: it loads the record that was stored last. -/
def new (own : BaseboardId) (store : BoundaryStore) (life : Life) : Except KeyError State :=
  let committed := store.boundary.map fun boundary => { boundary with status := life.ended }
  State.new life.current own life.anchors (Past.new life.birth committed life.network)

/-- What a life launches. -/
def launched (own : BaseboardId) (store : BoundaryStore) (life : Life) : List Run :=
  match life.new own store with
  | .ok s₀ => launches (s₀.run life.ticks).2
  | .error _ => []

/-- One life: each launch has stored its record before the next life begins. -/
def step (own : BaseboardId) (store : BoundaryStore) (life : Life) :
    BoundaryStore × List (List Run) :=
  let runs := life.launched own store
  (runs.foldl (fun store r => store.advance r.boundary) store, [runs])

/-- The life opens its sessions forward. -/
def OpensForward (own : BaseboardId) (store : BoundaryStore) (life : Life) : Prop :=
  ∀ s₀, life.new own store = .ok s₀ →
    Always State.step (fun s os tick => s.OpensForward (launches os) tick) s₀ [] life.ticks

end Life

variable [CollisionFree]

theorem Life.launched_new {own : BaseboardId} {store : BoundaryStore} {life : Life} {runs : List Run}
    (hrecord : RecordOf store.boundary runs) (hforward : life.OpensForward own store) :
    (∀ r ∈ runs, ∀ r' ∈ life.launched own store, r.jobId ≠ r'.jobId) ∧
      RecordOf (life.step own store).1.boundary (runs ++ life.launched own store) := by
  unfold Life.step
  simp only
  rw [boundary_foldl]
  unfold Life.launched
  cases hnew : life.new own store with
  | error e => simpa using hrecord
  | ok s₀ =>
    have horderly := orderly_run hnew (hforward s₀ hnew)
    obtain ⟨-, -, hpast, -⟩ := new_eq hnew
    have hreload : RecordOf s₀.past.committed runs := by
      rw [hpast]
      exact hrecord.reload life.ended
    simp only
    generalize launches (s₀.run life.ticks).2 = new at horderly ⊢
    have hboth : ∀ r ∈ runs, ∀ r' ∈ new, r.jobId ≠ r'.jobId ∧ Covers r'.boundary r := by
      intro r hr r' hr'
      cases hb : s₀.past.committed with
      | none =>
        rw [hb] at hreload
        rw [hreload] at hr
        cases hr
      | some b =>
        rw [hb] at hreload
        exact launch_new hb hreload (horderly.launched r' hr') hr
    refine ⟨fun r hr r' hr' => (hboth r hr r' hr').1, ?_⟩
    cases hlast : new.getLast? with
    | none =>
      rw [List.getLast?_eq_none_iff] at hlast
      subst hlast
      simpa using hrecord
    | some last =>
      have hmem : last ∈ new := List.mem_of_getLast? hlast
      refine ⟨⟨last, by simp [hmem], rfl, rfl, rfl⟩, fun r hr => ?_, fun r hr => ?_⟩
      · rcases List.mem_append.1 hr with hr | hr
        · exact hrecord.genuine r hr
        · exact genuine_of_launchedFrom hreload (horderly.launched r hr)
      · rcases List.mem_append.1 hr with hr | hr
        · exact (hboth r hr last hmem).2
        · exact horderly.covers last hlast r hr

/-- **At most once across lives.** If every life opens its sessions forward, no life launches a job
that an earlier life launched. -/
theorem lives_disjoint (own : BaseboardId) (lives : List Life)
    (hforward : Always (Life.step own) (fun store _ life => life.OpensForward own store) ⟨none⟩ []
      lives) :
    (run (Life.step own) ⟨none⟩ lives).2.Pairwise fun earlier later =>
      ∀ r ∈ earlier, ∀ r' ∈ later, r.jobId ≠ r'.jobId := by
  have hrun := run_invariant_of_always (Life.step own)
    (P := fun store (_ : List Life) os => RecordOf store.boundary os.flatten ∧
      os.Pairwise fun earlier later => ∀ r ∈ earlier, ∀ r' ∈ later, r.jobId ≠ r'.jobId)
    (fun store pre os life hlife h => ?_) hforward ⟨rfl, .nil⟩
  · exact hrun.2
  · obtain ⟨hrecord, hpairwise⟩ := h
    obtain ⟨hdisjoint, hrecord'⟩ := Life.launched_new hrecord hlife
    refine ⟨?_, ?_⟩
    · simpa [Life.step] using hrecord'
    · refine List.pairwise_append.2 ⟨hpairwise, by simp [Life.step], ?_⟩
      rintro earlier hmem _ hlast r hr
      obtain rfl := List.mem_singleton.1 hlast
      exact hdisjoint r (List.mem_flatten_of_mem hmem hr)

end

end Sush

namespace Sush.Terms

open Lib SkipChain

attribute [local instance] world hashing crypto collisionFree

/-- A life in the universe `0`. -/
def lifeOf (birth : Version) (ticks : List Tick) : Life where
  current := build
  anchors := anchors
  birth := birth
  network := (0 : ℕ)
  ended := none
  ticks := ticks

/-- The first life launches a job of the session `6`, which is stopped, and then one of the session
`5`, whose record is the last. The second life hears of the session `6` again. -/
def stoppedThenLower : List Life :=
  [lifeOf (10 : ℕ) [start (10 : ℕ) (7 : ℕ) 6, job (10 : ℕ) (7 : ℕ) (firstJob 6) [(0 : ℕ)],
      stop (10 : ℕ) (7 : ℕ) 6, start (10 : ℕ) (7 : ℕ) 5, job (10 : ℕ) (7 : ℕ) (firstJob 5) [(0 : ℕ)]],
    lifeOf (20 : ℕ) [start (10 : ℕ) (7 : ℕ) 6, job (10 : ℕ) (7 : ℕ) (firstJob 6) [(0 : ℕ)]]]

/-- The second life launches the job of the session `6` again. -/
theorem launched_again_lower :
    (run (Life.step (0 : ℕ)) ⟨none⟩ stoppedThenLower).2.map (List.map Run.jobId) =
      [[(firstJob 6).jobId, (firstJob 5).jobId], [(firstJob 6).jobId]] := rfl

/-- Two lives of one session. -/
def restarted : List Life :=
  [lifeOf (10 : ℕ) [start (10 : ℕ) (7 : ℕ) 5, job (10 : ℕ) (7 : ℕ) (firstJob 5) [(0 : ℕ)]],
    lifeOf (20 : ℕ) [start (10 : ℕ) (7 : ℕ) 5, job (10 : ℕ) (7 : ℕ) (firstJob 5) [(0 : ℕ)],
      job (20 : ℕ) (7 : ℕ) (jobAfter (firstJob 5)) [(0 : ℕ)]]]

/-- The second life launches the second job only. -/
theorem lives_disjoint_restarted :
    (run (Life.step (0 : ℕ)) ⟨none⟩ restarted).2.map (List.map Run.jobId) =
      [[(firstJob 5).jobId], [(jobAfter (firstJob 5)).jobId]] ∧
    (run (Life.step (0 : ℕ)) ⟨none⟩ restarted).2.Pairwise fun earlier later =>
      ∀ r ∈ earlier, ∀ r' ∈ later, r.jobId ≠ r'.jobId := by
  have hnone : ∀ (s : State) runs tick, s.opening tick = none → s.OpensForward runs tick := by
    intro s runs tick h sessionId start hopen
    rw [h] at hopen
    cases hopen
  have hfirst : ∀ (s : State) tick, s.OpensForward [] tick :=
    fun s tick sessionId start _ r hr => absurd hr List.not_mem_nil
  refine ⟨rfl, lives_disjoint (0 : ℕ) restarted ⟨?_, ?_, trivial⟩⟩
  · intro s₀ h₀
    obtain rfl := Except.ok.inj (h₀.symm.trans (new_life (0 : ℕ) (10 : ℕ) none))
    exact ⟨hfirst _ _, hfirst _ _, trivial⟩
  · intro s₀ h₀
    obtain rfl := Except.ok.inj (h₀.symm.trans
      (new_life (0 : ℕ) (20 : ℕ) (some (record 5 (firstJob 5)))))
    exact ⟨hfirst _ _, hfirst _ _, hnone _ _ _ rfl, trivial⟩

end Sush.Terms
