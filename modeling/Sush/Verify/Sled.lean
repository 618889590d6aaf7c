import Sush.Server.TermCodecs
import Sush.Verify.Commit
import Sush.Verify.Service
import Sush.Verify.Upgrades

/-!
# The boundary is never behind what ran

After a commit the record of that launch is the only one that a load can return, in this life or a later
one, until the boundary of another launch is attempted to be stored. `Sled.tried` lists the launches whose
record a load may return; `Sled.Kept` says that every current record is one of theirs, together with what
ties the executor to the drives: it holds the guard exactly while the locker works on a store of its own.
-/

namespace Sush

open Lib (AckLog)

variable [World]

/-! ## The executor between two uses of the guard -/

def ExecutorAct.aside : ExecutorAct → Bool
  | .lock | .stored _ | .lockEnding _ | .recorded _ => false
  | _ => true

theorem Launcher.isStoring_iff {launcher : Launcher} :
    launcher.isStoring = true ↔ ∃ launch, launcher = .storing launch := by
  cases launcher <;> simp [Launcher.isStoring]

namespace Executor

variable {e : Executor}

/-- What an action aside from the guard leaves alone. -/
structure Aside (e e' : Executor) (outs : List ExecutorOut) : Prop where
  store : e'.store = e.store
  recording : e'.recording = e.recording
  storing : ∀ launch, e'.launcher = .storing launch ↔ e.launcher = .storing launch
  committed : ∀ launch, e'.launcher = .committed launch → e.launcher = .committed launch
  one : outs = [] ∨ ∃ out, outs = [out] ∧ out.committed? = none
  spawned : ∀ launch, .spawned launch ∈ outs → e.launcher = .committed launch

theorem aside_of_eq {e' : Executor} {outs : List ExecutorOut} (hstore : e'.store = e.store)
    (hrecording : e'.recording = e.recording) (hlauncher : e'.launcher = e.launcher)
    (houts : outs = [] ∨ ∃ out, outs = [out] ∧ out.committed? = none)
    (hspawned : ∀ launch, .spawned launch ∉ outs) : Aside e e' outs where
  store := hstore
  recording := hrecording
  storing _ := by rw [hlauncher]
  committed _ h := hlauncher ▸ h
  one := houts
  spawned launch h := absurd h (hspawned launch)

theorem aside_step {action : ExecutorAct} (haction : action.aside = true) :
    Aside e (e.step action).1 (e.step action).2 := by
  have hsame : Aside e e [] := aside_of_eq rfl rfl rfl (.inl rfl) fun _ h => by cases h
  cases action with
  | jobStart launch =>
    simp only [step, jobStart]
    split
    · split
      · exact aside_of_eq rfl rfl rfl (.inr ⟨_, rfl, rfl⟩) (by simp)
      · refine aside_of_eq ?_ ?_ ?_ (.inr ⟨_, rfl, rfl⟩) (by simp) <;> unfold jobRefused <;> split <;> rfl
    · exact hsame
  | jobStop jobId => exact aside_of_eq rfl rfl rfl (.inl rfl) fun _ h => by cases h
  | jobStopped jobId => exact aside_of_eq rfl rfl rfl (.inl rfl) fun _ h => by cases h
  | recordStatus status => exact aside_of_eq rfl rfl rfl (.inl rfl) fun _ h => by cases h
  | shutdown => exact aside_of_eq rfl rfl rfl (.inl rfl) fun _ h => by cases h
  | receive =>
    simp only [step, launch]
    split
    · next launch queue hidle hqueue =>
      exact ⟨rfl, rfl, by simp [hidle], by simp, .inl rfl, by simp⟩
    · exact hsame
  | spawn =>
    simp only [step, launch]
    split
    · next launch hc => exact ⟨rfl, rfl, by simp [hc], by simp, .inr ⟨_, rfl, rfl⟩, by simp [hc]⟩
    · exact hsame
  | abandon now =>
    simp only [step, launch]
    split
    · next launch error hf => exact ⟨rfl, rfl, by simp [hf], by simp, .inr ⟨_, rfl, rfl⟩, by simp⟩
    · exact hsame
  | taskError place now error =>
    simp only [step, runTask]
    split <;> exact aside_of_eq rfl rfl rfl (.inl rfl) fun _ h => by cases h
  | taskStart place now =>
    simp only [step, runTask]
    split <;> exact aside_of_eq rfl rfl rfl (.inl rfl) fun _ h => by cases h
  | taskEnd place now result output =>
    simp only [step, runTask]
    split <;> exact aside_of_eq rfl rfl rfl (.inl rfl) fun _ h => by cases h
  | lock | stored | lockEnding | recorded => exact absurd haction Bool.false_ne_true

theorem unlocked_eq : e.unlocked = (e.recording.isNone && !e.launcher.isStoring) := by
  unfold unlocked Launcher.isStoring
  cases e.launcher <;> rfl

theorem recording_of_unlocked (h : e.unlocked = true) : e.recording = none := by
  rw [unlocked_eq, Bool.and_eq_true] at h
  exact Option.isNone_iff_eq_none.1 h.1

end Executor

/-! ## The invariant -/

section Record

variable [BoundaryCbor] [Ciborium]

theorem Boundary.decode_encode (boundary : Boundary) : Boundary.decode boundary.encode = some boundary := by
  have hdecode : Boundary.formats.decode 1 () boundary.encode = some (.ok boundary) := by
    unfold Boundary.encode
    rw [Formats.decode_of_le (Formats.readEnvelope_encode (F := Boundary.formats) (k := ()) boundary) le_rfl]
    exact congrArg (fun parsed => some (parsed.mapError (FormatError.body 1)))
      (BoundaryCbor.deserialize_serialize boundary)
  unfold Boundary.decode
  rw [hdecode]

end Record

namespace Sled

/-- The launches whose boundary a load may return, after one more thing was seen. -/
def tryNext : List Run → SledOut → List Run
  | runs, .attempted launch => runs ++ [launch]
  | runs, .executor (.committed _) => runs.getLast?.toList
  | runs, _ => runs

/-- The launch committed last, and those whose boundary was attempted to be stored since. -/
def tried (outs : List SledOut) : List Run := outs.foldl tryNext []

theorem tried_concat {outs : List SledOut} {out : SledOut} :
    tried (outs ++ [out]) = tryNext (tried outs) out := by
  unfold tried
  rw [List.foldl_append]
  rfl

/-- What may be loaded later was among `runs` before, or is attempted. -/
theorem mem_foldl_tryNext {runs : List Run} {outs : List SledOut} {launch : Run}
    (h : launch ∈ outs.foldl tryNext runs) : launch ∈ runs ∨ .attempted launch ∈ outs := by
  induction outs generalizing runs with
  | nil => exact .inl h
  | cons out outs ih =>
    have hout : ∀ l, l ∈ tryNext runs out → l ∈ runs ∨ .attempted l = out := by
      intro l hl
      unfold tryNext at hl
      split at hl
      · rcases List.mem_append.1 hl with hl | hl
        · exact .inl hl
        · exact .inr (by rw [List.mem_singleton.1 hl])
      · rw [Option.mem_toList] at hl
        exact .inl (List.mem_of_getLast? hl)
      · exact .inl hl
    rcases ih h with hmem | hmem
    · rcases hout launch hmem with hmem | heq
      · exact .inl hmem
      · exact .inr (heq ▸ List.mem_cons_self)
    · exact .inr (List.mem_cons_of_mem _ hmem)

/-- The boundary is, but for how its job ended, that of one of the launches. -/
def Covers (runs : List Run) (boundary : Boundary) : Prop :=
  ∃ launch ∈ runs, boundary.unended = launch.boundary.unended

theorem Covers.of_unended {runs : List Run} {b b' : Boundary} (h : Covers runs b)
    (heq : b'.unended = b.unended) : Covers runs b' := by
  obtain ⟨launch, hmem, hb⟩ := h
  exact ⟨launch, hmem, heq.trans hb⟩

/-- A job is spawned when its boundary is all that a load may return, and a load returns one that it
may. -/
structure Told (outs : List SledOut) : Prop where
  spawns : ∀ pre launch post, outs = pre ++ .executor (.spawned launch) :: post → tried pre = [launch]
  loads : ∀ pre boundary post, outs = pre ++ .loaded (some boundary) :: post → Covers (tried pre) boundary

theorem Told.concat {outs : List SledOut} {out : SledOut} (h : Told outs)
    (hspawn : ∀ launch, out = .executor (.spawned launch) → tried outs = [launch])
    (hload : ∀ boundary, out = .loaded (some boundary) → Covers (tried outs) boundary) :
    Told (outs ++ [out]) where
  spawns pre launch post hsplit := by
    rcases Lib.split_concat hsplit with ⟨-, rfl, rfl⟩ | ⟨post', -, hpre⟩
    · exact hspawn launch rfl
    · exact h.spawns pre launch post' hpre
  loads pre boundary post hsplit := by
    rcases Lib.split_concat hsplit with ⟨-, rfl, rfl⟩ | ⟨post', -, hpre⟩
    · exact hload boundary rfl
    · exact h.loads pre boundary post' hpre

variable [BoundaryCbor] [Ciborium]

variable {d : Drives} {launch : Run}

/-- What holds of a running executor and of the drives under it. -/
structure Guarded (d : Drives) (runs : List Run) (e : Executor) : Prop where
  hold : d.hold = some (if e.unlocked then .free else .storing)
  storing : ∀ launch, e.launcher = .storing launch →
    runs.getLast? = some launch ∧ d.log.attempts.getLast? = some launch.boundary.encode
  committed : ∀ launch, e.launcher = .committed launch → runs = [launch]
  store : ∀ boundary, e.store.boundary = some boundary → Covers runs boundary
  recording : ∀ boundary, e.recording = some boundary →
    e.store.boundary.map Boundary.unended = some boundary.unended ∧ e.launcher.isStoring = false

/-- What holds after `outs` was seen. -/
structure Kept (s : Sled) (outs : List SledOut) : Prop where
  tidy : s.drives.Tidy
  current : ∀ record, s.drives.log.Current record →
    ∃ boundary : Boundary, record = boundary.encode ∧ Covers (tried outs) boundary
  down : s.life = none → s.drives.hold = none
  loading : s.life = some .loading → s.drives.hold = some .loading
  running : ∀ e, s.life = some (.running e) → Guarded s.drives (tried outs) e
  told : Told outs

variable {own : BaseboardId} {path : ℕ → String} {s : Sled} {outs : List SledOut} {e : Executor}

theorem kept_new (slots : ℕ) : (new (slots + 1)).Kept [] where
  tidy := {
    sound := Drives.sound_new _
    latest := fun t h => by cases h
    slots := by simp [new, Drives.new] }
  current record h := by
    obtain ⟨i, hi, -⟩ := h
    simp [new, Drives.new, AckLog.empty] at hi
  down _ := rfl
  loading h := by cases h
  running e h := by cases h
  told := ⟨by simp, by simp⟩

theorem kept_running {d : Drives} (htidy : d.Tidy) (hcurrent : ∀ record, d.log.Current record →
      ∃ boundary : Boundary, record = boundary.encode ∧ Covers (tried outs) boundary)
    (hguarded : Guarded d (tried outs) e) (htold : Told outs) :
    (⟨d, some (.running e)⟩ : Sled).Kept outs where
  tidy := htidy
  current := hcurrent
  down hlife := by cases hlife
  loading hlife := by cases hlife
  running _ hlife := by
    cases hlife
    exact hguarded
  told := htold

theorem Kept.running_of_storing (h : s.Kept outs) (hhold : s.drives.hold = some .storing) :
    ∃ e, s.life = some (.running e) ∧ e.unlocked = false := by
  cases hlife : s.life with
  | none =>
    rw [h.down hlife] at hhold
    cases hhold
  | some process =>
    cases process with
    | loading =>
      rw [h.loading hlife] at hhold
      cases hhold
    | running e =>
      refine ⟨e, rfl, ?_⟩
      rw [(h.running e hlife).hold] at hhold
      cases hunlocked : e.unlocked with
      | false => rfl
      | true => rw [hunlocked] at hhold; cases hhold

theorem Kept.loading_of_hold (h : s.Kept outs) (hhold : s.drives.hold = some .loading) :
    s.life = some .loading := by
  cases hlife : s.life with
  | none =>
    rw [h.down hlife] at hhold
    cases hhold
  | some process =>
    cases process with
    | loading => rfl
    | running e =>
      rw [(h.running e hlife).hold] at hhold
      cases hunlocked : e.unlocked <;> rw [hunlocked] at hhold <;> cases hhold

theorem Kept.quiet (h : s.Kept outs) (htidy : d.Tidy) (hhold : d.hold = s.drives.hold)
    (hlog : d.log = s.drives.log) : ({ s with drives := d } : Sled).Kept outs where
  tidy := htidy
  current := by rw [hlog]; exact h.current
  down hlife := hhold.trans (h.down hlife)
  loading hlife := hhold.trans (h.loading hlife)
  running e hlife := by
    obtain ⟨hholds, hstoring, hcommitted, hstore, hrecording⟩ := h.running e hlife
    exact ⟨hhold.trans hholds, by rw [hlog]; exact hstoring, hcommitted, hstore, hrecording⟩
  told := h.told

/-- **A load repairs** the record with one that it may return. -/
theorem Kept.repairs (h : s.Kept outs) {record : List UInt8} (htidy : d.Tidy)
    (hhold : s.drives.hold = some .loading) (hhold' : d.hold = some .loading)
    (hcurrent : s.drives.log.Current record) (hlog : d.log = s.drives.log.attempt record) :
    ({ s with drives := d } : Sled).Kept outs := by
  have hlife := h.loading_of_hold hhold
  refine ⟨htidy, fun record' hrecord' => ?_, fun hnone => ?_, fun _ => hhold',
    fun e hrunning => ?_, h.told⟩
  · rw [hlog] at hrecord'
    rcases hrecord'.of_attempt with rfl | hold
    · exact h.current _ hcurrent
    · exact h.current _ hold
  · exact absurd (hnone.symm.trans hlife) (by simp)
  · exact absurd (hrunning.symm.trans hlife) (by simp)

/-- **A load answers**, and the executor starts with what it found. -/
theorem Kept.loaded (h : s.Kept outs) {verdict : Verdict} (htidy : d.Tidy)
    (hhold' : d.hold = some .free) (hlog : d.log = s.drives.log ∨ AckedLast s.drives.log d.log)
    (hanswer : ∀ record, verdict.record = some record → d.log.Current record) :
    (⟨d, some (.running (.new (BoundaryStore.load verdict)))⟩ : Sled).Kept
      (outs ++ [.loaded (BoundaryStore.load verdict).boundary]) := by
  have htried : tried (outs ++ [.loaded (BoundaryStore.load verdict).boundary]) = tried outs := tried_concat
  have hcurrent : ∀ record, d.log.Current record →
      ∃ boundary : Boundary, record = boundary.encode ∧ Covers (tried outs) boundary := by
    intro record hrecord
    rcases hlog with hlog | ⟨i, hi, hlog⟩
    · exact h.current record (hlog ▸ hrecord)
    · rw [hlog] at hrecord
      exact h.current record (AckLog.current_getLast (hrecord.of_ack_last hi))
  have hstore : ∀ boundary, (BoundaryStore.load verdict).boundary = some boundary →
      Covers (tried outs) boundary := by
    intro boundary hload
    obtain ⟨record, hrecord, hdecode⟩ := Option.bind_eq_some_iff.1 hload
    obtain ⟨b, rfl, hb⟩ := hcurrent record (hanswer record hrecord)
    rw [Boundary.decode_encode] at hdecode
    cases hdecode
    exact hb
  refine kept_running htidy (by rwa [htried]) ?_ ?_
  · rw [htried]
    refine ⟨hhold', fun _ hl => ?_, fun _ hl => ?_, hstore, fun _ hr => ?_⟩
    · cases hl
    · cases hl
    · cases hr
  · refine h.told.concat (fun _ ho => ?_) fun boundary ho => hstore boundary ?_
    · cases ho
    · exact SledOut.loaded.inj ho

theorem Guarded.recording_of_storing {runs : List Run} (h : Guarded d runs e)
    (hlauncher : e.launcher = .storing launch) : e.recording = none := by
  cases hr : e.recording with
  | none => rfl
  | some b =>
    have hnot := (h.recording b hr).2
    rw [hlauncher] at hnot
    cases hnot

theorem Kept.current_ack (h : s.Kept outs) {log : AckLog (List UInt8)}
    (hlog : AckedLast s.drives.log log) {record : List UInt8} (hrecord : log.Current record) :
    s.drives.log.attempts.getLast? = some record ∧
      ∃ boundary : Boundary, record = boundary.encode ∧ Covers (tried outs) boundary := by
  obtain ⟨i, hi, rfl⟩ := hlog
  have hlast := hrecord.of_ack_last hi
  exact ⟨hlast, h.current record (AckLog.current_getLast hlast)⟩

/-- **The launcher's store succeeds.** Only the boundary of this launch can be loaded from now on. -/
theorem Kept.stored (h : s.Kept outs) (hlife : s.life = some (.running e))
    (hlauncher : e.launcher = .storing launch) (htidy : d.Tidy) (hhold : d.hold = some .free)
    (hlog : AckedLast s.drives.log d.log) :
    (⟨d, some (.running { e with
      launcher := .committed launch, store := e.store.advance launch.boundary })⟩ : Sled).Kept
        (outs ++ [.executor (.committed launch)]) := by
  have hguarded := h.running e hlife
  obtain ⟨hlast, hattempt⟩ := hguarded.storing launch hlauncher
  have htried : tried (outs ++ [.executor (.committed launch)]) = [launch] := by
    rw [tried_concat, tryNext, hlast]
    rfl
  have hrecording := hguarded.recording_of_storing hlauncher
  have hself : Covers [launch] launch.boundary := ⟨launch, List.mem_singleton.2 rfl, rfl⟩
  refine kept_running htidy (fun record hrecord => ?_) ?_ (h.told.concat (fun _ ho => ?_) fun _ ho => ?_)
  · rw [htried]
    obtain ⟨hrecord', -⟩ := h.current_ack hlog hrecord
    exact ⟨launch.boundary, Option.some.inj (hrecord'.symm.trans hattempt), hself⟩
  · rw [htried]
    refine ⟨?_, fun _ hl => ?_, fun _ hl => ?_, fun boundary hb => ?_, fun b hb => ?_⟩
    · rw [hhold, Executor.unlocked_eq, hrecording]
      rfl
    · cases hl
    · cases hl
      rfl
    · cases hb
      exact hself
    · rw [show e.recording = some b from hb] at hrecording
      cases hrecording
  · cases ho
  · cases ho

/-- The executor lets go of the guard, with the record it had or one that differs in the ending only. -/
theorem Kept.released (h : s.Kept outs) {e' : Executor} (hlife : s.life = some (.running e))
    (htidy : d.Tidy) (hhold : d.hold = some .free)
    (hlog : d.log = s.drives.log ∨ AckedLast s.drives.log d.log) (hrecording : e'.recording = none)
    (hstoring : e'.launcher.isStoring = false)
    (hcommitted : ∀ launch, e'.launcher = .committed launch → e.launcher = .committed launch)
    (hstore : e'.store.boundary.map Boundary.unended = e.store.boundary.map Boundary.unended) :
    (⟨d, some (.running e')⟩ : Sled).Kept outs := by
  have hguarded := h.running e hlife
  refine kept_running htidy (fun record hrecord => ?_) ?_ h.told
  · rcases hlog with hlog | hlog
    · exact h.current record (hlog ▸ hrecord)
    · exact (h.current_ack hlog hrecord).2
  · refine ⟨?_, fun launch hl => ?_, fun launch hl => ?_, fun boundary hb => ?_, fun b hb => ?_⟩
    · rw [hhold, Executor.unlocked_eq, hrecording, hstoring]
      rfl
    · rw [hl] at hstoring
      cases hstoring
    · exact hguarded.committed launch (hcommitted launch hl)
    · rw [hb] at hstore
      obtain ⟨b, hb', heq⟩ := Option.map_eq_some_iff.1 hstore.symm
      exact (hguarded.store b hb').of_unended heq.symm
    · rw [hrecording] at hb
      cases hb

theorem deliver_recorded {result : Except StoreError Unit} (hlife : s.life = some (.running e))
    (hstoring : e.launcher.isStoring = false) : deliver path s (.stored result) =
      ({ s with life := some (.running (e.recordEnding (.recorded result.isOk))) }, []) := by
  simp only [deliver, hlife]
  cases hlauncher : e.launcher with
  | storing launch =>
    rw [hlauncher] at hstoring
    cases hstoring
  | idle | waiting | committed | failed => rfl

/-- **The locker answers a store.** -/
theorem Kept.answered (h : s.Kept outs) {result : Except StoreError Unit} (htidy : d.Tidy)
    (hhold : s.drives.hold = some .storing) (hhold' : d.hold = some .free)
    (hok : result = .ok () → AckedLast s.drives.log d.log)
    (herror : ∀ error, result = .error error → d.log = s.drives.log) :
    (deliver path { s with drives := d } (.stored result)).1.Kept
      (outs ++ (deliver path { s with drives := d } (.stored result)).2) := by
  obtain ⟨e, hlife, hlocked⟩ := h.running_of_storing hhold
  have hguarded := h.running e hlife
  have hlog : d.log = s.drives.log ∨ AckedLast s.drives.log d.log := by
    cases result with
    | ok _ => exact .inr (hok rfl)
    | error error => exact .inl (herror error rfl)
  cases hstoring : e.launcher.isStoring with
  | true =>
    obtain ⟨launch, hlauncher⟩ := Launcher.isStoring_iff.1 hstoring
    have hrecording := hguarded.recording_of_storing hlauncher
    cases result with
    | ok _ =>
      simp only [deliver, hlife, Except.mapError, Executor.step, Executor.launch, hlauncher,
        List.map_cons, List.map_nil]
      exact h.stored hlife hlauncher htidy hhold' (hok rfl)
    | error error =>
      simp only [deliver, hlife, Except.mapError, Executor.step, Executor.launch, hlauncher,
        List.map_nil, List.append_nil]
      refine h.released hlife htidy hhold' hlog hrecording rfl (fun _ hl => ?_) rfl
      cases hl
  | false =>
    rw [deliver_recorded (s := { s with drives := d }) hlife hstoring, List.append_nil]
    obtain ⟨b, hb⟩ : ∃ b, e.recording = some b := by
      rw [Executor.unlocked_eq, hstoring, Bool.not_false, Bool.and_true] at hlocked
      exact Option.isSome_iff_exists.1 (by rw [← Option.not_isNone, hlocked]; rfl)
    simp only [Executor.recordEnding, hb]
    refine h.released hlife htidy hhold' hlog rfl hstoring (fun _ hl => hl) ?_
    dsimp only
    split
    · exact (hguarded.recording b hb).1.symm
    · rfl

/-- **What goes on in the drives.** -/
theorem Kept.disk (h : s.Kept outs) (own : BaseboardId) (path : ℕ → String) {action : LockerAct}
    (haction : action.goesOn = true) :
    (s.serve path (s.drives.step own action)).1.Kept
      (outs ++ (s.serve path (s.drives.step own action)).2) := by
  have htidy := h.tidy.step own action
  have hanswers : (s.drives.step own action).1.Answers _ := (Drives.sound_step h.tidy.sound action).2
  have hserves := Drives.serves_step h.tidy.sound h.tidy.latest own haction
  revert htidy hanswers hserves
  generalize s.drives.step own action = moved
  obtain ⟨d, answers⟩ := moved
  intro htidy hanswers hserves
  dsimp only at htidy hanswers hserves
  have hnil : s.serve path (d, []) = ({ s with drives := d }, []) := rfl
  have hone : ∀ answer, s.serve path (d, [answer]) = deliver path { s with drives := d } answer := by
    intro answer
    simp [serve]
  cases hserves with
  | quiet hhold hlog =>
    rw [hnil, List.append_nil]
    exact h.quiet htidy hhold hlog
  | repairs hhold hhold' hcurrent hlog =>
    rw [hnil, List.append_nil]
    exact h.repairs htidy hhold hhold' hcurrent hlog
  | stored hhold hhold' hlog =>
    rw [hone]
    exact h.answered htidy hhold hhold' (fun _ => hlog) fun _ herror => by cases herror
  | failed hhold hhold' hlog =>
    rw [hone]
    refine h.answered htidy hhold hhold' (fun hok => by cases hok) fun _ _ => hlog
  | @loaded verdict hhold hhold' hlog =>
    rw [hone]
    simp only [deliver, h.loading_of_hold hhold]
    exact h.loaded htidy hhold' hlog fun record => hanswers verdict record (.head _)

/-- **An action aside from the guard.** -/
theorem Kept.aside (h : s.Kept outs) (hlife : s.life = some (.running e)) {e' : Executor}
    {seen : List ExecutorOut} (haside : e.Aside e' seen) :
    ({ s with life := some (.running e') } : Sled).Kept (outs ++ seen.map .executor) := by
  have hguarded := h.running e hlife
  have hstoring : e'.launcher.isStoring = e.launcher.isStoring := by
    rw [Bool.eq_iff_iff, Launcher.isStoring_iff, Launcher.isStoring_iff]
    exact exists_congr haside.storing
  have htried : tried (outs ++ seen.map .executor) = tried outs := by
    rcases haside.one with rfl | ⟨out, rfl, hout⟩
    · rw [List.map_nil, List.append_nil]
    · rw [List.map_singleton, tried_concat]
      cases out with
      | committed launch => cases hout
      | queued | refused | spawned | abandoned => rfl
  refine kept_running h.tidy (by rw [htried]; exact h.current) ?_ ?_
  · rw [htried]
    refine ⟨?_, fun launch hl => ?_, fun launch hl => ?_, ?_, ?_⟩
    · rw [hguarded.hold, Executor.unlocked_eq, Executor.unlocked_eq, haside.recording, hstoring]
    · exact hguarded.storing launch ((haside.storing launch).1 hl)
    · exact hguarded.committed launch (haside.committed launch hl)
    · rw [haside.store]
      exact hguarded.store
    · rw [haside.recording, haside.store, hstoring]
      exact hguarded.recording
  · rcases haside.one with rfl | ⟨out, rfl, hout⟩
    · rw [List.map_nil, List.append_nil]
      exact h.told
    · rw [List.map_singleton]
      refine h.told.concat (fun launch ho => ?_) fun _ ho => ?_
      · cases ho
        exact hguarded.committed launch (haside.spawned launch (.head _))
      · cases ho

/-- **The launcher gets the guard**, and the store of its boundary is attempted. -/
theorem Kept.lock (h : s.Kept outs) (hlife : s.life = some (.running e))
    (hunlocked : e.unlocked = true) (htidy : d.Tidy) (hhold : d.hold = some .storing)
    (hlog : d.log = s.drives.log.attempt launch.boundary.encode) :
    (⟨d, some (.running { e with launcher := .storing launch })⟩ : Sled).Kept
      (outs ++ [.attempted launch]) := by
  have hguarded := h.running e hlife
  have htried : tried (outs ++ [.attempted launch]) = tried outs ++ [launch] := tried_concat
  have hmore : ∀ boundary, Covers (tried outs) boundary →
      Covers (tried (outs ++ [.attempted launch])) boundary := by
    rintro boundary ⟨l, hl, heq⟩
    exact ⟨l, htried ▸ List.mem_append_left _ hl, heq⟩
  have hrecording := Executor.recording_of_unlocked hunlocked
  refine kept_running htidy (fun record hrecord => ?_) ?_ (h.told.concat (fun _ ho => ?_) fun _ ho => ?_)
  · rw [hlog] at hrecord
    rcases hrecord.of_attempt with rfl | hold
    · exact ⟨launch.boundary, rfl, launch, htried ▸ List.mem_append_right _ (.head _), rfl⟩
    · obtain ⟨boundary, heq, hcovers⟩ := h.current record hold
      exact ⟨boundary, heq, hmore boundary hcovers⟩
  · refine ⟨?_, fun l hl => ?_, fun l hl => ?_, fun b hb => hmore b (hguarded.store b hb), fun b hb => ?_⟩
    · rw [hhold, Executor.unlocked_eq]
      simp [Launcher.isStoring]
    · cases hl
      rw [htried, hlog]
      exact ⟨List.getLast?_concat, List.getLast?_concat⟩
    · cases hl
    · rw [show e.recording = some b from hb] at hrecording
      cases hrecording
  · cases ho
  · cases ho

/-- **A task gets the guard to record an ending**, and the store of the record is attempted. -/
theorem Kept.lockEnding (h : s.Kept outs) (hlife : s.life = some (.running e)) {status : JobStatus}
    {boundary : Boundary} {endings : List JobStatus}
    (hupdated : e.store.updated status = some boundary) (hunlocked : e.unlocked = true)
    (htidy : d.Tidy) (hhold : d.hold = some .storing)
    (hlog : d.log = s.drives.log.attempt boundary.encode) :
    (⟨d, some (.running { e with endings := endings, recording := some boundary })⟩ : Sled).Kept outs := by
  have hguarded := h.running e hlife
  have hunended := Executor.unended_updated hupdated
  have hcovers : Covers (tried outs) boundary := by
    obtain ⟨b, hb, heq⟩ := Option.map_eq_some_iff.1 hunended
    exact (hguarded.store b hb).of_unended heq.symm
  have hnot : e.launcher.isStoring = false := by
    rw [Executor.unlocked_eq, Bool.and_eq_true, Bool.not_eq_true'] at hunlocked
    exact hunlocked.2
  refine kept_running htidy (fun record hrecord => ?_) ?_ h.told
  · rw [hlog] at hrecord
    rcases hrecord.of_attempt with rfl | hold
    · exact ⟨boundary, rfl, hcovers⟩
    · exact h.current record hold
  · refine ⟨?_, fun l hl => ?_, hguarded.committed, hguarded.store, fun b hb => ?_⟩
    · rw [hhold, Executor.unlocked_eq]
      simp
    · rw [show e.launcher = .storing l from hl] at hnot
      cases hnot
    · cases hb
      exact ⟨hunended, hnot⟩

theorem Kept.begins (h : s.Kept outs) (own : BaseboardId) (path : ℕ → String)
    (hlife : s.life = some (.running e)) (hunlocked : e.unlocked = true) (record : List UInt8) (e' : Executor) :
    ∃ d, serve path { s with life := some (.running e') } (s.drives.step own (.store record)) =
        (⟨d, some (.running e')⟩, []) ∧
      d.Tidy ∧ d.hold = some .storing ∧
      d.log = s.drives.log.attempt record := by
  have hfree : s.drives.hold = some .free := by
    rw [(h.running e hlife).hold, hunlocked]
    rfl
  obtain ⟨hnil, hhold, hlog⟩ := Drives.step_store h.tidy.slots hfree own record
  refine ⟨_, ?_, h.tidy.step own _, hhold, hlog⟩
  unfold serve
  rw [hnil]
  rfl

/-- **The executor does something.** -/
theorem Kept.execute (h : s.Kept outs) (hlife : s.life = some (.running e)) (action : ExecutorAct)
    (haction : action.isAnswer = false) :
    (s.execute own path e action).1.Kept (outs ++ (s.execute own path e action).2) := by
  have hself : ({ s with life := some (.running e) } : Sled).Kept outs := by
    rwa [← hlife]
  cases action with
  | stored | recorded => exact Bool.noConfusion haction
  | lock =>
    cases hlauncher : e.launcher with
    | waiting launch =>
      cases hunlocked : e.unlocked with
      | true =>
        obtain ⟨d, hserve, htidy, hhold, hlog⟩ := h.begins own path hlife hunlocked
          launch.boundary.encode { e with launcher := .storing launch }
        simp only [Sled.execute, Executor.step, Executor.launch, hlauncher, hunlocked, if_true, hserve]
        exact h.lock hlife hunlocked htidy hhold hlog
      | false => simpa [Sled.execute, Executor.step, Executor.launch, hlauncher, hunlocked] using hself
    | idle | storing | committed | failed =>
      simpa [Sled.execute, Executor.step, Executor.launch, hlauncher] using hself
  | lockEnding place =>
    cases hending : e.endings[place]? with
    | none =>
      cases hrecording : e.recording <;>
        simpa [Sled.execute, Executor.step, Executor.recordEnding, hending, hrecording] using hself
    | some status =>
      cases hunlocked : e.unlocked with
      | false =>
        cases hrecording : e.recording <;>
          simpa [Sled.execute, Executor.step, Executor.recordEnding, hending, hunlocked, hrecording]
            using hself
      | true =>
        have hrecording := Executor.recording_of_unlocked hunlocked
        cases hupdated : e.store.updated status with
        | none =>
          have haside : e.Aside { e with endings := e.endings.eraseIdx place, recording := none } [] :=
            Executor.aside_of_eq rfl hrecording.symm rfl (.inl rfl) fun _ hmem => by cases hmem
          simpa [Sled.execute, Executor.step, Executor.recordEnding, hending, hunlocked, hrecording,
            hupdated] using h.aside hlife haside
        | some boundary =>
          obtain ⟨d, hserve, htidy, hhold, hlog⟩ := h.begins own path hlife hunlocked boundary.encode
            { e with endings := e.endings.eraseIdx place, recording := some boundary }
          simp only [Sled.execute, Executor.step, Executor.recordEnding, hending, hunlocked, if_true,
            hupdated, hrecording]
          rw [hserve, List.append_nil]
          exact h.lockEnding hlife hupdated hunlocked htidy hhold hlog
  | _ =>
    simp only [Sled.execute]
    exact h.aside hlife (Executor.aside_step rfl)

theorem Kept.start (h : s.Kept outs) (own : BaseboardId) (path : ℕ → String) (hlife : s.life = none)
    (nonce : Nonce) :
    ∃ d, serve path { s with life := some .loading }
        ((s.drives.step own (.start nonce)).1.step own .load) = (⟨d, some .loading⟩, []) ∧
      (⟨d, some .loading⟩ : Sled).Kept outs := by
  have htenant : s.drives.tenant = none := Option.map_eq_none_iff.1 (h.down hlife)
  have htidy := h.tidy.step own (.start nonce)
  have hstarted : (s.drives.step own (.start nonce)).1 =
      { s.drives with tenant := some (Tenant.new nonce) } := by
    simp only [Drives.step, htenant]
  have hfree : (s.drives.step own (.start nonce)).1.hold = some .free := by
    rw [hstarted]
    rfl
  have hlog : (s.drives.step own (.start nonce)).1.log = s.drives.log := by rw [hstarted]
  obtain ⟨hnil, hhold, hlog'⟩ := Drives.step_load htidy.slots hfree own
  refine ⟨_, ?_, htidy.step own .load, ?_, fun hnone => ?_, fun _ => hhold, fun e he => ?_, h.told⟩
  · unfold serve
    rw [hnil]
    rfl
  · rw [hlog', hlog]
    exact h.current
  · cases hnone
  · cases he

/-- **One action.** -/
theorem Kept.step (h : s.Kept outs) (action : SledAct) :
    (s.step own path action).1.Kept (outs ++ (s.step own path action).2) := by
  have hsame : s.Kept (outs ++ []) := by rwa [List.append_nil]
  cases action with
  | start nonce =>
    cases hlife : s.life with
    | none =>
      obtain ⟨d, hserve, hkept⟩ := h.start own path hlife nonce
      simp only [Sled.step, hlife, hserve, List.append_nil]
      exact hkept
    | some process => simpa only [Sled.step, hlife] using hsame
  | crash =>
    rw [Sled.step, List.append_nil]
    refine ⟨h.tidy.step own .crash, h.current, fun _ => rfl, fun hl => ?_, fun e he => ?_, h.told⟩
    · cases hl
    · cases he
  | remove slot =>
    rw [Sled.step, List.append_nil]
    exact h.quiet (h.tidy.step own _) rfl rfl
  | disk action =>
    rw [Sled.step]
    split
    · next haction => exact h.disk own path haction
    · exact hsame
  | executor action =>
    simp only [Sled.step]
    split
    · next e hlife =>
      split
      · exact hsame
      · next haction => exact h.execute hlife action (Bool.eq_false_iff.2 haction)
    · exact hsame

theorem kept_run (own : BaseboardId) (path : ℕ → String) (slots : ℕ) (acts : List SledAct) :
    ((new (slots + 1)).run own path acts).1.Kept ((new (slots + 1)).run own path acts).2 :=
  Lib.run_invariant (Sled.step own path) (P := fun s _ outs => s.Kept outs)
    (fun _ _ _ action hs => hs.step action) (kept_new slots) acts

/-- Every boundary that a life loads is, but for how its job ended, that of each job spawned before, in
whatever life, or of a job whose boundary was attempted to be stored after that job was spawned. -/
def NeverBehind (outs : List SledOut) : Prop :=
  ∀ (pre mid post : List SledOut) (launch : Run) (boundary : Boundary),
    outs = pre ++ .executor (.spawned launch) :: mid ++ .loaded (some boundary) :: post →
    boundary.unended = launch.boundary.unended ∨
      ∃ later, .attempted later ∈ mid ∧ boundary.unended = later.boundary.unended

/-- **The boundary is never behind what ran.** -/
theorem boundary_never_behind (own : BaseboardId) (path : ℕ → String) (slots : ℕ) (acts : List SledAct) :
    NeverBehind ((new (slots + 1)).run own path acts).2 := by
  intro pre mid post launch boundary hsplit
  have htold := (kept_run own path slots acts).told
  have hspawn : tried pre = [launch] := by
    refine htold.spawns pre launch (mid ++ .loaded (some boundary) :: post) ?_
    rw [hsplit, List.append_assoc, List.cons_append]
  obtain ⟨later, hlater, heq⟩ := htold.loads _ boundary post hsplit
  unfold tried at hlater hspawn
  rw [List.foldl_append, hspawn] at hlater
  rcases mem_foldl_tryNext hlater with hmem | hmem
  · rw [List.mem_singleton.1 hmem] at heq
    exact .inl heq
  · rcases List.mem_cons.1 hmem with h | hmem
    · cases h
    · exact .inr ⟨later, hmem, heq⟩

/-- A job is launched, and the sled restarts. -/
def restarted (nonce : Nonce) (launch : Run) : List SledAct :=
  [.start nonce, .disk (.read none), .disk (.read none), .executor (.jobStart launch), .executor .receive,
    .executor .lock, .disk (.begin 0), .disk .write, .disk .write, .disk .finish, .executor .spawn, .crash,
    .start nonce, .disk (.read none), .disk (.read none)]

theorem outs_restarted (own : BaseboardId) (path : ℕ → String) (nonce : Nonce) (launch : Run) :
    ((new 2).run own path (restarted nonce launch)).2 =
      [.loaded none, .executor (.queued launch), .attempted launch, .executor (.committed launch),
        .executor (.spawned launch), .loaded (some launch.boundary)] := by
  simp [restarted, run, new, Lib.run, step, serve, deliver, execute, Drives.step, Drives.new, Drives.act,
    Tenant.new, Drives.readSlot, Drives.conclude, Drives.reserve, Drives.report, Drives.beginCommit, collect,
    judge, BoundaryStore.load, Verdict.record, LockerAct.goesOn, ExecutorAct.isAnswer, Executor.new,
    Executor.step, Executor.jobStart, Executor.launch, Executor.unlocked, launchChannelCapacity,
    Boundary.decode_encode, Except.mapError]

end Sled

end Sush

namespace Sush.Terms

attribute [local instance] world hashing boundaryCbor Plain.ciborium

/-- The second life loads the boundary of the job that ran. -/
theorem boundary_never_behind_restarted :
    .loaded (some (launch 5 (firstJob 5)).boundary) ∈
      ((Sled.new 2).run (0 : ℕ) toString (Sled.restarted 1 (launch 5 (firstJob 5)))).2 ∧
    Sled.NeverBehind ((Sled.new 2).run (0 : ℕ) toString (Sled.restarted 1 (launch 5 (firstJob 5)))).2 := by
  refine ⟨?_, Sled.boundary_never_behind (0 : ℕ) toString 1 _⟩
  rw [Sled.outs_restarted]
  simp

end Sush.Terms
