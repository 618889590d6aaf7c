import Sush.Common.Plain
import Sush.Verify.JobEffects

/-!
# Recorded output is what is reported

A job that does not stream records both of its streams, and a streaming job records the error stream.
Where no file operation fails, a step records one chunk of one stream or none at all
(`kept_or_appended`), and everything follows from what these two do. The file of a recorded stream is at its
end whenever the loop is: writing at the end appends, and a playback reads up to the end. A stream that
is over its limit is marked as not recorded by the step that took it there, so no later chunk of it is
delivered, and the first such step decides the error (`Intact`).
-/

namespace Sush

open Lib (File)

def JobMode.bufferSize (mode : JobMode) : ℕ :=
  if mode = .interactive then interactiveOutputBufferSize else batchOutputBufferSize

/-- Whether a stream is recorded. -/
def JobMode.Records (mode : JobMode) (stream : JobOutputStream) : Prop :=
  ¬(stream = .stdout ∧ mode = .streamOutput)

def JobOutputState.len (state : JobOutputState) : JobOutputStream → UInt64
  | .stdout => state.stdoutLen
  | .stderr => state.stderrLen

def JobOutputState.hash (state : JobOutputState) : JobOutputStream → BitVec 256
  | .stdout => state.stdoutHash
  | .stderr => state.stderrHash

def JobStep.filesSucceed : JobStep → Bool
  | .branch (.read _ (.failed _)) => false
  | .branch (.attach _ _ (.failed _ _)) => false
  | _ => true

namespace Job

def recorded (s : Job) (stream : JobOutputStream) : List UInt8 := (s.recording stream).file.contents

/-- A stream is over its limit. -/
def Over (s : Job) (stream : JobOutputStream) : Prop :=
  s.maxFsize.toNat < (s.recorded stream).length

variable {s t : Job} {e : JobStep} {outs new : List JobOut} {stream other : JobOutputStream}
  {buf : List UInt8} {size : ℕ}

theorem records_iff : s.mode.Records stream ↔ ¬(stream = .stdout ∧ s.streaming = true) := by
  simp [JobMode.Records, streaming]

/-! ## One step -/

/-- Nothing was recorded. -/
structure Kept (s t : Job) : Prop where
  mode : t.mode = s.mode
  maxFsize : t.maxFsize = s.maxFsize
  mark : t.io.mark = s.io.mark
  fatal : t.fatal = s.fatal
  recording : ∀ stream, s.mode.Records stream →
    (t.recording stream).hasher = (s.recording stream).hasher ∧
      t.recorded stream = s.recorded stream ∧
      ((s.recording stream).file.AtEnd → (t.recording stream).file.AtEnd)

/-- A chunk was recorded. -/
structure Appended (s : Job) (stream : JobOutputStream) (buf : List UInt8) (size : ℕ) (t : Job) : Prop where
  records : s.mode.Records stream
  len : buf.length ≤ size
  mark : s.io.mark stream = some (size, true)
  fits : (s.recorded stream).length + buf.length ≤ maxFileLength
  wrote : Wrote s stream size
    ⟨(s.recording stream).file.writeAll buf, (s.recording stream).hasher.update buf⟩ t

theorem Kept.of_recordings (hmode : t.mode = s.mode) (hmax : t.maxFsize = s.maxFsize)
    (hmark : t.io.mark = s.io.mark) (hfatal : t.fatal = s.fatal) (hstdout : t.stdout = s.stdout)
    (hstderr : t.stderr = s.stderr) : Kept s t := by
  refine ⟨hmode, hmax, hmark, hfatal, ?_⟩
  intro stream _
  have hrecording : t.recording stream = s.recording stream := by
    cases stream with
    | stdout => exact hstdout
    | stderr => exact hstderr
  rw [recorded, recorded, hrecording]
  exact ⟨rfl, rfl, id⟩

theorem Same.kept (h : Same s t) : Kept s t :=
  .of_recordings h.mode h.maxFsize h.mark h.fatal h.stdout h.stderr

theorem Kept.loopHead (h : Kept s t) : Kept s t.loopHead := by
  obtain ⟨exit, heq, -⟩ := loopHead_eq t
  rw [heq]
  exact ⟨h.mode, h.maxFsize, h.mark, h.fatal, h.recording⟩

theorem Wrote.loopHead {r : Recording} (h : Wrote s stream size r t) : Wrote s stream size r t.loopHead := by
  obtain ⟨exit, heq, -⟩ := loopHead_eq t
  rw [heq]
  exact ⟨h.mode, h.maxFsize, h.recording, h.limit, h.pending, h.attached, h.socket, h.output, h.report⟩

theorem Replayed.kept {len : ℕ} (h : Replayed s (.played len) t) : Kept s t := by
  refine ⟨h.mode, h.maxFsize, h.mark, h.fatal, ?_⟩
  intro stream _
  cases stream with
  | stdout => exact ⟨h.hasher, h.contents, h.atEnd len rfl⟩
  | stderr =>
    have hrecording : t.recording .stderr = s.recording .stderr := h.stderr
    rw [recorded, recorded, hrecording]
    exact ⟨rfl, rfl, id⟩

theorem write_done {r r' : Recording} (h : r.write buf .done = some r') :
    r.file.contents.length + buf.length ≤ maxFileLength ∧
      r' = ⟨r.file.writeAll buf, r.hasher.update buf⟩ := by
  simp only [Recording.write] at h
  split at h
  · next hfits => exact ⟨hfits, (Option.some.inj h).symm⟩
  · cases h

/-- **A branch records a chunk or keeps what is recorded.** -/
theorem kept_or_appended_branch {b : Branch} {turn : LoopTurn} (h : Effect s b turn)
    (hfiles : (JobStep.branch b).filesSucceed = true) :
    (Kept s (s.settle turn).1 ∧
      ∀ stream, s.mode.Records stream → chunks stream (s.settle turn).2 = []) ∨
    ∃ stream buf size, Appended s stream buf size (s.settle turn).1 ∧
      (s.settle turn).2 = [.delivered stream buf] := by
  cases h with
  | pending => exact .inl ⟨(Same.refl s).kept, fun _ _ => rfl⟩
  | next hsame => exact .inl ⟨hsame.kept.loopHead, fun _ _ => rfl⟩
  | leave hsame _ =>
    exact .inl ⟨.of_recordings hsame.mode hsame.maxFsize hsame.mark hsame.fatal hsame.stdout hsame.stderr,
      fun _ _ => rfl⟩
  | @recorded raw write stream buf size r t hrecords hlen hmark hwrite hwrote _ =>
    cases write with
    | failed file => cases hfiles
    | done =>
      obtain ⟨hfits, rfl⟩ := write_done hwrite
      exact .inr ⟨stream, buf, size, ⟨records_iff.2 hrecords, hlen, hmark, hfits, hwrote.loopHead⟩, rfl⟩
  | @kept raw write buf io hstreaming hio _ =>
    refine .inl ⟨Kept.loopHead ⟨rfl, rfl, hio, rfl, ?_⟩, ?_⟩
    · intro stream hrecords
      cases stream with
      | stdout => exact absurd ⟨rfl, hstreaming⟩ (records_iff.1 hrecords)
      | stderr => exact ⟨rfl, rfl, id⟩
    · intro stream hrecords
      refine chunks_delivered_of_ne ?_
      rintro rfl
      exact records_iff.1 hrecords ⟨rfl, hstreaming⟩
  | handed _ _ =>
    refine .inl ⟨Kept.loopHead ?_, fun _ _ => rfl⟩
    exact .of_recordings rfl rfl rfl rfl rfl rfl
  | dropped _ _ =>
    refine .inl ⟨Kept.loopHead ?_, fun _ _ => rfl⟩
    exact .of_recordings rfl rfl rfl rfl rfl rfl
  | accepted _ _ =>
    refine .inl ⟨Kept.loopHead ?_, fun _ _ => rfl⟩
    exact .of_recordings rfl rfl rfl rfl rfl rfl
  | @played client access playback t _ hplayed =>
    cases playback with
    | failed position restored => cases hfiles
    | played len => exact .inl ⟨hplayed.kept.loopHead, fun _ _ => rfl⟩

/-! ## What is recorded so far -/

/-- The file of a stream holds these chunks. -/
structure Taped (s : Job) (stream : JobOutputStream) (chunks : List (List UInt8)) : Prop where
  contents : s.recorded stream = chunks.flatten
  hashed : (s.recording stream).hasher.bytes = chunks.flatten
  atEnd : (s.recording stream).file.AtEnd
  fits : (s.recorded stream).length ≤ maxFileLength
  bound : (s.recorded stream).length ≤ s.maxFsize.toNat + s.mode.bufferSize
  /-- What is over the limit is not recorded any more. -/
  stopped : s.Over stream → ∀ size, s.io.mark stream ≠ some (size, true)

/-- What is recorded is what was delivered, and there is an error if and only if a limit was exceeded. -/
structure Intact (s : Job) (outs : List JobOut) : Prop where
  taped : ∀ stream, s.mode.Records stream → Taped s stream (chunks stream outs)
  sizes : ∀ stream size b, s.io.mark stream = some (size, b) → size = s.mode.bufferSize
  fatal : s.fatal.isSome ↔ ∃ stream, s.mode.Records stream ∧ s.Over stream

theorem Kept.over_iff (h : Kept s t) (hrecords : s.mode.Records stream) : t.Over stream ↔ s.Over stream := by
  rw [Over, Over, (h.recording stream hrecords).2.1, h.maxFsize]

theorem Intact.of_kept (h : Intact s outs) (hkept : Kept s t)
    (hnew : ∀ stream, s.mode.Records stream → chunks stream new = []) : Intact t (outs ++ new) where
  taped stream hrecords := by
    rw [hkept.mode] at hrecords
    obtain ⟨hhasher, hcontents, hend⟩ := hkept.recording stream hrecords
    have htaped := h.taped stream hrecords
    rw [chunks_append, hnew stream hrecords, List.append_nil]
    refine ⟨hcontents.trans htaped.contents, ?_, hend htaped.atEnd, ?_, ?_, ?_⟩
    · rw [hhasher, htaped.hashed]
    · rw [hcontents]
      exact htaped.fits
    · rw [hcontents, hkept.maxFsize, hkept.mode]
      exact htaped.bound
    · rw [hkept.over_iff hrecords, hkept.mark]
      exact htaped.stopped
  sizes stream size b := by
    rw [hkept.mark, hkept.mode]
    exact h.sizes stream size b
  fatal := by
    rw [hkept.fatal, hkept.mode, h.fatal]
    constructor
    · rintro ⟨stream, hrecords, hover⟩
      exact ⟨stream, hrecords, (hkept.over_iff hrecords).2 hover⟩
    · rintro ⟨stream, hrecords, hover⟩
      exact ⟨stream, hrecords, (hkept.over_iff hrecords).1 hover⟩

/-! ## A chunk more -/

theorem count_gt_iff {hasher : Hasher} {limit : UInt64} (h : hasher.bytes.length ≤ maxFileLength) :
    hasher.count > limit ↔ limit.toNat < hasher.bytes.length := by
  have hlt : hasher.bytes.length < 2 ^ 64 := lt_of_le_of_lt h (by decide)
  rw [gt_iff_lt, UInt64.lt_iff_toNat_lt, Hasher.count, UInt64.toNat_ofNat_of_lt' hlt]

namespace Appended

variable (h : Appended s stream buf size t)

include h

theorem recorded_of_ne (hne : other ≠ stream) : t.recording other = s.recording other := by
  rw [h.wrote.recording, Function.update_of_ne hne]

theorem over_iff_of_ne (hne : other ≠ stream) : t.Over other ↔ s.Over other := by
  rw [Over, Over, recorded, recorded, h.recorded_of_ne hne, h.wrote.maxFsize]

theorem mark_of_ne (hne : other ≠ stream) : t.io.mark other = s.io.mark other := by
  obtain ⟨-, -, hmark⟩ | ⟨-, -, hmark⟩ := h.wrote.limit
  · rw [hmark, Function.update_of_ne hne]
  · rw [hmark]

theorem recording (hend : (s.recording stream).file.AtEnd) :
    t.recorded stream = s.recorded stream ++ buf ∧ (t.recording stream).file.AtEnd ∧
      (t.recording stream).hasher.bytes = (s.recording stream).hasher.bytes ++ buf := by
  have hwrite := File.writeAll_of_atEnd hend buf
  rw [recorded, h.wrote.recording, Function.update_self]
  exact ⟨hwrite.1, hwrite.2, rfl⟩

theorem over_iff {chunks : List (List UInt8)} (htaped : Taped s stream chunks) :
    (⟨(s.recording stream).file.writeAll buf, (s.recording stream).hasher.update buf⟩ : Recording).hasher.count
      > s.maxFsize ↔ t.Over stream := by
  obtain ⟨hcontents, -, -⟩ := h.recording htaped.atEnd
  have hlen : ((s.recording stream).hasher.update buf).bytes.length = (t.recorded stream).length := by
    rw [hcontents, htaped.contents, Hasher.update, htaped.hashed]
  have hfits : ((s.recording stream).hasher.update buf).bytes.length ≤ maxFileLength := by
    rw [hlen, hcontents, List.length_append]
    exact h.fits
  rw [count_gt_iff hfits, Over, h.wrote.maxFsize, hlen]

theorem taped {chunks : List (List UInt8)} (htaped : Taped s stream chunks)
    (hsize : size = s.mode.bufferSize) : Taped t stream (chunks ++ [buf]) := by
  obtain ⟨hcontents, hend, hhashed⟩ := h.recording htaped.atEnd
  have hunder : (s.recorded stream).length ≤ s.maxFsize.toNat := by
    by_contra hover
    exact htaped.stopped (Nat.lt_of_not_le hover) size h.mark
  refine ⟨?_, ?_, hend, ?_, ?_, ?_⟩
  · rw [hcontents, htaped.contents, List.flatten_concat]
  · rw [hhashed, htaped.hashed, List.flatten_concat]
  · rw [hcontents, List.length_append]
    exact h.fits
  · rw [hcontents, List.length_append, h.wrote.maxFsize, h.wrote.mode, ← hsize]
    exact Nat.add_le_add hunder h.len
  · intro hover size'
    obtain ⟨-, -, hmark⟩ | ⟨hnot, -, -⟩ := h.wrote.limit
    · rw [hmark, Function.update_self]
      intro heq
      cases heq
    · exact absurd ((h.over_iff htaped).2 hover) hnot

theorem over_mono {chunks : List (List UInt8)} (htaped : Taped s stream chunks) (hover : s.Over other) :
    t.Over other := by
  by_cases hne : other = stream
  · subst hne
    obtain ⟨hcontents, -, -⟩ := h.recording htaped.atEnd
    have hlt : s.maxFsize.toNat < (s.recorded other).length := hover
    rw [Over, hcontents, List.length_append, h.wrote.maxFsize]
    omega
  · exact (h.over_iff_of_ne hne).2 hover

end Appended

theorem Intact.of_appended (h : Intact s outs) (happended : Appended s stream buf size t) :
    Intact t (outs ++ [.delivered stream buf]) where
  taped other hrecords := by
    rw [happended.wrote.mode] at hrecords
    have hother := h.taped other hrecords
    rw [chunks_append]
    by_cases hne : other = stream
    · subst hne
      rw [chunks_delivered]
      exact happended.taped hother (h.sizes other size true happended.mark)
    · have hsame := happended.recorded_of_ne hne
      have hmark := happended.mark_of_ne hne
      rw [chunks_delivered_of_ne (Ne.symm hne), List.append_nil]
      refine ⟨?_, ?_, ?_, ?_, ?_, ?_⟩
      · rw [recorded, hsame]
        exact hother.contents
      · rw [hsame]
        exact hother.hashed
      · rw [hsame]
        exact hother.atEnd
      · rw [recorded, hsame]
        exact hother.fits
      · rw [recorded, hsame, happended.wrote.maxFsize, happended.wrote.mode]
        exact hother.bound
      · rw [happended.over_iff_of_ne hne, hmark]
        exact hother.stopped
  sizes other size' b := by
    rw [happended.wrote.mode]
    by_cases hne : other = stream
    · subst hne
      have hsize := h.sizes other size true happended.mark
      obtain ⟨-, -, hmark⟩ | ⟨-, -, hmark⟩ := happended.wrote.limit
      · rw [hmark, Function.update_self]
        intro heq
        cases heq
        exact hsize
      · rw [hmark]
        exact h.sizes other size' b
    · rw [happended.mark_of_ne hne]
      exact h.sizes other size' b
  fatal := by
    have htaped := h.taped stream happended.records
    have hover := happended.over_iff htaped
    rw [happended.wrote.mode]
    constructor
    · intro hfatal
      obtain ⟨hcount, -, -⟩ | ⟨-, hsame, -⟩ := happended.wrote.limit
      · exact ⟨stream, happended.records, hover.1 hcount⟩
      · rw [hsame] at hfatal
        obtain ⟨other, hrecords, hother⟩ := h.fatal.1 hfatal
        exact ⟨other, hrecords, happended.over_mono htaped hother⟩
    · rintro ⟨other, hrecords, hother⟩
      obtain ⟨-, hfatal, -⟩ | ⟨hcount, hsame, -⟩ := happended.wrote.limit
      · rw [hfatal]
        simp
      · rw [hsame, h.fatal]
        refine ⟨other, hrecords, ?_⟩
        by_cases hne : other = stream
        · subst hne
          exact absurd (hover.2 hother) hcount
        · exact (happended.over_iff_of_ne hne).1 hother

/-! ## Runs -/

variable [Digest]

/-- **A step records a chunk or keeps what is recorded.** -/
theorem kept_or_appended (h : StepEffect s e t new) (hfiles : e.filesSucceed = true) :
    (Kept s t ∧ ∀ stream, s.mode.Records stream → chunks stream new = []) ∨
    ∃ stream buf size, Appended s stream buf size t ∧ new = [.delivered stream buf] := by
  cases h with
  | same hsame => exact .inl ⟨hsame.kept, fun _ _ => rfl⟩
  | branch _ hbranch => exact kept_or_appended_branch hbranch hfiles
  | served hserved =>
    exact .inl ⟨.of_recordings hserved.mode hserved.maxFsize (congrArg _ hserved.io) hserved.fatal
      hserved.stdout hserved.stderr, fun _ _ => rfl⟩
  | handedOver _ _ _ =>
    refine .inl ⟨?_, fun _ _ => rfl⟩
    exact .of_recordings rfl rfl rfl rfl rfl rfl
  | lost _ _ =>
    refine .inl ⟨?_, fun _ _ => rfl⟩
    exact .of_recordings rfl rfl rfl rfl rfl rfl
  | reported _ _ _ =>
    refine .inl ⟨?_, fun _ _ => rfl⟩
    exact .of_recordings rfl rfl rfl rfl rfl rfl

theorem Intact.step (h : Intact s outs) (heffect : StepEffect s e t new)
    (hfiles : e.filesSucceed = true) : Intact t (outs ++ new) := by
  obtain ⟨hkept, hnew⟩ | ⟨stream, buf, size, happended, rfl⟩ := kept_or_appended heffect hfiles
  · exact h.of_kept hkept hnew
  · exact h.of_appended happended

theorem Intact.recorded_of_over (h : Intact s outs) (heffect : StepEffect s e t new)
    (hfiles : e.filesSucceed = true) (hrecords : s.mode.Records stream) (hover : s.Over stream) :
    t.recorded stream = s.recorded stream := by
  obtain ⟨hkept, -⟩ | ⟨other, buf, size, happended, -⟩ := kept_or_appended heffect hfiles
  · exact (hkept.recording stream hrecords).2.1
  · by_cases hne : stream = other
    · subst hne
      exact absurd happended.mark ((h.taped stream hrecords).stopped hover size)
    · rw [recorded, happended.recorded_of_ne hne, recorded]

theorem fatal_step {error : ProcessError} (heffect : StepEffect s e t new)
    (hfiles : e.filesSucceed = true) (hfatal : s.fatal = some error) : t.fatal = some error := by
  obtain ⟨hkept, -⟩ | ⟨stream, buf, size, happended, -⟩ := kept_or_appended heffect hfiles
  · rw [hkept.fatal, hfatal]
  · obtain ⟨-, h, -⟩ | ⟨-, h, -⟩ := happended.wrote.limit
    · rw [h, hfatal]
      rfl
    · rw [h, hfatal]

theorem Intact.fatal_of_first (h : Intact s outs) (heffect : StepEffect s e t new)
    (hfiles : e.filesSucceed = true) (hnone : ∀ other, s.mode.Records other → ¬s.Over other)
    (hrecords : s.mode.Records stream) (hover : t.Over stream) :
    t.fatal = some (.outputLimitExceeded stream s.maxFsize) := by
  have hfatal : s.fatal = none := by
    cases hfatal : s.fatal with
    | none => rfl
    | some error =>
      obtain ⟨other, hother, hbefore⟩ := h.fatal.1 (by rw [hfatal]; rfl)
      exact absurd hbefore (hnone other hother)
  obtain ⟨hkept, -⟩ | ⟨other, buf, size, happended, -⟩ := kept_or_appended heffect hfiles
  · exact absurd ((hkept.over_iff hrecords).1 hover) (hnone stream hrecords)
  · by_cases hne : stream = other
    · subst hne
      obtain ⟨-, hnew, -⟩ | ⟨hcount, -, -⟩ := happended.wrote.limit
      · rw [hnew, hfatal]
        rfl
      · exact absurd ((happended.over_iff (h.taped stream hrecords)).2 hover) hcount
    · exact absurd ((happended.over_iff_of_ne hne).1 hover) (hnone stream hrecords)

theorem config_step (heffect : StepEffect s e t new) (hfiles : e.filesSucceed = true) :
    t.mode = s.mode ∧ t.maxFsize = s.maxFsize := by
  obtain ⟨hkept, -⟩ | ⟨stream, buf, size, happended, -⟩ := kept_or_appended heffect hfiles
  · exact ⟨hkept.mode, hkept.maxFsize⟩
  · exact ⟨happended.wrote.mode, happended.wrote.maxFsize⟩

omit [Digest] in
theorem recording_start (mode : JobMode) (limits : JobLimits) (stream : JobOutputStream) :
    (start mode limits).recording stream = .new := by
  cases stream with
  | stdout => rfl
  | stderr => rfl

omit [Digest] in
theorem recorded_start (mode : JobMode) (limits : JobLimits) (stream : JobOutputStream) :
    (start mode limits).recorded stream = [] := by
  rw [recorded, recording_start]
  rfl

omit [Digest] in
theorem not_over_start (mode : JobMode) (limits : JobLimits) (stream : JobOutputStream) :
    ¬(start mode limits).Over stream := by
  rw [Over, recorded_start]
  exact Nat.not_lt_zero _

omit [Digest] in
theorem intact_start (mode : JobMode) (limits : JobLimits) : Intact (start mode limits) [] where
  taped stream _ := by
    have hempty := recording_start mode limits stream
    have hrecorded := recorded_start mode limits stream
    refine ⟨hrecorded, ?_, ?_, ?_, ?_, fun hover => absurd hover (not_over_start mode limits stream)⟩
    · rw [hempty]
      rfl
    · rw [hempty]
      rfl
    · rw [hrecorded]
      exact Nat.zero_le _
    · rw [hrecorded]
      exact Nat.zero_le _
  sizes stream size b h := by
    change (JobIo.open mode).mark stream = some (size, b) at h
    change size = mode.bufferSize
    unfold JobIo.open JobMode.bufferSize at *
    by_cases hmode : mode = .interactive
    · rw [if_pos hmode] at h ⊢
      cases stream with
      | stdout =>
        cases h
        rfl
      | stderr => cases h
    · rw [if_neg hmode] at h ⊢
      cases stream with
      | stdout =>
        cases h
        rfl
      | stderr =>
        cases h
        rfl
  fatal := by
    constructor
    · intro h
      cases h
    · rintro ⟨stream, -, hover⟩
      exact absurd hover (not_over_start mode limits stream)

variable {mode : JobMode} {limits : JobLimits} {steps : List JobStep}

/-- The job's mode and limit, and what is recorded, after some steps. -/
structure Recorder (mode : JobMode) (limits : JobLimits) (s : Job) (outs : List JobOut) : Prop where
  mode_eq : s.mode = mode
  maxFsize_eq : s.maxFsize = limits.maxFsize
  intact : Intact s outs

theorem Recorder.step (h : Recorder mode limits s outs) (heffect : StepEffect s e t new)
    (hfiles : e.filesSucceed = true) : Recorder mode limits t (outs ++ new) := by
  obtain ⟨hmode, hmax⟩ := config_step heffect hfiles
  exact ⟨hmode.trans h.mode_eq, hmax.trans h.maxFsize_eq, h.intact.step heffect hfiles⟩

theorem recorder_run (hfiles : ∀ e ∈ steps, e.filesSucceed = true) :
    Recorder mode limits (run mode limits steps).1 (run mode limits steps).2 := by
  refine Lib.run_invariant_of_always Job.step (P := fun s _ outs => Recorder mode limits s outs)
    ?_ (Lib.always_of_forall hfiles) ⟨rfl, rfl, intact_start mode limits⟩
  intro s _ outs e he h
  exact h.step (effect_step s e) he

theorem run_from {pre post : List JobStep} {P : Job → Prop}
    (hfiles : ∀ e ∈ pre ++ post, e.filesSucceed = true)
    (hstep : ∀ s outs e, e.filesSucceed = true → Recorder mode limits s outs → P s → P (s.step e).1)
    (h : P (run mode limits pre).1) : P (run mode limits (pre ++ post)).1 := by
  have hpre : ∀ e ∈ pre, e.filesSucceed = true := fun e he => hfiles e (List.mem_append_left _ he)
  have hpost : ∀ e ∈ post, e.filesSucceed = true := fun e he => hfiles e (List.mem_append_right _ he)
  have hinv := Lib.run_invariant_of_always Job.step
    (P := fun s _ outs => Recorder mode limits s ((run mode limits pre).2 ++ outs) ∧ P s)
    (fun s _ outs e he hs => by
      rw [← List.append_assoc]
      exact ⟨hs.1.step (effect_step s e) he, hstep s _ e he hs.1 hs.2⟩)
    (Lib.always_of_forall hpost)
    ⟨by rw [List.append_nil]; exact recorder_run hpre, h⟩
  rw [run_append]
  exact hinv.2

theorem recorded_of_over_run {pre post : List JobStep}
    (hfiles : ∀ e ∈ pre ++ post, e.filesSucceed = true) (hrecords : mode.Records stream)
    (hover : (run mode limits pre).1.Over stream) :
    (run mode limits (pre ++ post)).1.recorded stream = (run mode limits pre).1.recorded stream := by
  have hkept := run_from (P := fun s =>
    s.recorded stream = (run mode limits pre).1.recorded stream ∧ s.Over stream) hfiles ?_ ⟨rfl, hover⟩
  · exact hkept.1
  · rintro s outs e he hrecorder ⟨hsame, hover⟩
    have heffect := effect_step s e
    have hmode : s.mode.Records stream := hrecorder.mode_eq ▸ hrecords
    have hstill := hrecorder.intact.recorded_of_over heffect he hmode hover
    refine ⟨hstill.trans hsame, ?_⟩
    rw [Over, hstill, (config_step heffect he).2]
    exact hover

/-- The step that takes the first stream over its limit decides the result. -/
theorem result_of_first {pre post : List JobStep} (hsteps : steps = pre ++ e :: post)
    (hfiles : ∀ e ∈ steps, e.filesSucceed = true) (hrecords : mode.Records stream)
    (hnone : ∀ other, mode.Records other → ¬(run mode limits pre).1.Over other)
    (hover : (run mode limits (pre ++ [e])).1.Over stream) {result : Except ProcessError Int32}
    {output : JobOutputState} (hreport : (run mode limits steps).1.report = some (result, output)) :
    result = .error (.outputLimitExceeded stream limits.maxFsize) := by
  have hpre : ∀ e ∈ pre, e.filesSucceed = true := by
    intro e he
    exact hfiles e (hsteps ▸ List.mem_append_left _ he)
  have he : e.filesSucceed = true := hfiles e (hsteps ▸ by simp)
  have hrecorder : Recorder mode limits _ _ := recorder_run hpre
  rw [run, Lib.run_concat] at hover
  have hfirst := hrecorder.intact.fatal_of_first (effect_step _ e) he
    (hrecorder.mode_eq.symm ▸ hnone) (hrecorder.mode_eq.symm ▸ hrecords) hover
  rw [hrecorder.maxFsize_eq] at hfirst
  -- the error stays for the rest of the run
  have hsplit : steps = (pre ++ [e]) ++ post := by rw [hsteps, List.append_assoc, List.singleton_append]
  have hfatal : (run mode limits steps).1.fatal = some (.outputLimitExceeded stream limits.maxFsize) := by
    rw [hsplit] at hfiles ⊢
    refine run_from hfiles (fun s _ e he _ hs => fatal_step (effect_step s e) he hs) ?_
    rw [run, Lib.run_concat]
    exact hfirst
  obtain ⟨-, -, exitStatus, rfl⟩ := reported_run mode limits steps result output hreport
  simp only [Job.result, hfatal]

theorem Taped.report {chunks : List (List UInt8)} (h : Taped s stream chunks) :
    (s.outputState.len stream).toNat = (s.recorded stream).length ∧
      s.outputState.hash stream = .ofFin (hash (s.recorded stream)) := by
  have hbytes : (s.recording stream).hasher.bytes = s.recorded stream := h.hashed.trans h.contents.symm
  have hlt : (s.recorded stream).length < 2 ^ 64 := lt_of_le_of_lt h.fits (by decide)
  have hlen : s.outputState.len stream = UInt64.ofNat (s.recorded stream).length := by
    rw [← hbytes]
    cases stream with
    | stdout => rfl
    | stderr => rfl
  refine ⟨?_, ?_⟩
  · rw [hlen, UInt64.toNat_ofNat_of_lt' hlt]
  · rw [← hbytes]
    cases stream with
    | stdout => rfl
    | stderr => rfl

end Job

open Job

/-- **Recorded output is what is reported.** In a run in which no file operation fails, the file of every
recorded stream holds exactly the chunks that were read from it, and the reported length and hash are
the file's. Nothing is recorded for a stream that is over its limit, so it is over by less than a buffer.
If a limit was exceeded at all, the result is the error of the stream that was over its limit first. -/
theorem recorded_output_matches [Digest] (mode : JobMode) (limits : JobLimits) (steps : List JobStep)
    (hfiles : ∀ e ∈ steps, e.filesSucceed = true) :
    (∀ stream, mode.Records stream →
      (run mode limits steps).1.recorded stream = (readChunks mode limits stream steps).flatten ∧
      (∀ result output, (run mode limits steps).1.report = some (result, output) →
        (output.len stream).toNat = ((run mode limits steps).1.recorded stream).length ∧
        output.hash stream = .ofFin (hash ((run mode limits steps).1.recorded stream))) ∧
      ((run mode limits steps).1.recorded stream).length ≤ limits.maxFsize.toNat + mode.bufferSize ∧
      ∀ pre post, steps = pre ++ post → (run mode limits pre).1.Over stream →
        (run mode limits steps).1.recorded stream = (run mode limits pre).1.recorded stream) ∧
    ((∃ stream, mode.Records stream ∧ (run mode limits steps).1.Over stream) →
      ∃ first pre e post, steps = pre ++ e :: post ∧ mode.Records first ∧
        (∀ stream, mode.Records stream → ¬(run mode limits pre).1.Over stream) ∧
        (run mode limits (pre ++ [e])).1.Over first ∧
        ∀ result output, (run mode limits steps).1.report = some (result, output) →
          result = .error (.outputLimitExceeded first limits.maxFsize)) := by
  have hrecorder : Recorder mode limits _ _ := recorder_run hfiles
  refine ⟨?_, ?_⟩
  · intro stream hrecords
    have htaped := hrecorder.intact.taped stream (hrecorder.mode_eq.symm ▸ hrecords)
    refine ⟨chunks_run mode limits steps ▸ htaped.contents, ?_, ?_, ?_⟩
    · intro result output hreport
      obtain ⟨-, rfl, -⟩ := reported_run mode limits steps result output hreport
      exact htaped.report
    · have hbound := htaped.bound
      rwa [hrecorder.maxFsize_eq, hrecorder.mode_eq] at hbound
    · rintro pre post rfl hover
      exact recorded_of_over_run hfiles hrecords hover
  · intro hover
    have hstart : ¬∃ stream, mode.Records stream ∧ (run mode limits []).1.Over stream := by
      rintro ⟨stream, -, hover⟩
      exact not_over_start mode limits stream hover
    obtain ⟨pre, e, post, hsteps, hpre, first, hrecords, hfirst⟩ := Lib.exists_first
      (P := fun steps => ∃ stream, mode.Records stream ∧ (run mode limits steps).1.Over stream) hstart hover
    have hnone : ∀ stream, mode.Records stream → ¬(run mode limits pre).1.Over stream :=
      fun stream hrecords hover => hpre ⟨stream, hrecords, hover⟩
    exact ⟨first, pre, e, post, hsteps, hrecords, hnone, hfirst,
      fun result output hreport => result_of_first hsteps hfiles hrecords hnone hfirst hreport⟩

end Sush

namespace Sush.Plain

open Job

attribute [local instance] digest

/-- Two chunks against a limit of three bytes, and a client that is played back the first of them. -/
def overLimit : List JobStep :=
  [.branch (.read (.bytes .stdout [1, 2]) .done), .branch (.attach 0 .readOnly (.played 2)),
    .branch (.read (.bytes .stdout [3, 4]) .done), .branch (.read (.bytes .stdout [5]) .done),
    .branch .childDied, .branch .drainTimeout, .reaped (.ok ⟨some 0, none⟩)]

theorem recorded_output_matches_overLimit :
    (run .batch ⟨0, 0, 3⟩ overLimit).1.recorded .stdout = [1, 2, 3, 4] ∧
    (run .batch ⟨0, 0, 3⟩ overLimit).1.report.isSome ∧
    ∀ result output, (run .batch ⟨0, 0, 3⟩ overLimit).1.report = some (result, output) →
      (output.len .stdout).toNat = 4 ∧
      ∃ first, result = .error (.outputLimitExceeded first 3) := by
  have hfiles : ∀ e ∈ overLimit, e.filesSucceed = true := by decide
  have hrecords : JobMode.Records .batch .stdout := by
    rintro ⟨-, h⟩
    cases h
  have hrecorded : (run .batch ⟨0, 0, 3⟩ overLimit).1.recorded .stdout = [1, 2, 3, 4] := by rfl
  have hover : (run .batch ⟨0, 0, 3⟩ overLimit).1.Over .stdout := by
    rw [Over, hrecorded]
    decide
  obtain ⟨hstreams, hfirst⟩ := recorded_output_matches .batch ⟨0, 0, 3⟩ overLimit hfiles
  obtain ⟨-, hreport, -, -⟩ := hstreams .stdout hrecords
  obtain ⟨first, -, -, -, -, -, -, -, hresult⟩ := hfirst ⟨.stdout, hrecords, hover⟩
  refine ⟨hrecorded, by rfl, ?_⟩
  intro result output h
  rw [hrecorded] at hreport
  exact ⟨(hreport result output h).1, first, hresult result output h⟩

end Sush.Plain
