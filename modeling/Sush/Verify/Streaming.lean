import Sush.Common.Plain
import Sush.Verify.JobEffects

/-!
# Streamed output is a prefix of the output

A streaming job hashes a chunk of its output and keeps it until the consumer's channel has room, and
reads no further chunk meanwhile. So while the channel is open, what was hashed is what was handed over
and the chunk that is kept (`Relayed.whole`). Once the channel is closed nothing is handed over any more,
and whatever way the loop ends, at most the chunk that is kept is lost: what was handed over stays a
prefix. The loop ends at the end of the stream only with no chunk kept.
-/

namespace Sush

open Lib (Channel)

/-- The client that became the consumer, if that is what was seen. -/
def JobOut.accepted? : JobOut → Option (ℕ × Access)
  | .accepted client access => some (client, access)
  | _ => none

namespace Job

def accepted (outs : List JobOut) : List (ℕ × Access) := outs.filterMap JobOut.accepted?

variable {s t : Job} {e : JobStep} {outs new : List JobOut} {buf : List UInt8}

theorem accepted_append : accepted (outs ++ new) = accepted outs ++ accepted new := List.filterMap_append

/-! ## The invariant -/

/-- What was handed over and hashed, and to whom. -/
structure Relayed (s : Job) (outs : List JobOut) : Prop where
  mode : s.mode = .streamOutput
  hashed : s.stdout.hasher.bytes = (chunks .stdout outs).flatten
  prefixed : s.output.sent <+: chunks .stdout outs
  /-- Nothing is lost while the channel is open, until a loop that was left early gives its chunk up. -/
  whole : s.output.closed = false → s.exit = none ∨ s.exit = some .streamDone ∨ s.pending ≠ none →
    chunks .stdout outs = s.output.sent ++ s.pending.toList
  done : s.exit = some .streamDone → s.pending = none
  readWrite : ∀ client access, (client, access) ∈ accepted outs → access = .readWrite
  /-- There is at most one consumer, and before there is one nobody is attached. -/
  single : (accepted outs).length ≤ 1
  unattached : s.attached = false → accepted outs = []
  /-- The consumer's task is handed these clients and no others. -/
  sockets : s.socket.sent = (accepted outs).map Prod.fst

theorem relayed_start (limits : JobLimits) : Relayed (start .streamOutput limits) [] where
  mode := rfl
  hashed := rfl
  prefixed := List.prefix_rfl
  whole _ _ := rfl
  done h := by cases h
  readWrite _ _ h := by cases h
  single := Nat.zero_le 1
  unattached _ := rfl
  sockets := rfl

namespace Relayed

variable (h : Relayed s outs)

include h

theorem streaming : s.streaming = true := by
  rw [Job.streaming, h.mode]
  rfl

/-- A step that hands nothing over, hashes nothing and accepts nobody. -/
theorem of_quiet (hmode : t.mode = s.mode) (hstdout : t.stdout.hasher = s.stdout.hasher)
    (hpending : t.pending = s.pending) (hattached : t.attached = s.attached)
    (hsocket : t.socket.sent = s.socket.sent) (hsent : t.output.sent = s.output.sent)
    (hclosed : s.output.closed = true → t.output.closed = true) (hexit : t.exit = s.exit)
    (hchunks : chunks .stdout new = []) (haccepted : accepted new = []) : Relayed t (outs ++ new) := by
  have hchunks' : chunks .stdout (outs ++ new) = chunks .stdout outs := by
    rw [chunks_append, hchunks, List.append_nil]
  have haccepted' : accepted (outs ++ new) = accepted outs := by
    rw [accepted_append, haccepted, List.append_nil]
  refine ⟨hmode.trans h.mode, ?_, ?_, ?_, ?_, ?_, ?_, ?_, ?_⟩
  · rw [hstdout, hchunks']
    exact h.hashed
  · rw [hsent, hchunks']
    exact h.prefixed
  · intro hopen
    have hopen' : s.output.closed = false := by
      rw [← Bool.not_eq_true]
      intro hclosed'
      rw [hclosed hclosed'] at hopen
      cases hopen
    rw [hexit, hpending, hchunks', hsent]
    exact h.whole hopen'
  · rw [hexit, hpending]
    exact h.done
  · rw [haccepted']
    exact h.readWrite
  · rw [haccepted']
    exact h.single
  · rw [hattached, haccepted']
    exact h.unattached
  · rw [hsocket, haccepted']
    exact h.sockets

/-- The loop goes on, or ends because nothing is left. -/
theorem loopHead (hexit : s.exit = none) : Relayed s.loopHead outs := by
  obtain ⟨exit, heq, hexit'⟩ := loopHead_eq s
  rw [heq]
  obtain rfl | ⟨rfl, -, hpending⟩ := hexit'
  · exact h
  · refine ⟨h.mode, h.hashed, h.prefixed, ?_, fun _ => hpending, h.readWrite, h.single, h.unattached,
      h.sockets⟩
    exact fun hopen _ => h.whole hopen (.inl hexit)

theorem leave {exit : Exit} (hexit : s.exit = none) (hearly : exit ≠ .streamDone) :
    Relayed { s with exit := some exit } outs := by
  refine ⟨h.mode, h.hashed, h.prefixed, ?_, ?_, h.readWrite, h.single, h.unattached, h.sockets⟩
  · exact fun hopen _ => h.whole hopen (.inl hexit)
  · intro hdone
    exact absurd (Option.some.inj hdone) hearly

theorem keep {io : JobIo} (hexit : s.exit = none) (hpending : s.pending = none) :
    Relayed { s with io, stdout := s.stdout.hash buf, pending := some buf }
      (outs ++ [.delivered .stdout buf]) := by
  have hchunks : chunks .stdout (outs ++ [.delivered .stdout buf]) = chunks .stdout outs ++ [buf] := by
    rw [chunks_append, chunks_delivered]
  have haccepted : accepted (outs ++ [.delivered .stdout buf]) = accepted outs := by
    rw [accepted_append]
    exact List.append_nil _
  refine ⟨h.mode, ?_, ?_, ?_, ?_, haccepted ▸ h.readWrite, haccepted ▸ h.single,
    haccepted ▸ h.unattached, haccepted ▸ h.sockets⟩
  · rw [hchunks, List.flatten_concat, ← h.hashed]
    rfl
  · rw [hchunks]
    exact h.prefixed.trans (List.prefix_append _ _)
  · intro hopen _
    have hwhole := h.whole hopen (.inl hexit)
    rw [hpending, Option.toList_none, List.append_nil] at hwhole
    rw [hchunks, hwhole]
    rfl
  · intro hdone
    rw [hexit] at hdone
    cases hdone

theorem hand {output : Channel (List UInt8)} (hpending : s.pending = some buf)
    (hsend : s.output.trySend buf = some output) : Relayed { s with output, pending := none } outs := by
  obtain ⟨hopen, -⟩ := Channel.trySend_eq_some hsend
  have hwhole : chunks .stdout outs = output.sent := by
    have hkept : s.pending ≠ none := by
      rw [hpending]
      exact Option.some_ne_none buf
    rw [h.whole hopen (.inr (.inr hkept)), hpending, Channel.sent_trySend hsend]
    rfl
  refine ⟨h.mode, h.hashed, ?_, ?_, fun _ => rfl, h.readWrite, h.single, h.unattached, h.sockets⟩
  · rw [hwhole]
  · exact fun _ _ => hwhole.trans (List.append_nil _).symm

/-- The chunk that was kept is dropped, because the channel is closed. -/
theorem drop (hclosed : s.output.closed = true) : Relayed { s with pending := none } outs := by
  refine ⟨h.mode, h.hashed, h.prefixed, ?_, fun _ => rfl, h.readWrite, h.single, h.unattached, h.sockets⟩
  intro hopen
  rw [hclosed] at hopen
  cases hopen

theorem lose {exit : Exit} (hexit : s.exit = some exit) (hpending : s.pending = some buf) :
    Relayed { s with pending := none } outs := by
  have hearly : exit ≠ .streamDone := by
    rintro rfl
    rw [h.done hexit] at hpending
    cases hpending
  refine ⟨h.mode, h.hashed, h.prefixed, ?_, fun _ => rfl, h.readWrite, h.single, h.unattached, h.sockets⟩
  rintro - (hnone | hdone | hkept)
  · rw [hexit] at hnone
    cases hnone
  · rw [hexit] at hdone
    exact absurd (Option.some.inj hdone) hearly
  · exact absurd rfl hkept

theorem accept {client : ℕ} {socket : Channel ℕ} (hattached : s.attached = false)
    (hsend : s.socket.trySend client = some socket) :
    Relayed { s with socket, attached := true } (outs ++ [.accepted client .readWrite]) := by
  have hnobody := h.unattached hattached
  have haccepted : accepted (outs ++ [.accepted client .readWrite]) = [(client, .readWrite)] := by
    rw [accepted_append, hnobody]
    rfl
  have hchunks : chunks .stdout (outs ++ [.accepted client .readWrite]) = chunks .stdout outs := by
    rw [chunks_append]
    exact List.append_nil _
  refine ⟨h.mode, hchunks ▸ h.hashed, ?_, ?_, h.done, ?_, ?_, ?_, ?_⟩
  · rw [hchunks]
    exact h.prefixed
  · rw [hchunks]
    exact h.whole
  · rw [haccepted]
    intro client' access hmem
    cases List.mem_singleton.1 hmem
    rfl
  · rw [haccepted]
    exact Nat.le_refl 1
  · intro hfalse
    cases hfalse
  · rw [haccepted]
    change socket.sent = [client]
    rw [Channel.sent_trySend hsend, h.sockets, hnobody]
    rfl

/-! ## Steps and runs -/

theorem branch {b : Branch} {turn : LoopTurn} (hexit : s.exit = none) (heffect : Effect s b turn) :
    Relayed (s.settle turn).1 (outs ++ (s.settle turn).2) := by
  cases heffect with
  | pending => exact (List.append_nil outs).symm ▸ h
  | next hsame =>
    have hquiet : Relayed _ (outs ++ []) := h.of_quiet hsame.mode (congrArg _ hsame.stdout)
      hsame.pending hsame.attached (congrArg _ hsame.socket) (congrArg _ hsame.output)
      (fun hclosed => hsame.output.symm ▸ hclosed) hsame.exit rfl rfl
    exact hquiet.loopHead (hsame.exit.trans hexit)
  | leave hsame hearly =>
    have hquiet : Relayed _ (outs ++ []) := h.of_quiet hsame.mode (congrArg _ hsame.stdout)
      hsame.pending hsame.attached (congrArg _ hsame.socket) (congrArg _ hsame.output)
      (fun hclosed => hsame.output.symm ▸ hclosed) hsame.exit rfl rfl
    exact hquiet.leave (hsame.exit.trans hexit) hearly
  | @recorded raw write stream buf size r t hrecords _ _ _ hwrote hexit' =>
    -- what a streaming job records is its error stream
    have hstderr : stream = .stderr := by
      cases stream with
      | stdout => exact absurd ⟨rfl, h.streaming⟩ hrecords
      | stderr => rfl
    subst hstderr
    have hstdout : t.stdout = s.stdout := congrFun hwrote.recording .stdout
    have hquiet : Relayed t (outs ++ [.delivered .stderr buf]) := h.of_quiet hwrote.mode (congrArg _ hstdout)
      hwrote.pending hwrote.attached (congrArg _ hwrote.socket) (congrArg _ hwrote.output)
      (fun hclosed => hwrote.output.symm ▸ hclosed) hexit' rfl rfl
    exact hquiet.loopHead (hexit'.trans hexit)
  | kept _ _ hpending => exact (h.keep hexit hpending).loopHead hexit
  | handed hpending hsend =>
    rw [settle, List.append_nil]
    exact (h.hand hpending hsend).loopHead hexit
  | dropped _ hclosed =>
    rw [settle, List.append_nil]
    exact (h.drop hclosed).loopHead hexit
  | accepted hattached hsend => exact (h.accept hattached hsend).loopHead hexit
  | played hmode _ =>
    rw [h.streaming] at hmode
    cases hmode

theorem step [Digest] (heffect : StepEffect s e t new) : Relayed t (outs ++ new) := by
  cases heffect with
  | same hsame =>
    exact h.of_quiet hsame.mode (congrArg _ hsame.stdout) hsame.pending hsame.attached
      (congrArg _ hsame.socket) (congrArg _ hsame.output)
      (fun hclosed => hsame.output.symm ▸ hclosed) hsame.exit rfl rfl
  | branch hexit hbranch => exact h.branch hexit hbranch
  | served hserved =>
    exact h.of_quiet hserved.mode (congrArg _ hserved.stdout) hserved.pending hserved.attached
      hserved.socketSent hserved.sent hserved.closed hserved.exit rfl rfl
  | handedOver _ hpending hsend =>
    rw [List.append_nil]
    exact h.hand hpending hsend
  | lost hexit hpending =>
    rw [List.append_nil]
    exact h.lose hexit hpending
  | reported _ _ _ => exact h.of_quiet rfl rfl rfl rfl rfl rfl id rfl rfl rfl

end Relayed

variable [Digest] {limits : JobLimits}

theorem relayed_run (steps : List JobStep) :
    Relayed (run .streamOutput limits steps).1 (run .streamOutput limits steps).2 := by
  refine Lib.run_invariant Job.step (P := fun s _ outs => Relayed s outs) ?_ (relayed_start limits) steps
  intro s _ outs e h
  exact h.step (effect_step s e)

theorem ended_step (hexit : s.exit = some .streamDone) (hpending : s.pending = none)
    (heffect : StepEffect s e t new) :
    t.exit = some .streamDone ∧ t.pending = none ∧ t.output.sent = s.output.sent ∧
      chunks .stdout new = [] := by
  cases heffect with
  | same hsame =>
    exact ⟨hsame.exit.trans hexit, hsame.pending.trans hpending, congrArg _ hsame.output, rfl⟩
  | branch hrunning _ =>
    rw [hexit] at hrunning
    cases hrunning
  | served hserved =>
    exact ⟨hserved.exit.trans hexit, hserved.pending.trans hpending, hserved.sent, rfl⟩
  | handedOver _ hkept _ =>
    rw [hpending] at hkept
    cases hkept
  | lost _ hkept =>
    rw [hpending] at hkept
    cases hkept
  | reported _ _ _ => exact ⟨hexit, hpending, rfl, rfl⟩

theorem whole_run {pre : List JobStep} (post : List JobStep)
    (hexit : (run .streamOutput limits pre).1.exit = some .streamDone)
    (hopen : (run .streamOutput limits pre).1.output.closed = false) :
    (run .streamOutput limits (pre ++ post)).1.output.sent =
      chunks .stdout (run .streamOutput limits (pre ++ post)).2 := by
  have hrelayed : Relayed (run .streamOutput limits pre).1 _ := relayed_run pre
  have hpending := hrelayed.done hexit
  have hwhole := hrelayed.whole hopen (.inr (.inl hexit))
  rw [hpending, Option.toList_none, List.append_nil] at hwhole
  have hpost := Lib.run_invariant Job.step
    (P := fun s _ new => s.exit = some .streamDone ∧ s.pending = none ∧
      s.output.sent = (run .streamOutput limits pre).1.output.sent ∧ chunks .stdout new = [])
    (fun s _ new e hs => by
      obtain ⟨hexit, hpending, hsent, hchunks⟩ := hs
      obtain ⟨hexit', hpending', hsent', hchunks'⟩ := ended_step hexit hpending (effect_step s e)
      refine ⟨hexit', hpending', hsent'.trans hsent, ?_⟩
      rw [chunks_append, hchunks, hchunks', List.append_nil])
    ⟨hexit, hpending, rfl, rfl⟩ post
  obtain ⟨-, -, hsent, hchunks⟩ := hpost
  rw [run_append]
  dsimp only
  rw [hsent, chunks_append, hchunks, List.append_nil, hwhole]

end Job

open Job

/-- **Streamed output is a faithful prefix.** Whatever happens to a streaming job, the chunks handed to the
consumer's channel are a prefix of the chunks that were read from its output, and those, joined, are what
was hashed. At most one client becomes the consumer, one with read-write access, and the consumer's task
is handed no other. If the loop ended at the end of the stream with the channel open until then,
everything was handed over, and what the consumer was handed hashes to the reported hash. -/
theorem streamed_output_prefix [Digest] (limits : JobLimits) (steps : List JobStep) :
    (run .streamOutput limits steps).1.output.sent <+: readChunks .streamOutput limits .stdout steps ∧
    (run .streamOutput limits steps).1.stdout.hasher.bytes =
      (readChunks .streamOutput limits .stdout steps).flatten ∧
    (accepted (run .streamOutput limits steps).2).length ≤ 1 ∧
    (∀ client access, (client, access) ∈ accepted (run .streamOutput limits steps).2 →
      access = .readWrite) ∧
    (run .streamOutput limits steps).1.socket.sent =
      (accepted (run .streamOutput limits steps).2).map Prod.fst ∧
    ∀ pre post, steps = pre ++ post → (run .streamOutput limits pre).1.exit = some .streamDone →
      (run .streamOutput limits pre).1.output.closed = false →
      (run .streamOutput limits steps).1.output.sent = readChunks .streamOutput limits .stdout steps ∧
      ∀ result output, (run .streamOutput limits steps).1.report = some (result, output) →
        output.stdoutHash = .ofFin (hash (run .streamOutput limits steps).1.output.sent.flatten) := by
  have hrelayed : Relayed (run .streamOutput limits steps).1 _ := relayed_run steps
  have hchunks (steps : List JobStep) :
      chunks .stdout (run .streamOutput limits steps).2 = readChunks .streamOutput limits .stdout steps :=
    chunks_run .streamOutput limits steps
  refine ⟨hchunks steps ▸ hrelayed.prefixed, hchunks steps ▸ hrelayed.hashed, hrelayed.single,
    hrelayed.readWrite, hrelayed.sockets, ?_⟩
  rintro pre post rfl hexit hopen
  have hwhole := whole_run post hexit hopen
  refine ⟨hwhole.trans (hchunks _), ?_⟩
  intro result output hreport
  obtain ⟨-, rfl, -⟩ := reported_run .streamOutput limits (pre ++ post) result output hreport
  rw [hwhole, ← hrelayed.hashed]
  rfl

end Sush

namespace Sush.Plain

open Job

attribute [local instance] digest

/-- Two chunks through the channel, to a consumer that attached between them, and the end of the stream. -/
def streamedToEnd : List JobStep :=
  [.branch (.read (.bytes .stdout [1, 2]) .done), .branch .permit, .branch (.attach 7 .readWrite (.played 0)),
    .consumer .takeSocket, .consumer .takeChunk, .branch (.read (.bytes .stdout [3]) .done),
    .branch .permit, .branch (.read (.bytes .stdout []) .done), .branch (.read (.bytes .stderr []) .done),
    .branch (.read .exhausted .done), .reaped (.ok ⟨some 0, none⟩)]

theorem streamed_output_prefix_toEnd :
    (run .streamOutput ⟨0, 0, 3⟩ streamedToEnd).1.output.sent = [[1, 2], [3]] ∧
    (run .streamOutput ⟨0, 0, 3⟩ streamedToEnd).1.exit = some .streamDone ∧
    (run .streamOutput ⟨0, 0, 3⟩ streamedToEnd).1.report.isSome ∧
    ∀ result output, (run .streamOutput ⟨0, 0, 3⟩ streamedToEnd).1.report = some (result, output) →
      output.stdoutHash = .ofFin (hash [1, 2, 3]) := by
  have hsent : (run .streamOutput ⟨0, 0, 3⟩ streamedToEnd).1.output.sent = [[1, 2], [3]] := by rfl
  have hexit : (run .streamOutput ⟨0, 0, 3⟩ streamedToEnd).1.exit = some .streamDone := by rfl
  have hopen : (run .streamOutput ⟨0, 0, 3⟩ streamedToEnd).1.output.closed = false := by rfl
  obtain ⟨-, -, -, -, -, hdone⟩ := streamed_output_prefix ⟨0, 0, 3⟩ streamedToEnd
  obtain ⟨-, hhash⟩ := hdone streamedToEnd [] (List.append_nil _).symm hexit hopen
  refine ⟨hsent, hexit, by rfl, ?_⟩
  intro result output hreport
  have h := hhash result output hreport
  rw [hsent] at h
  exact h

end Sush.Plain
