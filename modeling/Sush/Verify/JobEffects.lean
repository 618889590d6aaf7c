import Sush.Server.Job

/-!
# What a step of a job can do

Most of what happens to a job leaves its output alone: `Same`. A branch of the loop otherwise records a
chunk, keeps one for the consumer, hands one over, drops one that nobody will take, accepts a consumer,
or plays back: `Effect` has one case for each, and `effect_branch` is the only place where the branches
are taken apart. Reading never changes the size of a buffer or whether a stream is recorded
(`JobIo.mark_turn`).

What is seen to be delivered is what the turns of `read_output` returned, each chunk once and in order
(`chunks_run`). What a job reports is computed from its state when the loop has ended, and that part of the
state does not change afterwards: `reported_run`.
-/

namespace Sush

open Lib (Channel File)

/-! ## Streams -/

namespace JobIo

/-- The size of the buffer of a stream, and whether the stream is recorded. -/
def mark (io : JobIo) (stream : JobOutputStream) : Option (ℕ × Bool) :=
  (io.stream stream).map fun state => (state.bufSize, state.recording)

variable {io io' : JobIo} {stream : JobOutputStream}

theorem stream_of_readable {state : StreamState} (h : io.readable stream = some state) :
    io.stream stream = some state := by
  cases io with
  | interactive pty => exact h
  | batch stdout stderr => exact (Option.filter_eq_some_iff.1 h).1

/-- Only what `mark` leaves out changes when a stream is set to such a state. -/
theorem mark_setStream {state state' : StreamState} (h : io.stream stream = some state)
    (hsize : state'.bufSize = state.bufSize) (hrecording : state'.recording = state.recording) :
    (io.setStream stream state').mark = io.mark := by
  funext other
  cases io with
  | interactive pty =>
    cases stream with
    | stdout =>
      cases h
      cases other with
      | stdout => simp only [mark, stream, setStream, Option.map_some, hsize, hrecording]
      | stderr => rfl
    | stderr => cases h
  | batch stdout stderr =>
    cases stream with
    | stdout =>
      cases h
      cases other with
      | stdout => simp only [mark, stream, setStream, Option.map_some, hsize, hrecording]
      | stderr => rfl
    | stderr =>
      cases h
      cases other with
      | stdout => rfl
      | stderr => simp only [mark, stream, setStream, Option.map_some, hsize, hrecording]

theorem read_state (state : StreamState) (bytes : List UInt8) :
    (state.read bytes).1.bufSize = state.bufSize ∧ (state.read bytes).1.recording = state.recording := by
  unfold StreamState.read
  split
  · exact ⟨rfl, rfl⟩
  · split
    · exact ⟨rfl, rfl⟩
    · exact ⟨rfl, rfl⟩

theorem read_eq_some {state : StreamState} {bytes buf : List UInt8}
    (h : (state.read bytes).2 = some buf) : buf = bytes ∧ state.recording = true := by
  unfold StreamState.read at h
  split at h
  · cases h
  · split at h
    · cases h
    · next hrecording => exact ⟨(Option.some.inj h).symm, Bool.eq_true_of_not_eq_false hrecording⟩

theorem afterNothing_eq {read : ReadOutput} (h : io.afterNothing = some read) :
    read = .output [] .stdout := by
  cases io with
  | interactive pty =>
    simp only [afterNothing] at h
    split at h
    · exact (Option.some.inj h).symm
    · cases h
  | batch stdout stderr => cases h

theorem afterError_eq (io : JobIo) (eio : Bool) :
    io.afterError eio = .output [] .stdout ∨ io.afterError eio = .error := by
  cases io with
  | interactive pty =>
    cases eio with
    | false => exact .inr rfl
    | true => exact .inl rfl
  | batch stdout stderr => exact .inr rfl

/-- A turn that is no chunk is the end of the output or an error, or is followed by another turn. -/
inductive Turned (io : JobIo) : Option ReadOutput → Prop
  | nothing : Turned io none
  | ended : Turned io (some (.output [] .stdout))
  | error : Turned io (some .error)
  /-- A chunk is no longer than the buffer, and from a stream that is recorded. -/
  | chunk {buf : List UInt8} {stream : JobOutputStream} {size : ℕ} (hlen : buf.length ≤ size)
      (hmark : io.mark stream = some (size, true)) : Turned io (some (.output buf stream))

/-- **What a turn of `read_output` does.** -/
theorem turn_cases {raw : RawRead} {read : Option ReadOutput} (h : io.turn raw = some (io', read)) :
    io'.mark = io.mark ∧ Turned io read := by
  cases raw with
  | bytes stream bytes =>
    simp only [turn] at h
    cases hreadable : io.readable stream with
    | none =>
      rw [hreadable] at h
      cases h
    | some state =>
      have hstream := stream_of_readable hreadable
      obtain ⟨hsize, hrecording⟩ := read_state state bytes
      have hmark := mark_setStream hstream hsize hrecording
      rw [hreadable] at h
      dsimp only at h
      split at h
      · next hlen =>
        cases hread : (state.read bytes).2 with
        | none =>
          rw [hread] at h
          cases h
          refine ⟨hmark, ?_⟩
          cases hafter : (io.setStream stream (state.read bytes).1).afterNothing with
          | none => exact .nothing
          | some read =>
            rw [afterNothing_eq hafter]
            exact .ended
        | some buf =>
          obtain ⟨rfl, htrue⟩ := read_eq_some hread
          rw [hread] at h
          cases h
          refine ⟨hmark, .chunk hlen ?_⟩
          simp only [mark, hstream, Option.map_some, htrue]
      · cases h
  | failed stream eio =>
    simp only [turn] at h
    cases hreadable : io.readable stream with
    | none =>
      rw [hreadable] at h
      cases h
    | some state =>
      rw [hreadable] at h
      cases h
      refine ⟨rfl, ?_⟩
      obtain hend | herror := io.afterError_eq eio
      · rw [hend]
        exact .ended
      · rw [herror]
        exact .error
  | exhausted =>
    cases io with
    | interactive pty => cases h
    | batch stdout stderr =>
      simp only [turn] at h
      split at h
      · cases h
        exact ⟨rfl, .ended⟩
      · cases h

theorem mark_stopRecording {size : ℕ} {b : Bool} (h : io.mark stream = some (size, b)) :
    (io.stopRecording stream).mark = Function.update io.mark stream (some (size, false)) := by
  funext other
  cases io with
  | interactive pty =>
    cases stream with
    | stdout =>
      cases h
      cases other with
      | stdout => rfl
      | stderr => rfl
    | stderr => cases h
  | batch stdout stderr =>
    cases stream with
    | stdout =>
      cases h
      cases other with
      | stdout => rfl
      | stderr => rfl
    | stderr =>
      cases h
      cases other with
      | stdout => rfl
      | stderr => rfl

end JobIo

/-! ## What is seen -/

/-- The chunk of a stream that was delivered, if that is what was seen. -/
def JobOut.chunk (stream : JobOutputStream) : JobOut → Option (List UInt8)
  | .delivered other buf => if other = stream then some buf else none
  | _ => none

namespace Job

def chunks (stream : JobOutputStream) (outs : List JobOut) : List (List UInt8) :=
  outs.filterMap (JobOut.chunk stream)

section

variable {outs new : List JobOut} {stream other : JobOutputStream} {buf : List UInt8}

theorem chunks_append : chunks stream (outs ++ new) = chunks stream outs ++ chunks stream new :=
  List.filterMap_append

@[simp] theorem chunks_delivered : chunks stream [.delivered stream buf] = [buf] := by
  simp [chunks, JobOut.chunk]

theorem chunks_delivered_of_ne (h : other ≠ stream) : chunks stream [.delivered other buf] = [] := by
  simp [chunks, JobOut.chunk, h]

end

/-! ## Branches -/

/-- Nothing happened to the job's output, or to who takes it. -/
structure Same (s t : Job) : Prop where
  mode : t.mode = s.mode
  maxFsize : t.maxFsize = s.maxFsize
  mark : t.io.mark = s.io.mark
  stdout : t.stdout = s.stdout
  stderr : t.stderr = s.stderr
  fatal : t.fatal = s.fatal
  pending : t.pending = s.pending
  attached : t.attached = s.attached
  socket : t.socket = s.socket
  output : t.output = s.output
  consumer : t.consumer = s.consumer
  exit : t.exit = s.exit
  report : t.report = s.report

/-- The recording of a stream is now `r`, and a stream over its limit is not recorded any more. -/
structure Wrote (s : Job) (stream : JobOutputStream) (size : ℕ) (r : Recording) (t : Job) : Prop where
  mode : t.mode = s.mode
  maxFsize : t.maxFsize = s.maxFsize
  recording : t.recording = Function.update s.recording stream r
  limit : (r.hasher.count > s.maxFsize ∧
      t.fatal = s.fatal.or (some (.outputLimitExceeded stream s.maxFsize)) ∧
      t.io.mark = Function.update s.io.mark stream (some (size, false))) ∨
    (¬r.hasher.count > s.maxFsize ∧ t.fatal = s.fatal ∧ t.io.mark = s.io.mark)
  pending : t.pending = s.pending
  attached : t.attached = s.attached
  socket : t.socket = s.socket
  output : t.output = s.output
  report : t.report = s.report

/-- The output file was read, or at least another position was sought. -/
structure Replayed (s : Job) (playback : Playback) (t : Job) : Prop where
  mode : t.mode = s.mode
  maxFsize : t.maxFsize = s.maxFsize
  mark : t.io.mark = s.io.mark
  hasher : t.stdout.hasher = s.stdout.hasher
  contents : t.stdout.file.contents = s.stdout.file.contents
  /-- A playback that succeeds goes back to the end. -/
  atEnd : ∀ len, playback = .played len → s.stdout.file.AtEnd → t.stdout.file.AtEnd
  stderr : t.stderr = s.stderr
  fatal : t.fatal = s.fatal
  pending : t.pending = s.pending
  attached : t.attached = s.attached
  output : t.output = s.output
  exit : t.exit = s.exit
  report : t.report = s.report

/-- What a branch can do. -/
inductive Effect (s : Job) : Branch → LoopTurn → Prop
  | pending {b : Branch} : Effect s b .pending
  | next {b : Branch} {t : Job} (hsame : Same s t) : Effect s b (.next t [])
  | leave {b : Branch} {exit : Exit} {t : Job} (hsame : Same s t) (hexit : exit ≠ .streamDone) :
      Effect s b (.leave exit t)
  | recorded {raw : RawRead} {write : Write} {stream : JobOutputStream} {buf : List UInt8} {size : ℕ}
      {r : Recording} {t : Job} (hrecords : ¬(stream = .stdout ∧ s.streaming = true))
      (hlen : buf.length ≤ size) (hmark : s.io.mark stream = some (size, true))
      (hwrite : (s.recording stream).write buf write = some r) (hwrote : Wrote s stream size r t)
      (hexit : t.exit = s.exit) : Effect s (.read raw write) (.next t [.delivered stream buf])
  | kept {raw : RawRead} {write : Write} {buf : List UInt8} {io : JobIo} (hstreaming : s.streaming = true)
      (hio : io.mark = s.io.mark) (hpending : s.pending = none) :
      Effect s (.read raw write)
        (.next { s with io, stdout := s.stdout.hash buf, pending := some buf } [.delivered .stdout buf])
  | handed {buf : List UInt8} {output : Channel (List UInt8)} (hpending : s.pending = some buf)
      (hsend : s.output.trySend buf = some output) :
      Effect s .permit (.next { s with output, pending := none } [])
  | dropped {buf : List UInt8} (hpending : s.pending = some buf) (hclosed : s.output.closed = true) :
      Effect s .permit (.next { s with pending := none } [])
  | accepted {client : ℕ} {playback : Playback} {socket : Channel ℕ} (hattached : s.attached = false)
      (hsend : s.socket.trySend client = some socket) :
      Effect s (.attach client .readWrite playback)
        (.next { s with socket, attached := true } [.accepted client .readWrite])
  | played {client : ℕ} {access : Access} {playback : Playback} {t : Job} (hmode : s.streaming = false)
      (hplayed : Replayed s playback t) : Effect s (.attach client access playback) (.next t [])

theorem Same.aside (s : Job) (clients : List Client) (nextClientId kills : ℕ) (killed dead eof stop : Bool) :
    Same s { s with clients, nextClientId, kills, killed, dead, eof, stop } :=
  ⟨rfl, rfl, rfl, rfl, rfl, rfl, rfl, rfl, rfl, rfl, rfl, rfl, rfl⟩

theorem Same.refl (s : Job) : Same s s := .aside s ..

section

variable {s : Job} {buf : List UInt8} {stream : JobOutputStream} {write : Write}

theorem deliver_of_kept (h : stream = .stdout ∧ s.streaming = true) :
    s.deliver buf stream write =
      .next { s with stdout := s.stdout.hash buf, pending := some buf } [.delivered stream buf] :=
  if_pos h

theorem deliver_of_write {r : Recording} (h : ¬(stream = .stdout ∧ s.streaming = true))
    (hwrite : (s.recording stream).write buf write = some r) :
    s.deliver buf stream write =
      .next (((s.setRecording stream r).cancelOn write).checkLimit stream) [.delivered stream buf] := by
  rw [deliver, if_neg h, hwrite]

theorem deliver_of_no_write (h : ¬(stream = .stdout ∧ s.streaming = true))
    (hwrite : (s.recording stream).write buf write = none) : s.deliver buf stream write = .pending := by
  rw [deliver, if_neg h, hwrite]

theorem recording_io (s : Job) (io : JobIo) (stream : JobOutputStream) :
    Job.recording { s with io } stream = s.recording stream := by
  cases stream with
  | stdout => rfl
  | stderr => rfl

theorem recording_setRecording (s : Job) (stream : JobOutputStream) (r : Recording) :
    (s.setRecording stream r).recording = Function.update s.recording stream r := by
  funext other
  cases stream with
  | stdout =>
    cases other with
    | stdout => rfl
    | stderr => rfl
  | stderr =>
    cases other with
    | stdout => rfl
    | stderr => rfl

theorem cancelOn_setRecording (s : Job) (stream : JobOutputStream) (r : Recording) (write : Write) :
    ∃ stdout stderr stop, (s.setRecording stream r).cancelOn write = { s with stdout, stderr, stop } ∧
      ((s.setRecording stream r).cancelOn write).recording = Function.update s.recording stream r := by
  rw [← recording_setRecording]
  cases write with
  | done =>
    cases stream with
    | stdout => exact ⟨_, _, _, rfl, rfl⟩
    | stderr => exact ⟨_, _, _, rfl, rfl⟩
  | failed file =>
    cases stream with
    | stdout => exact ⟨_, _, true, rfl, funext fun other => by cases other <;> rfl⟩
    | stderr => exact ⟨_, _, true, rfl, funext fun other => by cases other <;> rfl⟩

/-- What `deliver` does to the state when it records. -/
theorem wrote_checkLimit {size : ℕ} {io : JobIo} {r : Recording} (hio : io.mark = s.io.mark)
    (hmark : s.io.mark stream = some (size, true)) :
    Wrote s stream size r ((({ s with io }.setRecording stream r).cancelOn write).checkLimit stream) := by
  obtain ⟨stdout, stderr, stop, heq, hrecording⟩ := cancelOn_setRecording { s with io } stream r write
  have hsame : Job.recording { s with io } = s.recording := funext (recording_io s io)
  rw [hsame, heq] at hrecording
  have hcount : Job.recording { s with io, stdout, stderr, stop } stream = r := by
    rw [hrecording, Function.update_self]
  rw [heq]
  unfold checkLimit
  rw [hcount]
  split
  · next hover =>
    have hstopped : (io.stopRecording stream).mark = Function.update s.io.mark stream (some (size, false)) := by
      rw [← hio] at hmark ⊢
      exact JobIo.mark_stopRecording hmark
    refine ⟨rfl, rfl, ?_, .inl ⟨hover, rfl, hstopped⟩, rfl, rfl, rfl, rfl, rfl⟩
    rw [← hrecording]
    exact funext fun other => by cases other <;> rfl
  · next hunder => exact ⟨rfl, rfl, hrecording, .inr ⟨hunder, rfl, hio⟩, rfl, rfl, rfl, rfl, rfl⟩

theorem exit_checkLimit (s : Job) (stream : JobOutputStream) (r : Recording) (write : Write) :
    (((s.setRecording stream r).cancelOn write).checkLimit stream).exit = s.exit := by
  obtain ⟨stdout, stderr, stop, heq, -⟩ := cancelOn_setRecording s stream r write
  rw [heq]
  unfold checkLimit
  split
  · rfl
  · rfl

theorem effect_deliver {raw : RawRead} {size : ℕ} {io : JobIo} (hpending : s.pending = none)
    (hio : io.mark = s.io.mark) (hlen : buf.length ≤ size) (hmark : s.io.mark stream = some (size, true)) :
    Effect s (.read raw write) (deliver { s with io } buf stream write) := by
  by_cases hkept : stream = .stdout ∧ s.streaming = true
  · rw [deliver_of_kept (s := { s with io }) hkept]
    obtain ⟨rfl, hstreaming⟩ := hkept
    exact .kept hstreaming hio hpending
  · cases hwrite : (s.recording stream).write buf write with
    | none =>
      rw [deliver_of_no_write (s := { s with io }) hkept (by rw [recording_io, hwrite])]
      exact .pending
    | some r =>
      rw [deliver_of_write (s := { s with io }) hkept (by rw [recording_io, hwrite])]
      exact .recorded hkept hlen hmark hwrite (wrote_checkLimit hio hmark) (exit_checkLimit _ _ _ _)

end

theorem effect_readOutput (s : Job) (raw : RawRead) (write : Write) :
    Effect s (.read raw write) (s.readOutput raw write) := by
  unfold readOutput
  by_cases hready : s.pending.isNone ∧ s.eof = false
  · have hpending : s.pending = none := Option.isNone_iff_eq_none.1 hready.1
    rw [if_pos hready]
    cases hturn : s.io.turn raw with
    | none => exact .pending
    | some turned =>
      obtain ⟨io, read⟩ := turned
      obtain ⟨hio, hcases⟩ := JobIo.turn_cases hturn
      have hsame : ∀ eof, Same s { s with io, eof } := fun eof =>
        ⟨rfl, rfl, hio, rfl, rfl, rfl, rfl, rfl, rfl, rfl, rfl, rfl, rfl⟩
      cases hcases with
      | nothing => exact .next (hsame s.eof)
      | ended =>
        simp only [onRead, if_true]
        split
        · exact .next (hsame true)
        · exact .leave (hsame s.eof) (by decide)
      | error =>
        simp only [onRead]
        split
        · exact .next (hsame true)
        · exact .leave (hsame s.eof) (by decide)
      | @chunk buf stream size hlen hmark =>
        simp only [onRead]
        split
        · split
          · exact .next (hsame true)
          · exact .leave (hsame s.eof) (by decide)
        · exact effect_deliver hpending hio hlen hmark
  · rw [if_neg hready]
    exact .pending

theorem effect_permit (s : Job) : Effect s .permit s.permit := by
  unfold permit
  cases hpending : s.pending with
  | none => exact .pending
  | some buf =>
    dsimp only
    split
    · next hclosed => exact .dropped hpending hclosed
    · cases hsend : s.output.trySend buf with
      | none => exact .pending
      | some output => exact .handed hpending hsend

theorem playbackBuffer_eq_some {file file' : File} {len size : ℕ} {buffer : Option (List UInt8)}
    (hlen : len ≤ file.contents.length) (h : playbackBuffer file len size = some (buffer, file')) :
    file'.contents = file.contents ∧ (file.AtEnd → file'.AtEnd) := by
  unfold playbackBuffer at h
  dsimp only at h
  split at h
  · cases h
    exact ⟨rfl, id⟩
  · have hle : min len size ≤ file.contents.length := le_trans (Nat.min_le_left _ _) hlen
    rw [File.readExact_seekEnd hle] at h
    cases h
    exact ⟨rfl, fun _ => rfl⟩

theorem replayed_playBack {s t : Job} {playback : Playback} {initial : Option (List UInt8)}
    (h : s.playBack playback = some (initial, t)) : Replayed s playback t := by
  cases playback with
  | played len =>
    simp only [playBack] at h
    split at h
    · next hlen =>
      obtain ⟨⟨buffer, file⟩, hbuffer, heq⟩ := Option.map_eq_some_iff.1 h
      cases heq
      obtain ⟨hcontents, hend⟩ := playbackBuffer_eq_some hlen hbuffer
      exact ⟨rfl, rfl, rfl, rfl, hcontents, fun _ _ => hend, rfl, rfl, rfl, rfl, rfl, rfl, rfl⟩
    · cases h
  | failed position restored =>
    have hfailed : ∀ len, Playback.failed position restored ≠ .played len := fun _ h => by cases h
    cases restored with
    | true =>
      cases h
      exact ⟨rfl, rfl, rfl, rfl, rfl, fun len h => absurd h (hfailed len), rfl, rfl, rfl, rfl, rfl, rfl,
        rfl⟩
    | false =>
      cases h
      exact ⟨rfl, rfl, rfl, rfl, rfl, fun len h => absurd h (hfailed len), rfl, rfl, rfl, rfl, rfl, rfl,
        rfl⟩

theorem effect_attach (s : Job) (client : ℕ) (access : Access) (playback : Playback) :
    Effect s (.attach client access playback) (s.attach client access playback) := by
  unfold attach
  split
  · split
    · unfold attachConsumer
      split
      · exact .next (.refl s)
      · next hmay =>
        obtain ⟨haccess, hattached⟩ := not_or.1 hmay
        obtain rfl := not_not.1 haccess
        cases hsend : s.socket.trySend client with
        | none => exact .next (.refl s)
        | some socket => exact .accepted (Bool.eq_false_iff.2 hattached) hsend
    · next hmode =>
      unfold attachClient
      cases hplay : s.playBack playback with
      | none => exact .pending
      | some played =>
        obtain ⟨initial, t⟩ := played
        have hplayed := replayed_playBack hplay
        exact .played (Bool.eq_false_iff.2 hmode) ⟨hplayed.mode, hplayed.maxFsize, hplayed.mark,
          hplayed.hasher, hplayed.contents, hplayed.atEnd, hplayed.stderr, hplayed.fatal,
          hplayed.pending, hplayed.attached, hplayed.output, hplayed.exit, hplayed.report⟩
  · exact .pending

theorem effect_nextClient (s : Job) (next : FromClients) :
    Effect s (.client next) (s.nextClient next) := by
  have hremoved (id : ℕ) : Same s (s.removeClient id) := .aside s ..
  unfold nextClient
  split
  · cases next with
    | disconnected => exact .next (.refl s)
    | failed id => exact .next (hremoved id)
    | message id message =>
      cases message with
      | malformed => exact .next (hremoved id)
      | close =>
        dsimp only
        split
        · exact .next (.refl s)
        · exact .next (hremoved id)
      | windowChange => exact .next (.refl s)
      | data => exact .next (.refl s)
      | ignore => exact .next (.refl s)
  · exact .pending

/-- **What a branch of the loop does.** -/
theorem effect_branch (s : Job) (b : Branch) : Effect s b (s.branch b) := by
  cases b with
  | read raw write => exact effect_readOutput s raw write
  | permit => exact effect_permit s
  | attach client access playback => exact effect_attach s client access playback
  | client next => exact effect_nextClient s next
  | cancelled =>
    simp only [branch]
    split
    · exact .next (.aside s ..)
    · exact .pending
  | killTimeout =>
    simp only [branch]
    split
    · exact .next (.aside s ..)
    · exact .pending
  | childDied =>
    simp only [branch]
    split
    · exact .next (.aside s ..)
    · exact .pending
  | drainLimit =>
    simp only [branch]
    split
    · exact .leave (.refl s) (by decide)
    · exact .pending
  | attachDeadline =>
    simp only [branch]
    split
    · exact .leave (.aside s ..) (by decide)
    · exact .pending
  | linger =>
    simp only [branch]
    split
    · exact .leave (.aside s ..) (by decide)
    · exact .pending
  | drainTimeout =>
    simp only [branch]
    split
    · exact .leave (.refl s) (by decide)
    · exact .pending

theorem loopHead_eq (s : Job) : ∃ exit, s.loopHead = { s with exit } ∧
    (exit = s.exit ∨ exit = some .streamDone ∧ s.attached = true ∧ s.pending = none) := by
  unfold loopHead
  split
  · next hdone => exact ⟨_, rfl, .inr ⟨rfl, hdone.2.1, Option.isNone_iff_eq_none.1 hdone.2.2⟩⟩
  · exact ⟨s.exit, rfl, .inl rfl⟩

/-! ## Steps -/

variable [Digest]

/-- What a turn of the consumer's task leaves alone: everything but its own state and its channels. What
was sent through the channel stays so, and a closed one stays closed. -/
structure Served (s t : Job) : Prop where
  mode : t.mode = s.mode
  maxFsize : t.maxFsize = s.maxFsize
  io : t.io = s.io
  stdout : t.stdout = s.stdout
  stderr : t.stderr = s.stderr
  fatal : t.fatal = s.fatal
  pending : t.pending = s.pending
  attached : t.attached = s.attached
  exit : t.exit = s.exit
  report : t.report = s.report
  socketSent : t.socket.sent = s.socket.sent
  sent : t.output.sent = s.output.sent
  closed : s.output.closed = true → t.output.closed = true

/-- What a step can do. -/
inductive StepEffect (s : Job) : JobStep → Job → List JobOut → Prop
  | same {e : JobStep} {t : Job} (hsame : Same s t) : StepEffect s e t []
  | branch {b : Branch} {turn : LoopTurn} (hexit : s.exit = none) (heffect : Effect s b turn) :
      StepEffect s (.branch b) (s.settle turn).1 (s.settle turn).2
  | served {act : ConsumerAct} {t : Job} (hserved : Served s t) : StepEffect s (.consumer act) t []
  | handedOver {exit : Exit} {buf : List UInt8} {output : Channel (List UInt8)} (hexit : s.exit = some exit)
      (hpending : s.pending = some buf) (hsend : s.output.trySend buf = some output) :
      StepEffect s .handOver { s with output, pending := none } []
  | lost {exit : Exit} {buf : List UInt8} (hexit : s.exit = some exit) (hpending : s.pending = some buf) :
      StepEffect s .handOver { s with pending := none } []
  | reported {exit : Exit} {exitStatus : Except String ExitStatus} (hexit : s.exit = some exit)
      (hpending : s.pending = none) (hreport : s.report = none) :
      StepEffect s (.reaped exitStatus)
        { s with report := some (s.result exitStatus, s.outputState) } []

omit [Digest] in
theorem Served.refl (s : Job) : Served s s :=
  ⟨rfl, rfl, rfl, rfl, rfl, rfl, rfl, rfl, rfl, rfl, rfl, rfl, id⟩

theorem effect_consume (s : Job) (act : ConsumerAct) :
    StepEffect s (.consumer act) (s.consume act) [] := by
  have hidle : StepEffect s (.consumer act) s [] := .served (.refl s)
  have hended : StepEffect s (.consumer act) { s with consumer := .ended, output := s.output.close } [] :=
    .served ⟨rfl, rfl, rfl, rfl, rfl, rfl, rfl, rfl, rfl, rfl, rfl, rfl, fun _ => rfl⟩
  cases act with
  | takeSocket =>
    simp only [consume]
    split
    · next client socket hconsumer hrecv =>
      obtain ⟨-, hsent, -⟩ := Channel.recv_eq_some hrecv
      exact .served ⟨rfl, rfl, rfl, rfl, rfl, rfl, rfl, rfl, rfl, rfl, hsent, rfl, id⟩
    · exact hidle
  | takeChunk =>
    simp only [consume]
    split
    · next client buf output hconsumer hrecv =>
      obtain ⟨-, hsent, hclosed⟩ := Channel.recv_eq_some hrecv
      refine .served ⟨rfl, rfl, rfl, rfl, rfl, rfl, rfl, rfl, rfl, rfl, rfl, hsent, ?_⟩
      exact fun h => hclosed.trans h
    · exact hidle
  | sent ok =>
    simp only [consume]
    split
    · split
      · exact .served ⟨rfl, rfl, rfl, rfl, rfl, rfl, rfl, rfl, rfl, rfl, rfl, rfl, id⟩
      · exact .served ⟨rfl, rfl, rfl, rfl, rfl, rfl, rfl, rfl, rfl, rfl, rfl, rfl, fun _ => rfl⟩
    · exact hidle
  | channelEnded =>
    simp only [consume]
    split
    · split
      · exact hended
      · exact hidle
    · split
      · exact hended
      · exact hidle
    · exact hidle

theorem effect_handOver {s : Job} {exit : Exit} (hexit : s.exit = some exit) :
    StepEffect s .handOver s.handOver [] := by
  unfold handOver
  cases hpending : s.pending with
  | none => exact .same (.refl s)
  | some buf =>
    dsimp only
    cases hsend : s.output.trySend buf with
    | none => exact .lost hexit hpending
    | some output => exact .handedOver hexit hpending hsend

/-- **What a step does.** -/
theorem effect_step (s : Job) (e : JobStep) : StepEffect s e (s.step e).1 (s.step e).2 := by
  cases e with
  | branch b =>
    simp only [step]
    split
    · next hexit => exact .branch (Option.isNone_iff_eq_none.1 hexit) (effect_branch s b)
    · exact .same (.refl s)
  | consumer act => exact effect_consume s act
  | cancel => exact .same (.aside s ..)
  | clientGone id => exact .same (.aside s ..)
  | handOver =>
    simp only [step]
    split
    · next hexit =>
      obtain ⟨exit, hexit⟩ := Option.isSome_iff_exists.1 hexit
      exact effect_handOver hexit
    · exact .same (.refl s)
  | reaped exitStatus =>
    simp only [step]
    split
    · next hready =>
      obtain ⟨hexit, hpending, hreport⟩ := hready
      obtain ⟨exit, hexit⟩ := Option.isSome_iff_exists.1 hexit
      exact .reported hexit (Option.isNone_iff_eq_none.1 hpending) (Option.isNone_iff_eq_none.1 hreport)
    · exact .same (.refl s)

/-! ## What is read -/

/-- The chunk of a stream that a step reads: the loop runs and waits for output, the turn of
`read_output` returns the chunk, and it is kept for the consumer, or writing it can have gone as it
did. -/
def readChunk? (stream : JobOutputStream) (s : Job) : JobStep → Option (List UInt8)
  | .branch (.read raw write) =>
    if s.exit.isNone ∧ s.pending.isNone ∧ s.eof = false then
      match s.io.turn raw with
      | some (_, some (.output buf other)) =>
        if other = stream ∧ buf ≠ [] ∧ (stream = .stdout ∧ s.streaming = true ∨
          ((s.recording stream).write buf write).isSome) then some buf else none
      | _ => none
    else none
  | _ => none

/-- The chunks of a stream that are read in a run, in order. -/
def readChunks (mode : JobMode) (limits : JobLimits) (stream : JobOutputStream)
    (steps : List JobStep) : List (List UInt8) :=
  Lib.seen step (readChunk? stream) (start mode limits) steps

section

variable {s : Job} {io : JobIo} {buf : List UInt8} {stream other : JobOutputStream} {write : Write}

omit [Digest] in
theorem chunks_deliver : chunks stream (s.settle (deliver { s with io } buf other write)).2 =
    (if other = stream ∧ (stream = .stdout ∧ s.streaming = true ∨
      ((s.recording stream).write buf write).isSome) then some buf else none).toList := by
  by_cases hne : other = stream
  · subst hne
    by_cases hkept : other = .stdout ∧ s.streaming = true
    · rw [deliver_of_kept (s := { s with io }) hkept, settle, chunks_delivered, if_pos ⟨rfl, .inl hkept⟩]
      rfl
    · cases hwrite : (s.recording other).write buf write with
      | none =>
        rw [deliver_of_no_write (s := { s with io }) hkept (by rw [recording_io, hwrite]), settle,
          if_neg (by simp [hkept])]
        rfl
      | some r =>
        rw [deliver_of_write (s := { s with io }) hkept (by rw [recording_io, hwrite]), settle,
          chunks_delivered, if_pos ⟨rfl, .inr rfl⟩]
        rfl
  · rw [if_neg fun h => hne h.1]
    unfold deliver
    split
    · exact chunks_delivered_of_ne hne
    · split
      · rfl
      · exact chunks_delivered_of_ne hne

omit [Digest] in
theorem chunks_readOutput (hexit : s.exit.isNone) (raw : RawRead) :
    chunks stream (s.settle (s.readOutput raw write)).2 =
      (s.readChunk? stream (.branch (.read raw write))).toList := by
  simp only [readOutput, readChunk?, hexit, true_and]
  split
  · cases s.io.turn raw with
    | none => rfl
    | some turned =>
      obtain ⟨io, read⟩ := turned
      cases read with
      | none => rfl
      | some read =>
        cases read with
        | error =>
          simp only [onRead]
          split <;> rfl
        | output buf other =>
          simp only [onRead]
          split
          · next hempty =>
            simp only [hempty, ne_eq, not_true_eq_false, false_and, and_false, if_false]
            split <;> rfl
          · next hsome =>
            rw [chunks_deliver]
            simp only [ne_eq, hsome, not_false_eq_true, true_and]
  · rfl

/-- **What is delivered is what was read.** -/
theorem chunks_step (s : Job) (e : JobStep) :
    chunks stream (s.step e).2 = (s.readChunk? stream e).toList := by
  cases e with
  | branch b =>
    cases hexit : s.exit.isNone with
    | false =>
      have hnone : s.readChunk? stream (.branch b) = none := by
        cases b <;> simp [readChunk?, hexit]
      rw [hnone, step, hexit]
      rfl
    | true =>
      simp only [step, hexit, if_true]
      cases b with
      | read raw write => exact chunks_readOutput hexit raw
      | _ =>
        generalize hturn : s.branch _ = turn
        have heffect := hturn ▸ effect_branch s _
        cases heffect <;> rfl
  | consumer act => rfl
  | cancel => rfl
  | clientGone id => rfl
  | handOver =>
    simp only [step]
    split <;> rfl
  | reaped exitStatus =>
    simp only [step]
    split <;> rfl

theorem chunks_run (mode : JobMode) (limits : JobLimits) (steps : List JobStep) :
    chunks stream (run mode limits steps).2 = readChunks mode limits stream steps :=
  Lib.filterMap_run chunks_step

end

/-! ## Reports -/

variable {s t : Job} {e : JobStep} {outs : List JobOut}

/-- A report is of the state as it is, and comes after the loop. -/
def Reported (s : Job) : Prop :=
  ∀ result output, s.report = some (result, output) →
    s.exit.isSome ∧ output = s.outputState ∧ ∃ exitStatus, result = s.result exitStatus

theorem Reported.of_eq (h : Reported s) (hstdout : t.stdout = s.stdout) (hstderr : t.stderr = s.stderr)
    (hfatal : t.fatal = s.fatal) (hexit : t.exit = s.exit) (hreport : t.report = s.report) :
    Reported t := by
  intro result output hr
  rw [hreport] at hr
  obtain ⟨hended, houtput, exitStatus, hresult⟩ := h result output hr
  refine ⟨hexit ▸ hended, ?_, exitStatus, ?_⟩
  · rw [houtput, outputState, outputState, hstdout, hstderr]
  · rw [hresult]
    unfold Job.result
    rw [hfatal]

omit [Digest] in
theorem report_settle {b : Branch} {turn : LoopTurn} (h : Effect s b turn) :
    (s.settle turn).1.report = s.report := by
  have hhead (t : Job) : t.loopHead.report = t.report := by
    obtain ⟨exit, heq, -⟩ := loopHead_eq t
    rw [heq]
  cases h with
  | pending => rfl
  | next hsame => exact (hhead _).trans hsame.report
  | leave hsame _ => exact hsame.report
  | recorded _ _ _ _ hwrote _ => exact (hhead _).trans hwrote.report
  | kept _ _ _ => exact hhead _
  | handed _ _ => exact hhead _
  | dropped _ _ => exact hhead _
  | accepted _ _ => exact hhead _
  | played _ hplayed => exact (hhead _).trans hplayed.report

theorem Reported.step (h : Reported s) (heffect : StepEffect s e t outs) : Reported t := by
  cases heffect with
  | same hsame => exact h.of_eq hsame.stdout hsame.stderr hsame.fatal hsame.exit hsame.report
  | branch hexit hbranch =>
    -- while the loop runs there is no report, and a branch makes none
    intro result output hreport
    rw [report_settle hbranch] at hreport
    have hended := (h result output hreport).1
    rw [hexit] at hended
    cases hended
  | served hserved =>
    exact h.of_eq hserved.stdout hserved.stderr hserved.fatal hserved.exit hserved.report
  | handedOver _ _ _ => exact h.of_eq rfl rfl rfl rfl rfl
  | lost _ _ => exact h.of_eq rfl rfl rfl rfl rfl
  | @reported exit exitStatus hexit _ _ =>
    intro result output hreport
    cases hreport
    exact ⟨Option.isSome_iff_exists.2 ⟨exit, hexit⟩, rfl, exitStatus, rfl⟩

theorem run_append (mode : JobMode) (limits : JobLimits) (pre post : List JobStep) :
    run mode limits (pre ++ post) =
      ((Lib.run Job.step (run mode limits pre).1 post).1,
        (run mode limits pre).2 ++ (Lib.run Job.step (run mode limits pre).1 post).2) :=
  Lib.run_append

/-- **A report is of the state as it is.** -/
theorem reported_run (mode : JobMode) (limits : JobLimits) (steps : List JobStep) :
    Reported (run mode limits steps).1 := by
  refine Lib.run_invariant Job.step (P := fun s _ _ => Reported s) ?_ ?_ steps
  · intro s _ _ e h
    exact h.step (effect_step s e)
  · intro result output h
    cases h

end Job

end Sush
