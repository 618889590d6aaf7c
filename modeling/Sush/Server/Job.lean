import Sush.Common.Signing
import Sush.Lib.Channel
import Sush.Lib.File
import Sush.Lib.Machine
import Sush.Server.Io

/-!
# The loop that runs a job

`server/src/job.rs`: the select loop `job`, the task `stream_output` that serves the consumer of a
streaming job, and what they share. `Job.step` is one thing that happens between two points where others
may: a branch of the loop, a turn of the consumer's task, a cancellation from outside, or what the loop's
function does after the loop. What is not enabled leaves everything as it is.

Time is not modelled: a timer may fire whenever its branch is enabled. So a run here is any interleaving
of the branches, whatever the deadlines. File operations may fail; a write that succeeds leaves the file
within the operating system's bound on its length. What clients are sent besides the playback, and what
they send to the job, is left out.
-/

namespace Sush

open Lib (Channel File)

/-- How much is played back to a client that attaches. -/
def interactiveJobBufferSize : ℕ := 0x10000

/-- How many times a failed SIGKILL is retried. -/
def killAttempts : ℕ := 3

/-- No file is longer than this. -/
def maxFileLength : ℕ := 2 ^ 63 - 1

/-! ## Processes -/

/-- How a process ended, as the operating system says. -/
structure ExitStatus where
  code : Option Int32
  signal : Option Int32
  deriving DecidableEq

def processExit (exitStatus : ExitStatus) : Except ProcessError Int32 :=
  match exitStatus.code with
  | some code => .ok code
  | none =>
    match exitStatus.signal with
    | some signal => .error (.killed signal)
    | none => .error .unknown

/-! ## Recordings -/

/-- What became of writing to a file: it succeeded, or it failed and left this file. -/
inductive Write where
  | done
  | failed (file : File)

/-- The file a stream is recorded in, and the hasher beside it. -/
structure Recording where
  file : File
  hasher : Hasher

namespace Recording

def new : Recording := ⟨.empty, .new⟩

def hash (r : Recording) (buf : List UInt8) : Recording := { r with hasher := r.hasher.update buf }

/-- Hash and write. There is no success beyond the longest file. -/
def write (r : Recording) (buf : List UInt8) : Write → Option Recording
  | .done =>
    if r.file.contents.length + buf.length ≤ maxFileLength then
      some { r.hash buf with file := r.file.writeAll buf }
    else none
  | .failed file => some { r.hash buf with file }

end Recording

/-- What became of a playback. -/
inductive Playback where
  /-- It succeeded. The length seen was this: a write may still have been under way. -/
  | played (len : ℕ)
  /-- It failed with the file at some position, and going back to the end succeeded or did not. -/
  | failed (position : ℕ) (restored : Bool)

/-- Fetch the last few bytes of the output file. -/
def playbackBuffer (file : File) (len outputBytes : ℕ) : Option (Option (List UInt8) × File) :=
  let outputBytes := min len outputBytes
  if outputBytes = 0 then some (none, file)
  else ((file.seekEnd outputBytes).readExact outputBytes).map fun (buffer, file) => (some buffer, file)

/-! ## States -/

/-- How the loop ended. -/
inductive Exit where
  /-- A stream was finished, and its consumer had taken every chunk. -/
  | streamDone
  /-- All output of a job that does not stream ended. -/
  | outputEnded
  | readError
  | drainLimit
  | attachDeadline
  | linger
  | drainTimeout
  deriving DecidableEq

/-- What `stream_output` is at. Sockets go by numbers. -/
inductive Consumer where
  | waiting
  | ready (client : ℕ)
  | sending (client : ℕ) (buf : List UInt8)
  /-- It failed to send, and cancelled the job. -/
  | failed
  /-- It ended with its channel, or was never spawned. -/
  | ended
  deriving DecidableEq

/-- A client in the mux. -/
structure Client where
  id : ℕ
  access : Access
  playback : Option (List UInt8)
  deriving DecidableEq

structure Job where
  mode : JobMode
  maxFsize : UInt64
  io : JobIo
  stdout : Recording
  stderr : Recording
  clients : List Client
  nextClientId : ℕ
  fatal : Option ProcessError
  killed : Bool
  kills : ℕ
  dead : Bool
  pending : Option (List UInt8)
  attached : Bool
  eof : Bool
  /-- The stop token was cancelled. -/
  stop : Bool
  /-- The channel that hands `stream_output` its socket. -/
  socket : Channel ℕ
  /-- The channel that hands it the chunks. -/
  output : Channel (List UInt8)
  consumer : Consumer
  exit : Option Exit
  /-- What the function returned. -/
  report : Option (Except ProcessError Int32 × JobOutputState)

/-- What a job is seen to do. -/
inductive JobOut where
  /-- A chunk was read, hashed, and recorded or kept for the consumer. -/
  | delivered (stream : JobOutputStream) (buf : List UInt8)
  /-- A client became the consumer. -/
  | accepted (client : ℕ) (access : Access)
  deriving DecidableEq

/-- What a branch of the loop does: it is not ready, it goes on, or it leaves the loop. -/
inductive LoopTurn where
  | pending
  | next (s : Job) (outs : List JobOut)
  | leave (exit : Exit) (s : Job)

namespace Job

/-- A job that was just spawned. -/
def start (mode : JobMode) (limits : JobLimits) : Job where
  mode
  maxFsize := limits.maxFsize
  io := .open mode
  stdout := .new
  stderr := .new
  clients := []
  nextClientId := 0
  fatal := none
  killed := false
  kills := 0
  dead := false
  pending := none
  attached := false
  eof := false
  stop := false
  socket := .empty 1
  output := .empty 1
  consumer := if mode = .streamOutput then .waiting else .ended
  exit := none
  report := none

def streaming (s : Job) : Bool := s.mode = .streamOutput

def recording (s : Job) : JobOutputStream → Recording
  | .stdout => s.stdout
  | .stderr => s.stderr

def setRecording (s : Job) (stream : JobOutputStream) (r : Recording) : Job :=
  match stream with
  | .stdout => { s with stdout := r }
  | .stderr => { s with stderr := r }

/-! ## Branches of the loop -/

/-- Stop recording a stream that is over its limit. -/
def checkLimit (s : Job) (stream : JobOutputStream) : Job :=
  if (s.recording stream).hasher.count > s.maxFsize then
    { s with
      io := s.io.stopRecording stream
      stop := true
      fatal := s.fatal.or (some (.outputLimitExceeded stream s.maxFsize)) }
  else s

/-- A failed write cancels the job. -/
def cancelOn (s : Job) : Write → Job
  | .done => s
  | .failed _ => { s with stop := true }

/-- Hash a chunk, and record it or keep it for the consumer. -/
def deliver (s : Job) (buf : List UInt8) (stream : JobOutputStream) (write : Write) : LoopTurn :=
  if stream = .stdout ∧ s.streaming = true then
    .next { s with stdout := s.stdout.hash buf, pending := some buf } [.delivered stream buf]
  else
    match (s.recording stream).write buf write with
    | none => .pending
    | some recording =>
      .next (((s.setRecording stream recording).cancelOn write).checkLimit stream)
        [.delivered stream buf]

/-- What the loop makes of what `read_output` returned. -/
def onRead (s : Job) (write : Write) : ReadOutput → LoopTurn
  | .output buf stream =>
    if buf = [] then
      if s.streaming = true then .next { s with eof := true } [] else .leave .outputEnded s
    else s.deliver buf stream write
  | .error => if s.streaming = true then .next { s with eof := true } [] else .leave .readError s

/-- A turn of `io.read_output()`. -/
def readOutput (s : Job) (raw : RawRead) (write : Write) : LoopTurn :=
  if s.pending.isNone ∧ s.eof = false then
    match s.io.turn raw with
    | none => .pending
    | some (io, none) => .next { s with io } []
    | some (io, some read) => onRead { s with io } write read
  else .pending

/-- `tx_output.reserve()` -/
def permit (s : Job) : LoopTurn :=
  match s.pending with
  | none => .pending
  | some buf =>
    if s.output.closed = true then .next { s with pending := none } []
    else
      match s.output.trySend buf with
      | none => .pending
      | some output => .next { s with output, pending := none } []

/-- Streaming jobs accept one read-write consumer. -/
def attachConsumer (s : Job) (client : ℕ) (access : Access) : LoopTurn :=
  if access ≠ .readWrite ∨ s.attached = true then .next s []
  else
    match s.socket.trySend client with
    | none => .next s []
    | some socket => .next { s with socket, attached := true } [.accepted client access]

/-- Play back the last buffer to a new client. -/
def playBack (s : Job) : Playback → Option (Option (List UInt8) × Job)
  | .played len =>
    if len ≤ s.stdout.file.contents.length then
      (playbackBuffer s.stdout.file len interactiveJobBufferSize).map fun (playback, file) =>
        (playback, { s with stdout := { s.stdout with file } })
    else none
  | .failed _ true =>
    some (none, { s with stdout := { s.stdout with file := s.stdout.file.seekEnd 0 } })
  | .failed position false =>
    some (none, { s with stdout := { s.stdout with file := s.stdout.file.seek position }, stop := true })

def attachClient (s : Job) (access : Access) (playback : Playback) : LoopTurn :=
  match s.playBack playback with
  | none => .pending
  | some (initial, s) =>
    .next { s with
      clients := s.clients ++ [⟨s.nextClientId, access, initial⟩]
      nextClientId := s.nextClientId + 1 } []

/-- `rx_client.recv()` -/
def attach (s : Job) (client : ℕ) (access : Access) (playback : Playback) : LoopTurn :=
  if s.dead = false ∨ s.streaming = true then
    if s.streaming = true then s.attachConsumer client access else s.attachClient access playback
  else .pending

def removeClient (s : Job) (id : ℕ) : Job := { s with clients := s.clients.filter (·.id ≠ id) }

/-- What comes from a client. -/
inductive ClientMessage where
  | windowChange
  | data
  | ignore
  | close
  /-- A message that cannot be decoded. -/
  | malformed
  deriving DecidableEq

/-- What `clients.next()` gives. -/
inductive FromClients where
  | disconnected
  | failed (id : ℕ)
  | message (id : ℕ) (message : ClientMessage)
  deriving DecidableEq

def readOnly (s : Job) (id : ℕ) : Bool := s.clients.any fun c => c.id = id ∧ c.access = .readOnly

/-- `clients.next()` -/
def nextClient (s : Job) (next : FromClients) : LoopTurn :=
  if s.clients ≠ [] ∧ s.dead = false then
    match next with
    | .disconnected => .next s []
    | .failed id => .next (s.removeClient id) []
    | .message id .malformed => .next (s.removeClient id) []
    | .message id .close => .next (if s.readOnly id then s else s.removeClient id) []
    | .message _ _ => .next s []
  else .pending

/-- The branches of the loop. -/
inductive Branch where
  | read (raw : RawRead) (write : Write)
  | permit
  | attach (client : ℕ) (access : Access) (playback : Playback)
  | client (next : FromClients)
  | cancelled
  | killTimeout
  | childDied
  | drainLimit
  | attachDeadline
  | linger
  | drainTimeout

def branch (s : Job) : Branch → LoopTurn
  | .read raw write => s.readOutput raw write
  | .permit => s.permit
  | .attach client access playback => s.attach client access playback
  | .client next => s.nextClient next
  | .cancelled => if s.stop = true ∧ s.killed = false then .next { s with killed := true } [] else .pending
  | .killTimeout =>
    if s.killed = true ∧ s.kills < killAttempts then .next { s with kills := s.kills + 1 } [] else .pending
  | .childDied => if s.dead = false then .next { s with dead := true } [] else .pending
  | .drainLimit =>
    if s.streaming = true ∧ s.dead = true ∧ s.eof = false then .leave .drainLimit s else .pending
  | .attachDeadline =>
    if s.streaming = true ∧ s.attached = false ∧ s.eof = false then
      .leave .attachDeadline { s with stop := true }
    else .pending
  | .linger => if s.eof = true then .leave .linger { s with stop := true } else .pending
  | .drainTimeout => if s.dead = true ∧ s.eof = false then .leave .drainTimeout s else .pending

/-- The head of the loop: a finished stream is done once its consumer has taken every chunk. -/
def loopHead (s : Job) : Job :=
  if s.eof = true ∧ s.attached = true ∧ s.pending.isNone then { s with exit := some .streamDone } else s

/-- Go on with the loop, or leave it. -/
def settle (s : Job) : LoopTurn → Job × List JobOut
  | .pending => (s, [])
  | .next s outs => (s.loopHead, outs)
  | .leave exit s => ({ s with exit := some exit }, [])

/-! ## After the loop -/

/-- A chunk that is left goes to the consumer, if there is room. -/
def handOver (s : Job) : Job :=
  match s.pending with
  | none => s
  | some buf =>
    match s.output.trySend buf with
    | none => { s with pending := none }
    | some output => { s with output, pending := none }

def result (s : Job) (exitStatus : Except String ExitStatus) : Except ProcessError Int32 :=
  match s.fatal with
  | some error => .error error
  | none =>
    match exitStatus with
    | .ok status => processExit status
    | .error error => .error (.io "reaping job process" error)

variable [Digest]

/-- The output state directly from the hashers. -/
def outputState (s : Job) : JobOutputState where
  stdoutLen := s.stdout.hasher.count
  stderrLen := s.stderr.hasher.count
  stdoutHash := .ofFin s.stdout.hasher.finalize
  stderrHash := .ofFin s.stderr.hasher.finalize

/-! ## The consumer's task -/

/-- A turn of `stream_output`. -/
inductive ConsumerAct where
  | takeSocket
  | takeChunk
  /-- The send of the chunk succeeded, or it failed or timed out. -/
  | sent (ok : Bool)
  /-- There is nothing left to take, and no sender. -/
  | channelEnded
  deriving DecidableEq

def consume (s : Job) : ConsumerAct → Job
  | .takeSocket =>
    match s.consumer, s.socket.recv with
    | .waiting, some (client, socket) => { s with socket, consumer := .ready client }
    | _, _ => s
  | .takeChunk =>
    match s.consumer, s.output.recv with
    | .ready client, some (buf, output) => { s with output, consumer := .sending client buf }
    | _, _ => s
  | .sent ok =>
    match s.consumer with
    | .sending client _ =>
      if ok then { s with consumer := .ready client }
      else { s with stop := true, consumer := .failed, output := s.output.close }
    | _ => s
  | .channelEnded =>
    -- The senders are dropped when the function returns.
    match s.consumer, s.report with
    | .waiting, some _ =>
      if s.socket.queue = [] then { s with consumer := .ended, output := s.output.close }
      else s
    | .ready _, some _ =>
      if s.output.queue = [] then { s with consumer := .ended, output := s.output.close }
      else s
    | _, _ => s

end Job

/-! ## Steps -/

inductive JobStep where
  | branch (branch : Job.Branch)
  | consumer (act : Job.ConsumerAct)
  /-- The stop token is cancelled from outside. -/
  | cancel
  /-- The mux notices that a client is gone. -/
  | clientGone (id : ℕ)
  | handOver
  /-- The process was waited for. -/
  | reaped (exitStatus : Except String ExitStatus)

namespace Job

variable [Digest]

def step (s : Job) : JobStep → Job × List JobOut
  | .branch b => if s.exit.isNone then s.settle (s.branch b) else (s, [])
  | .consumer act => (s.consume act, [])
  | .cancel => ({ s with stop := true }, [])
  | .clientGone id => (s.removeClient id, [])
  | .handOver => if s.exit.isSome then (s.handOver, []) else (s, [])
  | .reaped exitStatus =>
    if s.exit.isSome ∧ s.pending.isNone ∧ s.report.isNone then
      ({ s with report := some (s.result exitStatus, s.outputState) }, [])
    else (s, [])

/-- A run of a job from its start. -/
def run (mode : JobMode) (limits : JobLimits) (steps : List JobStep) : Job × List JobOut :=
  Lib.run step (start mode limits) steps

end Job

end Sush
