import Sush.Common.Jobs

/-!
# A job's input and output

`server/src/io.rs`. An interactive job has one stream of output, from its pseudoterminal; any other job
has two. `JobIo::read_output` loops over reads until one has something to return. `JobIo.turn` is one
turn of that loop: one read on one of the streams, with what it gave. The operating system decides what
that is, but a read fills at most the buffer of its stream.
-/

namespace Sush

def batchOutputBufferSize : ℕ := 0x10000

def interactiveOutputBufferSize : ℕ := 0x2000

structure StreamState where
  /-- The capacity of the buffer. -/
  bufSize : ℕ
  eof : Bool
  /-- `rec`: what is read is recorded. -/
  recording : Bool
  deriving DecidableEq

namespace StreamState

def new (bufSize : ℕ) : StreamState := ⟨bufSize, false, true⟩

/-- A read that gave these bytes. No bytes are the end of the stream. -/
def read (state : StreamState) (bytes : List UInt8) : StreamState × Option (List UInt8) :=
  if bytes = [] then ({ state with eof := true }, none)
  else if state.recording = false then (state, none)
  else (state, some bytes)

end StreamState

/-- The server's end of a job's output. -/
inductive JobIo where
  | interactive (pty : StreamState)
  | batch (stdout stderr : StreamState)
  deriving DecidableEq

/-- What a turn of `read_output` finds. -/
inductive RawRead where
  /-- Bytes on a stream, or its end. -/
  | bytes (stream : JobOutputStream) (bytes : List UInt8)
  /-- An error on a stream, which may be `EIO`. -/
  | failed (stream : JobOutputStream) (eio : Bool)
  /-- There is no stream left to read. -/
  | exhausted
  deriving DecidableEq

/-- What `read_output` returns. No bytes are the end of all output. -/
inductive ReadOutput where
  | output (buf : List UInt8) (stream : JobOutputStream)
  | error
  deriving DecidableEq

namespace JobIo

def «open» (mode : JobMode) : JobIo :=
  if mode = .interactive then .interactive (.new interactiveOutputBufferSize)
  else .batch (.new batchOutputBufferSize) (.new batchOutputBufferSize)

/-- The state of a stream. -/
def stream : JobIo → JobOutputStream → Option StreamState
  | interactive pty, .stdout => some pty
  | interactive _, .stderr => none
  | batch stdout _, .stdout => some stdout
  | batch _ stderr, .stderr => some stderr

def setStream : JobIo → JobOutputStream → StreamState → JobIo
  | interactive _, _, state => interactive state
  | batch _ stderr, .stdout, state => batch state stderr
  | batch stdout _, .stderr, state => batch stdout state

/-- The streams that are read. A pseudoterminal is read as long as there is a reader. -/
def readable (io : JobIo) (stream : JobOutputStream) : Option StreamState :=
  match io with
  | interactive _ => io.stream stream
  | batch _ _ => (io.stream stream).filter fun state => !state.eof

/-- What is returned after a read that gave nothing to return: the end of a pseudoterminal is the end of
all output, and the end of a pipe is not. -/
def afterNothing : JobIo → Option ReadOutput
  | interactive pty => if pty.eof then some (.output [] .stdout) else none
  | batch _ _ => none

/-- What is returned after an error. A pseudoterminal reads `EIO` once its other end is closed. -/
def afterError : JobIo → Bool → ReadOutput
  | interactive _, true => .output [] .stdout
  | _, _ => .error

/-- One turn of `read_output`: what it returns, if it does. `none` is a turn that cannot be. -/
def turn (io : JobIo) : RawRead → Option (JobIo × Option ReadOutput)
  | .bytes stream bytes =>
    match io.readable stream with
    | none => none
    | some state =>
      if bytes.length ≤ state.bufSize then
        let (state, read) := state.read bytes
        let io := io.setStream stream state
        match read with
        | some bytes => some (io, some (.output bytes stream))
        | none => some (io, io.afterNothing)
      else none
  | .failed stream eio =>
    match io.readable stream with
    | none => none
    | some _ => some (io, some (io.afterError eio))
  | .exhausted =>
    match io with
    | interactive _ => none
    | batch stdout stderr =>
      if stdout.eof && stderr.eof then some (io, some (.output [] .stdout)) else none

def stopRecording : JobIo → JobOutputStream → JobIo
  | interactive pty, _ => interactive { pty with recording := false }
  | batch stdout stderr, .stdout => batch { stdout with recording := false } stderr
  | batch stdout stderr, .stderr => batch stdout { stderr with recording := false }

end JobIo

end Sush
