import Sush.Server.Job
import Sush.Server.Mux

/-!
# A job with its clients

`server/src/job.rs` and `server/src/io.rs`: what `Job` leaves out of the loop that runs a job. Clients
that attach are sent the size of the window and the last output, and from then on every chunk of output
that is recorded. What they send goes to the pseudoterminal, over a bounded channel and a task of its own
(`relay_input`), unless they may only read.

`Attended.step` is one thing that happens to a job, to the task of a client or to the input. What happens
to the job itself is said by `jobSteps`, in steps of `Job`.
-/

namespace Sush

open Lib (Channel)

def inputChannelCapacity : ℕ := 100

/-- A job, its clients and its input. -/
structure Attended where
  job : Job
  clients : WebSocketMux
  /-- The size of the pseudoterminal's window. -/
  window : WindowSize
  /-- Input on its way to the pseudoterminal. -/
  input : Channel (List UInt8)
  /-- The bytes that were written to the pseudoterminal. -/
  typed : List UInt8

/-- What `clients.next()` gives after the streams that ended. -/
inductive FromMux where
  /-- No client has anything to say. -/
  | pending
  | failed (id : ClientId)
  | message (id : ClientId) (message : WebSocketMessage)
  deriving DecidableEq

/-- A turn of `relay_input`. -/
inductive RelayAct where
  /-- Input is taken, and it is written or that fails after some bytes. -/
  | write (failed : Option ℕ)
  | stopped
  deriving DecidableEq

inductive AttendedStep where
  | read (raw : RawRead) (write : Write)
  /-- A client attaches, and the size of the window is known or not. -/
  | attach (client : ℕ) (access : Access) (playback : Playback) (sized : Bool)
  /-- The streams of some clients ended, and this is next. Setting the size of a window may fail. -/
  | poll (gone : List ClientId) (next : FromMux) (resized : Bool)
  | writer (id : ClientId) (act : WriterAct)
  | relay (act : RelayAct)
  /-- Any other step of the job. -/
  | other (step : JobStep)

/-- What is seen of a job and its clients. -/
inductive AttendedOut where
  | job (out : JobOut)
  | attached (id : ClientId) (access : Access)
  /-- A client sent a message. -/
  | heard (id : ClientId) (message : InteractiveJobMessage)
  deriving DecidableEq

namespace Attended

variable [ControlJson]

/-- What is sent to all clients. -/
def sendAll (s : Attended) (message : InteractiveJobMessage) : Attended :=
  match WebSocketMessage.tryFrom message with
  | none => s
  | some message => { s with clients := s.clients.broadcast message }

/-! ## Output -/

/-- Relay a chunk to the clients, if there are any. What is kept for a consumer is not relayed. -/
def relayChunk (s : Attended) : JobOut → Attended
  | .delivered stream buf =>
    if (stream = .stdout ∧ s.job.streaming = true) ∨ s.clients.isEmpty = true then s
    else s.sendAll (.data buf)
  | .accepted _ _ => s

/-- What a new client is sent first. -/
def initialMessages (s : Attended) (playback : Option (List UInt8)) (sized : Bool) :
    List WebSocketMessage :=
  let size := match s.job.io with
    | .interactive _ => if sized then [.control (.windowChange s.window)] else []
    | .batch _ _ => []
  (size ++ (playback.map .data).toList).filterMap WebSocketMessage.tryFrom

/-! ## Input -/

/-- Input to batch jobs is dropped, and what there is no room for. -/
def writeInput (s : Attended) (bytes : List UInt8) : Attended :=
  match s.job.io with
  | .interactive _ => { s with input := (s.input.trySend bytes).getD s.input }
  | .batch _ _ => s

/-- Batch jobs have no windows. -/
def setWindowSize (s : Attended) (size : WindowSize) (resized : Bool) : Attended :=
  match s.job.io with
  | .interactive _ => if resized then { s with window := size } else s
  | .batch _ _ => s

def readOnly (s : Attended) (id : ClientId) : Bool := s.clients.access[id]? = some .readOnly

def remove (s : Attended) (id : ClientId) : Attended := { s with clients := s.clients.remove id }

/-- What is made of a message from a client. -/
def handle (s : Attended) (id : ClientId) (resized : Bool) : Option InteractiveJobMessage → Attended
  | none => s.remove id
  | some message =>
    if s.readOnly id then s
    else
      match message with
      | .control (.windowChange size) =>
        (s.setWindowSize size resized).sendAll (.control (.windowChange size))
      | .data bytes => s.writeInput bytes
      | .ignore => s
      | .close => s.remove id

/-! ## Steps of the job -/

/-- The loop runs, and `rx_client.recv()` is enabled. -/
def accepts (s : Attended) : Bool := s.job.exit.isNone ∧ (s.job.dead = false ∨ s.job.streaming = true)

/-- The loop runs, and `clients.next()` is enabled. -/
def listens (s : Attended) : Bool :=
  s.job.exit.isNone ∧ s.clients.isEmpty = false ∧ s.job.dead = false

/-- How `Job` names what a client sent. -/
def clientMessage : Option InteractiveJobMessage → Job.ClientMessage
  | none => .malformed
  | some (.control _) => .windowChange
  | some (.data _) => .data
  | some .ignore => .ignore
  | some .close => .close

/-- What comes from the clients that are left, as `Job` has it. -/
def fromClients (left : List ClientId) : FromMux → List JobStep
  | .pending => []
  | .failed id => if left.contains id then [.branch (.client (.failed id))] else []
  | .message id message =>
    if left.contains id then
      [.branch (.client (.message id (clientMessage (InteractiveJobMessage.tryFrom message))))]
    else []

/-- The other branches and what is outside the loop. -/
def isOther : JobStep → Bool
  | .branch (.read _ _) => false
  | .branch (.attach _ _ _) => false
  | .branch (.client _) => false
  | .clientGone _ => false
  | _ => true

/-- What happens to the job. -/
def jobSteps (s : Attended) : AttendedStep → List JobStep
  | .read raw write => [.branch (.read raw write)]
  | .attach client access playback _ => [.branch (.attach client access playback)]
  | .poll gone next _ =>
    if s.listens then
      let left := (s.clients.pollNext gone).recv
      (s.clients.recv.filter fun id => !left.contains id).map .clientGone ++ fromClients left next
    else []
  | .other step => if isOther step then [step] else []
  | .writer _ _ => []
  | .relay _ => []

/-! ## Steps -/

variable [Digest]

/-- The job takes some steps. -/
def runJob (s : Attended) (steps : List JobStep) : Attended × List JobOut :=
  ({ s with job := (Lib.run Job.step s.job steps).1 }, (Lib.run Job.step s.job steps).2)

/-- A chunk is relayed after it was recorded. An error ends the loop of a job that does not stream, and
its clients are told so. -/
def read (s : Attended) (steps : List JobStep) : Attended × List AttendedOut :=
  let ran := s.runJob steps
  let t := ran.2.foldl relayChunk ran.1
  (if s.job.exit = none ∧ t.job.exit = some .readError then t.sendAll .close else t, ran.2.map .job)

def attach (s : Attended) (access : Access) (playback : Playback) (sized : Bool)
    (steps : List JobStep) : Attended × List AttendedOut :=
  let ran := s.runJob steps
  if s.accepts = true ∧ s.job.streaming = false then
    match s.job.playBack playback with
    | none => (ran.1, ran.2.map .job)
    | some (played, _) =>
      ({ ran.1 with clients := s.clients.add access (s.initialMessages played sized) },
        ran.2.map .job ++ [.attached s.clients.nextClientId access])
  else (ran.1, ran.2.map .job)

/-- What a client sent that is still there. -/
def listen (s : Attended) (resized : Bool) : FromMux → Attended × List AttendedOut
  | .pending => (s, [])
  | .failed id => if s.clients.recv.contains id then (s.remove id, []) else (s, [])
  | .message id message =>
    if s.clients.recv.contains id then
      let message := InteractiveJobMessage.tryFrom message
      (s.handle id resized message, message.toList.map (.heard id))
    else (s, [])

def poll (s : Attended) (gone : List ClientId) (next : FromMux) (resized : Bool)
    (steps : List JobStep) : Attended × List AttendedOut :=
  if s.listens then
    let ran := s.runJob steps
    let heard := { ran.1 with clients := s.clients.pollNext gone }.listen resized next
    (heard.1, ran.2.map .job ++ heard.2)
  else (s, [])

def relay (s : Attended) : RelayAct → Attended
  | .write failed =>
    if s.input.closed = true then s
    else
      match s.input.recv, failed with
      | none, _ => s
      | some (bytes, input), none => { s with input, typed := s.typed ++ bytes }
      | some (bytes, input), some n => { s with input := input.close, typed := s.typed ++ bytes.take n }
  | .stopped => if s.job.stop = true then { s with input := s.input.close } else s

/-- The mux is dropped when the function returns. -/
def other (s : Attended) (steps : List JobStep) : Attended × List AttendedOut :=
  let ran := s.runJob steps
  (if s.job.report.isNone ∧ ran.1.job.report.isSome then { ran.1 with clients := s.clients.drop }
    else ran.1, ran.2.map .job)

def step (s : Attended) (e : AttendedStep) : Attended × List AttendedOut :=
  match e with
  | .read _ _ => s.read (s.jobSteps e)
  | .attach _ access playback sized => s.attach access playback sized (s.jobSteps e)
  | .poll gone next resized => s.poll gone next resized (s.jobSteps e)
  | .writer id act => ({ s with clients := s.clients.act id s.job.stop act }, [])
  | .relay act => (s.relay act, [])
  | .other _ => s.other (s.jobSteps e)

/-- A job that was just spawned. -/
def start (mode : JobMode) (limits : JobLimits) (window : WindowSize) : Attended where
  job := .start mode limits
  clients := .new
  window
  input := .empty inputChannelCapacity
  typed := []

def run (mode : JobMode) (limits : JobLimits) (window : WindowSize) (steps : List AttendedStep) :
    Attended × List AttendedOut :=
  Lib.run step (start mode limits window) steps

end Attended

end Sush
