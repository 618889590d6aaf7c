import Sush.Common.Interactive
import Sush.Lib.Broadcast
import Sush.Lib.Map

/-!
# The clients of a job

`server/src/mux.rs`: `WebSocketMux` reads from the sockets of all clients of a job, and sends to all of
them over a broadcast channel. Every client has a task that writes to its socket: first the messages the
client was added with, then what is broadcast. The task ends when its socket fails, when it lags too far
behind the channel, or when its token is cancelled; it is reaped when the mux is polled next.

The tasks are in the order in which they were spawned, so that a client's number is its place among them.
What a socket took is what a task has sent.
-/

namespace Sush

open Lib (Broadcast Reader)

/-- The most messages that a client may lag by before it is disconnected. -/
def muxClientChannelCapacity : ℕ := 100

/-- What there is room for: the capacity of a broadcast channel is rounded up to a power of two. -/
def muxClientChannelRoom : ℕ := 128

example : muxClientChannelRoom = muxClientChannelCapacity.nextPowerOfTwo := by decide +kernel

abbrev ClientId : Type := ℕ

/-! ## Writers -/

inductive WriterPhase where
  | writing
  /-- It closes its socket. -/
  | closing
  | finished
  deriving DecidableEq

/-- The task that writes to the socket of a client. -/
structure Writer where
  reader : Reader WebSocketMessage
  /-- The message that is being sent. -/
  sending : Option WebSocketMessage
  sent : List WebSocketMessage
  /-- Its token was cancelled. -/
  stopped : Bool
  phase : WriterPhase
  deriving DecidableEq

inductive WriterAct where
  | take
  /-- The socket took the message, or failed. -/
  | sent (ok : Bool)
  /-- The task notices that its token was cancelled. A message that is being sent may still go out. -/
  | stopped (out : Bool)
  /-- The socket was closed, or did not close in time. -/
  | closed
  deriving DecidableEq

namespace Writer

def start (reader : Reader WebSocketMessage) : Writer := ⟨reader, none, [], false, .writing⟩

def cancel (w : Writer) : Writer := { w with stopped := true }

/-- A turn of the task. Its token is a child of the job's: `stop` cancels it too. -/
def act (w : Writer) (channel : Broadcast WebSocketMessage) (stop : Bool) : WriterAct → Writer
  | .take =>
    if w.phase = .writing ∧ w.sending = none then
      match w.reader.take channel with
      | (.message message, reader) => { w with reader, sending := some message }
      | (.empty, _) => w
      | (.lagged, _) => { w with phase := .closing }
      | (.closed, _) => { w with phase := .closing }
    else w
  | .sent ok =>
    match w.phase, w.sending with
    | .writing, some message =>
      if ok then { w with sending := none, sent := w.sent ++ [message] }
      else { w with sending := none, phase := .closing }
    | _, _ => w
  | .stopped out =>
    if w.phase = .writing ∧ (w.stopped = true ∨ stop = true) then
      { w with
        sending := none
        sent := if out then w.sent ++ w.sending.toList else w.sent
        phase := .closing }
    else w
  | .closed => if w.phase = .closing then { w with stopped := true, phase := .finished } else w

end Writer

/-! ## The mux -/

structure WebSocketMux where
  nextClientId : ClientId
  /-- The clients whose sockets are read. -/
  recv : List ClientId
  send : Broadcast WebSocketMessage
  access : BTreeMap ClientId Access
  /-- The clients whose tokens are at hand. -/
  stop : BTreeSet ClientId
  /-- The clients whose tasks were not reaped. -/
  done : List ClientId
  tasks : List Writer

namespace WebSocketMux

def new : WebSocketMux where
  nextClientId := 0
  recv := []
  send := .new muxClientChannelRoom
  access := ∅
  stop := ∅
  done := []
  tasks := []

def add (m : WebSocketMux) (access : Access) (initial : List WebSocketMessage) : WebSocketMux where
  nextClientId := m.nextClientId + 1
  recv := m.recv ++ [m.nextClientId]
  send := m.send
  access := m.access.insert m.nextClientId access
  stop := m.stop.insert m.nextClientId
  done := m.done ++ [m.nextClientId]
  tasks := m.tasks ++ [.start ⟨initial, m.send.subscribe⟩]

/-- Cancel the token of a client, if it is at hand. -/
def cancel (m : WebSocketMux) (id : ClientId) : WebSocketMux :=
  if m.stop.contains id = true then
    { m with stop := m.stop.erase id, tasks := m.tasks.modify id Writer.cancel }
  else m

def remove (m : WebSocketMux) (id : ClientId) : WebSocketMux :=
  { m with recv := m.recv.filter (· ≠ id), access := m.access.erase id }.cancel id

def broadcast (m : WebSocketMux) (message : WebSocketMessage) : WebSocketMux :=
  { m with send := m.send.send message }

def isEmpty (m : WebSocketMux) : Bool := m.recv.isEmpty

/-- A task has returned. -/
def finished (m : WebSocketMux) (id : ClientId) : Bool :=
  (m.tasks[id]?).any fun w => w.phase = .finished

/-- Forget a client whose task has returned. -/
def forget (m : WebSocketMux) (id : ClientId) : WebSocketMux :=
  { m with recv := m.recv.filter (· ≠ id), access := m.access.erase id, stop := m.stop.erase id }

/-- Reap dead clients. -/
def reap (m : WebSocketMux) : WebSocketMux :=
  { (m.done.filter m.finished).foldl forget m with done := m.done.filter fun id => !m.finished id }

/-- The stream of a client ended. -/
def ended (m : WebSocketMux) (id : ClientId) : WebSocketMux :=
  { m with recv := m.recv.filter (· ≠ id) }.cancel id

/-- `poll_next` up to where it returns: dead clients are reaped, and these streams ended. -/
def pollNext (m : WebSocketMux) (gone : List ClientId) : WebSocketMux :=
  (gone.filter m.reap.recv.contains).foldl ended m.reap

/-- A turn of the task of a client. -/
def act (m : WebSocketMux) (id : ClientId) (stop : Bool) (act : WriterAct) : WebSocketMux :=
  { m with tasks := m.tasks.modify id fun w => w.act m.send stop act }

/-- `Drop`: every token at hand is cancelled, and there is no sender any more. -/
def drop (m : WebSocketMux) : WebSocketMux :=
  { m with
    send := m.send.close
    tasks := m.tasks.mapIdx fun id w => if m.stop.contains id = true then w.cancel else w }

end WebSocketMux

end Sush
