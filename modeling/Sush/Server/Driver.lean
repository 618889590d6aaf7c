import Sush.Server.Executor
import Sush.Server.Step

/-!
# The driver

`server/src/state.rs`, `StateManager::run` with `apply`, `apply_outputs` and `enter_universe`: the
driver feeds the state machine, carries its outputs to the executor and the gossip network, forwards
the executor's events to the network, and follows the gossip manager into another universe.

An action is one branch of the driver's `select!`, one input of a drain, or one step of the executor's
tasks. The source drains the ready messages and settles after a replayed message and after a swap;
here messages and `drained` come in any order, so every run of the source is a run of this machine.
-/

namespace Sush

variable [World] [Crypto]

structure Driver where
  state : State
  executor : Executor
  /-- The gossip network we belong to; none once we drain. -/
  network : Option Network
  /-- Jobs killed at a universe swap, whose events are dropped. -/
  doomed : BTreeSet JobId

/-- What stays the same over all universes: the build, the sled and its trust anchors. -/
structure Driver.Config where
  current : VersionInfo
  ownBaseboard : BaseboardId
  anchors : List Certificate

/-- What the driver is seen to do. -/
inductive DriverOut where
  /-- A message is sent to the gossip network. -/
  | sent (message : Message)
  /-- An event of the executor is forwarded to the gossip network. -/
  | forwarded (event : JobEvent)
  /-- An event of the executor is dropped. -/
  | dropped (event : JobEvent)
  /-- The state machine put out a launch. -/
  | launched (run : Run)
  | stopped (jobId : JobId)
  /-- The driver left its universe for another one. -/
  | swapped (network : Network)

inductive DriverAct where
  /-- A local request. -/
  | request (request : Request)
  /-- The next event of the executor. -/
  | event
  /-- An input for the state machine. -/
  | input (now : DateTime) (input : Input)
  /-- The gossip manager joined another universe; `birth` is the version of our first send there. -/
  | swap (network : Network) (birth : Version) (cubbies : Cubbies)
  /-- Requests and events have ended: let go of the network. -/
  | drain
  /-- One of the executor's tasks moves on, or the executor shuts down. -/
  | task (action : ExecutorAct)

/-- What only the driver makes the executor do. -/
def ExecutorAct.isCall : ExecutorAct → Bool
  | .jobStart _ | .jobStop _ | .jobStopped _ | .recordStatus _ => true
  | _ => false

/-- Whether an event is the last one of its job. -/
def JobEvent.isFinal : JobEvent → Bool
  | stop .. | error .. => true
  | start .. | skipped .. => false

namespace Driver

/-- `apply_outputs`, for one output. -/
def applyOutput (d : Driver) : Output → Driver × List DriverOut
  | .run run => ({ d with executor := (d.executor.jobStart run).1 }, [.launched run])
  | .stop jobId => ({ d with executor := d.executor.jobStop jobId }, [.stopped jobId])
  | .ran status =>
    ({ d with executor := (d.executor.jobStopped status.jobId).recordStatus status }, [])
  | .gossip message => (d, if d.network.isSome then [.sent message] else [])

def applyOutputs (d : Driver) (outputs : List Output) : Driver × List DriverOut :=
  Lib.run applyOutput d outputs

/-- The next event of the executor: dropped if its job was killed at a swap, and otherwise forwarded
to the gossip network. -/
def handleEvent (d : Driver) : Driver × List DriverOut :=
  match d.executor.events with
  | [] => (d, [])
  | event :: events =>
    let taken := { d with executor := { d.executor with events := events } }
    if d.doomed.contains event.jobId then
      ({ taken with
        doomed := if event.isFinal then d.doomed.erase event.jobId else d.doomed },
        [.dropped event])
    else (taken, if d.network.isSome then [.forwarded event] else [])

/-- Kill a job at a swap: take away its stop token, and doom its events. -/
def kill (d : Driver) (jobId : JobId) : Driver :=
  { d with executor := d.executor.jobStop jobId, doomed := d.doomed.insert jobId }

/-- Kill whatever is in flight. -/
def killInFlight (d : Driver) : Driver := d.executor.inFlight.toList.foldl kill d

/-- `enter_universe`: a state machine born at `birth`, with the boundary record as it is now. -/
def enterUniverse (config : Config) (d : Driver) (network : Network) (birth : Version)
    (cubbies : Cubbies) : Except KeyError State := do
  let state ← State.new config.current config.ownBaseboard config.anchors
    (Past.new birth d.executor.store.boundary network)
  return { state with rack := state.rack.setCubbies cubbies }

/-- Follow the gossip manager to a new universe. The trust anchors were validated at startup. -/
def swap (config : Config) (d : Driver) (network : Network) (birth : Version) (cubbies : Cubbies) :
    Driver × List DriverOut :=
  match d.network, d.enterUniverse config network birth cubbies with
  | some _, .ok state =>
    ({ d.killInFlight with network := some network, state := state }, [.swapped network])
  | _, _ => (d, [])

variable [Hashing]

/-- One action. -/
def step (config : Config) (d : Driver) : DriverAct → Driver × List DriverOut
  | .request request => (d, if d.network.isSome then [.sent (.request request)] else [])
  | .event => d.handleEvent
  | .input now input =>
    let (state, outputs) := d.state.step { now, network := d.network, input }
    ({ d with state }).applyOutputs outputs
  | .swap network birth cubbies => d.swap config network birth cubbies
  | .drain => ({ d with network := none }, [])
  | .task action =>
    if action.isCall then (d, []) else ({ d with executor := (d.executor.step action).1 }, [])

/-- Any number of actions, in any order. -/
def run (config : Config) (d : Driver) (acts : List DriverAct) : Driver × List DriverOut :=
  Lib.run (Driver.step config) d acts

/-- The driver at startup, in the universe it was seeded in. -/
def new (state : State) (store : BoundaryStore) (network : Network) : Driver where
  state := state
  executor := Executor.new store
  network := some network
  doomed := ∅

end Driver

end Sush
