import Sush.Lib.Machine
import Sush.Server.State

/-!
# The executor

`server/src/executor.rs`, and the two ways its tasks write the boundary record
(`server/src/locker/boundary.rs`). A job to launch is queued; the launcher task takes the launches in
order, commits the boundary of each under the guard of the record, and spawns the job or reports that
it will not run. Meanwhile any number of tasks wait for the guard to record how a job ended. A job
that was spawned announces its start and then its end; a job that was refused at a full queue
announces an error.

`Executor.step` is one thing that one of these tasks, or a call from the state machine's driver, does
between two points where others may run. An action that is not enabled leaves everything as it is. A
store ends in success or in an error, and so does spawning a process. The channel of events is
unbounded here: a full one only delays the task that sends.
-/

namespace Sush

variable [World]

/-- How many launches wait at most. -/
def launchChannelCapacity : ℕ := 16

/-- What the launcher is at. -/
inductive Launcher where
  | idle
  /-- It wants the guard of the boundary record. -/
  | waiting (launch : Run)
  /-- It holds the guard and stores the boundary. -/
  | storing (launch : Run)
  /-- The boundary is committed. -/
  | committed (launch : Run)
  /-- The boundary could not be stored. -/
  | failed (launch : Run) (error : ProcessError)

/-- A task that will send events of a job. -/
inductive Task where
  /-- A job that was refused. -/
  | refused (jobId : JobId) (error : ProcessError)
  /-- `job_spawn`, before the process runs. -/
  | spawning (launch : Run)
  /-- A process that runs. -/
  | running (jobId : JobId)

/-- The job whose events a task sends. -/
def Task.jobId : Task → JobId
  | refused jobId _ => jobId
  | spawning launch => launch.jobId
  | running jobId => jobId

structure Executor where
  /-- Whether new jobs and events are still accepted. -/
  «open» : Bool
  /-- The jobs whose stop token is held. -/
  stop : BTreeSet JobId
  /-- The launches that wait for the launcher. -/
  queue : List Run
  launcher : Launcher
  tasks : List Task
  /-- Events sent and not yet taken, oldest first. -/
  events : List JobEvent
  /-- The boundary record. -/
  store : BoundaryStore
  /-- The endings that wait for the guard of the record. -/
  endings : List JobStatus
  /-- The record being stored by the task that holds the guard to record an ending. -/
  recording : Option Boundary

/-- What the executor is seen to do. -/
inductive ExecutorOut where
  | queued (launch : Run)
  | refused (launch : Run)
  /-- The boundary of the launch was stored, and is the record now. -/
  | committed (launch : Run)
  | spawned (launch : Run)
  /-- The launch was given up, and this event sent. -/
  | abandoned (launch : Run) (event : JobEvent)

inductive ExecutorAct where
  | jobStart (launch : Run)
  | jobStop (jobId : JobId)
  | jobStopped (jobId : JobId)
  | recordStatus (status : JobStatus)
  | shutdown
  /-- The launcher takes the next launch. -/
  | receive
  /-- The launcher gets the guard. -/
  | lock
  /-- The launcher's store ends. -/
  | stored (result : Except String Unit)
  /-- The launcher spawns the job. -/
  | spawn
  /-- The launcher reports that the job will not run. -/
  | abandon (now : DateTime)
  /-- A task that has an ending to record gets the guard. -/
  | lockEnding (place : ℕ)
  /-- The store of an ending ends. -/
  | recorded (stored : Bool)
  /-- A refused job is announced, or a job fails to start. -/
  | taskError (place : ℕ) (now : DateTime) (error : ProcessError)
  | taskStart (place : ℕ) (now : DateTime)
  | taskEnd (place : ℕ) (now : DateTime) (result : Except ProcessError Int32)
      (output : JobOutputState)

namespace Executor

/-- `Executor::new`, over a loaded boundary record. -/
def new (store : BoundaryStore) : Executor where
  «open» := true
  stop := ∅
  queue := []
  launcher := .idle
  tasks := []
  events := []
  store := store
  endings := []
  recording := none

/-- Announce a job that will never run here. -/
def jobRefused (e : Executor) (jobId : JobId) (error : ProcessError) : Executor :=
  if e.open then { e with tasks := e.tasks ++ [.refused jobId error] } else e

/-- Queue a job for launch. -/
def jobStart (e : Executor) (launch : Run) : Executor × List ExecutorOut :=
  if e.open then
    let held := e.stop.insert launch.jobId
    if e.queue.length < launchChannelCapacity then
      ({ e with stop := held, queue := e.queue ++ [launch] }, [.queued launch])
    else
      (({ e with stop := held.erase launch.jobId }).jobRefused launch.jobId
        (.io "queueing the job for launch" "no available capacity"), [.refused launch])
  else (e, [])

def jobStop (e : Executor) (jobId : JobId) : Executor := { e with stop := e.stop.erase jobId }

def jobStopped (e : Executor) (jobId : JobId) : Executor := { e with stop := e.stop.erase jobId }

/-- Every job accepted for launch whose stop token is still held. -/
def inFlight (e : Executor) : BTreeSet JobId := e.stop

/-- Start a task that records an ending. -/
def recordStatus (e : Executor) (status : JobStatus) : Executor :=
  { e with endings := e.endings ++ [status] }

/-- Whether no task holds the guard of the boundary record. -/
def unlocked (e : Executor) : Bool :=
  e.recording.isNone &&
    match e.launcher with
    | .storing _ => false
    | _ => true

/-! ## The tasks -/

/-- The launcher's loop, between two points where others run. -/
def launch (e : Executor) : ExecutorAct → Executor × List ExecutorOut
  | .receive =>
    match e.launcher, e.queue with
    | .idle, launch :: queue => ({ e with launcher := .waiting launch, queue := queue }, [])
    | _, _ => (e, [])
  | .lock =>
    match e.launcher with
    | .waiting launch =>
      if e.unlocked then ({ e with launcher := .storing launch }, []) else (e, [])
    | _ => (e, [])
  | .stored result =>
    match e.launcher, result with
    | .storing launch, .ok () =>
      ({ e with launcher := .committed launch, store := e.store.advance launch.boundary },
        [.committed launch])
    | .storing launch, .error error =>
      ({ e with launcher := .failed launch (.io "recording the execution boundary" error) }, [])
    | _, _ => (e, [])
  | .spawn =>
    match e.launcher with
    | .committed launch =>
      ({ e with launcher := .idle, tasks := e.tasks ++ [.spawning launch] }, [.spawned launch])
    | _ => (e, [])
  | .abandon now =>
    match e.launcher with
    | .failed launch error =>
      let event := JobEvent.error launch.jobId now error
      ({ e with launcher := .idle, events := e.events ++ [event] }, [.abandoned launch event])
    | _ => (e, [])
  | _ => (e, [])

/-- The tasks that record endings. -/
def recordEnding (e : Executor) : ExecutorAct → Executor
  | .lockEnding place =>
    match e.endings[place]? with
    | some status =>
      if e.unlocked then
        { e with endings := e.endings.eraseIdx place, recording := e.store.updated status }
      else e
    | none => e
  | .recorded stored =>
    match e.recording with
    | some boundary =>
      { e with recording := none, store := if stored then ⟨some boundary⟩ else e.store }
    | none => e
  | _ => e

/-- The tasks of the jobs. -/
def runTask (e : Executor) : ExecutorAct → Executor
  | .taskError place now error =>
    match e.tasks[place]? with
    | some (.refused jobId reason) =>
      { e with tasks := e.tasks.eraseIdx place, events := e.events ++ [.error jobId now reason] }
    | some task =>
      { e with tasks := e.tasks.eraseIdx place, events := e.events ++ [.error task.jobId now error] }
    | none => e
  | .taskStart place now =>
    match e.tasks[place]? with
    | some (.spawning launch) =>
      { e with
        tasks := e.tasks.set place (.running launch.jobId)
        events := e.events ++ [.start launch.jobId now] }
    | _ => e
  | .taskEnd place now result output =>
    match e.tasks[place]? with
    | some (.running jobId) =>
      { e with
        tasks := e.tasks.eraseIdx place
        events := e.events ++ [.stop jobId now result output] }
    | _ => e
  | _ => e

/-- One action. -/
def step (e : Executor) (action : ExecutorAct) : Executor × List ExecutorOut :=
  match action with
  | .jobStart launch => e.jobStart launch
  | .jobStop jobId => (e.jobStop jobId, [])
  | .jobStopped jobId => (e.jobStopped jobId, [])
  | .recordStatus status => (e.recordStatus status, [])
  | .shutdown => ({ e with «open» := false }, [])
  | .receive | .lock | .stored _ | .spawn | .abandon _ => e.launch action
  | .lockEnding _ | .recorded _ => (e.recordEnding action, [])
  | .taskError .. | .taskStart .. | .taskEnd .. => (e.runTask action, [])

/-- Any number of actions, in any order. -/
def run (e : Executor) (acts : List ExecutorAct) : Executor × List ExecutorOut :=
  Lib.run Executor.step e acts

end Executor

end Sush
