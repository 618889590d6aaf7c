import Sush.Server.State

/-!
# The state machine

`server/src/state.rs`, transitions. Every function takes the state and returns the new state with
the outputs in the order the source pushes them. `release_ready_jobs` is a loop whose body takes one
job off the queue, so the queue's size bounds its rounds.
-/

namespace Sush

open Lib (iterate)

variable [World] [Crypto]

namespace State

/-! ## Settling the past -/

/-- Jobs a previous life of this server started and left running. -/
def zombies (s : State) : List JobId :=
  s.past.zombies.toList.filter fun jobId =>
    s.history.running.contains (toLex (jobId, s.rack.ownBaseboard))

/-- Declare one zombie interrupted, unless that was done before. -/
def reapZombie (now : DateTime) (acc : State × List Output) (jobId : JobId) : State × List Output :=
  if acc.1.past.reaped.contains jobId then acc
  else
    ({ acc.1 with past := { acc.1.past with reaped := acc.1.past.reaped.insert jobId } },
      acc.2 ++ [.jobEvent acc.1.rack.ownBaseboard (.error jobId now .interrupted)])

/-- Declare interrupted every job a previous life left running. -/
def reapZombies (s : State) (now : DateTime) : State × List Output :=
  s.zombies.foldl (reapZombie now) (s, [])

/-- The events that announce how the boundary job ended. -/
def endingEvents (now : DateTime) (jobId : JobId) : Option JobStatus → List JobEvent
  | some (.stopped _ timeStarted timeStopped result output) =>
    [.start jobId timeStarted, .stop jobId timeStopped result output]
  | some (.error _ timeError error) => [.error jobId timeError error]
  | _ => [.error jobId now .interrupted]

/-- Rule on the boundary job if replay gave it no status on our baseboard. -/
def adjudicateBoundary (s : State) (now : DateTime) : State × List Output :=
  match s.past.boundary with
  | none => (s, [])
  | some boundary =>
    if s.past.adjudicated = some boundary.job then (s, [])
    else
      let ruled := { s with past := { s.past with adjudicated := some boundary.job } }
      if (s.history.statusOn boundary.job s.rack.ownBaseboard).isSome then (ruled, [])
      else
        (ruled, (endingEvents now boundary.job boundary.status).map
          (Output.jobEvent s.rack.ownBaseboard))

/-- Rule on the jobs a previous life left unresolved. -/
def settle (s : State) (now : DateTime) (network : Option Network) : State × List Output :=
  let (s, outputs) := s.reapZombies now
  if network.isSome then
    let (s, more) := s.adjudicateBoundary now
    (s, outputs ++ more)
  else (s, outputs)

/-! ## Events -/

/-- The status a stop event gives: it ends a started job, and displaces an interrupted verdict. -/
def stopTransition (jobId : JobId) (when_ : DateTime) (result : Except ProcessError Int32)
    (output : JobOutputState) : Option JobStatus → Option JobStatus
  | some (.started _ timeStarted) => some (.stopped jobId timeStarted when_ result output)
  | some (.error _ timeError .interrupted) => some (.stopped jobId timeError when_ result output)
  | _ => none

/-- The status an error or skip event gives: it never displaces a terminal one. -/
def endTransition (new : JobStatus) : Option JobStatus → Option JobStatus
  | none | some (.queued ..) | some (.started ..) => some new
  | _ => none

/-- The status a cancellation gives: only a job that has not started is cancelled. -/
def cancelTransition (new : JobStatus) : Option JobStatus → Option JobStatus
  | none | some (.queued ..) => some new
  | _ => none

/-- Forget the attachment point and the zombie mark of a job of ours that ended. -/
def clearEnded (s : State) (baseboard : BaseboardId) (jobId : JobId) : State :=
  if baseboard = s.rack.ownBaseboard then
    { s with
      attachments := s.attachments.erase jobId
      past := { s.past with zombies := s.past.zombies.erase jobId } }
  else s

/-- Apply a transition to the history, and report an own status that became terminal. -/
def transition (s : State) (version : Version) (baseboard : BaseboardId) (jobId : JobId)
    (f : Option JobStatus → Option JobStatus) : State × List Output :=
  let (history, status) := s.history.transitionJobStatus jobId baseboard
    (some (World.rank version)) f s.session.queuedJobs
  let outputs : List Output :=
    match status with
    | some status =>
      if status.isTerminal ∧ baseboard = s.rack.ownBaseboard then [.ran status] else []
    | none => []
  ({ s with history }, outputs)

/-- Whether a sled's status for a job is terminal. -/
def isSettledOn (s : State) (jobId : JobId) (baseboard : BaseboardId) : Bool :=
  (s.history.statusOn jobId baseboard).any JobStatus.isTerminal

/-- Track a job event of a sled. -/
def handleJobEvent (s : State) (version : Version) (baseboard : BaseboardId) :
    JobEvent → State × List Output
  | .start jobId when_ =>
    if s.isSettledOn jobId baseboard then (s, [])
    else
      let past :=
        if baseboard = s.rack.ownBaseboard ∧ ¬s.past.isLive version then
          { s.past with zombies := s.past.zombies.insert jobId }
        else s.past
      let history := s.history.setJobStatus jobId baseboard (.started jobId when_)
        (some (World.rank version)) s.session.queuedJobs
      ({ s with past, history }, [])
  | .stop jobId when_ result output =>
    (s.clearEnded baseboard jobId).transition version baseboard jobId
      (stopTransition jobId when_ result output)
  | .error jobId when_ error =>
    (s.clearEnded baseboard jobId).transition version baseboard jobId
      (endTransition (.error jobId when_ error))
  | .skipped jobId when_ reason =>
    s.transition version baseboard jobId (endTransition (.skipped jobId when_ reason))

/-- Track an event of a sled. -/
def handleEvent (s : State) (version : Version) (baseboard : BaseboardId) :
    Event → State × List Output
  | .job event => s.handleJobEvent version baseboard event
  | .version info => ({ s with rack := s.rack.knownVersion baseboard info }, [])

/-! ## The queue -/

/-- Whether a job has a status or waits in the queue. -/
def isJobKnown (s : State) (jobId : JobId) : Bool :=
  s.history.contains jobId || (s.session.queuedJobs).any (·.contains jobId)

/-- Report as skipped every waiting job that this sled was to run. -/
def skipQueuedJobs (s : State) (now : DateTime) : List Output :=
  ((s.session.queuedJobs).elim [] (·.toList)).filterMap fun (jobId, queued) =>
    if ¬queued.replayed ∧ queued.sleds.contains s.rack.ownBaseboard then
      some (.jobEvent s.rack.ownBaseboard (.skipped jobId now .sessionEnded))
    else none

/-- Add a job to the queue of the active session. A live duplicate is dropped, and so is a live job
when the queue is full. -/
def enqueueJob (s : State) (now : DateTime) (queued : QueuedJob) (actor : KeyId) : State :=
  match s.session with
  | .inactive => s
  | .active a =>
    let jobId := queued.job.payload.jobId
    if ¬queued.replayed ∧ s.history.contains jobId then s
    else if ¬queued.replayed ∧ maxQueuedJobs ≤ a.queuedJobs.size ∧
        ¬a.queuedJobs.contains jobId then s
    else
      let queuedJobs := a.queuedJobs.insert jobId queued
      let history :=
        if queued.sleds.contains s.rack.ownBaseboard ∧ ¬queued.replayed then
          s.history.setJobStatus jobId s.rack.ownBaseboard (.queued jobId now actor) none
            (some queuedJobs)
        else s.history
      { s with session := .active { a with queuedJobs }, history }

/-- Whether this sled answers for a cancelled job: it waits here and names this sled, or nothing is
known of it. -/
def cancelsHere (s : State) (a : ActiveSession) (jobId : JobId) : Bool :=
  match a.queuedJobs[jobId]? with
  | some queued => queued.sleds.contains s.rack.ownBaseboard
  | none => !s.history.contains jobId

/-- Take a job out of the queue, and record its cancellation if it is ours. -/
def cancelJob (s : State) (now : DateTime) (jobId : JobId) (actor : KeyId) (replayed : Bool) :
    State :=
  match s.session with
  | .inactive => s
  | .active a =>
    let queuedJobs := a.queuedJobs.erase jobId
    let history :=
      if ¬replayed ∧ s.cancelsHere a jobId then
        (s.history.transitionJobStatus jobId s.rack.ownBaseboard none
          (cancelTransition (.cancelled jobId now actor)) (some queuedJobs)).1
      else s.history
    { s with session := .active { a with queuedJobs }, history }

/-! ## Releasing jobs -/

variable [Hashing]

/-- `Executor::check_command`: a command must not start with a dash. -/
def checkCommand (request : JobStartRequest) : Except ProcessError Unit :=
  if request.command.toList.head? = some '-' then .error .invalidCommand else .ok ()

/-- Whether history leaves a released job to run on `own`: the job has no status anywhere, or it is
queued there. -/
def mayRun (history : JobHistory) (own : BaseboardId) (jobId : JobId) : Bool :=
  match history.getJobStatus jobId with
  | none => true
  | some status =>
    match status[own]? with
    | some (.queued ..) => true
    | _ => false

/-- The launch of a released job, with the boundary record that commits to it. -/
def runOf (network : Network) (a : ActiveSession) (queued : QueuedJob) : Run where
  job := queued.job
  params := queued.params
  boundary := {
    network := network
    session := a.session.sessionId
    seq := a.seq
    job := queued.job.payload.jobId
    successor := nextJobId a.session.sessionId (.some queued.job.signed)
    status := none }

/-- What becomes of a job of the active session when its turn comes. -/
def releaseJob (s : State) (now : DateTime) (network : Network) (a : ActiveSession)
    (queued : QueuedJob) : State × List Output :=
  let jobId := queued.job.payload.jobId
  let skipped (reason : SkipReason) : List Output :=
    if queued.replayed then []
    else [.jobEvent s.rack.ownBaseboard (.skipped jobId now reason)]
  if queued.sleds.contains s.rack.ownBaseboard then
    match s.rack.checkTarget queued.job.payload with
    | some reason => (s, skipped reason)
    | none =>
      match s.past.screen a.session.sessionId a.seq a.live with
      | .refused => (s, skipped .sessionSuperseded)
      | .admitted =>
        if mayRun s.history s.rack.ownBaseboard jobId then
          match checkCommand queued.job.payload with
          | .error error => (s, [.jobEvent s.rack.ownBaseboard (.error jobId now error)])
          | .ok () =>
            ({ s with attachments := s.attachments.insert jobId }, [.run (runOf network a queued)])
        else (s, [])
  else (s, [])

/-- The session with its next job taken off the queue and its chain moved past it. -/
def advance (a : ActiveSession) (queued : QueuedJob) : ActiveSession :=
  { a with
    queuedJobs := a.queuedJobs.erase a.session.nextJobId
    session := a.session.jobStarted queued.job.signed }

/-- One round of the release loop: release the next job of the chain, if it waits. -/
def releaseNext (now : DateTime) (network : Network) (acc : State × List Output) :
    Option (State × List Output) :=
  match acc.1.session with
  | .inactive => none
  | .active a =>
    match a.queuedJobs[a.session.nextJobId]? with
    | none => none
    | some queued =>
      let (s, outputs) := acc.1.releaseJob now network a queued
      some ({ s with session := .active (advance a queued) }, acc.2 ++ outputs)

/-- One round of the draining loop: move the chain past the next job without running it. -/
def drainNext (s : State) : Option State :=
  match s.session with
  | .inactive => none
  | .active a =>
    match a.queuedJobs[a.session.nextJobId]? with
    | none => none
    | some queued => some { s with session := .active (advance a queued) }

/-- The number of jobs waiting. -/
def queueSize (s : State) : ℕ := (s.session.queuedJobs).elim 0 (·.size)

/-- Release every job whose turn has come. Without a universe, only advance the chain. -/
def releaseReadyJobs (s : State) (now : DateTime) (network : Option Network) :
    State × List Output :=
  match network with
  | none => (iterate drainNext s.queueSize s, [])
  | some network => iterate (releaseNext now network) s.queueSize (s, [])

/-! ## Requests -/

/-- Keep a session start until a verified job confirms it, unless the active session is the same
one or is not outranked, or a start of the session is pending already. -/
def startSession (s : State) (version : Version) (actor : KeyId) (preimage : SessionPreimage) :
    State :=
  let sessionId := preimage.sessionId
  let pend : State :=
    if s.pendingStarts.contains sessionId then s
    else
      { s with
        pendingStarts := s.pendingStarts.put sessionId
          { preimage, actor, live := s.past.isLive version } }
  match s.session with
  | .active a =>
    if a.session.sessionId = sessionId then s
    else if rankOf preimage.seq sessionId ≤ s.session.rank then s
    else pend
  | .inactive => pend

/-- Act on the active session if it is `sessionId` and `actor` started it. Any other request is
ignored. -/
def asStarter (s : State) (sessionId : SessionId) (actor : KeyId)
    (act : ActiveSession → State × List Output) : State × List Output :=
  match s.session with
  | .active a =>
    if a.session.sessionId = sessionId ∧ a.session.startedBy = some actor then act a else (s, [])
  | .inactive => (s, [])

/-- Burn a job of the active session, if it is the next one or the one at the chain head. -/
def skipJob (s : State) (now : DateTime) (network : Option Network) (version : Version)
    (actor : KeyId) (jobId : JobId) (a : ActiveSession) : State × List Output :=
  match a.session.skipJob jobId with
  | (session, true) =>
    let moved : State := { s with session := .active { a with session := session } }
    (moved.cancelJob now jobId actor (!s.past.isLive version)).releaseReadyJobs now network
  | (_, false) => (s, [])

/-- Handle a session request. -/
def handleSessionRequest (s : State) (now : DateTime) (network : Option Network)
    (version : Version) (actor : KeyId) : SessionRequest → State × List Output
  | .start preimage => (s.startSession version actor preimage, [])
  | .stop sessionId =>
    s.asStarter sessionId actor fun _ => ({ s with session := .inactive }, s.skipQueuedJobs now)
  | .allowAttach sessionId keyId access =>
    s.asStarter sessionId actor fun a =>
      let attachGrants := a.attachGrants.insert keyId access
      ({ s with session := .active { a with attachGrants := attachGrants } }, [])
  | .denyAttach sessionId keyId =>
    s.asStarter sessionId actor fun a =>
      let attachGrants := a.attachGrants.erase keyId
      ({ s with session := .active { a with attachGrants := attachGrants } }, [])
  | .skip sessionId jobId =>
    s.asStarter sessionId actor (s.skipJob now network version actor jobId)

/-- The session a confirmed start opens: at the head of its chain, or resumed where the boundary
record of this universe left it. -/
def openSession (s : State) (sessionId : SessionId) (start : PendingStart) : Session :=
  let session := Session.started sessionId start.actor
  match s.past.boundary.filter fun boundary => boundary.session = sessionId with
  | some boundary => session.resumeAt boundary.successor
  | none => session

/-- Put a session into the slot, with an empty queue and no grants. -/
def activate (s : State) (sessionId : SessionId) (start : PendingStart) : State :=
  { s with
    session := .active {
      seq := start.preimage.seq
      live := start.live
      session := s.openSession sessionId start
      queuedJobs := ∅
      attachGrants := ∅ } }

/-- Confirm a pending start of `sessionId`, if it still outranks the active session. -/
def confirmStart (s : State) (now : DateTime) (sessionId : SessionId) : State × List Output :=
  match s.pendingStarts.pop sessionId with
  | (none, _) => (s, [])
  | (some start, pendingStarts) =>
    let popped := { s with pendingStarts }
    if rankOf start.preimage.seq sessionId ≤ s.session.rank then (popped, [])
    else (popped.activate sessionId start, s.skipQueuedJobs now)

/-- Handle a verified job. -/
def startJob (s : State) (now : DateTime) (network : Option Network) (version : Version)
    (actor : KeyId) (job : VerifiedJob) (params : JobStartParams) (sleds : BTreeSet BaseboardId) :
    State × List Output :=
  let sessionId := job.payload.sessionId
  let jobId := job.payload.jobId
  let live := s.past.isLive version
  let (s, outputs) := s.confirmStart now sessionId
  if (s.session.session).any (·.sessionId = sessionId) then
    let queued := { job, params, sleds, replayed := !live }
    let (s, more) := (s.enqueueJob now queued actor).releaseReadyJobs now network
    (s, outputs ++ more)
  else if live ∧ sleds.contains s.rack.ownBaseboard ∧ ¬s.history.contains jobId then
    (s, outputs ++ [.jobEvent s.rack.ownBaseboard (.skipped jobId now .sessionEnded)])
  else (s, outputs)

/-- Handle a job request. -/
def handleJobRequest (s : State) (now : DateTime) (network : Option Network) (version : Version)
    (actor : KeyId) : JobRequest → State × List Output
  | .start signed params sleds =>
    match s.certs.verify signed with
    | .ok job => s.startJob now network version actor job params sleds
    | .error _ => (s, [])
  | .stop jobId =>
    if (s.session.session).bind Session.startedBy ≠ some actor then (s, [])
    else if ¬s.isJobKnown jobId then (s, [])
    else (s.cancelJob now jobId actor (!s.past.isLive version), [.stop jobId])

/-! ## Steps -/

/-- Handle a gossiped message. -/
def update (s : State) (now : DateTime) (network : Option Network) (version : Version) :
    VersionedMessage → State × List Output
  | .v0 (.request (.session actor request)) =>
    s.handleSessionRequest now network version actor request
  | .v0 (.request (.job actor request)) => s.handleJobRequest now network version actor request
  | .v0 (.event baseboard event) => s.handleEvent version baseboard event
  | .unknown unknown _ => ({ s with rack := s.rack.unknownVersion unknown }, [])

end State

/-- One call of `State::step`: the time, the universe (none while draining) and the input. -/
structure Tick where
  now : DateTime
  network : Option Network
  input : Input

variable [Hashing]

/-- Advance the state machine by one input. -/
def State.step (s : State) (tick : Tick) : State × List Output :=
  match tick.input with
  | .cubbies cubbies => ({ s with rack := s.rack.setCubbies cubbies }, [])
  | .gossip version message => s.update tick.now tick.network version message
  | .drained => s.settle tick.now tick.network

/-- Feed a sequence of inputs through the state machine. -/
def State.run (s : State) (ticks : List Tick) : State × List Output := Lib.run State.step s ticks

theorem State.run_append (s : State) (ticks ticks' : List Tick) :
    (s.run (ticks ++ ticks')).1 = ((s.run ticks).1.run ticks').1 := by
  unfold State.run
  rw [Lib.run_append]

end Sush
