import Sush.Lib.Machine
import Sush.Common.Jobs

/-!
# The client's session

`client/src/cli.rs` and the commands of `client/src/commands.rs` that move a session. A client process keeps
the session that it is attached to, with its own view of the session's chain: the job that it starts next
carries the identifier that follows the last one. The session is saved to a file with every change, and a
process that starts loads it from there (`load_session`), so that the commands of a shell go on one where the
other stopped.

`Clients` is any number of processes that share the file. A command acts when the server has answered; what
was answered, and what became of the write, is part of the action. `SavedSession` as JSON is the parameter
`SessionJson`. The client nonce, which has a file of its own, and what the commands print are left out.
-/

namespace Sush

variable [World]

def sessionFileVersion : ℕ := 1

/-- `SavedSession` as JSON: a version and a session. -/
class SessionJson where
  /-- What a file can hold. -/
  Text : Type
  toJson : ℕ → Session → Text
  fromJson : Text → Option (ℕ × Session)
  fromJson_toJson : ∀ version session, fromJson (toJson version session) = some (version, session)

/-- A session at the head of its chain. -/
def Session.new (sessionId : SessionId) : Session := { sessionId, lastJob := .none, startedBy := none }

/-- What became of writing or removing a file: it was done, or there was an error, which may have come before
the change or after it. The file is replaced as a whole. -/
inductive FileWrite where
  | done
  | failed (changed : Bool)

/-- A client process. -/
structure Cli where
  session : Option Session
  /-- The session is saved: there is a place for its file. -/
  sessionFile : Bool

/-- A change of the session that was answered. -/
inductive SessionChange where
  /-- The server's session is joined; the user may have named one. -/
  | join (wanted : Option SessionId) (session : Session)
  /-- A session is joined without a server. -/
  | joinOffline (sessionId : SessionId) (force : Bool)
  /-- A session is created or started. -/
  | start (sessionId : SessionId)
  | stop (sessionId : SessionId)
  | jobStarted (job : SignedJob)
  /-- The job is skipped; the next one, if none is named. -/
  | jobSkipped (jobId : Option JobId)

variable [Hashing]

/-- What a change makes of the session of a process; `none` if it makes nothing. -/
def Cli.change (cli : Cli) : SessionChange → Option (Option Session)
  | .join wanted session =>
    if wanted.all (· = session.sessionId) then some (some session) else none
  | .joinOffline sessionId force =>
    -- `adopt_session` keeps a session with the same identifier, unless forced
    if force || cli.session.all (·.sessionId ≠ sessionId) then some (some (.new sessionId)) else none
  | .start sessionId => some (some (.new sessionId))
  | .stop sessionId => if cli.session.any (·.sessionId = sessionId) then some none else none
  | .jobStarted job => cli.session.map fun session => some (session.jobStarted job)
  | .jobSkipped jobId => cli.session.bind fun session =>
      let (skipped, moved) := session.skipJob (jobId.getD session.nextJobId)
      if moved then some (some skipped) else none

variable [SessionJson]

/-- The processes of a user, and the file that they share. -/
structure Clients where
  file : Option SessionJson.Text
  processes : List Cli

/-- What a user asks to run. -/
structure Command where
  command : String
  mode : JobMode
  target : Target

namespace Clients

inductive Act where
  /-- A process starts. There may be no place for the file, and it may not be readable. -/
  | launch (placed readable : Bool)
  /-- The session of a process changes. -/
  | change (id : ℕ) (change : SessionChange) (write : FileWrite)
  /-- A process has a job signed and starts it. The server may accept the job, and the client may be told so,
  or may take it for started as the answer is late. -/
  | jobStart (id : ℕ) (command : Command) (keyId : KeyId) (signature : EncodedSignature)
      (accepted told : Bool) (write : FileWrite)

inductive Out where
  | loaded (session : Option Session)
  | saved (session : Option Session) (acknowledged : Bool)
  /-- The server has accepted a job. -/
  | accepted (job : SignedJob)

/-- The contents of the file that a session is saved to; it is removed when there is none. -/
def contents (session : Option Session) : Option SessionJson.Text :=
  session.map (SessionJson.toJson sessionFileVersion)

/-- The session that the file holds, if it can be read. -/
def load (file : Option SessionJson.Text) : Option Session :=
  match file.bind SessionJson.fromJson with
  | some (version, session) => if version = sessionFileVersion then some session else none
  | none => none

/-- A process has another session now, and saves it. -/
def save (s : Clients) (id : ℕ) (cli : Cli) (session : Option Session) (write : FileWrite) :
    Clients × List Out :=
  let processes := s.processes.set id { cli with session := session }
  if cli.sessionFile then
    match write with
    | .done => (⟨contents session, processes⟩, [.saved session true])
    | .failed changed =>
      (⟨if changed then contents session else s.file, processes⟩, [.saved session false])
  else (⟨s.file, processes⟩, [])

/-- The request of a job, ready for signing: `job_start_request`. -/
def request (session : Session) (command : Command) : JobStartRequest where
  jobId := session.nextJobId
  sessionId := session.sessionId
  command := command.command
  mode := command.mode
  target := command.target

def step (s : Clients) : Act → Clients × List Out
  | .launch placed readable =>
    let session := if placed && readable then load s.file else none
    ({ s with processes := s.processes ++ [⟨session, placed⟩] }, [.loaded session])
  | .change id change write =>
    match s.processes[id]? with
    | none => (s, [])
    | some cli =>
      match cli.change change with
      | none => (s, [])
      | some session => s.save id cli session write
  | .jobStart id command keyId signature accepted told write =>
    match s.processes[id]? with
    | none => (s, [])
    | some cli =>
      match cli.session with
      | none => (s, [])
      | some session =>
        let job : SignedJob := ⟨request session command, keyId, signature⟩
        let outs := if accepted then [.accepted job] else []
        if told then
          let (s, more) := s.save id cli (some (session.jobStarted job)) write
          (s, outs ++ more)
        else (s, outs)

/-- No process, and a file that holds a session or none. -/
def new (session : Option Session) : Clients := ⟨contents session, []⟩

def run (session : Option Session) (acts : List Act) : Clients × List Out := Lib.run step (new session) acts

end Clients

end Sush
