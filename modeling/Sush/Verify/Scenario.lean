import Sush.Common.Terms
import Sush.Server.Step

/-!
# Inputs and lives to evaluate

The messages of a small rack whose identifiers are terms (`Sush.Common.Terms`): one trust anchor,
the key `0`, and sessions that differ in their sequence number only. A message is live when its
version is at least the birth of the life it arrives in.
-/

namespace Sush.Terms

attribute [local instance] world hashing crypto

/-- The ceremony of the session with sequence number `seq`. -/
def preimage (seq : SessionSeq) : SessionPreimage where
  baseboard := (0 : ℕ)
  sushNonce := 0
  signerNonce := 0
  seq := seq

/-- The session with sequence number `seq`. -/
def session (seq : SessionSeq) : SessionId := (preimage seq).sessionId

def request (sessionId : SessionId) (jobId : JobId) : JobStartRequest where
  jobId := jobId
  sessionId := sessionId
  command := ""
  mode := .batch
  target := .all

/-- The first job of the chain of the session with sequence number `seq`. -/
def firstJob (seq : SessionSeq) : JobStartRequest := request (session seq) (first (session seq))

/-- A job at the chain position after `r`. -/
def jobAfter (r : JobStartRequest) : JobStartRequest := request r.sessionId (after r)

def signed (r : JobStartRequest) : SignedJob where
  payload := r
  keyId := (0 : ℕ)
  signature := { r := 0, s := 0, flags := 1, counter := 0 }

def verified (r : JobStartRequest) : VerifiedJob := ⟨signed r, (0 : ℕ)⟩

def params : JobStartParams where
  limits := ⟨0, 0, 0⟩
  term := none
  rows := none
  cols := none
  wait := .none

/-! ## Inputs -/

/-- The delivery of a request in the universe `0`. -/
def deliver (version : Version) (request : Request) : Tick where
  now := 0
  network := some (0 : ℕ)
  input := .gossip version (.v0 (.request request))

def start (version : Version) (actor : KeyId) (seq : SessionSeq) : Tick :=
  deliver version (.session actor (.start (preimage seq)))

def stop (version : Version) (actor : KeyId) (seq : SessionSeq) : Tick :=
  deliver version (.session actor (.stop (session seq)))

def skip (version : Version) (actor : KeyId) (r : JobStartRequest) : Tick :=
  deliver version (.session actor (.skip r.sessionId r.jobId))

def job (version : Version) (actor : KeyId) (r : JobStartRequest) (sleds : List BaseboardId) :
    Tick :=
  deliver version (.job actor (.start (signed r) params (.ofList sleds compare)))

/-- The delivery of a job event of a sled in the universe `0`. -/
def event (version : Version) (sled : BaseboardId) (event : JobEvent) : Tick where
  now := 0
  network := some (0 : ℕ)
  input := .gossip version (.v0 (.event sled (.job event)))

/-- All messages at hand have been delivered, in the universe `0`. -/
def drained : Tick where
  now := 0
  network := some (0 : ℕ)
  input := .drained

/-! ## Lives -/

def build : VersionInfo := ⟨"0.1.0", "0"⟩

def anchors : List Certificate := [(0 : ℕ)]

/-- A life of the sled `own` in the universe `0` with the record `committed`. -/
def life (own : BaseboardId) (birth : Version) (committed : Option Boundary) : State where
  rack := Rack.new own build
  history := .empty
  session := .inactive
  pendingStarts := Lib.LruCache.new maxPendingStarts
  attachments := ∅
  certs := ⟨(∅ : BTreeMap KeyId (Certificate × Option KeyId)).insert (0 : ℕ) ((0 : ℕ), none)⟩
  past := Past.new birth committed (0 : ℕ)

theorem new_life (own : BaseboardId) (birth : Version) (committed : Option Boundary) :
    State.new build own anchors (Past.new birth committed (0 : ℕ)) = .ok (life own birth committed) :=
  rfl

/-- The record of the launch of `r` in the universe `0`. -/
def record (seq : SessionSeq) (r : JobStartRequest) : Boundary where
  network := (0 : ℕ)
  session := session seq
  seq := seq
  job := r.jobId
  successor := after r
  status := none

/-- The launch of `r` in the universe `0`. -/
def launch (seq : SessionSeq) (r : JobStartRequest) : Run where
  job := verified r
  params := params
  boundary := record seq r

def launched (s : State) (ticks : List Tick) : List JobId :=
  (launches (s.run ticks).2).map Run.jobId

def position (s : State) (ticks : List Tick) : Option (SessionId × JobId) :=
  (s.run ticks).1.session.session.map fun session => (session.sessionId, session.nextJobId)

end Sush.Terms
