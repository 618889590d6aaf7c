import Sush.Proxy.Login
import Sush.Proxy.Routing

/-!
# The proxy serves requests

`serve`, `own_version`, `check_login` and `Router::route` of `proxy/src/lib.rs`, over the calls of
`proxy/src/login.rs`. The proxy answers `/version` and `/iam` itself. Every other request is forwarded to
the sled the router picks, but only once its login is checked, except for the three endpoints that need
none.

Requests are served by tasks of their own, and a task can wait at every lock it takes, so `step` does one
critical section of one request at a time. In between, time passes, the maps of sleds and cubbies change,
and clients go away, which drops their tasks. Of a body only what `login_key` makes of it is kept.
-/

namespace Sush

/-- Discovery endpoints that don't require a login. -/
def unauthenticated : List (String × String) :=
  [("GET", "/target"), ("GET", "/version"), ("GET", "/versions")]

/-- `http::uri::PathAndQuery`: the text up to the first question mark, and after it. -/
structure PathAndQuery where
  raw : String
  query : Option String
  deriving DecidableEq

namespace PathAndQuery

def path (pq : PathAndQuery) : String := if pq.raw = "" then "/" else pq.raw

def asStr (pq : PathAndQuery) : String :=
  match pq.query with
  | none => pq.path
  | some query => pq.raw ++ "?" ++ query

end PathAndQuery

section Model

variable [World] [Phrases] [Authenticator] [Digest] [PercentEncoding]

/-- A request as it was received. -/
structure HttpRequest where
  method : String
  /-- A request to an authority has no path. -/
  pathAndQuery : Option PathAndQuery
  /-- The values of its `Authorization` headers, in order. A value may not be text. -/
  authorization : List (Option String)
  /-- What `login_key` makes of the body: a public key or none, or the text of an error. -/
  loginKey : Except String (Option PublicKey)

namespace HttpRequest

def path (request : HttpRequest) : String := (request.pathAndQuery.map PathAndQuery.path).getD ""

def query (request : HttpRequest) : Option String := request.pathAndQuery.bind PathAndQuery.query

/-- The path and query exactly as received. -/
def target (request : HttpRequest) : String := (request.pathAndQuery.map PathAndQuery.asStr).getD ""

/-- Whether the proxy answers the request by its own version. -/
def ownVersion (request : HttpRequest) : Bool :=
  request.method = "GET" && request.path = "/version" &&
    (namedTarget request.path request.query).isNone

/-- Whether the request needs no login. -/
def isOpen (request : HttpRequest) : Bool :=
  unauthenticated.any fun endpoint => request.method = endpoint.1 && request.path = endpoint.2

end HttpRequest

/-- What becomes of a request that is authorized. -/
inductive Purpose where
  | forward
  /-- It is answered with the identity that authorized it. -/
  | identity
  /-- It is answered with all identities that are logged in. -/
  | identities
  deriving DecidableEq

/-- What `check_login` does with a request. -/
inductive Checked where
  | forward
  | answer (status : StatusCode) (message : String)
  | login (authz : Option String) (publicKey : PublicKey)
  | authorize (authz : Option String) (purpose : Purpose)

/-- `check_login`, up to the first lock. -/
def HttpRequest.check (request : HttpRequest) : Checked :=
  if request.isOpen then .forward
  else
    let authz := request.authorization.head?.join
    if 1 < request.authorization.length then
      .answer .badRequest "Requests may have only one `Authorization` header"
    else if request.method = "POST" ∧ request.path = "/iam" then
      match request.loginKey with
      | .error message => .answer .badRequest message
      | .ok (some publicKey) => .login authz publicKey
      | .ok none => .authorize authz .identity
    else if request.method = "GET" ∧ request.path = "/iam" then .authorize authz .identities
    else .authorize authz .forward

/-- The identities whose logins have not expired. -/
def Logins.listed (logins : Logins) (now : Instant) : List Identity :=
  (logins.identities.entries.filter fun entry => entry.2.isStillValid now).map fun entry => entry.2.identity

/-- The answers that the proxy gives itself. -/
inductive Answer where
  | version
  | error (status : StatusCode) (message : String)
  | identity (identity : Identity)
  | identities (identities : List Identity)
  /-- `401`, with a fresh challenge. -/
  | unauthorized (nonce : Nonce)

/-- What the task of a request is at. -/
inductive Stage where
  /-- Its login has yet to be checked. -/
  | received
  /-- It is in a call of `Logins`. -/
  | call (call : Call)
  /-- It is authorized to list the identities. -/
  | listing
  /-- It was answered or forwarded, or its client is gone. -/
  | done

/-- `ProxyServer`, with its router and the tasks of all requests it ever received. -/
structure ProxyServer (SocketAddr : Type) where
  router : Router SocketAddr
  logins : Logins
  clock : Instant
  tasks : List (HttpRequest × Stage)

namespace ProxyServer

variable {SocketAddr : Type}

inductive Act (SocketAddr : Type) where
  | advance (elapsed : ℕ)
  /-- The maps of sleds and cubbies change. -/
  | retarget (targets : Targets SocketAddr)
  | receive (request : HttpRequest)
  /-- The task of a request goes on to its next lock. The wall clock is at `utc`; if the request is
  refused, it draws `nonce`. -/
  | proceed (id : ℕ) (utc : DateTime) (nonce : Nonce)
  /-- The client of a request is gone. -/
  | drop (id : ℕ)

/-- What is seen of a step. -/
inductive Out (SocketAddr : Type) where
  | logins (event : Proxy.Event)
  | answered (id : ℕ) (answer : Answer)
  /-- The request is forwarded to a sled, as what it was authorized with. -/
  | forwarded (id : ℕ) (request : HttpRequest) (addr : SocketAddr) (proof : Option (KeyId × RequestSignature))

def start (router : Router SocketAddr) : ProxyServer SocketAddr := ⟨router, .new, 0, []⟩

/-- The task of a request comes to another stage. -/
def set (s : ProxyServer SocketAddr) (id : ℕ) (request : HttpRequest) (stage : Stage) :
    ProxyServer SocketAddr :=
  { s with tasks := s.tasks.set id (request, stage) }

/-- The request is answered. -/
def answer (s : ProxyServer SocketAddr) (id : ℕ) (request : HttpRequest) (answer : Answer) :
    ProxyServer SocketAddr × List (Out SocketAddr) :=
  (s.set id request .done, [.answered id answer])

/-- A call fails: a challenge is owed. -/
def fail (s : ProxyServer SocketAddr) (id : ℕ) (request : HttpRequest) (error : LoginError) :
    ProxyServer SocketAddr × List (Out SocketAddr) :=
  (s.set id request (.call (.refused error)), [.logins (.failed error)])

/-- The request has passed: route it. -/
def route (s : ProxyServer SocketAddr) (id : ℕ) (request : HttpRequest)
    (proof : Option (KeyId × RequestSignature)) : ProxyServer SocketAddr × List (Out SocketAddr) :=
  match s.router.route request.path request.query with
  | .ok addr => (s.set id request .done, [.forwarded id request addr proof])
  | .error (status, message) => s.answer id request (.error status message)

/-- `Logins::authorize`, and what comes of the request if it is authorized. -/
def authorize (s : ProxyServer SocketAddr) (id : ℕ) (request : HttpRequest) (authz : Option String)
    (purpose : Purpose) : ProxyServer SocketAddr × List (Out SocketAddr) :=
  match Logins.bound authz with
  | .error e => s.fail id request e
  | .ok (keyId, proof) =>
    let authorized := s.logins.authorize s.clock keyId proof request.method request.target
    let s := { s with logins := authorized.2 }
    match authorized.1 with
    | .error e => s.fail id request e
    | .ok identity =>
      let went := match purpose with
        | .forward => s.route id request (some (keyId, proof))
        | .identity => s.answer id request (.identity identity)
        | .identities => (s.set id request .listing, [])
      (went.1, .logins (.authorized keyId proof request.method request.target s.clock) :: went.2)

/-- A login claims its nonce. -/
def login (s : ProxyServer SocketAddr) (id : ℕ) (request : HttpRequest) (authz : Option String)
    (publicKey : PublicKey) : ProxyServer SocketAddr × List (Out SocketAddr) :=
  let claimed := s.logins.claim authz
  let s := { s with logins := claimed.2 }
  match claimed.1 with
  | .error e => s.fail id request e
  | .ok (credentials, minted) => (s.set id request (.call (.claimed publicKey credentials minted)), [])

/-- A call goes on. -/
def resume (s : ProxyServer SocketAddr) (id : ℕ) (request : HttpRequest) (utc : DateTime) (nonce : Nonce) :
    Call → ProxyServer SocketAddr × List (Out SocketAddr)
  | .claimed publicKey credentials minted =>
    match Logins.check s.clock utc publicKey credentials minted with
    | .error e => s.fail id request e
    | .ok identity => (s.set id request (.call (.verified credentials identity)), [])
  | .verified credentials identity =>
    let answered := { s with logins := s.logins.cache s.clock credentials identity }.answer id request
      (.identity identity)
    (answered.1, .logins (.loggedIn credentials.keyId credentials.nonce credentials.epk s.clock) :: answered.2)
  | .refused _ =>
    let answered := { s with logins := s.logins.refuse s.clock nonce }.answer id request
      (.unauthorized nonce)
    (answered.1, .logins (.minted nonce) :: answered.2)

/-- A task goes on. -/
def proceed (s : ProxyServer SocketAddr) (id : ℕ) (utc : DateTime) (nonce : Nonce) :
    ProxyServer SocketAddr × List (Out SocketAddr) :=
  match s.tasks[id]? with
  | some (request, .received) =>
    match request.check with
    | .forward => s.route id request none
    | .answer status message => s.answer id request (.error status message)
    | .login authz publicKey => s.login id request authz publicKey
    | .authorize authz purpose => s.authorize id request authz purpose
  | some (request, .call call) => s.resume id request utc nonce call
  | some (request, .listing) => s.answer id request (.identities (s.logins.listed s.clock))
  | some (_, .done) | none => (s, [])

/-- One step. -/
def step (s : ProxyServer SocketAddr) : Act SocketAddr → ProxyServer SocketAddr × List (Out SocketAddr)
  | .advance elapsed => ({ s with clock := s.clock + elapsed }, [])
  | .retarget targets => ({ s with router := { s.router with targets := targets } }, [])
  | .receive request =>
    if request.ownVersion then
      ({ s with tasks := s.tasks ++ [(request, .done)] }, [.answered s.tasks.length .version])
    else ({ s with tasks := s.tasks ++ [(request, .received)] }, [])
  | .proceed id utc nonce => s.proceed id utc nonce
  | .drop id =>
    match s.tasks[id]? with
    | some (request, _) => (s.set id request .done, [])
    | none => (s, [])

/-- Any number of steps, in any order. -/
def run (router : Router SocketAddr) (acts : List (Act SocketAddr)) :
    ProxyServer SocketAddr × List (Out SocketAddr) :=
  Lib.run step (start router) acts

end ProxyServer

end Model

end Sush
