import Mathlib
import Sush.Lib.Machine

/-!
# Signing requests and logging in

`AuthzSigner` and `sign_request` of `client/src/lib.rs`, `Authz` of `client/src/context.rs`, and `with_login`
of `client/src/commands.rs`. A client makes requests concurrently. A hook signs every request with the
current authorization, if there is one, as it is sent. When the proxy refuses a request, its task logs in,
unless the authorization was set since the task looked, and tries again.

`ClientProcess.step` is one thing that one task does between two points where others may run. What comes
from outside is part of the action: the key that the agent offers, how many requests the closure makes one
after the other, whether a response is a refusal, what authentication comes to. The shell may drop the
authorization at any time, and tasks may be cancelled. The generation and the sequence numbers are `u64`
and wrap.
-/

namespace Sush

variable {KeyId Credentials : Type}

/-- `Authz`: the credentials of a login with their ephemeral key, and the next sequence number. Its clones
share the number. -/
structure Authz (Credentials : Type) where
  credentials : Credentials
  seq : ℕ

def Authz.new (credentials : Credentials) : Authz Credentials := ⟨credentials, 1⟩

/-- Authorization state shared between the command context and the client's pre-send hook. -/
structure AuthzSigner (KeyId : Type) where
  /-- The current authorization, by its place among all that were made. -/
  authz : Option ℕ
  /-- How many times the authorization has been set. -/
  generation : ℕ
  /-- The key ID to claim in requests made before logging in. -/
  claim : Option KeyId
  /-- The task that holds the login lock. -/
  login : Option ℕ

namespace AuthzSigner

def default : AuthzSigner KeyId := ⟨none, 0, none, none⟩

def set (signer : AuthzSigner KeyId) (authz : Option ℕ) : AuthzSigner KeyId :=
  { signer with authz := authz, generation := (signer.generation + 1) % 2 ^ 64 }

def setClaim (signer : AuthzSigner KeyId) (keyId : KeyId) : AuthzSigner KeyId :=
  { signer with claim := some keyId }

def clearClaim (signer : AuthzSigner KeyId) : AuthzSigner KeyId := { signer with claim := none }

/-- The login lock is let go of. -/
def unlock (signer : AuthzSigner KeyId) : AuthzSigner KeyId := { signer with login := none }

end AuthzSigner

/-- The `Authorization` header of a request, as far as it matters here. -/
inductive AuthzHeader (KeyId : Type) where
  | missing
  /-- A key is claimed. -/
  | claim (keyId : KeyId)
  /-- Signed with an authorization, under a sequence number. -/
  | bound (authz : ℕ) (seq : ℕ)

/-- The authorization that a request is signed with. -/
def AuthzHeader.authz? : AuthzHeader KeyId → Option ℕ
  | bound authz _ => some authz
  | _ => none

/-- What a call of `with_login` is at. -/
inductive Attempt (KeyId : Type) where
  /-- It asks the agent for a key to claim. -/
  | claiming
  /-- It is about to make its first request of this turn. -/
  | ready (generation : ℕ) (loggedIn : Bool)
  /-- A request was sent, this one last. -/
  | sent (generation : ℕ) (loggedIn : Bool) (header : AuthzHeader KeyId)
  /-- That request was refused, and the login lock is wanted. -/
  | refused (generation : ℕ) (header : AuthzHeader KeyId)
  /-- It holds the login lock and authenticates. -/
  | authenticating (generation : ℕ)
  /-- It is about to look at the generation again. -/
  | retrying (loggedIn : Bool)
  | returned

/-- The requests under way, with every authorization ever made. -/
structure ClientProcess (KeyId Credentials : Type) where
  signer : AuthzSigner KeyId
  authzs : List (Authz Credentials)
  attempts : List (Attempt KeyId)

inductive ClientAct (KeyId Credentials : Type) where
  /-- `with_login` is called. -/
  | start
  /-- `claim_key` ends, with a key from the agent or without. -/
  | claimed (id : ℕ) (keyId : Option KeyId)
  /-- A request is signed and sent: the first of a turn, or one more once the last was answered. -/
  | send (id : ℕ)
  /-- What the closure returns after the last response: a refusal or something else. -/
  | respond (id : ℕ) (unauthorized : Bool)
  /-- The login lock is taken. -/
  | lock (id : ℕ)
  /-- `authenticate` returns. -/
  | authenticated (id : ℕ) (credentials : Option Credentials)
  /-- The generation is read again. -/
  | retry (id : ℕ)
  /-- The task is cancelled. -/
  | drop (id : ℕ)
  /-- The shell changes options that a login depends on. -/
  | reset

inductive ClientOut (KeyId : Type) where
  /-- A turn of the loop of `with_login` begins to make requests. -/
  | tried (id : ℕ)
  | sent (id : ℕ) (header : AuthzHeader KeyId)
  /-- A task begins to log in because this request was refused, while `current` was the authorization. -/
  | needed (id : ℕ) (refused : AuthzHeader KeyId) (current : Option ℕ)
  /-- A login that was found needed at `generation` has set the authorization. -/
  | loggedIn (id : ℕ) (generation : ℕ)
  /-- The authorization was dropped. -/
  | dropped

namespace ClientProcess

def new : ClientProcess KeyId Credentials := ⟨.default, [], []⟩

variable (c : ClientProcess KeyId Credentials)

/-- A task comes to another point. -/
def set (id : ℕ) (attempt : Attempt KeyId) : ClientProcess KeyId Credentials :=
  { c with attempts := c.attempts.set id attempt }

/-- `claim_key`, up to the agent, and the generation that `with_login` starts from. -/
def start : ClientProcess KeyId Credentials :=
  if c.signer.authz.isSome || c.signer.claim.isSome then
    { c with attempts := c.attempts ++ [.ready c.signer.generation false] }
  else { c with attempts := c.attempts ++ [.claiming] }

/-- `sign_request`: the header, and the counter of the authorization that signed. -/
def sign : AuthzHeader KeyId × List (Authz Credentials) :=
  match c.signer.authz with
  | some place =>
    match c.authzs[place]? with
    | some authz =>
      (.bound place authz.seq, c.authzs.set place { authz with seq := (authz.seq + 1) % 2 ^ 64 })
    | none => (.missing, c.authzs)
  | none =>
    match c.signer.claim with
    | some keyId => (.claim keyId, c.authzs)
    | none => (.missing, c.authzs)

/-- `login_needed`, once the lock is taken. -/
def lock (id generation : ℕ) (header : AuthzHeader KeyId) :
    ClientProcess KeyId Credentials × List (ClientOut KeyId) :=
  if c.signer.generation = generation then
    ({ c with signer := { c.signer with login := some id } }.set id (.authenticating generation),
      [.needed id header c.signer.authz])
  else (c.set id (.retrying false), [])

/-- A login ends, and with it the hold of the lock. -/
def authenticated (id generation : ℕ) (credentials : Option Credentials) :
    ClientProcess KeyId Credentials × List (ClientOut KeyId) :=
  let c := { c with signer := c.signer.unlock }
  match credentials with
  | some credentials =>
    ({ c with
      signer := c.signer.set (some c.authzs.length)
      authzs := c.authzs ++ [Authz.new credentials] }.set id (.retrying true), [.loggedIn id generation])
  | none => (c.set id .returned, [])

/-- One task goes on. An action that is not enabled leaves everything as it is. -/
def step : ClientAct KeyId Credentials → ClientProcess KeyId Credentials × List (ClientOut KeyId)
  | .start => (c.start, [])
  | .claimed id keyId =>
    match c.attempts[id]? with
    | some .claiming =>
      let c := match keyId with
        | some keyId => { c with signer := c.signer.setClaim keyId }
        | none => c
      (c.set id (.ready c.signer.generation false), [])
    | _ => (c, [])
  | .send id =>
    match c.attempts[id]? with
    | some (.ready generation loggedIn) =>
      ({ c with authzs := c.sign.2 }.set id (.sent generation loggedIn c.sign.1),
        [.tried id, .sent id c.sign.1])
    | some (.sent generation loggedIn _) =>
      ({ c with authzs := c.sign.2 }.set id (.sent generation loggedIn c.sign.1), [.sent id c.sign.1])
    | _ => (c, [])
  | .respond id unauthorized =>
    match c.attempts[id]? with
    | some (.sent generation loggedIn header) =>
      if unauthorized && !loggedIn then (c.set id (.refused generation header), [])
      else (c.set id .returned, [])
    | _ => (c, [])
  | .lock id =>
    match c.attempts[id]? with
    | some (.refused generation header) =>
      if c.signer.login.isNone then c.lock id generation header else (c, [])
    | _ => (c, [])
  | .authenticated id credentials =>
    match c.attempts[id]? with
    | some (.authenticating generation) => c.authenticated id generation credentials
    | _ => (c, [])
  | .retry id =>
    match c.attempts[id]? with
    | some (.retrying loggedIn) => (c.set id (.ready c.signer.generation loggedIn), [])
    | _ => (c, [])
  | .drop id =>
    match c.attempts[id]? with
    | some (.authenticating _) => ({ c with signer := c.signer.unlock }.set id .returned, [])
    | some _ => (c.set id .returned, [])
    | none => (c, [])
  | .reset => ({ c with signer := (c.signer.set none).clearClaim }, [.dropped])

/-- Any number of actions, in any order. -/
def run (acts : List (ClientAct KeyId Credentials)) :
    ClientProcess KeyId Credentials × List (ClientOut KeyId) :=
  Lib.run step new acts

end ClientProcess

end Sush
