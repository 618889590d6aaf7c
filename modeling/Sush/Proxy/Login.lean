import Sush.Common.Authn
import Sush.Lib.Lru
import Sush.Lib.Machine

/-!
# Logins at the proxy

`proxy/src/login.rs`. Every failure mints a nonce. A login takes a nonce out of the table, proves that it
owns a key by signing the nonce, and leaves an identity in another table: its ephemeral verifier, the
sequence numbers it spent and when it was last used. Both tables are bounded and drop what was least
recently used.

Calls interleave at the locks. A login holds one lock to claim its nonce and another to leave its
identity, and looks at the clock in between; an authorization is one critical section; a refusal is
another. `Proxy.step` has one action for each of these, and one for the passing of time.
-/

namespace Sush

/-- Maximum number of cached identities. -/
def maxCachedIdentities : ℕ := 1000

/-- Maximum number of outstanding authentication nonces. -/
def maxOutstandingNonces : ℕ := 10000

/-- A time on the monotonic clock, in nanoseconds. -/
abbrev Instant : Type := ℕ

section Model

variable [World] [Phrases] [Authenticator] [Digest]

/-- An authenticated identity and the state that authorizes its requests. -/
structure CachedIdentity where
  identity : Identity
  verifier : RequestVerifier
  window : SeqWindow
  authenticated : Instant
  lastUsed : Instant

def CachedIdentity.isStillValid (cached : CachedIdentity) (now : Instant) : Bool :=
  now - cached.authenticated < identityMaxTtl && now - cached.lastUsed < identityIdleTtl

/-- Why a login or a request was refused. -/
inductive LoginError where
  | missingAuthorization
  | authn (error : AuthnError)
  | key (error : KeyError)
  | boundAtLogin
  | initialOutsideLogin
  | nonceNotFound
  | nonceExpired
  | keyIdMismatch
  | notLoggedIn
  | unknownIdentity
  | identityExpired
  | seqSpent
  deriving DecidableEq

/-- Outstanding challenge nonces and logged-in identities. -/
structure Logins where
  nonces : Lib.LruCache Nonce Instant
  identities : Lib.LruCache (KeyId × Nonce) CachedIdentity

namespace Logins

def new : Logins := ⟨.new maxOutstandingNonces, .new maxCachedIdentities⟩

/-! ## Login -/

/-- The first part of `verify_login`: read the credentials and claim their nonce. -/
def claim (logins : Logins) (authz : Option String) :
    Except LoginError (Credentials × Instant) × Logins :=
  match authz with
  | none => (.error .missingAuthorization, logins)
  | some authz =>
    match parseAuthn authz with
    | .error e => (.error (.authn e), logins)
    | .ok (.bound _) => (.error .boundAtLogin, logins)
    | .ok (.initial credentials) =>
      let (minted, nonces) := logins.nonces.pop credentials.nonce
      match minted with
      | none => (.error .nonceNotFound, { logins with nonces })
      | some minted => (.ok (credentials, minted), { logins with nonces })

/-- The second part of `verify_login`: verify the supplied credentials. -/
def check (now : Instant) (utc : DateTime) (publicKey : PublicKey) (credentials : Credentials)
    (minted : Instant) : Except LoginError Identity :=
  if now - minted ≥ nonceTtl then .error .nonceExpired
  else if (publicKeyId publicKey).toOption ≠ some credentials.keyId then .error .keyIdMismatch
  else
    match credentials.intoChallengeResponse.verifyWithSshPublicKey publicKey with
    | .error e => .error (.key e)
    | .ok verified =>
      match Identity.new publicKey verified utc with
      | .error e => .error (.key e)
      | .ok identity => .ok identity

/-- The last part of `verify_login`: cache the identity and its request verifier. -/
def cache (logins : Logins) (now : Instant) (credentials : Credentials) (identity : Identity) :
    Logins :=
  let cached := {
    identity, verifier := credentials.epk, window := .default, authenticated := now, lastUsed := now }
  { logins with identities := logins.identities.put (credentials.keyId, credentials.nonce) cached }

/-- `refuse_failure`: answer with a fresh challenge. -/
def refuse (logins : Logins) (now : Instant) (nonce : Nonce) : Logins :=
  { logins with nonces := logins.nonces.put nonce now }

/-! ## Requests -/

/-- The credentials that `verify_request` reads: the claimed key and the proof of a login. -/
def bound (authz : Option String) : Except LoginError (KeyId × RequestSignature) :=
  match authz with
  | none => .error .missingAuthorization
  | some authz =>
    match parseAuthn authz with
    | .error e => .error (.authn e)
    | .ok (.initial _) => .error .initialOutsideLogin
    | .ok (.bound credentials) =>
      match credentials.signature with
      | none => .error .notLoggedIn
      | some proof => .ok (credentials.keyId, proof)

/-- The rest of `verify_request`, under the lock of the identities. -/
def authorize (logins : Logins) (now : Instant) (keyId : KeyId) (proof : RequestSignature)
    (method target : String) : Except LoginError Identity × Logins :=
  let cacheKey := (keyId, proof.nonce)
  match logins.identities.peek cacheKey with
  | none => (.error .unknownIdentity, logins)
  | some cached =>
    -- looking an identity up makes it the most recently used, whatever comes of the request
    let identities := logins.identities.use cacheKey cached
    if !cached.isStillValid now then
      (.error .identityExpired, { logins with identities := (identities.pop cacheKey).2 })
    else
      let received := BoundRequest.new method target proof.seq
      match RequestVerifier.verify cached.verifier received keyId proof with
      | .error e => (.error (.authn e), { logins with identities })
      | .ok () =>
        let (window, fresh) := cached.window.spend proof.seq
        if !fresh then
          (.error .seqSpent,
            { logins with identities := identities.use cacheKey { cached with window } })
        else
          let used := { cached with window, lastUsed := now }
          (.ok cached.identity, { logins with identities := identities.use cacheKey used })

end Logins

/-! ## The proxy -/

/-- A call that has left a critical section and has another one to come. -/
inductive Call where
  /-- A login that claimed a nonce. -/
  | claimed (publicKey : PublicKey) (credentials : Credentials) (minted : Instant)
  /-- A login whose credentials were verified. -/
  | verified (credentials : Credentials) (identity : Identity)
  /-- A call that failed and owes its client a challenge. -/
  | refused (error : LoginError)

/-- The tables, the clock and the calls under way. -/
structure Proxy where
  logins : Logins
  clock : Instant
  calls : List Call

namespace Proxy

inductive Action where
  | advance (elapsed : ℕ)
  | login (authz : Option String) (publicKey : PublicKey)
  | verify (call : ℕ) (utc : DateTime)
  | cache (call : ℕ)
  | authorize (authz : Option String) (method target : String)
  | refuse (call : ℕ) (nonce : Nonce)

/-- What is seen of a step. -/
inductive Event where
  | loggedIn (keyId : KeyId) (nonce : Nonce) (epk : RequestVerifier) (time : Instant)
  | authorized (keyId : KeyId) (proof : RequestSignature) (method target : String) (time : Instant)
  | failed (error : LoginError)
  | minted (nonce : Nonce)
  deriving DecidableEq

def new : Proxy := ⟨.new, 0, []⟩

/-- A call fails: a challenge is owed. -/
def fail (proxy : Proxy) (error : LoginError) : Proxy × List Event :=
  ({ proxy with calls := proxy.calls ++ [.refused error] }, [.failed error])

/-- The proxy without a call. -/
def drop (proxy : Proxy) (call : ℕ) : Proxy := { proxy with calls := proxy.calls.eraseIdx call }

/-- One critical section, or the passing of time. An action on a call that is not there, or has
something else to do, does nothing. -/
def step (proxy : Proxy) : Action → Proxy × List Event
  | .advance elapsed => ({ proxy with clock := proxy.clock + elapsed }, [])
  | .login authz publicKey =>
    let (claimed, logins) := proxy.logins.claim authz
    let proxy := { proxy with logins }
    match claimed with
    | .error e => proxy.fail e
    | .ok (credentials, minted) =>
      ({ proxy with calls := proxy.calls ++ [.claimed publicKey credentials minted] }, [])
  | .verify call utc =>
    match proxy.calls[call]? with
    | some (.claimed publicKey credentials minted) =>
      let proxy := proxy.drop call
      match Logins.check proxy.clock utc publicKey credentials minted with
      | .error e => proxy.fail e
      | .ok identity => ({ proxy with calls := proxy.calls ++ [.verified credentials identity] }, [])
    | _ => (proxy, [])
  | .cache call =>
    match proxy.calls[call]? with
    | some (.verified credentials identity) =>
      let logins := proxy.logins.cache proxy.clock credentials identity
      ({ proxy.drop call with logins },
        [.loggedIn credentials.keyId credentials.nonce credentials.epk proxy.clock])
    | _ => (proxy, [])
  | .authorize authz method target =>
    match Logins.bound authz with
    | .error e => proxy.fail e
    | .ok (keyId, proof) =>
      let (result, logins) := proxy.logins.authorize proxy.clock keyId proof method target
      let proxy := { proxy with logins }
      match result with
      | .error e => proxy.fail e
      | .ok _ => (proxy, [.authorized keyId proof method target proxy.clock])
  | .refuse call nonce =>
    match proxy.calls[call]? with
    | some (.refused _) =>
      ({ proxy.drop call with logins := proxy.logins.refuse proxy.clock nonce }, [.minted nonce])
    | _ => (proxy, [])

/-- Take actions one after the other, collecting the events. -/
abbrev run (proxy : Proxy) (actions : List Action) : Proxy × List Event :=
  Lib.run step proxy actions

end Proxy

end Model

end Sush
