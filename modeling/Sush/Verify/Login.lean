import Sush.Common.Plain
import Sush.Proxy.Login

/-!
# Logins and requests are not replayed

A nonce is in one place at a time: in the table, with a call that claimed it, or spent by a login. Each
critical section moves nonces along and none makes one but a refusal (`Proxy.Moves`), so there are at
most as many logins with a nonce as times it was minted. An identity in the table is backed by the
events: its login is among them, its window tracks the sequence numbers that were authorized for it, and
it was last used when the last of these events says (`Proxy.Backed`). When nonces are not minted twice, a
login finds no trace of its nonce, so its empty window tracks what was authorized for it before, which is
nothing; and what the tables drop is never made again. `no_replay` puts this together.
-/

namespace Sush

variable [World]

namespace Proxy

/-! ## Events -/

namespace Event

def minted? : Event → Option Nonce
  | minted nonce => some nonce
  | _ => none

def loggedIn? : Event → Option Nonce
  | loggedIn _ nonce _ _ => some nonce
  | _ => none

/-- The key, the nonce and the sequence number that a request was authorized with. -/
def authorized? : Event → Option (KeyId × Nonce × UInt64)
  | authorized keyId proof _ _ _ => some (keyId, proof.nonce, proof.seq)
  | _ => none

/-- When the login of `keyId` and `nonce` was made or used. -/
def use? (keyId : KeyId) (nonce : Nonce) : Event → Option Instant
  | loggedIn k n _ time => if (k, n) = (keyId, nonce) then some time else none
  | authorized k proof _ _ time => if (k, proof.nonce) = (keyId, nonce) then some time else none
  | _ => none

end Event

def mintedOf (events : List Event) : List Nonce := events.filterMap Event.minted?

def loggedInOf (events : List Event) : List Nonce := events.filterMap Event.loggedIn?

def authorizedOf (events : List Event) : List (KeyId × Nonce × UInt64) :=
  events.filterMap Event.authorized?

/-- When the login of `keyId` and `nonce` was last used. -/
def lastUse (keyId : KeyId) (nonce : Nonce) (events : List Event) : Option Instant :=
  (events.filterMap (Event.use? keyId nonce)).getLast?

theorem mintedOf_append (events more : List Event) :
    mintedOf (events ++ more) = mintedOf events ++ mintedOf more := List.filterMap_append

theorem loggedInOf_append (events more : List Event) :
    loggedInOf (events ++ more) = loggedInOf events ++ loggedInOf more := List.filterMap_append

theorem authorizedOf_append (events more : List Event) :
    authorizedOf (events ++ more) = authorizedOf events ++ authorizedOf more :=
  List.filterMap_append

theorem lastUse_concat_none {keyId : KeyId} {nonce : Nonce} {events : List Event} {e : Event}
    (h : e.use? keyId nonce = none) :
    lastUse keyId nonce (events ++ [e]) = lastUse keyId nonce events := by
  simp [lastUse, List.filterMap_append, h]

theorem lastUse_concat_some {keyId : KeyId} {nonce : Nonce} {events : List Event} {e : Event}
    {time : Instant} (h : e.use? keyId nonce = some time) :
    lastUse keyId nonce (events ++ [e]) = some time := by
  simp [lastUse, List.filterMap_append, h]

end Proxy

/-! ## What a step does -/

variable [Authenticator]

namespace Logins

/-- A claim takes the nonce of its credentials out of the table, or fails; a failure may also have
found nothing to take. -/
theorem claim_cases (logins : Logins) (authz : Option String) :
    (∃ e, logins.claim authz = (.error e, logins)) ∨
    (∃ e nonce, logins.claim authz =
      (.error e, { logins with nonces := logins.nonces.erase nonce })) ∨
    ∃ credentials minted, logins.nonces.peek credentials.nonce = some minted ∧
      logins.claim authz = (.ok (credentials, minted),
        { logins with nonces := logins.nonces.erase credentials.nonce }) := by
  unfold claim
  split
  · exact .inl ⟨_, rfl⟩
  split
  · exact .inl ⟨_, rfl⟩
  · exact .inl ⟨_, rfl⟩
  rename_i credentials _
  dsimp only [Lib.LruCache.pop]
  split
  · exact .inr (.inl ⟨_, _, rfl⟩)
  · rename_i minted hpeek
    exact .inr (.inr ⟨credentials, minted, hpeek, rfl⟩)

end Logins

def Call.nonce? : Call → Option Nonce
  | .claimed _ credentials _ => some credentials.nonce
  | .verified credentials _ => some credentials.nonce
  | .refused _ => none

namespace Proxy

/-- How often a nonce is held: once by the table, and once by each call that claimed it. -/
def held (proxy : Proxy) (nonce : Nonce) : ℕ :=
  (if proxy.logins.nonces.contains nonce then 1 else 0) +
    (proxy.calls.filterMap Call.nonce?).count nonce

theorem held_drop {p : Proxy} {i : ℕ} {call : Call} (h : p.calls[i]? = some call) (n : Nonce) :
    held (p.drop i) n + (if call.nonce? = some n then 1 else 0) = held p n := by
  obtain ⟨hi, hcall⟩ := List.getElem?_eq_some_iff.1 h
  have hperm := (List.getElem_cons_eraseIdx_perm hi).filterMap Call.nonce?
  have hcount := hperm.count_eq n
  rw [hcall] at hcount
  unfold held drop
  dsimp only
  rw [← hcount]
  cases hnonce : call.nonce? with
  | none => simp [hnonce]
  | some m =>
    by_cases hm : m = n
    · subst hm
      simp [hnonce]
      omega
    · simp [hnonce, hm]

theorem held_calls_concat (p : Proxy) (call : Call) (n : Nonce) :
    held { p with calls := p.calls ++ [call] } n =
      held p n + if call.nonce? = some n then 1 else 0 := by
  unfold held
  cases hnonce : call.nonce? with
  | none => simp [List.filterMap_append, hnonce]
  | some m =>
    by_cases hm : m = n
    · simp [List.filterMap_append, hnonce, hm]
      omega
    · simp [List.filterMap_append, hnonce, hm]

theorem held_erase (p : Proxy) (nonce n : Nonce) :
    held { p with logins := { p.logins with nonces := p.logins.nonces.erase nonce } } n +
      (if p.logins.nonces.contains nonce ∧ nonce = n then 1 else 0) = held p n := by
  unfold held Lib.LruCache.contains
  dsimp only
  rw [Lib.LruCache.peek_erase]
  by_cases hn : nonce = n
  · subst hn
    by_cases hpeek : (p.logins.nonces.peek nonce).isSome = true
    · simp [hpeek]
      omega
    · simp [hpeek]
  · simp [hn]

theorem held_refuse (p : Proxy) (now : Instant) (nonce n : Nonce) :
    held { p with logins := p.logins.refuse now nonce } n ≤
      held p n + if nonce = n then 1 else 0 := by
  have hput : (p.logins.nonces.put nonce now).contains n →
      nonce = n ∨ p.logins.nonces.contains n := by
    intro h
    obtain ⟨time, htime⟩ := Option.isSome_iff_exists.1 h
    rcases Lib.LruCache.peek_put_cases htime with ⟨hn, -⟩ | hold
    · exact .inl hn.symm
    · exact .inr (by simp [Lib.LruCache.contains, hold])
  show (if (p.logins.nonces.put nonce now).contains n then 1 else 0) +
      (p.calls.filterMap Call.nonce?).count n ≤
    (if p.logins.nonces.contains n then 1 else 0) + (p.calls.filterMap Call.nonce?).count n + _
  by_cases hafter : (p.logins.nonces.put nonce now).contains n
  · rcases hput hafter with hn | hbefore
    · rw [if_pos hafter, if_pos hn]
      omega
    · rw [if_pos hafter, if_pos hbefore]
      omega
  · rw [if_neg hafter]
    omega

end Proxy

variable [Phrases] [Digest]

variable {events : List Event} {p q : Proxy}

/-- What comes of a request: an error that leaves every identity as it was, an expired identity that
is dropped, or an identity that is used. -/
theorem Logins.authorize_cases (logins : Logins) (now : Instant) (keyId : KeyId)
    (proof : RequestSignature) (method target : String) :
    (∃ e ids, e ≠ .identityExpired ∧ (∀ key, ids.peek key = logins.identities.peek key) ∧
      logins.authorize now keyId proof method target =
        (.error e, { logins with identities := ids })) ∨
    (∃ ids, (∀ key, ids.peek key =
        if (keyId, proof.nonce) = key then none else logins.identities.peek key) ∧
      logins.authorize now keyId proof method target =
        (.error .identityExpired, { logins with identities := ids })) ∨
    ∃ cached ids, logins.identities.peek (keyId, proof.nonce) = some cached ∧
      cached.isStillValid now ∧
      RequestVerifier.verify cached.verifier (BoundRequest.new method target proof.seq) keyId proof =
        .ok () ∧
      (cached.window.spend proof.seq).2 = true ∧
      (∀ key, ids.peek key = if (keyId, proof.nonce) = key then
          some { cached with window := (cached.window.spend proof.seq).1, lastUsed := now }
        else logins.identities.peek key) ∧
      logins.authorize now keyId proof method target =
        (.ok cached.identity, { logins with identities := ids }) := by
  unfold authorize
  dsimp only
  cases hpeek : logins.identities.peek (keyId, proof.nonce) with
  | none => exact .inl ⟨_, logins.identities, by simp, fun _ => rfl, rfl⟩
  | some cached =>
    -- being looked up changes no identity
    have hlooked : ∀ key, (logins.identities.use (keyId, proof.nonce) cached).peek key =
        logins.identities.peek key := by
      intro key
      rw [Lib.LruCache.peek_use]
      split
      · rename_i hkey
        rw [← hkey, hpeek]
      · rfl
    dsimp only
    by_cases hvalid : cached.isStillValid now = true
    · rw [if_neg (by simp [hvalid])]
      cases hverify : RequestVerifier.verify cached.verifier
          (BoundRequest.new method target proof.seq) keyId proof with
      | error e => exact .inl ⟨_, _, by simp, hlooked, rfl⟩
      | ok _ =>
        dsimp only
        by_cases hspend : (cached.window.spend proof.seq).2 = true
        · rw [if_neg (by simp [hspend])]
          refine .inr (.inr ⟨cached, _, rfl, hvalid, hverify, hspend, fun key => ?_, rfl⟩)
          rw [Lib.LruCache.peek_use, hlooked]
        · rw [if_pos (by simp [hspend])]
          refine .inl ⟨_, _, by simp, fun key => ?_, rfl⟩
          rw [Lib.LruCache.peek_use, SeqWindow.spend_refused (by simpa using hspend), hlooked]
          split
          · rename_i hkey
            rw [← hkey, hpeek]
          · rfl
    · rw [if_pos (by simp [hvalid])]
      refine .inr (.inl ⟨_, fun key => ?_, rfl⟩)
      rw [Lib.LruCache.pop, Lib.LruCache.peek_erase, hlooked]

namespace Proxy

/-- What stands behind an authorized request: a login of its key and nonce came before and has not
expired, the ephemeral key of that login verifies the request, and the sequence number is new. -/
def Justified (before : List Event) : Event → Prop
  | .authorized keyId proof method target time =>
    ∃ epk authenticated used,
      Event.loggedIn keyId proof.nonce epk authenticated ∈ before ∧
      lastUse keyId proof.nonce before = some used ∧
      time < authenticated + identityMaxTtl ∧ time < used + identityIdleTtl ∧
      RequestVerifier.verify epk (BoundRequest.new method target proof.seq) keyId proof = .ok () ∧
      (keyId, proof.nonce, proof.seq) ∉ authorizedOf before
  | _ => True

/-- What a step from `p` to `q` does to nonces and identities, by the events it makes. -/
inductive Moves (p q : Proxy) : List Event → Prop where
  | quiet {events : List Event} (hheld : ∀ n, held q n ≤ held p n)
      (hids : ∀ key cached, q.logins.identities.peek key = some cached →
        p.logins.identities.peek key = some cached)
      (hevents : events = [] ∨ ∃ e, events = [.failed e]) : Moves p q events
  | minted (nonce : Nonce) (hheld : ∀ n, held q n ≤ held p n + if nonce = n then 1 else 0)
      (hids : q.logins.identities = p.logins.identities) : Moves p q [.minted nonce]
  | loggedIn (keyId : KeyId) (nonce : Nonce) (fresh : CachedIdentity)
      (hheld : ∀ n, held q n + (if nonce = n then 1 else 0) ≤ held p n)
      (hids : q.logins.identities = p.logins.identities.put (keyId, nonce) fresh)
      (hwindow : fresh.window = .default) (hauthenticated : fresh.authenticated = p.clock)
      (hused : fresh.lastUsed = p.clock) : Moves p q [.loggedIn keyId nonce fresh.verifier p.clock]
  | authorized (keyId : KeyId) (proof : RequestSignature) (method target : String)
      (cached : CachedIdentity) (hheld : ∀ n, held q n = held p n)
      (hpeek : p.logins.identities.peek (keyId, proof.nonce) = some cached)
      (hvalid : cached.isStillValid p.clock)
      (hverify : RequestVerifier.verify cached.verifier (BoundRequest.new method target proof.seq)
        keyId proof = .ok ())
      (hspend : (cached.window.spend proof.seq).2 = true)
      (hids : ∀ key, q.logins.identities.peek key =
        if (keyId, proof.nonce) = key then
          some { cached with window := (cached.window.spend proof.seq).1, lastUsed := p.clock }
        else p.logins.identities.peek key) :
      Moves p q [.authorized keyId proof method target p.clock]

theorem Moves.fail (hheld : ∀ n, held q n ≤ held p n)
    (hids : ∀ key cached, q.logins.identities.peek key = some cached →
      p.logins.identities.peek key = some cached) (e : LoginError) :
    Moves p (q.fail e).1 (q.fail e).2 := by
  refine .quiet (fun n => ?_) hids (.inr ⟨e, rfl⟩)
  have hsame : held (q.fail e).1 n = held q n := held_calls_concat q (.refused e) n
  rw [hsame]
  exact hheld n

theorem moves_login (p : Proxy) (authz : Option String) (publicKey : PublicKey) :
    Moves p (p.step (.login authz publicKey)).1 (p.step (.login authz publicKey)).2 := by
  unfold step
  dsimp only
  rcases p.logins.claim_cases authz with ⟨e, hclaim⟩ | ⟨e, nonce, hclaim⟩ |
    ⟨credentials, minted, hpeek, hclaim⟩
  · rw [hclaim]
    exact .fail (fun _ => le_rfl) (fun _ _ h => h) e
  · rw [hclaim]
    have hless : ∀ n, held { p with logins := { p.logins with
        nonces := p.logins.nonces.erase nonce } } n ≤ held p n := fun n => by
      rw [← held_erase p nonce n]
      exact Nat.le_add_right ..
    exact .fail hless (fun _ _ h => h) e
  · rw [hclaim]
    refine .quiet (fun n => ?_) (fun _ _ h => h) (.inl rfl)
    have hcontains : p.logins.nonces.contains credentials.nonce := by
      simp [Lib.LruCache.contains, hpeek]
    have herase := held_erase p credentials.nonce n
    simp only [hcontains, true_and] at herase
    have hadd := held_calls_concat { p with logins := { p.logins with
      nonces := p.logins.nonces.erase credentials.nonce } }
      (.claimed publicKey credentials minted) n
    simp only [Call.nonce?, Option.some.injEq] at hadd
    exact (hadd.trans herase).le

theorem moves_verify (p : Proxy) (call : ℕ) (utc : DateTime) :
    Moves p (p.step (.verify call utc)).1 (p.step (.verify call utc)).2 := by
  have hnothing : Moves p p [] := .quiet (fun _ => le_rfl) (fun _ _ h => h) (.inl rfl)
  unfold step
  dsimp only
  split
  case h_1 publicKey credentials minted hcall =>
    have hdrop := held_drop hcall
    split
    case h_1 e _ =>
      have hless : ∀ n, held (p.drop call) n ≤ held p n := fun n => by
        rw [← hdrop n]
        exact Nat.le_add_right ..
      exact .fail hless (fun _ _ h => h) e
    case h_2 identity _ =>
      refine .quiet (fun n => ?_) (fun _ _ h => h) (.inl rfl)
      rw [held_calls_concat, ← hdrop n]
      exact le_rfl
  case h_2 => exact hnothing

theorem moves_cache (p : Proxy) (call : ℕ) :
    Moves p (p.step (.cache call)).1 (p.step (.cache call)).2 := by
  unfold step
  dsimp only
  split
  case h_1 credentials identity hcall =>
    refine .loggedIn credentials.keyId credentials.nonce
      ⟨identity, credentials.epk, .default, p.clock, p.clock⟩ (fun n => ?_) rfl rfl rfl rfl
    rw [← held_drop hcall n]
    simp only [Call.nonce?, Option.some.injEq]
    exact le_rfl
  case h_2 => exact .quiet (fun _ => le_rfl) (fun _ _ h => h) (.inl rfl)

theorem moves_refuse (p : Proxy) (call : ℕ) (nonce : Nonce) :
    Moves p (p.step (.refuse call nonce)).1 (p.step (.refuse call nonce)).2 := by
  unfold step
  dsimp only
  split
  case h_1 error hcall =>
    refine .minted nonce (fun n => ?_) rfl
    rw [← held_drop hcall n]
    simp only [Call.nonce?, reduceCtorEq, if_false, add_zero]
    exact held_refuse (p.drop call) p.clock nonce n
  case h_2 => exact .quiet (fun _ => le_rfl) (fun _ _ h => h) (.inl rfl)

theorem moves_authorize (p : Proxy) (authz : Option String) (method target : String) :
    Moves p (p.step (.authorize authz method target)).1
      (p.step (.authorize authz method target)).2 := by
  unfold step
  dsimp only
  split
  case h_1 e _ => exact .fail (fun _ => le_rfl) (fun _ _ h => h) e
  case h_2 keyId proof _ =>
    rcases p.logins.authorize_cases p.clock keyId proof method target with
      ⟨e, ids, -, hids, hcall⟩ | ⟨ids, hids, hcall⟩ |
      ⟨cached, ids, hpeek, hvalid, hverify, hspend, hids, hcall⟩
    · rw [hcall]
      have hold : ∀ key cached, ids.peek key = some cached →
          p.logins.identities.peek key = some cached := fun key _ h => (hids key).symm.trans h
      exact Moves.fail (p := p) (q := { p with logins := { p.logins with identities := ids } })
        (fun _ => le_rfl) hold e
    · rw [hcall]
      have hold : ∀ key cached, ids.peek key = some cached →
          p.logins.identities.peek key = some cached := by
        intro key cached h
        rw [hids key] at h
        split at h
        · cases h
        · exact h
      exact Moves.fail (p := p) (q := { p with logins := { p.logins with identities := ids } })
        (fun _ => le_rfl) hold _
    · rw [hcall]
      exact .authorized keyId proof method target cached (fun _ => rfl) hpeek hvalid hverify hspend
        hids

theorem moves_step (p : Proxy) (a : Action) : Moves p (p.step a).1 (p.step a).2 := by
  cases a with
  | advance elapsed => exact .quiet (fun _ => le_rfl) (fun _ _ h => h) (.inl rfl)
  | login authz publicKey => exact moves_login p authz publicKey
  | verify call utc => exact moves_verify p call utc
  | cache call => exact moves_cache p call
  | authorize authz method target => exact moves_authorize p authz method target
  | refuse call nonce => exact moves_refuse p call nonce

/-! ## What every run preserves -/

/-- The events behind an identity in the table. -/
structure Backed (events : List Event) (keyId : KeyId) (nonce : Nonce) (cached : CachedIdentity) :
    Prop where
  loggedIn : Event.loggedIn keyId nonce cached.verifier cached.authenticated ∈ events
  tracks : cached.window.Tracks {seq | (keyId, nonce, seq) ∈ authorizedOf events}
  lastUsed : lastUse keyId nonce events = some cached.lastUsed

/-- The tables and the calls agree with the events. -/
structure Sound (proxy : Proxy) (events : List Event) : Prop where
  /-- A nonce that is held or was spent was minted. -/
  conserved : ∀ n, held proxy n + (loggedInOf events).count n ≤ (mintedOf events).count n
  backed : ∀ keyId nonce cached,
    proxy.logins.identities.peek (keyId, nonce) = some cached → Backed events keyId nonce cached
  loggedIn : ∀ t ∈ authorizedOf events, t.2.1 ∈ loggedInOf events
  justified : ∀ pre e post, events = pre ++ e :: post → Justified pre e

theorem sound_new : Sound new [] where
  conserved n := by
    simp [held, new, Logins.new, Lib.LruCache.contains, loggedInOf, mintedOf]
  backed _ _ _ h := by cases h
  loggedIn _ h := by cases h
  justified pre e post h := by simp at h

omit [Phrases] [Digest] [Authenticator] in
theorem mem_loggedInOf {keyId : KeyId} {nonce : Nonce} {epk : RequestVerifier} {time : Instant}
    (h : Event.loggedIn keyId nonce epk time ∈ events) : nonce ∈ loggedInOf events :=
  List.mem_filterMap.2 ⟨_, h, rfl⟩

omit [Phrases] [Digest] in
theorem Backed.concat {events : List Event} {keyId : KeyId} {nonce : Nonce} {cached : CachedIdentity}
    (h : Backed events keyId nonce cached) {e : Event} (he : e.use? keyId nonce = none) :
    Backed (events ++ [e]) keyId nonce cached where
  loggedIn := List.mem_append_left _ h.loggedIn
  tracks := by
    have hother : ∀ seq, e.authorized? ≠ some (keyId, nonce, seq) := by
      intro seq hsame
      cases e with
      | authorized k proof method target time =>
        simp only [Event.authorized?, Option.some.injEq, Prod.mk.injEq] at hsame
        simp [Event.use?, hsame] at he
      | _ => cases hsame
    have hset : {seq | (keyId, nonce, seq) ∈ authorizedOf (events ++ [e])} =
        {seq | (keyId, nonce, seq) ∈ authorizedOf events} := by
      ext seq
      rw [Set.mem_ofPred_eq, Set.mem_ofPred_eq, authorizedOf_append, List.mem_append,
        or_iff_left_iff_imp]
      intro hmem
      obtain ⟨e', he', hsome⟩ := List.mem_filterMap.1 hmem
      rw [List.mem_singleton.1 he'] at hsome
      exact absurd hsome (hother seq)
    rw [hset]
    exact h.tracks
  lastUsed := by
    rw [lastUse_concat_none he]
    exact h.lastUsed

theorem justified_concat {e : Event} (h : ∀ pre e post, events = pre ++ e :: post → Justified pre e)
    (he : Justified events e) :
    ∀ pre e' post, events ++ [e] = pre ++ e' :: post → Justified pre e' := by
  intro pre e' post hsplit
  rcases Lib.split_concat hsplit with ⟨-, rfl, rfl⟩ | ⟨post', -, hold⟩
  · exact he
  · exact h pre e' post' hold

/-- A failure or a new nonce leaves identities backed. -/
theorem Sound.concat_other {p q : Proxy} {events : List Event} (h : Sound p events) {e : Event}
    (hlogin : e.loggedIn? = none) (hauthorized : e.authorized? = none)
    (huse : ∀ k n, e.use? k n = none) (hjustified : Justified events e)
    (hconserved : ∀ n, held q n + (loggedInOf events).count n ≤
      (mintedOf (events ++ [e])).count n)
    (hids : ∀ key cached, q.logins.identities.peek key = some cached →
      p.logins.identities.peek key = some cached) : Sound q (events ++ [e]) where
  conserved n := by
    rw [loggedInOf_append]
    simpa [loggedInOf, hlogin] using hconserved n
  backed keyId nonce cached hpeek := (h.backed keyId nonce cached (hids _ _ hpeek)).concat (huse _ _)
  loggedIn t ht := by
    rw [authorizedOf_append] at ht
    rw [loggedInOf_append]
    refine List.mem_append_left _ (h.loggedIn t ?_)
    simpa [authorizedOf, hauthorized] using ht
  justified := justified_concat h.justified hjustified

/-- A login under a nonce that is not minted twice leaves an identity with nothing spent. -/
theorem Sound.concat_loggedIn (h : Sound p events) (hnodup : (mintedOf events).Nodup)
    {keyId : KeyId} {nonce : Nonce} {fresh : CachedIdentity}
    (hheld : ∀ n, held q n + (if nonce = n then 1 else 0) ≤ held p n)
    (hids : q.logins.identities = p.logins.identities.put (keyId, nonce) fresh)
    (hwindow : fresh.window = .default) {now : Instant} (hauthenticated : fresh.authenticated = now)
    (hused : fresh.lastUsed = now) :
    Sound q (events ++ [.loggedIn keyId nonce fresh.verifier now]) := by
  -- the call held the nonce, so it was not spent
  have hunspent : nonce ∉ loggedInOf events := by
    have hmove := hheld nonce
    have hconserved := h.conserved nonce
    have honce := List.nodup_iff_count_le_one.1 hnodup nonce
    rw [if_pos rfl] at hmove
    exact List.count_eq_zero.1 (by omega)
  refine ⟨fun n => ?_, fun k m cached hpeek => ?_, fun t ht => ?_, ?_⟩
  · have hmove := hheld n
    have hconserved := h.conserved n
    rw [loggedInOf_append, mintedOf_append, List.count_append, List.count_append]
    simp only [loggedInOf, mintedOf, List.filterMap_cons, List.filterMap_nil, Event.loggedIn?,
      Event.minted?, List.count_cons, List.count_nil, beq_iff_eq] at hconserved ⊢
    omega
  · rw [hids] at hpeek
    rcases Lib.LruCache.peek_put_cases hpeek with ⟨hkey, rfl⟩ | hold
    · cases hkey
      have hnothing : {seq | (keyId, nonce, seq) ∈ authorizedOf
          (events ++ [.loggedIn keyId nonce cached.verifier now])} = ∅ := by
        refine Set.eq_empty_of_forall_notMem fun seq hmem => ?_
        have hmem : (keyId, nonce, seq) ∈ authorizedOf events := by
          simpa [authorizedOf, List.filterMap_append, Event.authorized?] using hmem
        exact hunspent (h.loggedIn _ hmem)
      refine ⟨by simp [hauthenticated], ?_, ?_⟩
      · rw [hnothing, hwindow]
        exact SeqWindow.tracks_default
      · rw [hused]
        exact lastUse_concat_some (by simp [Event.use?])
    · have hbacked := h.backed k m cached hold
      refine hbacked.concat ?_
      have hne : nonce ≠ m := by
        rintro rfl
        exact hunspent (mem_loggedInOf hbacked.loggedIn)
      simp [Event.use?, hne]
  · rw [authorizedOf_append] at ht
    rw [loggedInOf_append]
    refine List.mem_append_left _ (h.loggedIn t ?_)
    simpa [authorizedOf, Event.authorized?] using ht
  · exact justified_concat h.justified trivial

/-- An authorized request spends a number that was not spent. -/
theorem Sound.concat_authorized {p q : Proxy} {events : List Event} (h : Sound p events)
    {keyId : KeyId} {proof : RequestSignature} {method target : String} {cached : CachedIdentity}
    {now : Instant} (hheld : ∀ n, held q n = held p n)
    (hpeek : p.logins.identities.peek (keyId, proof.nonce) = some cached)
    (hvalid : cached.isStillValid now)
    (hverify : RequestVerifier.verify cached.verifier (BoundRequest.new method target proof.seq)
      keyId proof = .ok ())
    (hspend : (cached.window.spend proof.seq).2 = true)
    (hids : ∀ key, q.logins.identities.peek key =
      if (keyId, proof.nonce) = key then
        some { cached with window := (cached.window.spend proof.seq).1, lastUsed := now }
      else p.logins.identities.peek key) :
    Sound q (events ++ [.authorized keyId proof method target now]) := by
  have hbacked := h.backed keyId proof.nonce cached hpeek
  have hspent := hbacked.tracks.spend proof.seq
  rw [if_pos hspend] at hspent
  refine ⟨fun n => ?_, fun k m cached' hpeek' => ?_, fun t ht => ?_, ?_⟩
  · rw [hheld n, loggedInOf_append, mintedOf_append, List.count_append, List.count_append]
    exact h.conserved n
  · rw [hids] at hpeek'
    split at hpeek'
    · rename_i hkey
      cases hkey
      cases hpeek'
      refine ⟨List.mem_append_left _ hbacked.loggedIn, ?_, ?_⟩
      · have hset : {seq | (keyId, proof.nonce, seq) ∈ authorizedOf
            (events ++ [.authorized keyId proof method target now])} =
            insert proof.seq {seq | (keyId, proof.nonce, seq) ∈ authorizedOf events} := by
          ext seq
          rw [Set.mem_ofPred_eq, authorizedOf_append, List.mem_append, Set.mem_insert_iff, or_comm]
          refine or_congr_left ?_
          simp [authorizedOf, Event.authorized?]
        rw [hset]
        exact hspent.2
      · exact lastUse_concat_some (by simp [Event.use?])
    · rename_i hkey
      exact (h.backed k m cached' hpeek').concat (by simp only [Event.use?, if_neg hkey])
  · rw [authorizedOf_append, List.mem_append] at ht
    rw [loggedInOf_append]
    refine List.mem_append_left _ ?_
    rcases ht with ht | ht
    · exact h.loggedIn t ht
    · obtain rfl : t = (keyId, proof.nonce, proof.seq) := by
        simpa [authorizedOf, Event.authorized?] using ht
      exact mem_loggedInOf hbacked.loggedIn
  · refine justified_concat h.justified ?_
    obtain ⟨hmax, hidle⟩ := Bool.and_eq_true_iff.1 hvalid
    have hmax := lt_add_of_tsub_lt_left (of_decide_eq_true hmax)
    have hidle := lt_add_of_tsub_lt_left (of_decide_eq_true hidle)
    exact ⟨cached.verifier, cached.authenticated, cached.lastUsed, hbacked.loggedIn,
      hbacked.lastUsed, hmax, hidle, hverify, (hspent.1.1 hspend).1⟩

theorem Sound.moves {events more : List Event} (h : Sound p events)
    (hnodup : (mintedOf (events ++ more)).Nodup) (hmoves : Moves p q more) :
    Sound q (events ++ more) := by
  cases hmoves with
  | quiet hheld hids hevents =>
    have hless : ∀ n, held q n + (loggedInOf events).count n ≤ (mintedOf events).count n :=
      fun n => (Nat.add_le_add_right (hheld n) _).trans (h.conserved n)
    rcases hevents with rfl | ⟨e, rfl⟩
    · rw [List.append_nil]
      exact ⟨hless, fun k n c hpeek => h.backed k n c (hids _ _ hpeek), h.loggedIn, h.justified⟩
    · refine h.concat_other rfl rfl (fun _ _ => rfl) trivial (fun n => ?_) hids
      rw [mintedOf_append, List.count_append]
      exact hless n
  | minted nonce hheld hids =>
    refine h.concat_other rfl rfl (fun _ _ => rfl) trivial (fun n => ?_) (fun _ _ hp => hids ▸ hp)
    have hmove := hheld n
    have hconserved := h.conserved n
    rw [mintedOf_append, List.count_append]
    simp only [mintedOf, List.filterMap_cons, List.filterMap_nil, Event.minted?, List.count_cons,
      List.count_nil, beq_iff_eq] at hconserved ⊢
    omega
  | loggedIn keyId nonce fresh hheld hids hwindow hauthenticated hused =>
    rw [mintedOf_append] at hnodup
    exact h.concat_loggedIn hnodup.of_append_left hheld hids hwindow hauthenticated hused
  | authorized keyId proof method target cached hheld hpeek hvalid hverify hspend hids =>
    exact h.concat_authorized hheld hpeek hvalid hverify hspend hids

theorem sound_run {actions : List Action} (hnodup : (mintedOf (new.run actions).2).Nodup) :
    Sound (new.run actions).1 (new.run actions).2 := by
  refine Lib.run_invariant step (P := fun p _ events => (mintedOf events).Nodup → Sound p events)
    (fun p _ events a ih hnodup => ?_) (fun _ => sound_new) actions hnodup
  refine (ih ?_).moves hnodup (moves_step p a)
  rw [mintedOf_append] at hnodup
  exact hnodup.of_append_left

theorem peek_of_failed {p : Proxy} {authz : Option String} {method target : String} {e : LoginError}
    (hfailed : (p.step (.authorize authz method target)).2 = [.failed e])
    (he : e ≠ .identityExpired) (key : KeyId × Nonce) :
    (p.step (.authorize authz method target)).1.logins.identities.peek key =
      p.logins.identities.peek key := by
  unfold step at hfailed ⊢
  dsimp only at hfailed ⊢
  cases hbound : Logins.bound authz with
  | error e' => rfl
  | ok credentials =>
    obtain ⟨keyId, proof⟩ := credentials
    rw [hbound] at hfailed
    dsimp only at hfailed ⊢
    rcases p.logins.authorize_cases p.clock keyId proof method target with
      ⟨e', ids, -, hids, hcall⟩ | ⟨ids, -, hcall⟩ | ⟨cached, ids, -, -, -, -, -, hcall⟩
    · rw [hcall]
      exact hids key
    · rw [hcall] at hfailed
      cases hfailed
      exact absurd rfl he
    · rw [hcall] at hfailed
      cases hfailed

theorem identities_refuse (p : Proxy) (call : ℕ) (nonce : Nonce) :
    (p.step (.refuse call nonce)).1.logins.identities = p.logins.identities := by
  unfold step
  dsimp only
  split <;> rfl

theorem nodup_authorizedOf (h : ∀ pre e post, events = pre ++ e :: post → Justified pre e) :
    (authorizedOf events).Nodup := by
  induction events using List.reverseRecOn with
  | nil => exact List.nodup_nil
  | append_singleton events e ih =>
    have hbefore : ∀ pre e' post, events = pre ++ e' :: post → Justified pre e' :=
      fun pre e' post hsplit => h pre e' (post ++ [e]) (by simp [hsplit])
    have hlast := h events e [] rfl
    rw [authorizedOf_append, List.nodup_append]
    refine ⟨ih hbefore, ?_, ?_⟩
    · cases e <;> first | exact List.nodup_nil | exact List.nodup_singleton _
    · intro t ht t' ht'
      obtain ⟨e', he', hsome⟩ := List.mem_filterMap.1 ht'
      rw [List.mem_singleton.1 he'] at hsome
      cases e with
      | authorized keyId proof method target time =>
        obtain ⟨-, -, -, -, -, -, -, -, hnew⟩ := hlast
        cases hsome
        rintro rfl
        exact hnew ht
      | _ => cases hsome

end Proxy

/-- **Logins and requests are not replayed.** In every run in which no nonce is minted twice: a login's
nonce was minted and no two logins share one; no two authorized requests share a key, a nonce and a
sequence number; and before every authorized request there was a login of its key and nonce that had not
expired and whose ephemeral key verifies the request. And in every state a request that fails otherwise
than by expiry, and the challenge that answers it, leave every login as it was. -/
theorem no_replay :
    (∀ (actions : List Proxy.Action) (events : List Proxy.Event),
      (Proxy.new.run actions).2 = events → (Proxy.mintedOf events).Nodup →
        ((Proxy.loggedInOf events).Nodup ∧
          ∀ nonce ∈ Proxy.loggedInOf events, nonce ∈ Proxy.mintedOf events) ∧
        (Proxy.authorizedOf events).Nodup ∧
        ∀ pre e post, events = pre ++ e :: post → Proxy.Justified pre e) ∧
    ∀ proxy : Proxy,
      (∀ authz method target e,
        (proxy.step (.authorize authz method target)).2 = [.failed e] → e ≠ .identityExpired →
        ∀ key, (proxy.step (.authorize authz method target)).1.logins.identities.peek key =
          proxy.logins.identities.peek key) ∧
      ∀ call nonce,
        (proxy.step (.refuse call nonce)).1.logins.identities = proxy.logins.identities := by
  refine ⟨?_, fun proxy => ⟨fun _ _ _ _ => Proxy.peek_of_failed, Proxy.identities_refuse proxy⟩⟩
  rintro actions events rfl hnodup
  have hsound := Proxy.sound_run hnodup
  have hcount : ∀ n, (Proxy.loggedInOf (Proxy.new.run actions).2).count n ≤
      (Proxy.mintedOf (Proxy.new.run actions).2).count n := fun n =>
     (Nat.le_add_left ..).trans (hsound.conserved n)
  refine ⟨⟨?_, fun nonce hnonce => ?_⟩, Proxy.nodup_authorizedOf hsound.justified, hsound.justified⟩
  · refine List.nodup_iff_count_le_one.2 fun n => ?_
    exact (hcount n).trans (List.nodup_iff_count_le_one.1 hnodup n)
  · exact List.count_pos_iff.1 ((List.count_pos_iff.2 hnonce).trans_le (hcount nonce))

end Sush

namespace Sush.Plain

attribute [local instance] world phrases digest authenticator

open Proxy

/-- A request without credentials is answered with the nonce 7, a login signs it, and a bound request
is sent twice. -/
def session : List Action :=
  [.authorize none "get" "/sessions", .refuse 0 (canonical 88 7), .login (some "iam") (canonical 88 1),
    .verify 0 0, .cache 0, .authorize (some "bound") "get" "/sessions",
    .authorize (some "bound") "get" "/sessions"]

theorem no_replay_session :
    (loggedInOf (new.run session).2).Nodup ∧
      authorizedOf (new.run session).2 = [(canonical 88 1, canonical 88 7, 1)] ∧
      (new.run session).2.getLast? = some (.failed .seqSpent) := by
  have hminted : (mintedOf (new.run session).2).Nodup := by decide +kernel
  exact ⟨(no_replay.1 session _ rfl hminted).1.1, by decide +kernel, by decide +kernel⟩

end Sush.Plain
