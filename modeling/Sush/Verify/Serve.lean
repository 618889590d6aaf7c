import Sush.Proxy.Serve
import Sush.Verify.Login

/-!
# The proxy forwards only what is authorized

The server adds tasks, routing and answers to the logins. Its calls of `Logins` are among those of the
proxy of `Proxy.step`, in another order (`ProxyServer.Refines`), so every run of the server is a run of that
proxy (`server_refines_proxy`), and what holds of its events holds here. What a step does to the tasks is
said once (`ProxyServer.Went`): a request is settled by one answer, or forwarded right after the event of its
own authorization.
-/

namespace Sush

variable [World] [Authenticator] {SocketAddr : Type}

/-! ## The calls of the tasks -/

def Stage.call? : Stage → Option Call
  | .call c => some c
  | _ => none

/-- The request is one that the proxy answers itself once it is authorized. -/
def HttpRequest.isIam (request : HttpRequest) : Bool :=
  request.path = "/iam" && (request.method = "GET" || request.method = "POST")

namespace ProxyServer

def calls (s : ProxyServer SocketAddr) : List Call := s.tasks.filterMap fun task => task.2.call?

variable {s t : ProxyServer SocketAddr} {p : Proxy} {id : ℕ} {request : HttpRequest} {stage : Stage}

theorem calls_set (htask : s.tasks[id]? = some (request, stage)) :
    ∃ rest, s.calls.Perm (stage.call?.toList ++ rest) ∧ ∀ (t : ProxyServer SocketAddr) (stage' : Stage),
      t.tasks = s.tasks → (t.set id request stage').calls.Perm (stage'.call?.toList ++ rest) := by
  have hcons : ∀ (task : HttpRequest × Stage) (tasks : List (HttpRequest × Stage)),
      (task :: tasks).filterMap (fun task => task.2.call?) =
        task.2.call?.toList ++ tasks.filterMap fun task => task.2.call? := by
    intro task tasks
    rw [List.filterMap_cons]
    cases task.2.call? <;> rfl
  obtain ⟨hid, hget⟩ := List.getElem?_eq_some_iff.1 htask
  refine ⟨(s.tasks.eraseIdx id).filterMap fun task => task.2.call?, ?_, fun t stage' ht => ?_⟩
  · have hperm := (List.getElem_cons_eraseIdx_perm hid).symm.filterMap fun task => task.2.call?
    rw [hcons, hget] at hperm
    exact hperm
  · have hperm := (List.set_perm_cons_eraseIdx (a := (request, stage')) hid).filterMap
      fun task => task.2.call?
    rw [hcons] at hperm
    unfold calls set
    rw [ht]
    exact hperm

/-! ## Refinement -/

/-- The server's tables are those of the proxy, and its calls are among those of the proxy. -/
structure Refines (s : ProxyServer SocketAddr) (p : Proxy) : Prop where
  logins : s.logins = p.logins
  clock : s.clock = p.clock
  calls : s.calls.Subperm p.calls

theorem Refines.set_done (h : s.Refines p) (htask : s.tasks[id]? = some (request, stage))
    (logins : Logins) {stage' : Stage} (hstage' : stage'.call? = none) :
    ({ s with logins := logins }.set id request stage').Refines { p with logins := logins } where
  logins := rfl
  clock := h.clock
  calls := by
    obtain ⟨rest, hbefore, hafter⟩ := calls_set htask
    have hperm := hafter { s with logins := logins } stage' rfl
    rw [hstage'] at hperm
    have hrest : rest.Subperm s.calls := (List.sublist_append_right _ _).subperm.trans hbefore.symm.subperm
    exact hperm.subperm.trans (hrest.trans h.calls)

theorem Refines.set_call (h : s.Refines p) (htask : s.tasks[id]? = some (request, stage))
    (logins : Logins) (call : Call) :
    ({ s with logins := logins }.set id request (.call call)).Refines
      { p with logins := logins, calls := p.calls ++ [call] } where
  logins := rfl
  clock := h.clock
  calls := by
    obtain ⟨rest, hbefore, hafter⟩ := calls_set htask
    have hrest : rest.Subperm s.calls := (List.sublist_append_right _ _).subperm.trans hbefore.symm.subperm
    have hcons : (call :: rest).Subperm (call :: p.calls) := (List.subperm_cons call).2 (hrest.trans h.calls)
    have hlast := (List.perm_append_singleton call p.calls).symm.subperm
    exact (hafter { s with logins := logins } (.call call) rfl).subperm.trans (hcons.trans hlast)

theorem Refines.settle (h : s.Refines p) (htask : s.tasks[id]? = some (request, stage)) {stage' : Stage}
    (hstage' : stage'.call? = none) : (s.set id request stage').Refines p := by
  have hdone := h.set_done htask s.logins hstage'
  exact ⟨h.logins, hdone.clock, hdone.calls⟩

theorem Refines.enter (h : s.Refines p) (htask : s.tasks[id]? = some (request, stage)) (call : Call) :
    (s.set id request (.call call)).Refines { p with calls := p.calls ++ [call] } := by
  have hcall := h.set_call htask s.logins call
  exact ⟨h.logins, hcall.clock, hcall.calls⟩

theorem Refines.drop (h : s.Refines p) {call : Call} (htask : s.tasks[id]? = some (request, .call call)) :
    ∃ i, p.calls[i]? = some call ∧ (s.set id request .done).Refines (p.drop i) := by
  obtain ⟨rest, hbefore, hafter⟩ := calls_set htask
  have hmem : call ∈ p.calls := h.calls.subset (hbefore.mem_iff.2 List.mem_cons_self)
  obtain ⟨i, hi, hget⟩ := List.getElem_of_mem hmem
  refine ⟨i, List.getElem?_eq_some_iff.2 ⟨hi, hget⟩, h.logins, h.clock, ?_⟩
  have hcons : (call :: rest).Subperm (call :: p.calls.eraseIdx i) := by
    refine (hbefore.symm.subperm.trans h.calls).trans ?_
    rw [← hget]
    exact (List.getElem_cons_eraseIdx_perm hi).symm.subperm
  exact (hafter s .done rfl).subperm.trans ((List.subperm_cons call).1 hcons)

def Out.event? : Out SocketAddr → Option Proxy.Event
  | .logins event => some event
  | _ => none

def eventsOf (outs : List (Out SocketAddr)) : List Proxy.Event := outs.filterMap Out.event?

theorem eventsOf_append (outs more : List (Out SocketAddr)) :
    eventsOf (outs ++ more) = eventsOf outs ++ eventsOf more := List.filterMap_append ..

variable [Phrases] [Digest]

/-- What the server does in one step the proxy does in some actions. -/
def Simulated (p : Proxy) (moved : ProxyServer SocketAddr × List (Out SocketAddr)) : Prop :=
  ∃ actions, moved.1.Refines (p.run actions).1 ∧ eventsOf moved.2 = (p.run actions).2

theorem simulated_nil {moved : ProxyServer SocketAddr × List (Out SocketAddr)} (h : moved.1.Refines p)
    (hevents : eventsOf moved.2 = []) : Simulated p moved := ⟨[], h, hevents⟩

theorem simulated_one {moved : ProxyServer SocketAddr × List (Out SocketAddr)} (action : Proxy.Action)
    (h : moved.1.Refines (p.step action).1 ∧ eventsOf moved.2 = (p.step action).2) : Simulated p moved := by
  refine ⟨[action], ?_⟩
  have hrun : p.run [action] = p.step action := by simp [Proxy.run]
  rwa [hrun]

variable [PercentEncoding]

omit [Digest] in
theorem route_eq (s : ProxyServer SocketAddr) (id : ℕ) (request : HttpRequest)
    (proof : Option (KeyId × RequestSignature)) :
    (s.route id request proof).1 = s.set id request .done ∧
      ((∃ addr, (s.route id request proof).2 = [.forwarded id request addr proof]) ∨
        ∃ answer, (s.route id request proof).2 = [.answered id answer]) := by
  unfold route
  split
  · exact ⟨rfl, .inl ⟨_, rfl⟩⟩
  · exact ⟨rfl, .inr ⟨_, rfl⟩⟩

omit [Digest] in
theorem eventsOf_route (s : ProxyServer SocketAddr) (id : ℕ) (request : HttpRequest)
    (proof : Option (KeyId × RequestSignature)) : eventsOf (s.route id request proof).2 = [] := by
  obtain ⟨-, ⟨addr, h⟩ | ⟨answer, h⟩⟩ := s.route_eq id request proof
  · rw [h]
    rfl
  · rw [h]
    rfl

theorem simulated_authorize (h : s.Refines p) (htask : s.tasks[id]? = some (request, stage))
    (authz : Option String) (purpose : Purpose) : Simulated p (s.authorize id request authz purpose) := by
  refine simulated_one (.authorize authz request.method request.target) ?_
  cases hbound : Logins.bound authz with
  | error e =>
    simp only [authorize, Proxy.step, hbound]
    exact ⟨h.enter htask _, rfl⟩
  | ok bound =>
    obtain ⟨keyId, proof⟩ := bound
    have hsame : p.logins.authorize p.clock = s.logins.authorize s.clock := by rw [h.logins, h.clock]
    cases hresult : (s.logins.authorize s.clock keyId proof request.method request.target).1 with
    | error e =>
      simp only [authorize, Proxy.step, hbound, hsame, hresult]
      exact ⟨h.set_call htask _ _, rfl⟩
    | ok identity =>
      simp only [authorize, Proxy.step, hbound, hsame, hresult]
      cases purpose with
      | forward =>
        rw [(route_eq _ _ _ _).1]
        refine ⟨h.set_done htask _ rfl, ?_⟩
        rw [← h.clock]
        exact congrArg _ (eventsOf_route _ _ _ _)
      | identity => exact ⟨h.set_done htask _ rfl, h.clock ▸ rfl⟩
      | identities => exact ⟨h.set_done htask _ rfl, h.clock ▸ rfl⟩

omit [PercentEncoding] in
theorem simulated_login (h : s.Refines p) (htask : s.tasks[id]? = some (request, stage))
    (authz : Option String) (publicKey : PublicKey) : Simulated p (s.login id request authz publicKey) := by
  have hsame : p.logins.claim = s.logins.claim := by rw [h.logins]
  refine simulated_one (.login authz publicKey) ?_
  cases hclaimed : (s.logins.claim authz).1 with
  | error e =>
    simp only [login, Proxy.step, hsame, hclaimed]
    exact ⟨h.set_call htask _ _, rfl⟩
  | ok claimed =>
    simp only [login, Proxy.step, hsame, hclaimed]
    exact ⟨h.set_call htask _ _, rfl⟩

omit [Phrases] [Digest] [PercentEncoding] in
theorem set_set (s : ProxyServer SocketAddr) (id : ℕ) (request : HttpRequest) (stage stage' : Stage) :
    (s.set id request stage).set id request stage' = s.set id request stage' := by
  unfold set
  rw [List.set_set]

omit [Phrases] [Digest] [PercentEncoding] in
theorem Refines.replace (h : s.Refines p) {call : Call}
    (htask : s.tasks[id]? = some (request, .call call)) (next : Call) :
    ∃ i, p.calls[i]? = some call ∧
      (s.set id request (.call next)).Refines { p.drop i with calls := (p.drop i).calls ++ [next] } := by
  obtain ⟨i, hi, hdrop⟩ := h.drop htask
  have hdone : (s.set id request .done).tasks[id]? = some (request, .done) := by
    exact List.getElem?_set_self (List.getElem?_eq_some_iff.1 htask).1
  refine ⟨i, hi, ?_⟩
  rw [← set_set s id request .done]
  exact hdrop.enter hdone next

omit [PercentEncoding] in
theorem simulated_resume (h : s.Refines p) {call : Call} (htask : s.tasks[id]? = some (request, .call call))
    (utc : DateTime) (nonce : Nonce) : Simulated p (s.resume id request utc nonce call) := by
  cases call with
  | claimed publicKey credentials minted =>
    have hsame : ∀ i, Logins.check (p.drop i).clock = Logins.check s.clock := fun i => h.clock ▸ rfl
    cases hcheck : Logins.check s.clock utc publicKey credentials minted with
    | error e =>
      obtain ⟨i, hi, hrefines⟩ := h.replace htask (.refused e)
      refine simulated_one (.verify i utc) ?_
      simp only [resume, Proxy.step, hcheck, hi, hsame]
      exact ⟨hrefines, rfl⟩
    | ok identity =>
      obtain ⟨i, hi, hrefines⟩ := h.replace htask (.verified credentials identity)
      refine simulated_one (.verify i utc) ?_
      simp only [resume, Proxy.step, hcheck, hi, hsame]
      exact ⟨hrefines, rfl⟩
  | verified credentials identity =>
    obtain ⟨i, hi, hdrop⟩ := h.drop htask
    refine simulated_one (.cache i) ?_
    simp only [resume, Proxy.step, hi, ← h.clock]
    exact ⟨⟨by rw [← h.logins]; rfl, hdrop.clock, hdrop.calls⟩, rfl⟩
  | refused error =>
    obtain ⟨i, hi, hdrop⟩ := h.drop htask
    refine simulated_one (.refuse i nonce) ?_
    simp only [resume, Proxy.step, hi]
    exact ⟨⟨by rw [← h.logins, ← h.clock]; rfl, hdrop.clock, hdrop.calls⟩, rfl⟩

/-- **Every step of the server is an action of the proxy**, or none that concerns it. -/
theorem simulated_step (h : s.Refines p) (act : Act SocketAddr) : Simulated p (s.step act) := by
  cases act with
  | advance elapsed =>
    exact simulated_one (.advance elapsed) ⟨⟨h.logins, congrArg (· + elapsed) h.clock, h.calls⟩, rfl⟩
  | retarget targets => exact simulated_nil ⟨h.logins, h.clock, h.calls⟩ rfl
  | receive request =>
    have hcalls : ∀ stage : Stage, stage.call? = none →
        ({ s with tasks := s.tasks ++ [(request, stage)] } : ProxyServer SocketAddr).calls = s.calls := by
      intro stage hstage
      unfold calls
      simp [hstage]
    simp only [step]
    split
    · exact simulated_nil ⟨h.logins, h.clock, (hcalls .done rfl).symm ▸ h.calls⟩ rfl
    · exact simulated_nil ⟨h.logins, h.clock, (hcalls .received rfl).symm ▸ h.calls⟩ rfl
  | proceed id utc nonce =>
    simp only [step, proceed]
    split
    · next request htask =>
      split
      · refine simulated_nil ?_ (eventsOf_route _ _ _ _)
        rw [(route_eq _ _ _ _).1]
        exact h.settle htask rfl
      · exact simulated_nil (h.settle htask rfl) rfl
      · exact simulated_login h htask _ _
      · exact simulated_authorize h htask _ _
    · next request call htask => exact simulated_resume h htask utc nonce
    · next request htask => exact simulated_nil (h.settle htask rfl) rfl
    · exact simulated_nil h rfl
    · exact simulated_nil h rfl
  | drop id =>
    simp only [step]
    split
    · next request stage htask => exact simulated_nil (h.settle htask rfl) rfl
    · exact simulated_nil h rfl

theorem simulated_run (router : Router SocketAddr) (acts : List (Act SocketAddr)) :
    Simulated Proxy.new (run router acts) := by
  refine Lib.run_invariant step (P := fun s _ outs => Simulated Proxy.new (s, outs))
    (fun s _ outs act ih => ?_) (simulated_nil ⟨rfl, rfl, List.Subperm.refl _⟩ rfl) acts
  obtain ⟨actions, hrefines, hevents⟩ := ih
  obtain ⟨more, hrefines', hevents'⟩ := simulated_step hrefines act
  refine ⟨actions ++ more, ?_, ?_⟩
  · rw [Proxy.run, Lib.run_append]
    exact hrefines'
  · rw [Proxy.run, Lib.run_append, eventsOf_append, hevents, hevents']

/-- **The server refines the proxy.** Whatever the tasks of the server do, in any order, some run of the
proxy has the same tables at the same time, has the calls that the tasks are in, and sees the same events. -/
theorem server_refines_proxy (router : Router SocketAddr) (acts : List (Act SocketAddr)) :
    ∃ actions, (run router acts).1.logins = (Proxy.new.run actions).1.logins ∧
      (run router acts).1.clock = (Proxy.new.run actions).1.clock ∧
      (run router acts).1.calls.Subperm (Proxy.new.run actions).1.calls ∧
      eventsOf (run router acts).2 = (Proxy.new.run actions).2 := by
  obtain ⟨actions, hrefines, hevents⟩ := simulated_run router acts
  exact ⟨actions, hrefines.logins, hrefines.clock, hrefines.calls, hevents⟩

/-! ## What is forwarded -/

omit [Phrases] [Digest] in
def Out.settles? : Out SocketAddr → Option ℕ
  | .answered id _ | .forwarded id .. => some id
  | .logins _ => none

def settledOf (outs : List (Out SocketAddr)) : List ℕ := outs.filterMap Out.settles?

/-- The key, the nonce and the sequence number that a request is forwarded with. -/
def Out.proof? : Out SocketAddr → Option (KeyId × Nonce × UInt64)
  | .forwarded _ _ _ proof => proof.map fun (keyId, proof) => (keyId, proof.nonce, proof.seq)
  | _ => none

def proofsOf (outs : List (Out SocketAddr)) : List (KeyId × Nonce × UInt64) := outs.filterMap Out.proof?

/-- What comes right before a request is forwarded: nothing, if it needs no login, or its own
authorization. -/
def Vouched (events : List Proxy.Event) : Out SocketAddr → Prop
  | .forwarded _ request _ none => events = [] ∧ request.isOpen = true
  | .forwarded _ request _ (some (keyId, proof)) =>
    request.isIam = false ∧ ∃ time, events = [.authorized keyId proof request.method request.target time]
  | _ => True

/-- What a step can do to the tasks, by what is seen of it. -/
inductive Went (s t : ProxyServer SocketAddr) : List (Out SocketAddr) → Prop
  | still (htasks : t.tasks = s.tasks) : Went s t []
  | came {request : HttpRequest} {stage : Stage} (htasks : t.tasks = s.tasks ++ [(request, stage)]) :
    Went s t []
  | greeted {request : HttpRequest} {answer : Answer} (htasks : t.tasks = s.tasks ++ [(request, .done)]) :
      Went s t [.answered s.tasks.length answer]
  | moved {id : ℕ} {request : HttpRequest} {stage stage' : Stage} (events : List Proxy.Event)
      (htask : s.tasks[id]? = some (request, stage)) (hstage : stage = .done → stage' = .done)
      (htasks : t.tasks = s.tasks.set id (request, stage')) : Went s t (events.map .logins)
  | settled {id : ℕ} {request : HttpRequest} {stage : Stage} (events : List Proxy.Event)
      {out : Out SocketAddr} (htask : s.tasks[id]? = some (request, stage)) (hstage : stage ≠ .done)
      (htasks : t.tasks = s.tasks.set id (request, .done)) (hsettles : out.settles? = some id)
      (hvouched : Vouched events out) : Went s t (events.map .logins ++ [out])

omit [Digest] in
theorem went_route {u : ProxyServer SocketAddr} (hu : u.tasks = s.tasks)
    (htask : s.tasks[id]? = some (request, stage)) (hstage : stage ≠ .done)
    (proof : Option (KeyId × RequestSignature)) (events : List Proxy.Event)
    (hvouched : ∀ addr : SocketAddr, Vouched events (.forwarded id request addr proof)) :
    Went s (u.route id request proof).1 (events.map .logins ++ (u.route id request proof).2) := by
  obtain ⟨hset, hforwarded | hanswered⟩ := u.route_eq id request proof
  · obtain ⟨addr, hout⟩ := hforwarded
    rw [hset, hout]
    exact .settled events htask hstage (by rw [set, hu]) rfl (hvouched addr)
  · obtain ⟨answer, hout⟩ := hanswered
    rw [hset, hout]
    exact .settled events htask hstage (by rw [set, hu]) rfl trivial

omit [Phrases] [Digest] [PercentEncoding] in
theorem isOpen_of_check (h : request.check = .forward) : request.isOpen = true := by
  unfold HttpRequest.check at h
  dsimp only at h
  split at h
  · assumption
  · split at h
    · cases h
    · split at h
      · split at h <;> cases h
      · split at h <;> cases h

omit [Phrases] [Digest] [PercentEncoding] in
theorem isIam_of_check {authz : Option String} (h : request.check = .authorize authz .forward) :
    request.isIam = false := by
  unfold HttpRequest.check at h
  dsimp only at h
  split at h
  · cases h
  · split at h
    · cases h
    · split at h
      · split at h <;> cases h
      · next hpost =>
        split at h
        · cases h
        · next hget =>
          unfold HttpRequest.isIam
          simp only [Bool.and_eq_false_imp, decide_eq_true_eq, Bool.or_eq_false_iff, decide_eq_false_iff_not]
          exact fun hpath => ⟨fun hm => hget ⟨hm, hpath⟩, fun hm => hpost ⟨hm, hpath⟩⟩

theorem went_authorize (htask : s.tasks[id]? = some (request, .received)) {authz : Option String}
    {purpose : Purpose} (hcheck : request.check = .authorize authz purpose) :
    Went s (s.authorize id request authz purpose).1 (s.authorize id request authz purpose).2 := by
  have hmoved : ∀ (u : ProxyServer SocketAddr) (stage : Stage) (events : List Proxy.Event),
      u.tasks = s.tasks → Went s (u.set id request stage) (events.map .logins) :=
    fun u stage events hu => .moved events htask (fun h => by cases h) (by rw [set, hu])
  cases hbound : Logins.bound authz with
  | error e =>
    simp only [authorize, hbound]
    exact hmoved s _ [_] rfl
  | ok bound =>
    obtain ⟨keyId, proof⟩ := bound
    cases hresult : (s.logins.authorize s.clock keyId proof request.method request.target).1 with
    | error e =>
      simp only [authorize, hbound, hresult]
      exact hmoved _ _ [_] rfl
    | ok identity =>
      simp only [authorize, hbound, hresult]
      cases purpose with
      | forward =>
        let u := { s with
          logins := (s.logins.authorize s.clock keyId proof request.method request.target).2 }
        exact went_route (s := s) (u := u) rfl htask (by simp) (some (keyId, proof))
          [.authorized keyId proof request.method request.target s.clock]
          fun addr => ⟨isIam_of_check hcheck, _, rfl⟩
      | identity => exact .settled [_] htask (by simp) rfl rfl trivial
      | identities => exact hmoved _ _ [_] rfl

omit [Phrases] [PercentEncoding] in
theorem went_resume {call : Call} (htask : s.tasks[id]? = some (request, .call call)) (utc : DateTime)
    (nonce : Nonce) :
    Went s (s.resume id request utc nonce call).1 (s.resume id request utc nonce call).2 := by
  cases call with
  | claimed publicKey credentials minted =>
    simp only [resume]
    split
    · exact .moved [_] htask (fun h => by cases h) rfl
    · exact .moved [] htask (fun h => by cases h) rfl
  | verified credentials identity => exact .settled [_] htask (by simp) rfl rfl trivial
  | refused error => exact .settled [_] htask (by simp) rfl rfl trivial

theorem went_step (act : Act SocketAddr) : Went s (s.step act).1 (s.step act).2 := by
  cases act with
  | advance elapsed => exact .still rfl
  | retarget targets => exact .still rfl
  | receive request =>
    simp only [step]
    split
    · exact .greeted rfl
    · exact .came rfl
  | proceed id utc nonce =>
    simp only [step, proceed]
    split
    · next request htask =>
      split
      · next hcheck =>
        exact went_route rfl htask (by simp) none [] fun addr => ⟨rfl, isOpen_of_check hcheck⟩
      · exact .settled [] htask (by simp) rfl rfl trivial
      · simp only [login]
        split
        · exact .moved [_] htask (fun h => by cases h) rfl
        · exact .moved [] htask (fun h => by cases h) rfl
      · next hcheck => exact went_authorize htask hcheck
    · next request call htask => exact went_resume htask utc nonce
    · next request htask => exact .settled [] htask (by simp) rfl rfl trivial
    · exact .still rfl
    · exact .still rfl
  | drop id =>
    simp only [step]
    split
    · next request stage htask => exact .moved [] htask (fun _ => rfl) rfl
    · exact .still rfl

/-- The request was answered or forwarded, or its client is gone. -/
def IsDone (s : ProxyServer SocketAddr) (id : ℕ) : Prop := ∃ request, s.tasks[id]? = some (request, .done)

/-- Every request that was answered or forwarded is done, once. -/
structure Settled (s : ProxyServer SocketAddr) (outs : List (Out SocketAddr)) : Prop where
  nodup : (settledOf outs).Nodup
  done : ∀ id ∈ settledOf outs, s.IsDone id

section Invariants

omit [Phrases] [Digest] [PercentEncoding]

variable {outs more : List (Out SocketAddr)}

theorem settledOf_append : settledOf (outs ++ more) = settledOf outs ++ settledOf more :=
  List.filterMap_append ..

theorem filterMap_logins {β : Type} {f : Out SocketAddr → Option β} (hf : ∀ event, f (.logins event) = none)
    (events : List Proxy.Event) : (events.map .logins).filterMap f = [] := by
  rw [List.filterMap_map, List.filterMap_eq_nil_iff]
  exact fun event _ => hf event

theorem settledOf_logins (events : List Proxy.Event) :
    settledOf (events.map (Out.logins : Proxy.Event → Out SocketAddr)) = [] :=
  filterMap_logins (fun _ => rfl) events

theorem Went.isDone (h : s.Went t more) {i : ℕ} (hi : s.IsDone i) : t.IsDone i := by
  obtain ⟨r, hr⟩ := hi
  refine ⟨r, ?_⟩
  have happend : ∀ task, t.tasks = s.tasks ++ [task] → t.tasks[i]? = some (r, .done) := by
    intro task htasks
    rw [htasks, List.getElem?_append_left (List.getElem?_eq_some_iff.1 hr).1, hr]
  have hset : ∀ {id : ℕ} {request : HttpRequest} {stage stage' : Stage},
      s.tasks[id]? = some (request, stage) → (stage = .done → stage' = .done) →
      t.tasks = s.tasks.set id (request, stage') → t.tasks[i]? = some (r, .done) := by
    intro id request stage stage' htask hstage htasks
    rw [htasks]
    by_cases heq : id = i
    · subst heq
      cases htask.symm.trans hr
      rw [List.getElem?_set_self (List.getElem?_eq_some_iff.1 htask).1, hstage rfl]
    · rw [List.getElem?_set_ne heq, hr]
  cases h with
  | still htasks => rw [htasks, hr]
  | came htasks => exact happend _ htasks
  | greeted htasks => exact happend _ htasks
  | moved events htask hstage htasks => exact hset htask hstage htasks
  | settled events htask hstage htasks => exact hset htask (fun _ => rfl) htasks

theorem Went.settles (h : s.Went t more) :
    settledOf more = [] ∨ ∃ id, settledOf more = [id] ∧ ¬s.IsDone id ∧ t.IsDone id := by
  cases h with
  | still htasks => exact .inl rfl
  | came htasks => exact .inl rfl
  | greeted htasks =>
    refine .inr ⟨_, rfl, ?_, _, htasks ▸ List.getElem?_concat_length⟩
    rintro ⟨r, hr⟩
    exact absurd (List.getElem?_eq_some_iff.1 hr).1 (Nat.lt_irrefl _)
  | moved events htask hstage htasks => exact .inl (settledOf_logins events)
  | @settled id request stage events out htask hstage htasks hsettles hvouched =>
    refine .inr ⟨id, ?_, ?_, request, ?_⟩
    · rw [settledOf_append, settledOf_logins, List.nil_append]
      exact List.filterMap_cons_some hsettles
    · rintro ⟨r, hr⟩
      cases htask.symm.trans hr
      exact hstage rfl
    · rw [htasks]
      exact List.getElem?_set_self (List.getElem?_eq_some_iff.1 htask).1

/-- **A request is settled once.** -/
theorem Settled.went (h : s.Settled outs) (hwent : s.Went t more) : t.Settled (outs ++ more) := by
  have hdone : ∀ i ∈ settledOf outs, t.IsDone i := fun i hi => hwent.isDone (h.done i hi)
  rcases hwent.settles with hnone | ⟨id, hone, hnew, hid⟩
  · refine ⟨?_, fun i hi => hdone i ?_⟩
    · rw [settledOf_append, hnone, List.append_nil]
      exact h.nodup
    · rwa [settledOf_append, hnone, List.append_nil] at hi
  · refine ⟨?_, fun i hi => ?_⟩
    · rw [settledOf_append, hone, List.nodup_append]
      refine ⟨h.nodup, List.nodup_singleton _, fun a ha b hb => ?_⟩
      rw [List.mem_singleton.1 hb]
      rintro rfl
      exact hnew (h.done a ha)
    · rw [settledOf_append, hone, List.mem_append, List.mem_singleton] at hi
      rcases hi with hi | rfl
      · exact hdone i hi
      · exact hid

/-- What was seen before a request is forwarded: its own authorization right before, unless it needs no
login. -/
def VouchedAt (pre : List (Out SocketAddr)) : Out SocketAddr → Prop
  | .forwarded _ request _ none => request.isOpen = true
  | .forwarded _ request _ (some (keyId, proof)) => request.isIam = false ∧
    ∃ before time, pre = before ++ [.logins (.authorized keyId proof request.method request.target time)]
  | _ => True

/-- Whatever was forwarded was vouched for. -/
def AllVouched (outs : List (Out SocketAddr)) : Prop :=
  ∀ pre out post, outs = pre ++ out :: post → VouchedAt pre out

theorem AllVouched.concat {out : Out SocketAddr} (h : AllVouched outs) (hout : VouchedAt outs out) :
    AllVouched (outs ++ [out]) := by
  intro pre o post hsplit
  rcases Lib.split_concat hsplit with ⟨-, rfl, rfl⟩ | ⟨post', -, hpre⟩
  · exact hout
  · exact h pre o post' hpre

theorem AllVouched.logins (h : AllVouched outs) (events : List Proxy.Event) :
    AllVouched (outs ++ events.map .logins) := by
  induction events generalizing outs with
  | nil =>
    rw [List.map_nil, List.append_nil]
    exact h
  | cons event events ih =>
    have hevent : VouchedAt outs (.logins event) := trivial
    have hcons := ih (h.concat hevent)
    rwa [List.append_assoc] at hcons

/-- **A request is forwarded when it is vouched for.** -/
theorem AllVouched.went (h : AllVouched outs) (hwent : s.Went t more) : AllVouched (outs ++ more) := by
  cases hwent with
  | still htasks => rwa [List.append_nil]
  | came htasks => rwa [List.append_nil]
  | greeted htasks => exact h.concat trivial
  | moved events htask hstage htasks => exact h.logins events
  | @settled id request stage events out htask hstage htasks hsettles hvouched =>
    rw [← List.append_assoc]
    refine (h.logins events).concat ?_
    cases out with
    | logins event => trivial
    | answered id answer => trivial
    | forwarded id request addr proof =>
      cases proof with
      | none => exact hvouched.2
      | some proof =>
        obtain ⟨keyId, proof⟩ := proof
        obtain ⟨hiam, time, rfl⟩ := hvouched
        exact ⟨hiam, outs, time, rfl⟩

theorem proofsOf_sublist (hwent : s.Went t more) :
    (proofsOf more).Sublist (Proxy.authorizedOf (eventsOf more)) := by
  have hlogins : ∀ events : List Proxy.Event,
      (events.map (Out.logins : Proxy.Event → Out SocketAddr)).filterMap Out.proof? = [] :=
    filterMap_logins fun _ => rfl
  cases hwent with
  | still htasks => exact List.nil_sublist _
  | came htasks => exact List.nil_sublist _
  | greeted htasks => exact List.nil_sublist _
  | moved events htask hstage htasks =>
    rw [proofsOf, hlogins]
    exact List.nil_sublist _
  | @settled id request stage events out htask hstage htasks hsettles hvouched =>
    have hsplit : proofsOf (events.map .logins ++ [out]) = proofsOf [out] := by
      rw [proofsOf, List.filterMap_append, hlogins, List.nil_append]
      rfl
    rw [hsplit]
    cases out with
    | logins event => exact List.nil_sublist _
    | answered id answer => exact List.nil_sublist _
    | forwarded id request addr proof =>
      cases proof with
      | none => exact List.nil_sublist _
      | some proof =>
        obtain ⟨keyId, proof⟩ := proof
        obtain ⟨-, time, rfl⟩ := hvouched
        exact List.Sublist.refl _

end Invariants

/-- **Only authorized requests are forwarded.** In every run in which no nonce is minted twice: each
request is answered or forwarded at most once; what is forwarded needs no login, or is not for the proxy
itself and was authorized right before: it was signed, for exactly its method and target, with the
ephemeral key of a login that came before and had not expired, by its age or by its last use. No two
requests are forwarded with the same key, nonce and sequence number. -/
theorem only_authorized_forwarded (router : Router SocketAddr) (acts : List (Act SocketAddr))
    (hnodup : (Proxy.mintedOf (eventsOf (run router acts).2)).Nodup) :
    (settledOf (run router acts).2).Nodup ∧ (proofsOf (run router acts).2).Nodup ∧
    ∀ pre id request addr proof post, (run router acts).2 = pre ++ .forwarded id request addr proof :: post →
      proof = none ∧ request.isOpen = true ∨
      ∃ before keyId signature epk authenticated used time,
        proof = some (keyId, signature) ∧ request.isIam = false ∧
        pre = before ++ [.logins (.authorized keyId signature request.method request.target time)] ∧
        .logins (.loggedIn keyId signature.nonce epk authenticated) ∈ before ∧
        Proxy.lastUse keyId signature.nonce (eventsOf before) = some used ∧
        time < authenticated + identityMaxTtl ∧ time < used + identityIdleTtl ∧
        RequestVerifier.verify epk (.new request.method request.target signature.seq) keyId signature =
          .ok () := by
  obtain ⟨actions, -, hevents⟩ := simulated_run router acts
  rw [hevents] at hnodup
  have hjustified := (Proxy.sound_run hnodup).justified
  have hinvariant : (run router acts).1.Settled (run router acts).2 ∧ AllVouched (run router acts).2 ∧
      (proofsOf (run router acts).2).Sublist (Proxy.authorizedOf (eventsOf (run router acts).2)) := by
    refine Lib.run_invariant step (P := fun s _ outs => s.Settled outs ∧ AllVouched outs ∧
      (proofsOf outs).Sublist (Proxy.authorizedOf (eventsOf outs))) (fun s _ outs act h => ?_) ?_ acts
    · have hwent := s.went_step act
      refine ⟨h.1.went hwent, h.2.1.went hwent, ?_⟩
      rw [eventsOf_append, Proxy.authorizedOf_append]
      unfold proofsOf
      rw [List.filterMap_append]
      exact h.2.2.append (proofsOf_sublist hwent)
    · exact ⟨⟨List.nodup_nil, by simp [settledOf]⟩, fun pre out post h => by simp at h, List.nil_sublist _⟩
  obtain ⟨hsettled, hvouched, hproofs⟩ := hinvariant
  refine ⟨hsettled.nodup, ?_, fun pre id request addr proof post hsplit => ?_⟩
  · refine List.Nodup.sublist hproofs ?_
    rw [hevents]
    exact Proxy.nodup_authorizedOf hjustified
  · have hat := hvouched pre _ post hsplit
    cases proof with
    | none => exact .inl ⟨rfl, hat⟩
    | some proof =>
      obtain ⟨keyId, signature⟩ := proof
      obtain ⟨hiam, before, time, rfl⟩ := hat
      have hsplit' : (Proxy.new.run actions).2 = eventsOf before ++
          .authorized keyId signature request.method request.target time :: eventsOf post := by
        rw [← hevents, hsplit, List.append_assoc, eventsOf_append]
        rfl
      obtain ⟨epk, authenticated, used, hlogin, hused, hmax, hidle, hverify, -⟩ := hjustified _ _ _ hsplit'
      refine .inr ⟨before, keyId, signature, epk, authenticated, used, time, rfl, hiam, rfl, ?_, hused, hmax,
        hidle, hverify⟩
      obtain ⟨out, hout, hevent⟩ := List.mem_filterMap.1 hlogin
      cases out with
      | logins event =>
        cases hevent
        exact hout
      | answered | forwarded => cases hevent

end ProxyServer

end Sush

namespace Sush.Plain

attribute [local instance] world phrases digest authenticator percentEncoding

open ProxyServer

/-- A request for the sessions, with an `Authorization` header. -/
def sessions (authz : Option String) : HttpRequest :=
  ⟨"GET", some ⟨"/sessions", none⟩, (authz.map some).toList, .ok none⟩

def iam : HttpRequest := ⟨"POST", some ⟨"/iam", none⟩, [some "iam"], .ok (some (canonical 88 1))⟩

def router : Router ℕ := ⟨⟨.ofList [(toLex ("p", "s"), 9)], ∅⟩, none⟩

/-- A request without credentials is challenged, a login answers the challenge, and a signed request is
sent twice. -/
def served : List (ProxyServer.Act ℕ) :=
  [.receive (sessions none), .proceed 0 0 (canonical 88 7), .proceed 0 0 (canonical 88 7), .receive iam,
    .proceed 1 0 0, .proceed 1 0 0, .proceed 1 0 0, .receive (sessions (some "bound")),
    .receive (sessions (some "bound")), .proceed 2 0 0, .proceed 3 0 0]

theorem only_authorized_forwarded_once :
    proofsOf (run router served).2 = [(canonical 88 1, canonical 88 7, 1)] ∧
      (proofsOf (run router served).2).Nodup := by
  have hminted : (Proxy.mintedOf (eventsOf (run router served).2)).Nodup := by decide +kernel
  exact ⟨by decide +kernel, (only_authorized_forwarded router served hminted).2.1⟩

end Sush.Plain
