import Sush.Client.Signer
import Sush.Verify.Window

/-!
# Concurrent requests share one login

A task that was refused logs in only if the generation is still the one it looked at before it sent its
request. No request is signed with anything but the authorization of the moment, so the refused request was
signed with what is still the current authorization (`Attempt.Within`). The login lock keeps everybody else
from setting the authorization by a login in the meantime, so the logins belong to ever greater generations
(`ClientProcess.Coordinated`), as long as the generation does not come round. An authorization counts the
requests it signs (`ClientProcess.Counted`), so that the proxy's window takes every one of them that does not
arrive too late (`numbers_accepted`).
-/

namespace Sush

variable {KeyId Credentials : Type}

/-! ## What is seen of a run -/

namespace ClientOut

def isTriedBy (id : ℕ) : ClientOut KeyId → Bool
  | tried i => i = id
  | _ => false

/-- The task that logged in, and the generation at which that was needed. -/
def login? : ClientOut KeyId → Option (ℕ × ℕ)
  | loggedIn id generation => some (id, generation)
  | _ => none

/-- The authorization and the sequence number that a request was signed with. -/
def bound? : ClientOut KeyId → Option (ℕ × ℕ)
  | sent _ (.bound authz seq) => some (authz, seq)
  | _ => none

end ClientOut

def tries (id : ℕ) (outs : List (ClientOut KeyId)) : ℕ := outs.countP (ClientOut.isTriedBy id)

def loginsOf (outs : List (ClientOut KeyId)) : List (ℕ × ℕ) := outs.filterMap ClientOut.login?

theorem tries_append {id : ℕ} {outs more : List (ClientOut KeyId)} :
    tries id (outs ++ more) = tries id outs + tries id more := List.countP_append ..

theorem loginsOf_append {outs more : List (ClientOut KeyId)} :
    loginsOf (outs ++ more) = loginsOf outs ++ loginsOf more := List.filterMap_append ..

/-! ## What an action does -/

def Attempt.isAuthenticating : Attempt KeyId → Bool
  | authenticating _ => true
  | _ => false

/-- How a task goes on by itself while this is the generation. -/
inductive Attempt.Moves (generation : ℕ) : Attempt KeyId → Attempt KeyId → Prop
  | claimed : Moves generation .claiming (.ready generation false)
  | refused {g : ℕ} {header : AuthzHeader KeyId} :
    Moves generation (.sent g false header) (.refused g header)
  | outrun {g : ℕ} {header : AuthzHeader KeyId} (h : generation ≠ g) :
    Moves generation (.refused g header) (.retrying false)
  | retry {loggedIn : Bool} : Moves generation (.retrying loggedIn) (.ready generation loggedIn)
  | ended {a : Attempt KeyId} (h : a.isAuthenticating = false) : Moves generation a .returned

/-- What an action can do. -/
inductive ClientProcess.Does (c : ClientProcess KeyId Credentials) :
    ClientProcess KeyId Credentials → List (ClientOut KeyId) → Prop
  | nothing : Does c c []
  | start {a : Attempt KeyId} (ha : a = .claiming ∨ a = .ready c.signer.generation false) :
    Does c { c with attempts := c.attempts ++ [a] } []
  | move {id : ℕ} {a a' : Attempt KeyId} (claim : Option KeyId) (htask : c.attempts[id]? = some a)
    (hmoves : a.Moves c.signer.generation a') :
    Does c ({ c with signer := { c.signer with claim := claim } }.set id a') []
  | send {id g : ℕ} {loggedIn : Bool} {a : Attempt KeyId} {tried : List (ClientOut KeyId)}
    (htask : c.attempts[id]? = some a)
    (hturn : a = .ready g loggedIn ∧ tried = [.tried id] ∨
      (∃ header, a = .sent g loggedIn header) ∧ tried = []) :
    Does c ({ c with authzs := c.sign.2 }.set id (.sent g loggedIn c.sign.1)) (tried ++ [.sent id c.sign.1])
  | lock {id g : ℕ} {header : AuthzHeader KeyId} (htask : c.attempts[id]? = some (.refused g header))
    (hfree : c.signer.login = none) (hgen : c.signer.generation = g) :
    Does c ({ c with signer := { c.signer with login := some id } }.set id (.authenticating g))
      [.needed id header c.signer.authz]
  | giveUp {id g : ℕ} (htask : c.attempts[id]? = some (.authenticating g)) :
    Does c ({ c with signer := c.signer.unlock }.set id .returned) []
  | login {id g : ℕ} (credentials : Credentials) (htask : c.attempts[id]? = some (.authenticating g)) :
    Does c ({ c with
      signer := c.signer.unlock.set (some c.authzs.length)
      authzs := c.authzs ++ [Authz.new credentials] }.set id (.retrying true)) [.loggedIn id g]
  | reset : Does c { c with signer := (c.signer.set none).clearClaim } [.dropped]

theorem ClientProcess.does_step (c : ClientProcess KeyId Credentials) (act : ClientAct KeyId Credentials) :
    c.Does (c.step act).1 (c.step act).2 := by
  cases act with
  | start =>
    simp only [step, start]
    split
    · exact .start (.inr rfl)
    · exact .start (.inl rfl)
  | claimed id keyId =>
    simp only [step]
    split
    · next htask =>
      cases keyId with
      | none => exact .move c.signer.claim htask .claimed
      | some keyId => exact .move (some keyId) htask .claimed
    · exact .nothing
  | send id =>
    simp only [step]
    split
    · next htask => exact .send htask (.inl ⟨rfl, rfl⟩)
    · next header htask => exact .send htask (.inr ⟨⟨header, rfl⟩, rfl⟩)
    · exact .nothing
  | respond id unauthorized =>
    simp only [step]
    split
    · next g loggedIn header htask =>
      split
      · next hrefused =>
        obtain rfl : loggedIn = false := by simpa using (Bool.and_eq_true_iff.1 hrefused).2
        exact .move c.signer.claim htask .refused
      · exact .move c.signer.claim htask (.ended rfl)
    · exact .nothing
  | lock id =>
    simp only [step, lock]
    split
    · next htask =>
      split
      · next hfree =>
        split
        · next hgen => exact .lock htask (Option.isNone_iff_eq_none.1 hfree) hgen
        · next hgen => exact .move c.signer.claim htask (.outrun hgen)
      · exact .nothing
    · exact .nothing
  | authenticated id credentials =>
    simp only [step]
    split
    · next htask =>
      cases credentials with
      | some credentials => exact .login credentials htask
      | none => exact .giveUp htask
    · exact .nothing
  | retry id =>
    simp only [step]
    split
    · next htask => exact .move c.signer.claim htask .retry
    · exact .nothing
  | drop id =>
    simp only [step]
    split
    · next htask => exact .giveUp htask
    · next attempt hnot htask =>
      refine .move c.signer.claim htask (.ended ?_)
      cases attempt with
      | authenticating g => exact absurd rfl (hnot g)
      | _ => rfl
    · exact .nothing
  | reset => exact .reset

/-! ## One login for a generation -/

/-- What holds of a task that has tried `tries` times, while the authorization `authz` is the one of
`generation`: every turn of its loop has seen a later generation, and a request that was signed in the
generation the task looked at is signed with the authorization of that generation. -/
def Attempt.Within (generation : ℕ) (authz : Option ℕ) (tries : ℕ) : Attempt KeyId → Prop
  | claiming => tries = 0
  | ready g _ => g ≤ generation ∧ tries ≤ g
  | sent g _ header | refused g header =>
    g ≤ generation ∧ tries ≤ g + 1 ∧ (g = generation → header.authz? = authz)
  | authenticating g => g ≤ generation ∧ tries ≤ g + 1
  | retrying _ => tries ≤ generation
  | returned => tries ≤ generation + 1

/-- Whether the task may still log in. -/
def Attempt.mayLogin : Attempt KeyId → Bool
  | claiming | refused .. | authenticating _ => true
  | ready _ loggedIn | sent _ loggedIn _ | retrying loggedIn => !loggedIn
  | returned => false

theorem Attempt.Within.mono {a : Attempt KeyId} {generation generation' tries : ℕ} {authz authz' : Option ℕ}
    (h : a.Within generation authz tries) (hle : generation ≤ generation')
    (hsame : generation' = generation → authz' = authz) : a.Within generation' authz' tries := by
  have hheader : ∀ (g : ℕ) (header : AuthzHeader KeyId), g ≤ generation →
      (g = generation → header.authz? = authz) → g = generation' → header.authz? = authz' := by
    intro g header hg heq hg'
    obtain rfl : generation' = generation := by omega
    rw [hsame rfl]
    exact heq hg'
  cases a with
  | claiming => exact h
  | ready g loggedIn => exact ⟨h.1.trans hle, h.2⟩
  | sent g loggedIn header => exact ⟨h.1.trans hle, h.2.1, hheader g header h.1 h.2.2⟩
  | refused g header => exact ⟨h.1.trans hle, h.2.1, hheader g header h.1 h.2.2⟩
  | authenticating g => exact ⟨h.1.trans hle, h.2⟩
  | retrying loggedIn => exact h.trans hle
  | returned => exact h.trans (Nat.succ_le_succ hle)

theorem Attempt.Within.le {a : Attempt KeyId} {generation tries : ℕ} {authz : Option ℕ}
    (h : a.Within generation authz tries) : tries ≤ generation + 1 := by
  cases a with
  | claiming => exact (Nat.le_of_eq h).trans (Nat.zero_le _)
  | ready g loggedIn => exact h.2.trans (h.1.trans (Nat.le_succ _))
  | sent g loggedIn header => exact h.2.1.trans (Nat.succ_le_succ h.1)
  | refused g header => exact h.2.1.trans (Nat.succ_le_succ h.1)
  | authenticating g => exact h.2.trans (Nat.succ_le_succ h.1)
  | retrying loggedIn => exact h.trans (Nat.le_succ _)
  | returned => exact h

theorem Attempt.Moves.within {a a' : Attempt KeyId} {generation tries : ℕ} {authz : Option ℕ}
    (h : a.Moves generation a') (hwithin : a.Within generation authz tries) :
    a'.Within generation authz tries := by
  cases h with
  | claimed => exact ⟨le_rfl, (Nat.le_of_eq hwithin).trans (Nat.zero_le _)⟩
  | refused => exact hwithin
  | outrun hgen => exact hwithin.2.1.trans (lt_of_le_of_ne hwithin.1 (Ne.symm hgen))
  | retry => exact ⟨le_rfl, hwithin⟩
  | ended => exact hwithin.le

theorem Attempt.Moves.idle {a a' : Attempt KeyId} {generation : ℕ} (h : a.Moves generation a') :
    a.isAuthenticating = false ∧ a'.isAuthenticating = false := by
  cases h with
  | ended h => exact ⟨h, rfl⟩
  | _ => exact ⟨rfl, rfl⟩

theorem Attempt.Moves.mayLogin {a a' : Attempt KeyId} {generation : ℕ} (h : a.Moves generation a')
    (hmay : a'.mayLogin = true) : a.mayLogin = true := by
  cases h with
  | ended => cases hmay
  | retry => exact hmay
  | _ => rfl

namespace ClientProcess

/-- What holds after `outs` was seen. -/
structure Coordinated (c : ClientProcess KeyId Credentials) (outs : List (ClientOut KeyId)) : Prop where
  /-- Who authenticates holds the lock. -/
  lock : ∀ id, c.signer.login = some id ↔ ∃ g, c.attempts[id]? = some (.authenticating g)
  within : ∀ (id : ℕ) (a : Attempt KeyId), c.attempts[id]? = some a →
    a.Within c.signer.generation c.signer.authz (tries id outs)
  fresh : ∀ id, c.attempts.length ≤ id → tries id outs = 0 ∧ id ∉ (loginsOf outs).map Prod.fst
  once : ∀ (id : ℕ) (a : Attempt KeyId), c.attempts[id]? = some a → a.mayLogin = true →
    id ∉ (loginsOf outs).map Prod.fst
  nodup : ((loginsOf outs).map Prod.fst).Nodup
  increasing : (loginsOf outs).Pairwise fun l l' => l.2 < l'.2
  past : ∀ l ∈ loginsOf outs, l.2 < c.signer.generation
  /-- Nobody has logged in since the one who authenticates was found to need it. -/
  current : ∀ (id g : ℕ), c.attempts[id]? = some (.authenticating g) → ∀ l ∈ loginsOf outs, l.2 < g
  needed : ∀ id refused current, .needed id refused current ∈ outs → refused.authz? = current

variable {c c' : ClientProcess KeyId Credentials} {outs more : List (ClientOut KeyId)} {id : ℕ}
  {a a' : Attempt KeyId}

theorem coordinated_new : (new : ClientProcess KeyId Credentials).Coordinated [] where
  lock id := by simp [ClientProcess.new, AuthzSigner.default]
  within id a h := by simp [ClientProcess.new] at h
  fresh id _ := by simp [tries, loginsOf]
  once id a h := by simp [ClientProcess.new] at h
  nodup := List.nodup_nil
  increasing := List.Pairwise.nil
  past l h := by cases h
  current id g h := by simp [ClientProcess.new] at h
  needed id r cur h := by cases h

theorem getElem?_set_cases {l : List (Attempt KeyId)} (htask : l[id]? = some a) {i : ℕ}
    {b : Attempt KeyId} (h : (l.set id a')[i]? = some b) : i = id ∧ b = a' ∨ i ≠ id ∧ l[i]? = some b := by
  by_cases heq : id = i
  · subst heq
    rw [List.getElem?_set_self (List.getElem?_eq_some_iff.1 htask).1] at h
    exact .inl ⟨rfl, (Option.some.inj h).symm⟩
  · rw [List.getElem?_set_ne heq] at h
    exact .inr ⟨Ne.symm heq, h⟩

/-- **A task goes on** without logging in. -/
theorem Coordinated.move (h : c.Coordinated outs) (htask : c.attempts[id]? = some a)
    (hattempts : c'.attempts = c.attempts.set id a')
    (hle : c.signer.generation ≤ c'.signer.generation)
    (hsame : c'.signer.generation = c.signer.generation → c'.signer.authz = c.signer.authz)
    (hlock : ∀ i, c'.signer.login = some i ↔
      i = id ∧ a'.isAuthenticating = true ∨ i ≠ id ∧ c.signer.login = some i)
    (hothers : ∀ i, i ≠ id → tries i more = 0) (hnone : loginsOf more = [])
    (hwithin : a'.Within c'.signer.generation c'.signer.authz (tries id outs + tries id more))
    (hmay : a'.mayLogin = true → a.mayLogin = true)
    (hcurrent : ∀ g, a' = .authenticating g → g = c.signer.generation)
    (hneeded : ∀ i refused current, .needed i refused current ∈ more → refused.authz? = current) :
    c'.Coordinated (outs ++ more) := by
  have hlogins : loginsOf (outs ++ more) = loginsOf outs := by rw [loginsOf_append, hnone, List.append_nil]
  have hself : c'.attempts[id]? = some a' := by
    rw [hattempts]
    exact List.getElem?_set_self (List.getElem?_eq_some_iff.1 htask).1
  have hother : ∀ i, i ≠ id → c'.attempts[i]? = c.attempts[i]? := by
    intro i hi
    rw [hattempts]
    exact List.getElem?_set_ne (Ne.symm hi)
  refine ⟨fun i => ?_, fun i b hb => ?_, fun i hi => ?_, fun i b hb hmayb => ?_, ?_, ?_, ?_, ?_, ?_⟩
  · rw [hlock i]
    by_cases hi : i = id
    · subst hi
      rw [hself]
      cases a' <;> simp [Attempt.isAuthenticating]
    · rw [hother i hi, ← h.lock i]
      simp [hi]
  · rw [tries_append]
    rw [hattempts] at hb
    rcases getElem?_set_cases htask hb with ⟨rfl, rfl⟩ | ⟨hi, hb⟩
    · exact hwithin
    · rw [hothers i hi, Nat.add_zero]
      exact (h.within i b hb).mono hle hsame
  · rw [hattempts, List.length_set] at hi
    have hne : i ≠ id := by
      rintro rfl
      exact absurd (List.getElem?_eq_some_iff.1 htask).1 (Nat.not_lt.2 hi)
    rw [tries_append, hothers i hne, hlogins]
    exact h.fresh i hi
  · rw [hlogins]
    rw [hattempts] at hb
    rcases getElem?_set_cases htask hb with ⟨rfl, rfl⟩ | ⟨hi, hb⟩
    · exact h.once i a htask (hmay hmayb)
    · exact h.once i b hb hmayb
  · rw [hlogins]
    exact h.nodup
  · rw [hlogins]
    exact h.increasing
  · rw [hlogins]
    exact fun l hl => (h.past l hl).trans_le hle
  · rw [hlogins]
    intro i g hg l hl
    rw [hattempts] at hg
    rcases getElem?_set_cases htask hg with ⟨rfl, rfl⟩ | ⟨hi, hg⟩
    · rw [hcurrent g rfl]
      exact h.past l hl
    · exact h.current i g hg l hl
  · intro i refused current hmem
    rcases List.mem_append.1 hmem with hmem | hmem
    · exact h.needed i refused current hmem
    · exact hneeded i refused current hmem

theorem Coordinated.lock_kept (h : c.Coordinated outs) (htask : c.attempts[id]? = some a)
    (ha : a.isAuthenticating = false) (ha' : a'.isAuthenticating = false) (i : ℕ) :
    c.signer.login = some i ↔ i = id ∧ a'.isAuthenticating = true ∨ i ≠ id ∧ c.signer.login = some i := by
  rw [ha']
  by_cases hi : i = id
  · subst hi
    have hnot : c.signer.login ≠ some i := by
      intro hlogin
      obtain ⟨g, hg⟩ := (h.lock i).1 hlogin
      cases htask.symm.trans hg
      cases ha
    simp [hnot]
  · simp [hi]

theorem Coordinated.quiet (h : c.Coordinated outs) (htask : c.attempts[id]? = some a)
    (hmoves : a.Moves c.signer.generation a') (claim : Option KeyId) :
    ({ c with signer := { c.signer with claim := claim } }.set id a').Coordinated (outs ++ []) := by
  obtain ⟨ha, ha'⟩ := hmoves.idle
  refine h.move htask rfl le_rfl (fun _ => rfl) (h.lock_kept htask ha ha') (fun _ _ => rfl) rfl
    (hmoves.within (h.within id a htask)) hmoves.mayLogin (fun g hg => ?_) (fun _ _ _ hmem => by cases hmem)
  rw [hg] at ha'
  cases ha'

/-- **A task starts.** -/
theorem Coordinated.start (h : c.Coordinated outs) (ha : a.isAuthenticating = false)
    (hwithin : a.Within c.signer.generation c.signer.authz 0) :
    ({ c with attempts := c.attempts ++ [a] } : ClientProcess KeyId Credentials).Coordinated outs := by
  have hcases : ∀ {i : ℕ} {d : Attempt KeyId}, (c.attempts ++ [a])[i]? = some d →
      c.attempts[i]? = some d ∨ i = c.attempts.length ∧ d = a := by
    intro i d hd
    rcases Nat.lt_or_ge i c.attempts.length with hlt | hge
    · rw [List.getElem?_append_left hlt] at hd
      exact .inl hd
    · rw [List.getElem?_append_right hge, List.getElem?_eq_some_iff] at hd
      obtain ⟨hlt, hd⟩ := hd
      rw [List.length_singleton] at hlt
      exact .inr ⟨by omega, by simpa using hd.symm⟩
  obtain ⟨htries, hlogins⟩ := h.fresh c.attempts.length le_rfl
  refine ⟨fun i => ?_, fun i d hd => ?_, fun i hi => ?_, fun i d hd hmay => ?_, h.nodup, h.increasing,
    h.past, fun i g hg => ?_, h.needed⟩
  · rw [h.lock i]
    refine exists_congr fun g => ⟨fun hg => ?_, fun hg => ?_⟩
    · exact (List.getElem?_append_left (List.getElem?_eq_some_iff.1 hg).1).trans hg
    · rcases hcases hg with hg | ⟨-, rfl⟩
      · exact hg
      · cases ha
  · rcases hcases hd with hd | ⟨rfl, rfl⟩
    · exact h.within i d hd
    · rw [htries]
      exact hwithin
  · rw [List.length_append] at hi
    exact h.fresh i ((Nat.le_add_right _ _).trans hi)
  · rcases hcases hd with hd | ⟨rfl, rfl⟩
    · exact h.once i d hd hmay
    · exact hlogins
  · rcases hcases hg with hg | ⟨-, rfl⟩
    · exact h.current i g hg
    · cases ha

/-- The current authorization was made. -/
def Placed (c : ClientProcess KeyId Credentials) : Prop :=
  ∀ place, c.signer.authz = some place → place < c.authzs.length

theorem authz?_sign (hplace : c.Placed) :
    c.sign.1.authz? = c.signer.authz := by
  unfold sign
  cases hauthz : c.signer.authz with
  | some place =>
    have hget := List.getElem?_eq_getElem (hplace place hauthz)
    simp only [hget]
    rfl
  | none =>
    dsimp only
    split <;> rfl

/-- **A request is sent**, the first of a turn or another. -/
theorem Coordinated.send (h : c.Coordinated outs) {g : ℕ} {loggedIn : Bool} (hplaced : c.Placed)
    (htask : c.attempts[id]? = some a)
    (hturn : a = .ready g loggedIn ∧ more = [.tried id] ∨
      (∃ header, a = .sent g loggedIn header) ∧ more = []) :
    ({ c with authzs := c.sign.2 }.set id (.sent g loggedIn c.sign.1)).Coordinated
      (outs ++ (more ++ [ClientOut.sent id c.sign.1])) := by
  have hwithin := h.within id a htask
  have hsent : ∀ i, tries i (more ++ [ClientOut.sent id c.sign.1]) = tries i more := fun i => tries_append
  have hmoved : a.isAuthenticating = false ∧ (loggedIn = false → a.mayLogin = true) ∧
      g ≤ c.signer.generation ∧ (∀ i, i ≠ id → tries i more = 0) ∧ loginsOf more = [] ∧
      tries id outs + tries id more ≤ g + 1 ∧ ∀ i refused current, .needed i refused current ∉ more := by
    rcases hturn with ⟨rfl, rfl⟩ | ⟨⟨header, rfl⟩, rfl⟩
    · have hone : tries id [(.tried id : ClientOut KeyId)] = 1 := by simp [tries, ClientOut.isTriedBy]
      refine ⟨rfl, fun hl => by simp [Attempt.mayLogin, hl], hwithin.1, fun i hi => ?_, rfl, ?_, by simp⟩
      · simp [tries, ClientOut.isTriedBy, Ne.symm hi]
      · rw [hone]
        exact Nat.succ_le_succ hwithin.2
    · exact ⟨rfl, fun hl => by simp [Attempt.mayLogin, hl], hwithin.1, fun _ _ => rfl, rfl, hwithin.2.1,
        by simp⟩
  obtain ⟨ha, hmay, hg, hothers, hnone, htries, hneeded⟩ := hmoved
  refine h.move htask rfl le_rfl (fun _ => rfl) (h.lock_kept htask ha rfl)
    (fun i hi => (hsent i).trans (hothers i hi)) ?_ ⟨hg, hsent id ▸ htries, fun _ => authz?_sign hplaced⟩
    (fun hm => hmay (by simpa [Attempt.mayLogin] using hm)) (fun g' hg' => by cases hg')
    (fun i refused current hmem => ?_)
  · rw [loginsOf_append, hnone]
    rfl
  · exact absurd (by simpa using hmem) (hneeded i refused current)

/-- **A login turns out to be needed**, while nobody authenticates. -/
theorem Coordinated.lock_needed (h : c.Coordinated outs) {g : ℕ} {header : AuthzHeader KeyId}
    (htask : c.attempts[id]? = some (.refused g header)) (hfree : c.signer.login = none)
    (hgen : c.signer.generation = g) :
    ({ c with signer := { c.signer with login := some id } }.set id (.authenticating g)).Coordinated
      (outs ++ [ClientOut.needed id header c.signer.authz]) := by
  obtain ⟨hg, htries, hheader⟩ := h.within id _ htask
  refine h.move htask rfl le_rfl (fun _ => rfl) (fun i => ?_) (fun i hi => rfl) rfl ⟨hg, htries⟩
    (fun _ => rfl) (fun g' hg' => ?_) (fun i refused current hmem => ?_)
  · change some id = some i ↔ _
    rw [hfree]
    simp [Attempt.isAuthenticating, eq_comm]
  · cases hg'
    exact hgen.symm
  · cases List.mem_singleton.1 hmem
    exact hheader hgen.symm

theorem Coordinated.give_up (h : c.Coordinated outs) {g : ℕ}
    (htask : c.attempts[id]? = some (.authenticating g)) :
    ({ c with signer := c.signer.unlock }.set id .returned).Coordinated (outs ++ []) := by
  obtain ⟨hg, htries⟩ := h.within id _ htask
  have hheld := (h.lock id).2 ⟨g, htask⟩
  refine h.move htask rfl le_rfl (fun _ => rfl) (fun i => ?_) (fun i hi => rfl) rfl ?_ (fun hm => by cases hm)
    (fun g' hg' => by cases hg') (fun _ _ _ hmem => by cases hmem)
  · rw [hheld]
    simp [AuthzSigner.unlock, Attempt.isAuthenticating, ClientProcess.set, eq_comm]
  · exact htries.trans (Nat.succ_le_succ hg)

theorem Coordinated.seen (h : c.Coordinated outs) {g : ℕ} (htask : c.attempts[id]? = some (.retrying true))
    (hnew : id ∉ (loginsOf outs).map Prod.fst) (hlater : ∀ l ∈ loginsOf outs, l.2 < g)
    (hpast : g < c.signer.generation) (hfree : c.signer.login = none) :
    c.Coordinated (outs ++ [ClientOut.loggedIn id g]) := by
  have hlogins : loginsOf (outs ++ [ClientOut.loggedIn id g]) = loginsOf outs ++ [(id, g)] := loginsOf_append
  have hids : (loginsOf (outs ++ [ClientOut.loggedIn id g])).map Prod.fst =
      (loginsOf outs).map Prod.fst ++ [id] := by
    rw [hlogins, List.map_append]
    rfl
  have htries : ∀ i, tries i (outs ++ [ClientOut.loggedIn id g]) = tries i outs := fun i => tries_append
  refine ⟨h.lock, fun i b hb => ?_, fun i hi => ?_, fun i b hb hmay => ?_, ?_, ?_, ?_, fun i g' hg' => ?_, ?_⟩
  · rw [htries]
    exact h.within i b hb
  · have hne : i ≠ id := by
      rintro rfl
      exact absurd (List.getElem?_eq_some_iff.1 htask).1 (Nat.not_lt.2 hi)
    rw [htries, hids, List.mem_append, List.mem_singleton, not_or]
    exact ⟨(h.fresh i hi).1, (h.fresh i hi).2, hne⟩
  · rw [hids, List.mem_append, List.mem_singleton, not_or]
    refine ⟨h.once i b hb hmay, ?_⟩
    rintro rfl
    cases htask.symm.trans hb
    cases hmay
  · rw [hids, List.nodup_append]
    refine ⟨h.nodup, List.nodup_singleton _, fun i hi j hj => ?_⟩
    rw [List.mem_singleton.1 hj]
    rintro rfl
    exact hnew hi
  · rw [hlogins, List.pairwise_append]
    refine ⟨h.increasing, List.pairwise_singleton _ _, fun l hl l' hl' => ?_⟩
    rw [List.mem_singleton.1 hl']
    exact hlater l hl
  · rw [hlogins]
    intro l hl
    rcases List.mem_append.1 hl with hl | hl
    · exact h.past l hl
    · rw [List.mem_singleton.1 hl]
      exact hpast
  · have hheld := (h.lock i).2 ⟨g', hg'⟩
    rw [hfree] at hheld
    cases hheld
  · intro i refused current hmem
    rcases List.mem_append.1 hmem with hmem | hmem
    · exact h.needed i refused current hmem
    · cases List.mem_singleton.1 hmem

/-- **A login succeeds**, and is the only one of its generation. -/
theorem Coordinated.login (h : c.Coordinated outs) {g place : ℕ} {authzs : List (Authz Credentials)}
    (hfew : c.signer.generation + 1 < 2 ^ 64) (htask : c.attempts[id]? = some (.authenticating g)) :
    ({ c with signer := c.signer.unlock.set (some place), authzs := authzs }.set id
      (.retrying true)).Coordinated (outs ++ [ClientOut.loggedIn id g]) := by
  obtain ⟨hg, htries⟩ := h.within id _ htask
  have hheld := (h.lock id).2 ⟨g, htask⟩
  let c' := { c with signer := c.signer.unlock.set (some place), authzs := authzs }.set id (.retrying true)
  have hnext : c'.signer.generation = c.signer.generation + 1 := Nat.mod_eq_of_lt hfew
  have hmoved : c'.Coordinated (outs ++ []) := by
    refine h.move htask rfl (hnext ▸ Nat.le_succ _) (fun heq => ?_) (fun i => ?_) (fun i hi => rfl) rfl ?_
      (fun hm => by cases hm) (fun g' hg' => by cases hg') (fun _ _ _ hmem => by cases hmem)
    · exact absurd (hnext.symm.trans heq) (Nat.succ_ne_self _)
    · rw [hheld]
      simp [c', AuthzSigner.unlock, AuthzSigner.set, Attempt.isAuthenticating, ClientProcess.set, eq_comm]
    · exact htries.trans (hnext ▸ Nat.succ_le_succ hg)
  rw [List.append_nil] at hmoved
  refine hmoved.seen ?_ (h.once id _ htask rfl) (h.current id g htask) (hnext ▸ Nat.lt_succ_of_le hg) rfl
  exact List.getElem?_set_self (List.getElem?_eq_some_iff.1 htask).1

theorem Coordinated.reset (h : c.Coordinated outs) (hfew : c.signer.generation + 1 < 2 ^ 64) :
    ({ c with signer := (c.signer.set none).clearClaim } : ClientProcess KeyId Credentials).Coordinated
      (outs ++ [.dropped]) := by
  have hnext : (c.signer.set none).clearClaim.generation = c.signer.generation + 1 := Nat.mod_eq_of_lt hfew
  have htries : ∀ i, tries i (outs ++ [.dropped]) = tries i outs := fun i => tries_append
  have hlogins : loginsOf (outs ++ [.dropped]) = loginsOf outs := by
    rw [loginsOf_append]
    exact List.append_nil _
  refine ⟨h.lock, fun i b hb => ?_, ?_, ?_, ?_, ?_, ?_, ?_, fun i refused current hmem => ?_⟩
  · rw [htries]
    refine (h.within i b hb).mono (hnext ▸ Nat.le_succ _) fun heq => ?_
    exact absurd (hnext.symm.trans heq) (Nat.succ_ne_self _)
  · simpa only [htries, hlogins] using h.fresh
  · simpa only [hlogins] using h.once
  · rw [hlogins]
    exact h.nodup
  · rw [hlogins]
    exact h.increasing
  · rw [hlogins]
    exact fun l hl => (h.past l hl).trans (hnext ▸ Nat.lt_succ_self _)
  · rw [hlogins]
    exact h.current
  · rcases List.mem_append.1 hmem with hmem | hmem
    · exact h.needed i refused current hmem
    · cases List.mem_singleton.1 hmem

/-- **One action.** -/
theorem Coordinated.step (h : c.Coordinated outs) (hplaced : c.Placed)
    (hfew : c.signer.generation + 1 < 2 ^ 64) (hdoes : c.Does c' more) : c'.Coordinated (outs ++ more) := by
  cases hdoes with
  | nothing => rwa [List.append_nil]
  | start ha =>
    rw [List.append_nil]
    rcases ha with rfl | rfl
    · exact h.start rfl rfl
    · exact h.start rfl ⟨le_rfl, Nat.zero_le _⟩
  | move claim htask hmoves => exact h.quiet htask hmoves claim
  | send htask hturn => exact h.send hplaced htask hturn
  | lock htask hfree hgen => exact h.lock_needed htask hfree hgen
  | giveUp htask => exact h.give_up htask
  | login credentials htask => exact h.login hfew htask
  | reset => exact h.reset hfew

theorem generation_le (hfew : c.signer.generation + 1 < 2 ^ 64) (hdoes : c.Does c' more) :
    c'.signer.generation ≤ c.signer.generation + 1 := by
  cases hdoes with
  | login | reset => exact (Nat.mod_eq_of_lt hfew).le
  | _ => exact Nat.le_succ _

/-! ## Sequence numbers -/

/-- The sequence numbers that an authorization has signed under, in order. -/
def seqsOf (place : ℕ) (outs : List (ClientOut KeyId)) : List ℕ :=
  (outs.filterMap ClientOut.bound?).filterMap fun (authz, seq) => if authz = place then some seq else none

theorem seqsOf_append {place : ℕ} : seqsOf place (outs ++ more) = seqsOf place outs ++ seqsOf place more := by
  simp [seqsOf, List.filterMap_append]

/-- How many logins there were, and which of them is in force: the last one, unless the authorization was
dropped since. -/
def stand : ℕ × Option ℕ → ClientOut KeyId → ℕ × Option ℕ
  | (logins, _), .loggedIn .. => (logins + 1, some logins)
  | (logins, _), .dropped => (logins, none)
  | standing, _ => standing

def standing (outs : List (ClientOut KeyId)) : ℕ × Option ℕ := outs.foldl stand (0, none)

theorem standing_append : standing (outs ++ more) = more.foldl stand (standing outs) := List.foldl_append ..

/-- Every authorization has signed under the numbers from 1 up to its next one, none that was not made has
signed, and the current one is the one in force. -/
structure Counted (c : ClientProcess KeyId Credentials) (outs : List (ClientOut KeyId)) : Prop where
  placed : c.Placed
  made : ∀ (place : ℕ) (authz : Authz Credentials), c.authzs[place]? = some authz →
    ∃ n, authz.seq = (n + 1) % 2 ^ 64 ∧ seqsOf place outs = (List.range' 1 n).map (· % 2 ^ 64)
  unmade : ∀ place, c.authzs.length ≤ place → seqsOf place outs = []
  stands : standing outs = (c.authzs.length, c.signer.authz)

theorem Counted.same (h : c.Counted outs) (hauthzs : c'.authzs = c.authzs)
    (hauthz : c'.signer.authz = c.signer.authz) (hnone : ∀ place, seqsOf place more = [])
    (hstand : ∀ st, more.foldl stand st = st) : c'.Counted (outs ++ more) where
  placed place hplace := by
    rw [hauthzs]
    exact h.placed place (hauthz ▸ hplace)
  made place authz hget := by
    rw [seqsOf_append, hnone, List.append_nil]
    exact h.made place authz (hauthzs ▸ hget)
  unmade place hle := by
    rw [seqsOf_append, hnone, List.append_nil]
    exact h.unmade place (hauthzs ▸ hle)
  stands := by rw [standing_append, hstand, h.stands, hauthzs, hauthz]

/-- **A request is signed** under the next number. -/
theorem Counted.sign (h : c.Counted outs) {attempts : List (Attempt KeyId)} :
    ({ c with authzs := c.sign.2, attempts := attempts } : ClientProcess KeyId Credentials).Counted
      (outs ++ [ClientOut.sent id c.sign.1]) := by
  unfold ClientProcess.sign
  cases hauthz : c.signer.authz with
  | none =>
    dsimp only
    split
    · exact h.same rfl rfl (fun _ => rfl) fun _ => rfl
    · exact h.same rfl rfl (fun _ => rfl) fun _ => rfl
  | some place =>
    have hlt := h.placed place hauthz
    obtain ⟨n, hseq, hseqs⟩ := h.made place _ (List.getElem?_eq_getElem hlt)
    simp only [List.getElem?_eq_getElem hlt]
    have hnew : ∀ i, seqsOf i [ClientOut.sent id (.bound place c.authzs[place].seq : AuthzHeader KeyId)] =
        if place = i then [c.authzs[place].seq] else [] := by
      intro i
      by_cases hi : place = i <;> simp [seqsOf, ClientOut.bound?, hi]
    refine ⟨fun i hi => ?_, fun i authz hget => ?_, fun i hi => ?_, ?_⟩
    · rw [List.length_set]
      exact h.placed i hi
    · rw [seqsOf_append, hnew]
      by_cases hi : place = i
      · subst hi
        rw [List.getElem?_set_self hlt] at hget
        cases hget
        refine ⟨n + 1, by rw [hseq, Nat.mod_add_mod], ?_⟩
        rw [if_pos rfl, hseqs, hseq, List.range'_concat, List.map_append, Nat.one_mul, Nat.add_comm 1 n]
        rfl
      · rw [List.getElem?_set_ne hi] at hget
        rw [if_neg hi, List.append_nil]
        exact h.made i authz hget
    · rw [List.length_set] at hi
      have hne : place ≠ i := by omega
      rw [seqsOf_append, hnew, if_neg hne, List.append_nil]
      exact h.unmade i hi
    · rw [standing_append, h.stands, List.length_set]
      rfl

/-- **A login** begins to count. -/
theorem Counted.login (h : c.Counted outs) {attempts : List (Attempt KeyId)} {g : ℕ}
    (credentials : Credentials) :
    ({ c with
      signer := c.signer.unlock.set (some c.authzs.length)
      authzs := c.authzs ++ [Authz.new credentials]
      attempts := attempts } : ClientProcess KeyId Credentials).Counted
        (outs ++ [ClientOut.loggedIn id g]) := by
  have hnone : ∀ place, seqsOf place (outs ++ [ClientOut.loggedIn id g]) = seqsOf place outs := by
    intro place
    rw [seqsOf_append]
    exact List.append_nil _
  refine ⟨fun place hplace => ?_, fun place authz hget => ?_, fun place hle => ?_, ?_⟩
  · cases hplace
    rw [List.length_append]
    exact Nat.lt_succ_self _
  · rw [hnone]
    rcases Nat.lt_or_ge place c.authzs.length with hlt | hge
    · rw [List.getElem?_append_left hlt] at hget
      exact h.made place authz hget
    · rw [List.getElem?_append_right hge] at hget
      have hnew : authz = Authz.new credentials := List.mem_singleton.1 (List.mem_of_getElem? hget)
      rw [hnew, h.unmade place hge]
      exact ⟨0, rfl, rfl⟩
  · rw [hnone]
    rw [List.length_append] at hle
    exact h.unmade place ((Nat.le_add_right _ _).trans hle)
  · rw [standing_append, h.stands, List.length_append]
    rfl

theorem Counted.reset (h : c.Counted outs) :
    ({ c with signer := (c.signer.set none).clearClaim } : ClientProcess KeyId Credentials).Counted
      (outs ++ [.dropped]) where
  placed place hplace := by cases hplace
  made place authz hget := by
    obtain ⟨n, hseq, hseqs⟩ := h.made place authz hget
    refine ⟨n, hseq, ?_⟩
    rw [seqsOf_append, hseqs]
    exact List.append_nil _
  unmade place hle := by
    rw [seqsOf_append, h.unmade place hle]
    rfl
  stands := by
    rw [standing_append, h.stands]
    rfl

theorem Counted.step (h : c.Counted outs) (hdoes : c.Does c' more) : c'.Counted (outs ++ more) := by
  cases hdoes with
  | @send id g loggedIn a tried htask hturn =>
    rcases hturn with ⟨-, rfl⟩ | ⟨-, rfl⟩
    · have htried : c.Counted (outs ++ [.tried id]) := h.same rfl rfl (fun _ => rfl) fun _ => rfl
      rw [← List.append_assoc]
      exact htried.sign
    · exact h.sign
  | login credentials htask => exact h.login credentials
  | reset => exact h.reset
  | _ => exact h.same rfl rfl (fun _ => rfl) fun _ => rfl

theorem counted_run (acts : List (ClientAct KeyId Credentials)) : (run acts).1.Counted (run acts).2 := by
  refine Lib.run_invariant step (P := fun c _ outs => c.Counted outs)
    (fun c _ outs act h => h.step (c.does_step act)) ?_ acts
  refine ⟨fun place h => ?_, fun place authz h => ?_, fun place _ => rfl, rfl⟩
  · cases h
  · simp [ClientProcess.new] at h

theorem coordinated_run (acts : List (ClientAct KeyId Credentials)) (hfew : acts.length < 2 ^ 64) :
    (run acts).1.Coordinated (run acts).2 ∧ (run acts).1.signer.generation ≤ acts.length := by
  induction acts using List.reverseRecOn with
  | nil => exact ⟨coordinated_new, le_rfl⟩
  | append_singleton acts act ih =>
    rw [List.length_append, List.length_singleton] at hfew ⊢
    obtain ⟨hacts, hle⟩ := ih (Nat.lt_of_succ_lt hfew)
    have hnext := (Nat.succ_le_succ hle).trans_lt hfew
    rw [run, Lib.run_concat]
    exact ⟨hacts.step (counted_run acts).placed hnext (does_step _ act),
      (generation_le hnext (does_step _ act)).trans (Nat.succ_le_succ hle)⟩

/-- **Concurrent requests share one login.** In every run of fewer than `2 ^ 64` actions: at most one task
authenticates at a time, the holder of the login lock; a task begins to only if the request that was refused
to it was signed with what is still the current authorization; the logins belong to ever greater generations,
so of the requests that were refused under one authorization one logs in; no task logs in twice, and none
tries more often than the authorization was set, and once more. -/
theorem logins_coordinated (acts : List (ClientAct KeyId Credentials)) (hfew : acts.length < 2 ^ 64) :
    (∀ id, (run acts).1.signer.login = some id ↔
      ∃ g, (run acts).1.attempts[id]? = some (.authenticating g)) ∧
    (∀ id refused current, .needed id refused current ∈ (run acts).2 → refused.authz? = current) ∧
    (loginsOf (run acts).2).Pairwise (fun l l' => l.2 < l'.2) ∧
    ((loginsOf (run acts).2).map Prod.fst).Nodup ∧
    ∀ id, tries id (run acts).2 ≤ (run acts).1.signer.generation + 1 := by
  obtain ⟨h, -⟩ := coordinated_run acts hfew
  refine ⟨h.lock, h.needed, h.increasing, h.nodup, fun id => ?_⟩
  cases hget : (run acts).1.attempts[id]? with
  | none => exact (h.fresh id (List.getElem?_eq_none_iff.1 hget)).1.le.trans (Nat.zero_le _)
  | some attempt => exact (h.within id attempt hget).le

/-- A task is refused and logs in; it sends two requests in its second turn, and another sends one. -/
def twoRequests : List (ClientAct ℕ ℕ) :=
  [.start, .claimed 0 none, .send 0, .respond 0 true, .lock 0, .authenticated 0 (some 7), .retry 0, .send 0,
    .send 0, .start, .send 1]

theorem logins_coordinated_twoRequests : loginsOf (run twoRequests).2 = [(0, 0)] ∧
    tries 0 (run twoRequests).2 = 2 ∧ 2 ≤ (run twoRequests).1.signer.generation + 1 :=
  ⟨rfl, rfl, (logins_coordinated twoRequests (by decide)).2.2.2.2 0⟩

theorem Counted.range (h : c.Counted outs) (place : ℕ) :
    ∃ n, seqsOf place outs = (List.range' 1 n).map (· % 2 ^ 64) := by
  cases hget : c.authzs[place]? with
  | none => exact ⟨0, h.unmade place (List.getElem?_eq_none_iff.1 hget)⟩
  | some authz => exact (h.made place authz hget).imp fun _ hn => hn.2

theorem header_of_sent (hdoes : c.Does c' more) {header : AuthzHeader KeyId}
    (h : .sent id header ∈ more) : header = c.sign.1 := by
  cases hdoes with
  | send htask hturn => rcases hturn with ⟨-, rfl⟩ | ⟨-, rfl⟩ <;> simp_all
  | _ => simp at h

/-- **No sequence number is used twice.** In every run each authorization signs under 1, 2, 3 and so on, up to
the width of the numbers; and a request is signed with the authorization of the last login before it is sent,
or with none if there was no login or the authorization was dropped since. -/
theorem signed_in_sequence (acts : List (ClientAct KeyId Credentials)) :
    (∀ place, ∃ n, seqsOf place (run acts).2 = (List.range' 1 n).map (· % 2 ^ 64)) ∧
    ∀ act id header, .sent id header ∈ ((run acts).1.step act).2 →
      header.authz? = (standing (run acts).2).2 := by
  have hcounted := counted_run acts
  refine ⟨hcounted.range, fun act id header hsent => ?_⟩
  rw [header_of_sent (does_step _ act) hsent, authz?_sign hcounted.placed, hcounted.stands]

/-- **The proxy takes the numbers that a client uses.** Requests that a client signed under one authorization,
at most `2 ^ 64` of them, arrive in any order, each at most once, but none after one that was signed 256 or
more later. Then the window accepts them all. -/
theorem numbers_accepted (acts : List (ClientAct KeyId Credentials)) (place : ℕ)
    (hfew : (seqsOf place (run acts).2).length ≤ 2 ^ 64) {arrived : List UInt64}
    (hsent : (arrived.map UInt64.toNat).Subperm (seqsOf place (run acts).2))
    (hsoon : ∀ pre seq post, arrived = pre ++ seq :: post → ∀ sooner ∈ pre, sooner.toNat < seq.toNat + 256) :
    (SeqWindow.default.calls arrived).2 = arrived := by
  have hnodup : arrived.Nodup := by
    obtain ⟨n, hn⟩ := (counted_run acts).range place
    rw [hn, List.length_map, List.length_range'] at hfew
    have hseqs : (seqsOf place (run acts).2).Nodup := by
      rw [hn]
      refine List.Nodup.map_on (fun x hx y hy heq => ?_) List.nodup_range'
      rw [List.mem_range'_1] at hx hy
      omega
    obtain ⟨seqs, hperm, hsublist⟩ := hsent
    exact List.Nodup.of_map _ (hperm.nodup (hsublist.nodup hseqs))
  clear hsent
  induction arrived using List.reverseRecOn with
  | nil => rfl
  | append_singleton arrived seq ih =>
    obtain ⟨hbefore, -, hnew⟩ := List.nodup_append.1 hnodup
    have haccepted : (SeqWindow.default.calls arrived).2 = arrived := by
      refine ih (fun pre n post hsplit => hsoon pre n (post ++ [seq]) ?_) hbefore
      rw [hsplit, List.append_assoc]
      rfl
    obtain ⟨htracks, -⟩ := SeqWindow.tracks_calls arrived
    rw [haccepted] at htracks
    have hspend : ((SeqWindow.default.calls arrived).1.spend seq).2 = true := by
      refine (htracks.spend seq).1.2 ⟨fun hmem => hnew seq hmem seq (.head _) rfl, ?_⟩
      rcases htracks.highest_spent with hmem | hzero
      · exact hsoon arrived seq [] rfl _ hmem
      · rw [hzero]
        exact Nat.lt_of_lt_of_le (by decide) (Nat.le_add_left _ _)
    rw [SeqWindow.calls, Lib.run_append, Lib.run_cons, Lib.run_nil]
    rw [SeqWindow.calls] at haccepted hspend
    rw [haccepted, SeqWindow.call, hspend]
    rfl

theorem numbers_accepted_swapped : (SeqWindow.default.calls [2, 1]).2 = [2, 1] := by
  have hseqs : seqsOf 0 (run twoRequests).2 = [1, 2, 3] := by decide
  refine numbers_accepted twoRequests 0 (by rw [hseqs]; decide) ?_ fun pre seq post hsplit sooner hmem => ?_
  · rw [hseqs]
    exact (List.Perm.swap 1 2 []).subperm.trans (List.sublist_append_left [1, 2] [3]).subperm
  · have hmem' : sooner ∈ ([2, 1] : List UInt64) := hsplit ▸ List.mem_append_left _ hmem
    have hle : sooner.toNat ≤ 2 := by fin_cases hmem' <;> decide
    omega

end ClientProcess

end Sush
