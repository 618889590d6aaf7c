import Sush.Server.Certs

/-!
# Identifiers as terms

`CollisionFree` asks that identifiers behave as free terms over what was hashed. This module builds
such identifiers, so that the assumption is known to be satisfiable and runs of the state machine can
be evaluated: every identifier is a number, a hash is an injective code of its preimage, and the code
of a job is larger than the identifier it contains. A signature verifies when its flags are set.
-/

namespace Sush.Terms

/-- Every identifier is a number. -/
abbrev world : World where
  BaseboardId := ℕ
  KeyId := ℕ
  SessionId := ℕ
  JobId := ℕ
  Network := ℕ
  Version := ℕ
  Rank := ℕ
  baseboardIdOrder := inferInstance
  keyIdOrder := inferInstance
  sessionIdOrder := inferInstance
  jobIdOrder := inferInstance
  networkDecEq := inferInstance
  versionOrder := inferInstance
  versionDecLE := inferInstance
  rankOrder := inferInstance
  rank := id

attribute [local instance] world

/-- The code of a list of numbers. -/
def listCode (l : List ℕ) : ℕ := Encodable.encode l

theorem listCode_injective : Function.Injective listCode := Encodable.encode_injective

def modeCode : JobMode → ℕ
  | .batch => 0
  | .interactive => 1
  | .streamInput => 2
  | .streamOutput => 3

theorem modeCode_injective : Function.Injective modeCode := by
  intro a b h
  cases a <;> cases b <;> first | rfl | cases h

def sledCode : SledId → ℕ
  | .baseboard b => 2 * b
  | .cubby c => 2 * c.val + 1

theorem sledCode_injective : Function.Injective sledCode := by
  intro a b h
  cases a with
  | baseboard a =>
    cases b with
    | baseboard b => exact congrArg SledId.baseboard (Nat.eq_of_mul_eq_mul_left two_pos h)
    | cubby b => exact absurd h (Nat.two_mul_ne_two_mul_add_one)
  | cubby a =>
    cases b with
    | baseboard b => exact absurd h.symm (Nat.two_mul_ne_two_mul_add_one)
    | cubby b =>
      have hval := Nat.eq_of_mul_eq_mul_left two_pos (Nat.succ_injective h)
      exact congrArg SledId.cubby (Fin.ext hval)

def targetCode : Target → ℕ
  | .all => 0
  | .sleds ids => listCode (ids.map sledCode) + 1

theorem targetCode_injective : Function.Injective targetCode := by
  intro a b h
  cases a with
  | all => cases b with
    | all => rfl
    | sleds b => cases h
  | sleds a => cases b with
    | all => cases h
    | sleds b =>
      have := listCode_injective (Nat.succ_injective h)
      rw [List.map_injective_iff.2 sledCode_injective this]

def commandCode (command : String) : ℕ := listCode (command.toList.map Char.toNat)

theorem commandCode_injective : Function.Injective commandCode := by
  intro a b h
  have hchars := List.map_injective_iff.2 (fun _ _ => Char.toNat_inj.1) (listCode_injective h)
  exact String.toList_injective hchars

/-- The code of a request, at least the identifier it carries. -/
def requestCode (r : JobStartRequest) : ℕ :=
  Nat.pair r.jobId (Nat.pair r.sessionId
    (Nat.pair (commandCode r.command) (Nat.pair (modeCode r.mode) (targetCode r.target))))

theorem requestCode_injective : Function.Injective requestCode := by
  rintro ⟨j, s, c, m, t⟩ ⟨j', s', c', m', t'⟩ h
  simp only [requestCode, Nat.pair_eq_pair] at h
  obtain ⟨rfl, rfl, hc, hm, ht⟩ := h
  rw [commandCode_injective hc, modeCode_injective hm, targetCode_injective ht]

/-- The three kinds of hash are told apart by their remainder. -/
abbrev hashing : Hashing where
  sessionId p := Nat.pair p.baseboard (Nat.pair p.sushNonce (Nat.pair p.signerNonce p.seq))
  first s := 3 * s
  after r := 3 * requestCode r + 1
  burned j := 3 * j + 2

attribute [local instance] hashing

theorem lt_of_edge {p q : JobId} (h : jobChain.Edge p q) : @LT.lt ℕ _ p q := by
  have hafter : ∀ n m : ℕ, n ≤ m → n < 3 * m + 1 := fun n m h => by omega
  have hburned : ∀ n : ℕ, n < 3 * n + 2 := fun n => by omega
  cases h with
  | after r => exact hafter r.jobId (requestCode r) (Nat.left_le_pair _ _)
  | burned _ => exact hburned p

theorem collisionFree : CollisionFree where
  sessionId_injective := by
    rintro ⟨b, n, m, q⟩ ⟨b', n', m', q'⟩ h
    obtain ⟨hb, h⟩ := Nat.pair_eq_pair.1 h
    obtain ⟨hn, h⟩ := Nat.pair_eq_pair.1 h
    obtain ⟨hm, hq⟩ := Nat.pair_eq_pair.1 h
    rw [SessionPreimage.mk.injEq]
    exact ⟨hb, Fin.ext hn, Fin.ext hm, Fin.ext hq⟩
  first_injective _ _ h := Nat.eq_of_mul_eq_mul_left three_pos h
  first_ne_after s r := (by omega : ∀ n m : ℕ, 3 * n ≠ 3 * m + 1) s (requestCode r)
  first_ne_burned s j := (by omega : ∀ n m : ℕ, 3 * n ≠ 3 * m + 2) s j
  chain_free := {
    after_injective := fun _ _ h =>
      requestCode_injective (Nat.eq_of_mul_eq_mul_left three_pos (Nat.succ_injective h))
    burned_injective := fun _ _ h => Nat.eq_of_mul_eq_mul_left three_pos (Nat.add_right_cancel h)
    after_ne_burned := fun r j =>
      (by omega : ∀ n m : ℕ, 3 * n + 1 ≠ 3 * m + 2) (requestCode r) j
    wf := Subrelation.wf lt_of_edge Nat.lt_wfRel.wf }

/-- Every certificate is its own root, and the flags of a signature say whether it verifies. -/
abbrev crypto : Crypto where
  Certificate := ℕ
  Name := ℕ
  nameDecEq := inferInstance
  keyId := .ok
  subject := id
  issuer := id
  decodes _ := .ok ()
  verifyCert _ _ := .ok ()
  verifyJob job _ := if job.signature.flags = 1 then .ok () else .error (.crypto "bad signature")

end Sush.Terms
