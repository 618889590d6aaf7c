import Sush.Common.Signing

/-!
# Logins and bound requests

`common/src/authn.rs`. To log in, a client signs the nonce of a challenge, a nonce of its own and the
public half of an ephemeral key (`ChallengeResponse`). Every later request is signed by the ephemeral
key, over the request line and a sequence number (`BoundRequest`), and a `SeqWindow` remembers the
numbers that were spent. The window holds the last 256 of them and refuses what is older, so what it
accepts is exactly what was not spent and is not older (`SeqWindow.Tracks.spend`).

Parsing the `Authorization` header, and decoding and checking Ed25519 keys and signatures, are the
class `Authenticator`.
-/

namespace Sush

open Lib (utf8)

/-! ## Sequence windows -/

/-- How many sequence numbers a window tracks. -/
def seqWindow : UInt64 := 256

/-- The sequence numbers an identity has spent: bit `age` of `seen` marks `highest - age`. -/
structure SeqWindow where
  highest : UInt64
  seen : BitVec 256
  deriving DecidableEq

namespace SeqWindow

def default : SeqWindow := ⟨0, 0⟩

/-- Spend `seq`, unless it was already spent or predates the window. -/
def spend (w : SeqWindow) (seq : UInt64) : SeqWindow × Bool :=
  if seq > w.highest then
    let shift := seq - w.highest
    let seen := if shift < seqWindow then w.seen <<< shift.toNat else 0
    (⟨seq, seen ||| 1⟩, true)
  else
    let age := w.highest - seq
    if age ≥ seqWindow || w.seen.getLsbD age.toNat then (w, false)
    else (⟨w.highest, w.seen ||| (1 : BitVec 256) <<< age.toNat⟩, true)

theorem spend_refused {w : SeqWindow} {seq : UInt64} (h : (w.spend seq).2 = false) :
    (w.spend seq).1 = w := by
  unfold spend at h ⊢
  split at h
  · cases h
  · rename_i hle
    rw [if_neg hle]
    dsimp only at h ⊢
    split at h
    · rename_i hold
      rw [if_pos hold]
    · cases h

/-- The window stands for the set `spent` of numbers. -/
structure Tracks (w : SeqWindow) (spent : Set UInt64) : Prop where
  le_highest : ∀ n ∈ spent, n ≤ w.highest
  highest_spent : w.highest ∈ spent ∨ w.highest = 0
  /-- In the window, the marks are those of the spent numbers. -/
  seen_iff : ∀ n ≤ w.highest, w.highest.toNat - n.toNat < 256 →
    (w.seen.getLsbD (w.highest.toNat - n.toNat) ↔ n ∈ spent)

theorem tracks_default : Tracks default ∅ where
  le_highest _ h := h.elim
  highest_spent := .inr rfl
  seen_iff _ _ _ := by simp [default]

namespace Tracks

variable {w : SeqWindow} {spent : Set UInt64}

theorem spend_above (h : Tracks w spent) {seq : UInt64} (habove : w.highest < seq) :
    seq ∉ spent ∧ (w.spend seq).2 = true ∧ Tracks (w.spend seq).1 (insert seq spent) := by
  have hlt := UInt64.lt_iff_toNat_lt.1 habove
  have hshift : (seq - w.highest).toNat = seq.toNat - w.highest.toNat :=
    UInt64.toNat_sub_of_le _ _ (UInt64.le_of_lt habove)
  have hnew : seq ∉ spent := fun hmem => UInt64.not_le.2 habove (h.le_highest seq hmem)
  rw [spend, if_pos habove]
  refine ⟨hnew, rfl, ?_, .inl (Set.mem_insert ..), ?_⟩
  · rintro n (rfl | hn)
    · exact UInt64.le_refl _
    · exact UInt64.le_trans (h.le_highest n hn) (UInt64.le_of_lt habove)
  · intro n hn hwindow
    dsimp only at hn hwindow ⊢
    have hle := UInt64.le_iff_toNat_le.1 hn
    rw [BitVec.getLsbD_or, Set.mem_insert_iff]
    by_cases heq : n = seq
    · subst heq
      simp
    have hne : n.toNat ≠ seq.toNat := fun hnat => heq (UInt64.toNat_inj.1 hnat)
    have hone : (1 : BitVec 256).getLsbD (seq.toNat - n.toNat) = false := by
      simp only [BitVec.ofNat_eq_ofNat, BitVec.getLsbD_one, Bool.and_eq_false_iff]
      exact .inr (decide_eq_false (by omega))
    rw [hone, Bool.or_false, or_iff_right heq]
    -- what is between the old and the new top was never spent; below it the marks were shifted
    have hold : n.toNat ≤ w.highest.toNat ∨ n ∉ spent := by
      by_cases hmem : n ∈ spent
      · exact .inl (UInt64.le_iff_toNat_le.1 (h.le_highest n hmem))
      · exact .inr hmem
    by_cases hwide : seq - w.highest < seqWindow
    · rw [if_pos hwide, BitVec.getLsbD_shiftLeft, hshift]
      by_cases hbelow : n.toNat ≤ w.highest.toNat
      · have hage : seq.toNat - n.toNat - (seq.toNat - w.highest.toNat) =
            w.highest.toNat - n.toNat := by omega
        rw [hage, ← h.seen_iff n (UInt64.le_iff_toNat_le.2 hbelow) (by omega)]
        simp only [Bool.and_eq_true, decide_eq_true_eq, Bool.not_eq_true', decide_eq_false_iff_not]
        exact ⟨fun hbit => hbit.2, fun hbit => ⟨⟨hwindow, by omega⟩, hbit⟩⟩
      · have hnot := hold.resolve_left hbelow
        simp only [hnot, iff_false, Bool.and_eq_true, decide_eq_true_eq, Bool.not_eq_true',
          decide_eq_false_iff_not]
        omega
    · rw [if_neg hwide]
      have hfar : 256 ≤ seq.toNat - w.highest.toNat := by
        rw [← hshift]
        exact UInt64.le_iff_toNat_le.1 (UInt64.not_lt.1 hwide)
      have hnot : n ∉ spent := hold.resolve_left (by omega)
      simp [hnot]

theorem spend_within (h : Tracks w spent) {seq : UInt64} (hle : seq ≤ w.highest) :
    ((w.spend seq).2 = true ↔ seq ∉ spent ∧ w.highest.toNat < seq.toNat + 256) ∧
      Tracks (w.spend seq).1 (if (w.spend seq).2 then insert seq spent else spent) := by
  have hnat := UInt64.le_iff_toNat_le.1 hle
  have hage : (w.highest - seq).toNat = w.highest.toNat - seq.toNat :=
    UInt64.toNat_sub_of_le _ _ hle
  have hold : w.highest - seq ≥ seqWindow ↔ 256 ≤ w.highest.toNat - seq.toNat := by
    rw [← hage]
    exact UInt64.le_iff_toNat_le
  rw [spend, if_neg (UInt64.not_lt.2 hle)]
  by_cases holder : 256 ≤ w.highest.toNat - seq.toNat
  · have hcond : (decide (w.highest - seq ≥ seqWindow) ||
        w.seen.getLsbD (w.highest - seq).toNat) = true := by simp [hold.2 holder]
    simp only [hcond, if_true, Bool.false_eq_true, if_false, false_iff, not_and]
    exact ⟨fun _ => by omega, h⟩
  have hwindow : w.highest.toNat - seq.toNat < 256 := Nat.lt_of_not_le holder
  have hmark := h.seen_iff seq hle hwindow
  by_cases hspent : seq ∈ spent
  · have hcond : (decide (w.highest - seq ≥ seqWindow) ||
        w.seen.getLsbD (w.highest - seq).toNat) = true := by simp [hage, hmark.2 hspent]
    simp only [hcond, if_true, Bool.false_eq_true, if_false, false_iff, not_and]
    exact ⟨fun hnot => absurd hspent hnot, h⟩
  · have hbit : w.seen.getLsbD (w.highest.toNat - seq.toNat) = false := by
      rw [← Bool.not_eq_true, hmark]
      exact hspent
    have hcond : (decide (w.highest - seq ≥ seqWindow) ||
        w.seen.getLsbD (w.highest - seq).toNat) = false := by
      rw [hage, hbit, Bool.or_false]
      exact decide_eq_false (fun hge => holder (hold.1 hge))
    simp only [hcond, Bool.false_eq_true, if_false, if_true, true_iff]
    refine ⟨⟨hspent, by omega⟩, ?_, ?_, ?_⟩
    · rintro n (rfl | hn)
      · exact hle
      · exact h.le_highest n hn
    · exact h.highest_spent.imp_left (Set.mem_insert_of_mem _)
    · intro n hn hwin
      dsimp only at hn hwin ⊢
      have hnle := UInt64.le_iff_toNat_le.1 hn
      have hmarks := h.seen_iff n hn hwin
      rw [BitVec.getLsbD_or, Set.mem_insert_iff, Bool.or_eq_true, hmarks, or_comm (a := n = seq)]
      refine or_congr_right ?_
      rw [hage]
      simp only [BitVec.ofNat_eq_ofNat, BitVec.getLsbD_shiftLeft, BitVec.getLsbD_one,
        Bool.and_eq_true, decide_eq_true_eq, Bool.not_eq_true', decide_eq_false_iff_not]
      rw [← UInt64.toNat_inj]
      omega

/-- **The window is the set of spent numbers**, cut off below: a number is accepted exactly when it was
not spent and is not older than the window, and the window then stands for the set with the number. -/
theorem spend (h : Tracks w spent) (seq : UInt64) :
    ((w.spend seq).2 = true ↔ seq ∉ spent ∧ w.highest.toNat < seq.toNat + 256) ∧
      Tracks (w.spend seq).1 (if (w.spend seq).2 then insert seq spent else spent) := by
  by_cases habove : w.highest < seq
  · obtain ⟨hnew, haccept, htracks⟩ := h.spend_above habove
    have hlt := UInt64.lt_iff_toNat_lt.1 habove
    rw [haccept, if_pos rfl]
    exact ⟨⟨fun _ => ⟨hnew, by omega⟩, fun _ => rfl⟩, htracks⟩
  · exact h.spend_within (UInt64.not_lt.1 habove)

end Tracks

end SeqWindow

/-! ## Login -/

/-- The server half of an ephemeral request-signing key. -/
abbrev RequestVerifier : Type := Codephrase

/-- How long a nonce is good for, in nanoseconds. -/
def nonceTtl : ℕ := 60 * 10 ^ 9

/-- How long an identity may sit idle before it expires. -/
def identityIdleTtl : ℕ := 600 * 10 ^ 9

/-- The absolute lifetime of an identity. -/
def identityMaxTtl : ℕ := 8 * 3600 * 10 ^ 9

/-- What went wrong during authentication. -/
inductive AuthnError where
  | codephrase
  | duplicateParam (name : String)
  | invalidKey
  | invalidSignature
  | invalidParam
  | invalidScheme (scheme : String)
  | missingParam (name : String)
  | missingScheme
  | tooManyParams
  deriving DecidableEq

/-- A response to a challenge: the server's nonce, a client nonce and the ephemeral key. -/
structure ChallengeResponse where
  nonce : Nonce
  cnonce : Nonce
  epk : RequestVerifier
  deriving DecidableEq

namespace ChallengeResponse

def toBeSignedFields (response : ChallengeResponse) : ToBeSignedFields :=
  ToBeSignedFields.new "sush_common::authn::ChallengeResponse"
    |>.field "nonce" (toBeBytes response.nonce)
    |>.field "cnonce" (toBeBytes response.cnonce)
    |>.field "epk" (toBeBytes response.epk)

/-- What the digest of a response is of. -/
def preimage (response : ChallengeResponse) : List UInt8 := response.toBeSignedFields.hasher.bytes

def toBeSigned [Digest] (response : ChallengeResponse) : List UInt8 :=
  response.toBeSignedFields.finish

/-- The fields that `preimage` frames. -/
def fields (response : ChallengeResponse) : List (List UInt8) :=
  [utf8 "sush_common::authn::ChallengeResponse", utf8 "nonce", toBeBytes response.nonce,
    utf8 "cnonce", toBeBytes response.cnonce, utf8 "epk", toBeBytes response.epk]

theorem preimage_eq_frames (response : ChallengeResponse) :
    response.preimage = Lib.frames response.fields := by
  simp [preimage, toBeSignedFields, fields]

end ChallengeResponse

/-! ## Requests -/

/-- One request, as material to be signed. -/
structure BoundRequest where
  method : String
  target : String
  seq : UInt64
  deriving DecidableEq

variable [World]

namespace BoundRequest

omit [World] in
/-- A request line with its sequence number; the method is put in upper case. -/
def new (method target : String) (seq : UInt64) : BoundRequest := ⟨method.toUpper, target, seq⟩

variable [Phrases]

def toBeSignedFields (request : BoundRequest) (keyId : KeyId) (nonce : Nonce) : ToBeSignedFields :=
  ToBeSignedFields.new "sush_common::authn::BoundRequest"
    |>.field "key_id" (keyIdBytes keyId)
    |>.field "nonce" (toBeBytes nonce)
    |>.field "method" (utf8 request.method)
    |>.field "target" (utf8 request.target)
    |>.field "seq" (Lib.bigEndian 8 request.seq.toNat)

/-- What the digest of a request is of. -/
def preimage (request : BoundRequest) (keyId : KeyId) (nonce : Nonce) : List UInt8 :=
  (request.toBeSignedFields keyId nonce).hasher.bytes

def toBeSigned [Digest] (request : BoundRequest) (keyId : KeyId) (nonce : Nonce) : List UInt8 :=
  (request.toBeSignedFields keyId nonce).finish

/-- The fields that `preimage` frames. -/
def fields (request : BoundRequest) (keyId : KeyId) (nonce : Nonce) : List (List UInt8) :=
  [utf8 "sush_common::authn::BoundRequest", utf8 "key_id", keyIdBytes keyId, utf8 "nonce",
    toBeBytes nonce, utf8 "method", utf8 request.method, utf8 "target", utf8 request.target,
    utf8 "seq", Lib.bigEndian 8 request.seq.toNat]

theorem preimage_eq_frames (request : BoundRequest) (keyId : KeyId) (nonce : Nonce) :
    request.preimage keyId nonce = Lib.frames (request.fields keyId nonce) := by
  simp [preimage, toBeSignedFields, fields]

end BoundRequest

/-- An ephemeral signature binding one request to a login. -/
structure RequestSignature where
  nonce : Nonce
  seq : UInt64
  signature : EncodedSignature
  deriving DecidableEq

/-- Credentials for one request: the claimed key, and the proof of a login. -/
structure BoundCredentials where
  keyId : KeyId
  signature : Option RequestSignature
  deriving DecidableEq

/-- Credentials presented at login. -/
structure Credentials where
  nonce : Nonce
  cnonce : Nonce
  keyId : KeyId
  epk : RequestVerifier
  signature : EncodedSignature
  deriving DecidableEq

/-- The signed response inside credentials. -/
def Credentials.intoChallengeResponse (c : Credentials) : Signed ChallengeResponse where
  payload := ⟨c.nonce, c.cnonce, c.epk⟩
  keyId := c.keyId
  signature := c.signature

/-- An `Authorization` header. -/
inductive Authn where
  | initial (credentials : Credentials)
  | bound (credentials : BoundCredentials)
  deriving DecidableEq

/-- What the proxy takes from elsewhere: the parser of headers, SSH public keys and Ed25519. -/
class Authenticator where
  /-- `Authn::from_str`. -/
  parseAuthn : String → Except AuthnError Authn
  /-- An SSH public key. -/
  PublicKey : Type
  /-- `SshPublicKey::key_id`. -/
  publicKeyId : PublicKey → Except KeyError KeyId
  /-- Decode a signature for a public key and check it over some bytes. -/
  verifySsh : PublicKey → List UInt8 → EncodedSignature → Except KeyError Unit
  /-- A decoded Ed25519 key. -/
  VerifyingKey : Type
  /-- `VerifyingKey::from_bytes`. -/
  verifyingKey : RequestVerifier → Option VerifyingKey
  /-- Whether a key is of small order. -/
  isWeak : VerifyingKey → Bool
  /-- `VerifyingKey::verify_strict`, with the two halves of the signature. -/
  verifyStrict : VerifyingKey → List UInt8 → BitVec 256 → BitVec 256 → Bool

export Authenticator (parseAuthn PublicKey publicKeyId verifySsh VerifyingKey)

variable [Authenticator] [Digest]

/-- Verify a signed response with an SSH public key. -/
def Signed.verifyWithSshPublicKey (response : Signed ChallengeResponse) (key : PublicKey) :
    Except KeyError (Verified ChallengeResponse) := do
  verifySsh key response.payload.toBeSigned response.signature
  let verifiedBy ← publicKeyId key
  return ⟨response, verifiedBy⟩

/-- `RequestVerifier::verify`: that `proof` signs `request` for `keyId`. -/
def RequestVerifier.verify [Phrases] (verifier : RequestVerifier) (request : BoundRequest)
    (keyId : KeyId) (proof : RequestSignature) : Except AuthnError Unit :=
  if request.seq ≠ proof.seq then .error .invalidSignature
  else
    match Authenticator.verifyingKey verifier with
    | none => .error .invalidKey
    | some key =>
      -- a key of small order verifies anything
      if Authenticator.isWeak key then .error .invalidKey
      else if Authenticator.verifyStrict key (request.toBeSigned keyId proof.nonce)
          proof.signature.r proof.signature.s then .ok ()
      else .error .invalidSignature

/-- An authenticated identity. -/
structure Identity where
  keyId : KeyId
  publicKey : PublicKey
  nonce : Nonce
  timeAuthenticated : DateTime

omit [Digest] in
/-- The identity that a verified response proves. -/
def Identity.new (publicKey : PublicKey) (response : Verified ChallengeResponse)
    (timeAuthenticated : DateTime) : Except KeyError Identity := do
  let keyId ← publicKeyId publicKey
  if response.verifiedBy ≠ keyId then .error (.crypto "Invalid key ID")
  else return ⟨keyId, publicKey, response.payload.nonce, timeAuthenticated⟩

end Sush
