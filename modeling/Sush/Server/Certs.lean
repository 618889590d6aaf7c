import Sush.Common.Jobs

/-!
# Trust anchors

`server/src/certs.rs`. Certificates, their keys and the verification of signatures are the class
`Crypto`; which certificates are trusted, and which certificate a job is verified against, is
modelled.
-/

namespace Sush

variable [World]

/-- Certificates and signature verification. -/
class Crypto where
  Certificate : Type
  /-- A distinguished name. -/
  Name : Type
  nameDecEq : DecidableEq Name
  /-- `KeyId::try_from`: the hash of the certificate's public key. -/
  keyId : Certificate → Except KeyError KeyId
  subject : Certificate → Name
  issuer : Certificate → Name
  /-- Whether the certificate's body and signature decode. -/
  decodes : Certificate → Except KeyError Unit
  /-- Whether the second certificate's key verifies the signature on the first. -/
  verifyCert : Certificate → Certificate → Except KeyError Unit
  /-- Whether the certificate's key verifies the signature on the job. -/
  verifyJob : SignedJob → Certificate → Except KeyError Unit

export Crypto (Certificate)

variable [Crypto]

instance : DecidableEq Crypto.Name := Crypto.nameDecEq

/-- Trust anchors by key, each with the key of its issuer unless it is a root. -/
structure Certificates where
  anchors : BTreeMap KeyId (Certificate × Option KeyId)

namespace Certificates

/-- The first trusted certificate, in key order, whose subject issued `cert`. -/
def findIssuer (trusted : BTreeMap KeyId (Certificate × Option KeyId)) (cert : Certificate) :
    Option (KeyId × Certificate) :=
  (trusted.toList.find? fun entry => Crypto.subject entry.2.1 = Crypto.issuer cert).map
    fun entry => (entry.1, entry.2.1)

/-- The key of the issuer that verifies `cert`, or `none` for a root that verifies itself. -/
def parentId (trusted : BTreeMap KeyId (Certificate × Option KeyId)) (keyId : KeyId)
    (cert : Certificate) : Except KeyError (Option KeyId) :=
  if Crypto.subject cert = Crypto.issuer cert then do
    Crypto.verifyCert cert cert
    return none
  else
    match findIssuer trusted cert with
    | none => .error (.unanchoredCert keyId)
    | some (parentId, parent) => do
      Crypto.verifyCert cert parent
      return some parentId

/-- Trust one more certificate. -/
def trust (trusted : BTreeMap KeyId (Certificate × Option KeyId)) (cert : Certificate) :
    Except KeyError (BTreeMap KeyId (Certificate × Option KeyId)) := do
  let keyId ← Crypto.keyId cert
  Crypto.decodes cert
  let parentId ← parentId trusted keyId cert
  return trusted.insert keyId (cert, parentId)

/-- `Certificates::new`: the anchors in root-to-leaf order. -/
def new (anchors : List Certificate) : Except KeyError Certificates := do
  let trusted ← anchors.foldlM trust ∅
  return { anchors := trusted }

/-- The loop of `chain`, for at most `fuel` rounds; it has no answer while it runs. -/
def chainLoop (certs : Certificates) :
    ℕ → List Certificate → Option KeyId → Option (Except KeyError (List Certificate))
  | _, chain, none => some (.ok chain.reverse)
  | 0, _, some _ => none
  | fuel + 1, chain, some keyId =>
    match certs.anchors[keyId]? with
    | none => some (.error (.missingCert keyId))
    | some (cert, parent) => certs.chainLoop fuel (chain ++ [cert]) parent

/-- `Certificates::chain`: the certificates of a key in root-to-leaf order. -/
def chain (certs : Certificates) (fuel : ℕ) (keyId : KeyId) :
    Option (Except KeyError (List Certificate)) :=
  certs.chainLoop fuel [] (some keyId)

/-- `Certificates::verify`: verify a job against the anchor whose key it claims. -/
def verify (certs : Certificates) (job : SignedJob) : Except KeyError VerifiedJob :=
  match certs.anchors[job.keyId]? with
  | none => .error (.missingCert job.keyId)
  | some (cert, _) => do
    Crypto.verifyJob job cert
    let keyId ← Crypto.keyId cert
    return { signed := job, verifiedBy := keyId }

theorem signed_of_verify {certs : Certificates} {job : SignedJob} {verified : VerifiedJob}
    (h : certs.verify job = .ok verified) : verified.signed = job := by
  unfold verify at h
  cases ha : certs.anchors[job.keyId]? with
  | none => rw [ha] at h; cases h
  | some entry =>
    rw [ha] at h
    obtain ⟨cert, parent⟩ := entry
    simp only at h
    cases hv : Crypto.verifyJob job cert with
    | error e => rw [hv] at h; cases h
    | ok _ =>
      rw [hv] at h
      cases hk : Crypto.keyId cert with
      | error e => rw [hk] at h; cases h
      | ok k => rw [hk] at h; cases h; rfl

end Certificates

end Sush
