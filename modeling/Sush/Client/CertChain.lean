import Sush.Server.Certs

/-!
# Certificate chains at the client

`cert_chain` of `client/src/cli.rs`: what a client checks of the chain that a server returned for a key,
before it trusts the last certificate. Decoding the chain's text, the clock and the times in certificates
are not part of the repository: the chain is given as certificates, and `expired` says of each whether
the time of the check is outside its validity.
-/

namespace Sush

variable [World] [Crypto]

/-- Why a chain was refused. -/
inductive CertChainError where
  | emptyCertChain
  | invalidRootCert
  | untrustedRoot
  | certExpired (subject : Crypto.Name)
  | invalidLeafCert (keyId : KeyId)
  | key (error : KeyError)

namespace CertChain

/-- A result of the cryptography as one of the check. -/
def lift {α : Type} : Except KeyError α → Except CertChainError α
  | .ok a => .ok a
  | .error e => .error (.key e)

/-- Check the signature on `cert` with the key of `parent`. -/
def verify (parent cert : Certificate) : Except CertChainError Unit := do
  lift (Crypto.decodes cert)
  lift (Crypto.verifyCert cert parent)

/-- Check every certificate with the key of the one before it; the last one is left. -/
def verifyRest : Certificate → List Certificate → Except CertChainError Certificate
  | prev, [] => .ok prev
  | prev, cert :: rest => do
    verify prev cert
    verifyRest cert rest

/-- That no certificate is out of its validity. -/
def checkValidity (expired : Certificate → Bool) : List Certificate → Except CertChainError Unit
  | [] => .ok ()
  | cert :: rest =>
    if expired cert then .error (.certExpired (Crypto.subject cert)) else checkValidity expired rest

/-- `cert_chain`: check the chain for `keyId` against the trusted roots, of which none means any. -/
def certChain [DecidableEq Certificate] (expired : Certificate → Bool) (keyId : KeyId)
    (chain roots : List Certificate) : Except CertChainError Certificate :=
  match chain with
  | [] => .error .emptyCertChain
  | root :: rest =>
    if Crypto.subject root ≠ Crypto.issuer root then .error .invalidRootCert
    else if !roots.isEmpty && !roots.contains root then .error .untrustedRoot
    else do
      verify root root
      checkValidity expired (root :: rest)
      let leaf ← verifyRest root rest
      let leafId ← lift (Crypto.keyId leaf)
      if leafId ≠ keyId then .error (.invalidLeafCert keyId) else .ok leaf

end CertChain

end Sush
