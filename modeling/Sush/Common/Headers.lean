import Sush.Common.Authn
import Sush.Common.Newtypes
import Sush.Common.TargetText

/-!
# Authentication headers

`common/src/authn.rs`: the challenge of a server and the credentials of a client as the text of a
header. A header is a scheme and parameters `name=value` separated by commas. `AuthnParams::from_str`
makes a map of them, without regard to their order, to the case of names and to whitespace around names
and values; each kind of header then consumes the parameters it knows and refuses any that is left.

The structures here are those of the source, whose nonces and key identifiers are `Newtype`s. `Challenge`
is the one that wraps its nonce by hand: the nonce of a parsed challenge is any code phrase at all.
-/

namespace Sush.Header

/-- The name of the authentication scheme. -/
def authnScheme : String := "Sush"

/-! ## Parameters -/

def toAsciiLowercase (s : List Char) : List Char := s.map Char.toLower

def eqIgnoreAsciiCase (s t : List Char) : Bool := toAsciiLowercase s = toAsciiLowercase t

/-- The parameters of a header that were not consumed yet, by name. -/
abbrev AuthnParams : Type := List (String × String)

namespace AuthnParams

/-- Whether a parameter is present, without consuming it. -/
def has (params : AuthnParams) (param : String) : Bool := params.any (·.1 = param)

/-- Consume one parameter. -/
def get (params : AuthnParams) (param : String) : Except AuthnError (String × AuthnParams) :=
  match params.find? (·.1 = param) with
  | some (_, value) => .ok (value, params.filter (·.1 ≠ param))
  | none => .error (.missingParam param)

/-- Consume and parse one parameter. -/
def parse {α : Type} (fromStr : String → Option α) (params : AuthnParams) (param : String) :
    Except AuthnError (α × AuthnParams) :=
  match params.get param with
  | .error e => .error e
  | .ok (value, params) =>
    match fromStr value with
    | some x => .ok (x, params)
    | none => .error .invalidParam

/-- Ensure that all parameters have been consumed. -/
def finished (params : AuthnParams) : Except AuthnError Unit :=
  if params.isEmpty then .ok () else .error .tooManyParams

/-- One turn of the loop over the parameters. -/
def insertParam (params : AuthnParams) (param : List Char) : Except AuthnError AuthnParams :=
  match Lib.splitOnce '=' param with
  | none => .error .invalidParam
  | some (name, value) =>
    let name := String.ofList (toAsciiLowercase (trim name))
    if params.has name then .error (.duplicateParam name)
    else .ok (params ++ [(name, String.ofList (trim value))])

/-- Parse a header value of the form `Scheme name=value, ...`. -/
def fromStr (s : String) : Except AuthnError AuthnParams :=
  match Lib.splitOnce ' ' s.toList with
  | none => .error .missingScheme
  | some (scheme, rest) =>
    if !eqIgnoreAsciiCase (trim scheme) authnScheme.toList then
      .error (.invalidScheme (String.ofList scheme))
    else (rest.splitOn ',').foldlM insertParam []

end AuthnParams

/-! ## Numbers -/

/-- The digits of a number, which may have a plus sign before them. -/
def stripPlus : List Char → List Char
  | '+' :: digits => digits
  | digits => digits

/-- An unsigned integer of `bits` bits in decimal, as `FromStr` reads one. -/
def parseUnsigned (bits : ℕ) (s : String) : Option ℕ :=
  let digits := stripPlus s.toList
  let n := Nat.ofDigitChars 10 digits 0
  if isDigits digits && n < 2 ^ bits then some n else none

def parseU8 (s : String) : Option UInt8 := (parseUnsigned 8 s).map UInt8.ofNat

def parseU32 (s : String) : Option UInt32 := (parseUnsigned 32 s).map UInt32.ofNat

def parseU64 (s : String) : Option UInt64 := (parseUnsigned 64 s).map UInt64.ofNat

/-! ## Headers -/

/-- `EccR` and `EccS`: a half of a signature is a code phrase of full length. -/
def displayScalar (r : BitVec 256) : String := (⟨r.toFin⟩ : Newtype .full).display

def parseScalar (s : String) : Option (BitVec 256) :=
  (Newtype.fromStr s : Option (Newtype .full)).map fun x => ⟨x.phrase⟩

/-- Authentication challenge. -/
structure Challenge where
  nonce : Newtype .truncated
  deriving DecidableEq

namespace Challenge

def display (challenge : Challenge) : String := authnScheme ++ " nonce=" ++ challenge.nonce.display

/-- Parse a server challenge. What is parsed is a code phrase, which is then wrapped as a nonce. -/
def fromStr (s : String) : Except AuthnError Challenge := do
  let params ← AuthnParams.fromStr s
  let (nonce, params) ← params.parse (Codephrase.fromStr wordlist) "nonce"
  params.finished
  return ⟨⟨nonce⟩⟩

end Challenge

/-- Response to an authentication challenge. -/
structure ChallengeResponse where
  nonce : Newtype .truncated
  cnonce : Newtype .truncated
  epk : Newtype .full
  deriving DecidableEq

/-- A response to a challenge, with a client nonce from 256 random bits. -/
def ChallengeResponse.new (challenge : Challenge) (epk : Newtype .full) (entropy : Codephrase) :
    ChallengeResponse :=
  ⟨challenge.nonce, .random entropy, epk⟩

/-- Authentication credentials presented to the server. -/
structure Credentials where
  nonce : Newtype .truncated
  cnonce : Newtype .truncated
  keyId : Newtype .truncated
  epk : Newtype .full
  signature : EncodedSignature
  deriving DecidableEq

namespace Credentials

/-- The credentials of a signed response. -/
def new (response : ChallengeResponse) (keyId : Newtype .truncated) (signature : EncodedSignature) :
    Credentials :=
  ⟨response.nonce, response.cnonce, keyId, response.epk, signature⟩

def display (c : Credentials) : String :=
  authnScheme ++ " nonce=" ++ c.nonce.display ++ ", cnonce=" ++ c.cnonce.display ++
    ", key-id=" ++ c.keyId.display ++ ", epk=" ++ c.epk.display ++
    ", r=" ++ displayScalar c.signature.r ++ ", s=" ++ displayScalar c.signature.s ++
    ", flags=" ++ toString c.signature.flags.toNat ++ ", counter=" ++ toString c.signature.counter.toNat

def fromStr (s : String) : Except AuthnError Credentials := do
  let params ← AuthnParams.fromStr s
  let (nonce, params) ← params.parse Newtype.fromStr "nonce"
  let (cnonce, params) ← params.parse Newtype.fromStr "cnonce"
  let (keyId, params) ← params.parse Newtype.fromStr "key-id"
  let (epk, params) ← params.parse Newtype.fromStr "epk"
  let (r, params) ← params.parse parseScalar "r"
  let (s, params) ← params.parse parseScalar "s"
  let (flags, params) ← params.parse parseU8 "flags"
  let (counter, params) ← params.parse parseU32 "counter"
  params.finished
  return ⟨nonce, cnonce, keyId, epk, ⟨r, s, flags, counter⟩⟩

end Credentials

/-- An ephemeral signature binding one request to a login. -/
structure RequestSignature where
  nonce : Newtype .truncated
  seq : UInt64
  signature : EncodedSignature
  deriving DecidableEq

/-- Credentials for one request. -/
structure BoundCredentials where
  keyId : Newtype .truncated
  signature : Option RequestSignature
  deriving DecidableEq

namespace BoundCredentials

/-- Claim a key as the requester's identity, without proof. -/
def claim (keyId : Newtype .truncated) : BoundCredentials := ⟨keyId, none⟩

def display (b : BoundCredentials) : String :=
  authnScheme ++ " key-id=" ++ b.keyId.display ++
    match b.signature with
    | some proof =>
      ", nonce=" ++ proof.nonce.display ++ ", seq=" ++ toString proof.seq.toNat ++
        ", r=" ++ displayScalar proof.signature.r ++ ", s=" ++ displayScalar proof.signature.s
    | none => ""

/-- The signature among the parameters. The trailer of a security key is not transmitted. -/
def parseSignature (params : AuthnParams) : Except AuthnError (RequestSignature × AuthnParams) := do
  let (nonce, params) ← params.parse Newtype.fromStr "nonce"
  let (seq, params) ← params.parse parseU64 "seq"
  let (r, params) ← params.parse parseScalar "r"
  let (s, params) ← params.parse parseScalar "s"
  return (⟨nonce, seq, ⟨r, s, 0, 0⟩⟩, params)

def fromStr (s : String) : Except AuthnError BoundCredentials := do
  let params ← AuthnParams.fromStr s
  let (keyId, params) ← params.parse Newtype.fromStr "key-id"
  -- one parameter of a signature asks for all of them
  if ["nonce", "seq", "r", "s"].any params.has then
    let (proof, params) ← parseSignature params
    params.finished
    return ⟨keyId, some proof⟩
  else
    params.finished
    return ⟨keyId, none⟩

end BoundCredentials

/-- An `Authorization` header. -/
inductive Authn where
  | initial (credentials : Credentials)
  | bound (credentials : BoundCredentials)
  deriving DecidableEq

namespace Authn

def fromStr (s : String) : Except AuthnError Authn := do
  let params ← AuthnParams.fromStr s
  if params.has "cnonce" then
    return .initial (← Credentials.fromStr s)
  else
    return .bound (← BoundCredentials.fromStr s)

/-- The key ID of the requester. -/
def keyId : Authn → Newtype .truncated
  | initial credentials => credentials.keyId
  | bound credentials => credentials.keyId

end Authn

end Sush.Header
