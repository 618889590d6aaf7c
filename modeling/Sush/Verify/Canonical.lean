import Sush.Verify.Headers

/-!
# Canonical code phrases

`Newtype`s bound their phrases in the conversions that make them. `Way` lists the ways to get one: each
parser and constructor of the type itself, and each header that carries one. All of them give canonical
values but one, since all go through `try_from` or `canonical` (`canonical_iff_narrow`): the parser of
challenges reads a code phrase of any width and wraps it, so the nonce of a challenge is canonical
exactly if the text of the nonce is (`Way.Narrow`).
-/

namespace Sush

open Header (AuthnParams)

/-- The phrases that a header carries. -/
inductive Carried where
  | credentialsNonce
  | credentialsCnonce
  | credentialsKeyId
  | boundKeyId
  | boundNonce
  | challengeNonce
  deriving DecidableEq

/-- A way to get a newtype. -/
inductive Way : CodephraseLength → Type where
  | fromStr {length : CodephraseLength} (s : String) : Way length
  | deserialize {length : CodephraseLength} (format : Format) (value : Value) : Way length
  | fromBeBytes {length : CodephraseLength} (bytes : Vector UInt8 32) : Way length
  | fromHash {length : CodephraseLength} (hash : Vector UInt8 32) : Way length
  | random {length : CodephraseLength} (entropy : Codephrase) : Way length
  | header (carried : Carried) (s : String) : Way .truncated
  | zero : Way .short
  | fromUnixMillis (millis : UInt64) : Way .short

namespace Carried

/-- The phrase in the header `s`, if `s` parses and has it. -/
def read (carried : Carried) (s : String) : Option (Newtype .truncated) :=
  match carried with
  | credentialsNonce => (Header.Credentials.fromStr s).toOption.map (·.nonce)
  | credentialsCnonce => (Header.Credentials.fromStr s).toOption.map (·.cnonce)
  | credentialsKeyId => (Header.Credentials.fromStr s).toOption.map (·.keyId)
  | boundKeyId => (Header.BoundCredentials.fromStr s).toOption.map (·.keyId)
  | boundNonce => (Header.BoundCredentials.fromStr s).toOption.bind (·.signature) |>.map (·.nonce)
  | challengeNonce => (Header.Challenge.fromStr s).toOption.map (·.nonce)

end Carried

namespace Way

variable {length : CodephraseLength}

/-- The value that a way gives, if it gives one. -/
def run : Way length → Option (Newtype length)
  | fromStr s => Newtype.fromStr s
  | deserialize format value => (Newtype.deserialize format value).toOption
  | fromBeBytes bytes => some (Newtype.fromBeBytes bytes)
  | fromHash hash => some (Newtype.fromHash hash)
  | random entropy => some (Newtype.random entropy)
  | header carried s => carried.read s
  | zero => some Newtype.zero
  | fromUnixMillis millis => Newtype.fromUnixMillis millis

/-- The text of the nonce in `s`, read as a code phrase, has at most 88 bits. -/
def NarrowNonce (s : String) : Prop :=
  ∀ params, AuthnParams.fromStr s = .ok params →
    ∀ text rest, params.get "nonce" = .ok (text, rest) →
      ∀ c, Codephrase.fromStr wordlist text = some c → c.val < 2 ^ 88

def Narrow : Way length → Prop
  | header .challengeNonce s => NarrowNonce s
  | _ => True

end Way

/-! ## Headers -/

theorem Header.Challenge.exists_of_fromStr {s : String} {challenge : Challenge}
    (h : fromStr s = .ok challenge) :
    ∃ params text rest, AuthnParams.fromStr s = .ok params ∧ params.get "nonce" = .ok (text, rest) ∧
      Codephrase.fromStr wordlist text = some challenge.nonce.phrase := by
  unfold fromStr at h
  obtain ⟨params, hparams, h⟩ := Lib.bind_eq_ok_iff.1 h
  obtain ⟨⟨nonce, params'⟩, hnonce, h⟩ := Lib.bind_eq_ok_iff.1 h
  obtain ⟨-, -, h⟩ := Lib.bind_eq_ok_iff.1 h
  cases h
  unfold AuthnParams.parse at hnonce
  cases hget : params.get "nonce" with
  | error e =>
    rw [hget] at hnonce
    cases hnonce
  | ok found =>
    obtain ⟨text, rest⟩ := found
    rw [hget] at hnonce
    dsimp only at hnonce
    cases hread : Codephrase.fromStr wordlist text with
    | none =>
      rw [hread] at hnonce
      cases hnonce
    | some c =>
      rw [hread] at hnonce
      cases hnonce
      exact ⟨params, text, _, hparams, hget, hread⟩

theorem Way.narrowNonce_iff {s : String} {challenge : Header.Challenge}
    (h : Header.Challenge.fromStr s = .ok challenge) :
    NarrowNonce s ↔ challenge.nonce.Canonical := by
  obtain ⟨params, text, rest, hparams, hget, hread⟩ := Header.Challenge.exists_of_fromStr h
  constructor
  · intro hnarrow
    exact hnarrow params hparams text rest hget _ hread
  · intro hcanonical params' hparams' text' rest' hget' c hc
    cases hparams.symm.trans hparams'
    cases hget.symm.trans hget'
    cases hread.symm.trans hc
    exact hcanonical

theorem Carried.canonical_iff {carried : Carried} {s : String} {x : Newtype .truncated}
    (h : carried.read s = some x) : x.Canonical ↔ (Way.header carried s).Narrow := by
  cases carried with
  | credentialsNonce =>
    obtain ⟨c, hc, rfl⟩ := Option.map_eq_some_iff.1 h
    exact iff_of_true (Header.Credentials.canonical_of_fromStr (Lib.toOption_eq_some_iff.1 hc)).1 trivial
  | credentialsCnonce =>
    obtain ⟨c, hc, rfl⟩ := Option.map_eq_some_iff.1 h
    exact iff_of_true (Header.Credentials.canonical_of_fromStr (Lib.toOption_eq_some_iff.1 hc)).2.1 trivial
  | credentialsKeyId =>
    obtain ⟨c, hc, rfl⟩ := Option.map_eq_some_iff.1 h
    exact iff_of_true (Header.Credentials.canonical_of_fromStr (Lib.toOption_eq_some_iff.1 hc)).2.2 trivial
  | boundKeyId =>
    obtain ⟨b, hb, rfl⟩ := Option.map_eq_some_iff.1 h
    exact iff_of_true (Header.BoundCredentials.canonical_of_fromStr (Lib.toOption_eq_some_iff.1 hb)).1 trivial
  | boundNonce =>
    obtain ⟨proof, hproof, rfl⟩ := Option.map_eq_some_iff.1 h
    obtain ⟨b, hb, hsignature⟩ := Option.bind_eq_some_iff.1 hproof
    have hcanonical := Header.BoundCredentials.canonical_of_fromStr (Lib.toOption_eq_some_iff.1 hb)
    exact iff_of_true (hcanonical.2 proof hsignature) trivial
  | challengeNonce =>
    obtain ⟨challenge, hchallenge, rfl⟩ := Option.map_eq_some_iff.1 h
    exact (Way.narrowNonce_iff (Lib.toOption_eq_some_iff.1 hchallenge)).symm

theorem Way.canonical_iff {length : CodephraseLength} {way : Way length} {x : Newtype length}
    (h : way.run = some x) : x.Canonical ↔ way.Narrow := by
  cases way with
  | fromStr s => exact iff_of_true (Newtype.fromStr_eq_some_iff.1 h).2 trivial
  | deserialize format value =>
    exact iff_of_true (Newtype.deserialize_eq_ok_iff.1 (Lib.toOption_eq_some_iff.1 h)).2 trivial
  | fromBeBytes bytes =>
    cases h
    exact iff_of_true (Newtype.canonical_canonical _) trivial
  | fromHash hash =>
    cases h
    exact iff_of_true (Newtype.canonical_canonical _) trivial
  | random entropy =>
    cases h
    exact iff_of_true (Newtype.canonical_canonical _) trivial
  | header carried s => exact Carried.canonical_iff h
  | zero =>
    cases h
    exact iff_of_true Newtype.canonical_zero trivial
  | fromUnixMillis millis => exact iff_of_true (Newtype.canonical_fromUnixMillis h) trivial

theorem Way.narrow_short (way : Way .short) : way.Narrow := by
  cases way <;> trivial

/-- A newtype that was got in any way is canonical, and survives its text, its bytes and both its
serialized forms, exactly if it is not the wide nonce of a challenge. A sequence number always is, and
is a wall clock reading. -/
theorem canonical_iff_narrow {length : CodephraseLength} (way : Way length) (x : Newtype length)
    (h : way.run = some x) :
    (x.phrase.val < 2 ^ length.bits ↔ way.Narrow) ∧
    (Newtype.fromStr x.display = some x ↔ way.Narrow) ∧
    (Newtype.fromBeBytes x.toBeBytes = x ↔ way.Narrow) ∧
    (∀ format, Newtype.deserialize format (x.serialize format) = .ok x ↔ way.Narrow) ∧
    ∀ (way : Way .short) (seq : Newtype .short), way.run = some seq →
      seq.phrase.val < 2 ^ 44 ∧ seq.asUnixMillis = some (UInt64.ofNat seq.phrase.val) ∧
        (UInt64.ofNat seq.phrase.val).toNat = seq.phrase.val := by
  have hiff := way.canonical_iff h
  refine ⟨hiff, ?_, ?_, fun format => ?_, fun way seq hseq => ?_⟩
  · rw [Newtype.fromStr_display_iff, hiff]
  · rw [Newtype.fromBeBytes_toBeBytes_iff, hiff]
  · rw [Newtype.deserialize_serialize_iff, hiff]
  · have hcanonical : seq.Canonical := (way.canonical_iff hseq).2 way.narrow_short
    have hfits : seq.phrase.val < 2 ^ 64 := lt_trans hcanonical (by decide)
    exact ⟨hcanonical, Newtype.asUnixMillis_of_canonical hcanonical, UInt64.toNat_ofNat_of_lt' hfits⟩

/-- A value made from random bits is canonical. -/
theorem canonical_iff_narrow_random :
    (Newtype.random 5 : Newtype .truncated).phrase.val < 2 ^ CodephraseLength.truncated.bits :=
  (canonical_iff_narrow (.random 5) (Newtype.random 5) rfl).1.2 trivial

/-- A challenge with a nonce of nine words parses, and its nonce is refused when it is read again. -/
theorem challenge_nonce_not_canonical :
    (Way.header .challengeNonce
        "Sush nonce=ability-abandon-abandon-abandon-abandon-abandon-abandon-abandon-abandon").run =
      some ⟨⟨2 ^ 88, by decide⟩⟩ ∧
    Newtype.fromStr (⟨⟨2 ^ 88, by decide⟩⟩ : Newtype .truncated).display =
      (none : Option (Newtype .truncated)) := by
  have hparsed := Header.Challenge.fromStr_of_spells Header.wideChallenge.writable.2
  rw [Header.display_wideChallenge] at hparsed
  constructor
  · simp only [Way.run, Carried.read, hparsed]
    rfl
  · rw [Header.fromStr_display, if_neg]
    decide

end Sush
