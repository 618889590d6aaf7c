import Sush.Common.SkSignatures

/-!
# Security-key signatures through SSH's format and back

Everything `encode` reads is one of two kinds of bytes: too few for the trailer, or a body with a
trailer behind it (`exists_putTrailer`). Its readers are then total functions: `getMpint` is reading one
length-prefixed field (`getMpint_eq`), and `u256Be` refuses what is longer than 32 bytes and pads the
rest (`u256Be_eq`). So no slice or buffer is ever too short, and what is left of an integer's zeros and
of the one that its top bit adds is the number (`mpintBe_fromPositiveBytes`).
-/

namespace Sush

open Lib (behindLength ofBigEndian)

/-! ## The trailer -/

theorem getUint_bigEndian {k n : ℕ} (h : n < 256 ^ k) (rest : List UInt8) :
    getUint k (Lib.bigEndian k n ++ rest) = .ok (n, rest) := by
  rw [getUint, Lib.takeNat_eq_some_iff.2 ⟨h, rfl⟩, Option.elim_some]

theorem bigEndian_one (b : UInt8) : Lib.bigEndian 1 b.toNat = [b] := by
  simp [Lib.bigEndian]

theorem length_putTrailer (body : List UInt8) (flags : UInt8) (counter : UInt32) :
    (putTrailer body flags counter).length = body.length + trailerLen := by
  simp only [putTrailer, List.length_append, List.length_singleton, Lib.length_bigEndian, trailerLen]

/-- The trailer is what `skSplit` takes off. -/
theorem skSplit_putTrailer (body : List UInt8) (flags : UInt8) (counter : UInt32) :
    skSplit (putTrailer body flags counter) = .ok (body, flags, counter) := by
  have hlen := length_putTrailer body flags counter
  have hlong : ¬(putTrailer body flags counter).length < trailerLen := by omega
  have hsplit : splitAt ((putTrailer body flags counter).length - trailerLen)
      (putTrailer body flags counter) = .ok (body, [flags] ++ Lib.bigEndian 4 counter.toNat) := by
    rw [hlen, Nat.add_sub_cancel, splitAt, if_pos (by omega), putTrailer, List.append_assoc,
      List.take_left' rfl, List.drop_left' rfl]
  have hflags : getUint 1 ([flags] ++ Lib.bigEndian 4 counter.toNat) =
      .ok (flags.toNat, Lib.bigEndian 4 counter.toNat) := by
    rw [← bigEndian_one]
    exact getUint_bigEndian flags.toNat_lt _
  have hcounter : getUint 4 (Lib.bigEndian 4 counter.toNat) = .ok (counter.toNat, []) := by
    rw [← List.append_nil (Lib.bigEndian 4 counter.toNat)]
    exact getUint_bigEndian counter.toNat_lt []
  unfold skSplit
  rw [if_neg hlong, hsplit]
  simp only [bind, Except.bind, hflags, hcounter, if_true, UInt8.ofNat_toNat, UInt32.ofNat_toNat]
  rfl

theorem skSplit_of_short {raw : List UInt8} (h : raw.length < trailerLen) :
    skSplit raw = .error (.failed .signatureTooShort) := if_pos h

theorem exists_putTrailer (body : List UInt8) {trailer : List UInt8}
    (h : trailer.length = trailerLen) :
    ∃ flags counter, body ++ trailer = putTrailer body flags counter := by
  obtain ⟨flags, number, rfl⟩ : ∃ flags number, trailer = flags :: number := by
    cases trailer with
    | nil => cases h
    | cons flags number => exact ⟨flags, number, rfl⟩
  have hnumber : number.length = 4 := Nat.succ.inj h
  have hlt : ofBigEndian number < 2 ^ 32 := by
    have hlt := Lib.ofBigEndian_lt number
    rwa [hnumber] at hlt
  refine ⟨flags, UInt32.ofNat (ofBigEndian number), ?_⟩
  have hbytes := Lib.bigEndian_ofBigEndian number
  rw [hnumber] at hbytes
  rw [putTrailer, UInt32.toNat_ofNat_of_lt' hlt, hbytes, List.append_assoc, List.singleton_append]

/-! ## The integers -/

theorem getMpint_eq (buf : List UInt8) :
    getMpint buf = (Lib.takeField 4 buf).elim (.error (.failed .invalidSignatureEncoding))
      fun (blob, rest) => .ok (.fromPositiveBytes blob, rest) := by
  unfold getMpint Lib.takeField
  cases hlength : Lib.takeNat 4 buf with
  | none => rfl
  | some read =>
    obtain ⟨length, rest⟩ := read
    simp only [Option.elim_some, bind, Except.bind, Option.bind_some, copyToBytes, Lib.takeBytes]
    by_cases h : rest.length < length
    · rw [if_pos h, if_neg (by omega)]
      rfl
    · rw [if_neg h, if_pos (by omega)]
      rfl

theorem getMpint_behindLength {blob : List UInt8} (h : blob.length < 256 ^ 4) (rest : List UInt8) :
    getMpint (behindLength 4 blob ++ rest) = .ok (.fromPositiveBytes blob, rest) := by
  rw [getMpint_eq, Lib.takeField_eq_some_iff.2 ⟨h, rfl⟩, Option.elim_some]

theorem u256Be_eq (bytes : List UInt8) :
    u256Be bytes = if bytes.length ≤ 32 then .ok (List.replicate (32 - bytes.length) 0 ++ bytes)
      else .error (.failed .invalidSignatureEncoding) := by
  unfold u256Be
  by_cases h : bytes.length ≤ 32
  · have hpad : 32 - bytes.length ≤ 32 := Nat.sub_le _ _
    have hback : 32 - (32 - bytes.length) = bytes.length := Nat.sub_sub_self h
    rw [if_pos h, if_pos h]
    simp only [bind, Except.bind, splitAt, copyFromSlice, List.length_replicate, if_pos hpad,
      List.take_replicate, List.drop_replicate, hback, if_true, Nat.min_eq_left hpad]
    rfl
  · rw [if_neg h, if_neg h]

section

variable [SshKey]

theorem mpintBe_fromPositiveBytes {blob : List UInt8} (hne : ofBigEndian blob ≠ 0)
    (hlt : ofBigEndian blob < 2 ^ 256) :
    ∃ bytes, mpintBe (.fromPositiveBytes blob) = .ok bytes ∧ ofBigEndian bytes = ofBigEndian blob := by
  have hlen : (Lib.magnitude blob).length ≤ 32 := Lib.length_magnitude_le_iff.2 hlt
  refine ⟨List.replicate (32 - (Lib.magnitude blob).length) 0 ++ Lib.magnitude blob, ?_, ?_⟩
  · rw [mpintBe, SshKey.asPositiveBytes_fromPositiveBytes blob hne]
    simp only [Option.elim_some, bind, Except.bind, u256Be_eq, if_pos hlen]
  · rw [Lib.ofBigEndian_replicate_append, Lib.ofBigEndian_magnitude]

theorem mpintBe_of_wide {blob : List UInt8} (h : 2 ^ 256 ≤ ofBigEndian blob) :
    mpintBe (.fromPositiveBytes blob) = .error (.failed .invalidSignatureEncoding) := by
  have hne : ofBigEndian blob ≠ 0 := by
    intro h0
    rw [h0] at h
    exact absurd h (by decide)
  have hlong : ¬(Lib.magnitude blob).length ≤ 32 := by
    intro hlen
    exact absurd (Lib.length_magnitude_le_iff.1 hlen) (Nat.not_lt.2 h)
  rw [mpintBe, SshKey.asPositiveBytes_fromPositiveBytes blob hne]
  simp only [Option.elim_some, bind, Except.bind, u256Be_eq, if_neg hlong]

theorem mpintBe_ok_or (m : Mpint) :
    (∃ bytes, mpintBe m = .ok bytes) ∨ mpintBe m = .error (.failed .invalidSignatureEncoding) := by
  unfold mpintBe
  cases SshKey.asPositiveBytes m with
  | none => exact .inr rfl
  | some bytes =>
    simp only [Option.elim_some, bind, Except.bind, u256Be_eq]
    by_cases h : bytes.length ≤ 32
    · exact .inl ⟨_, if_pos h⟩
    · exact .inr (if_neg h)

end

/-- `body` starts with the two length-prefixed integers `r` and `s`. -/
def Integers (body r s : List UInt8) : Prop :=
  r.length < 2 ^ 32 ∧ s.length < 2 ^ 32 ∧ ∃ rest, body = behindLength 4 r ++ (behindLength 4 s ++ rest)

/-! ## Encoding -/

namespace Signature

variable [SshKey] {algorithm : SshAlgorithm} {body r s : List UInt8} {flags : UInt8} {counter : UInt32}

theorem encode_skEcdsaSha256 (h : Integers body r s) :
    encode (.skEcdsaSha256 ⟨algorithm, putTrailer body flags counter⟩) = (do
      let r ← mpintBe (.fromPositiveBytes r)
      let s ← mpintBe (.fromPositiveBytes s)
      return ⟨eccFromBeBytes r, eccFromBeBytes s, flags, counter⟩) := by
  obtain ⟨hr, hs, rest, rfl⟩ := h
  simp only [encode, skSplit_putTrailer, bind, Except.bind, getMpint_behindLength hr,
    getMpint_behindLength hs]

theorem encode_skEcdsaSha256_of_truncated (h : ∀ r s, ¬Integers body r s) :
    encode (.skEcdsaSha256 ⟨algorithm, putTrailer body flags counter⟩) =
      .error (.failed .invalidSignatureEncoding) := by
  simp only [encode, skSplit_putTrailer, bind, Except.bind]
  rw [getMpint_eq]
  cases hr : Lib.takeField 4 body with
  | none => rfl
  | some readR =>
    obtain ⟨r, restR⟩ := readR
    simp only [Option.elim_some]
    rw [getMpint_eq]
    cases hs : Lib.takeField 4 restR with
    | none => rfl
    | some readS =>
      obtain ⟨s, restS⟩ := readS
      obtain ⟨hrlt, rfl⟩ := Lib.takeField_eq_some_iff.1 hr
      obtain ⟨hslt, rfl⟩ := Lib.takeField_eq_some_iff.1 hs
      exact absurd ⟨hrlt, hslt, restS, rfl⟩ (h r s)

/-- With one of them wider than 32 bytes, too. The other may be zero, of which only the kind of its
error is known. -/
theorem encode_skEcdsaSha256_of_wide (h : Integers body r s)
    (hwide : 2 ^ 256 ≤ ofBigEndian r ∨ 2 ^ 256 ≤ ofBigEndian s) :
    encode (.skEcdsaSha256 ⟨algorithm, putTrailer body flags counter⟩) =
      .error (.failed .invalidSignatureEncoding) := by
  rw [encode_skEcdsaSha256 h]
  obtain hr | hs := hwide
  · rw [mpintBe_of_wide hr]
    rfl
  · obtain ⟨bytes, hr⟩ | hr := mpintBe_ok_or (.fromPositiveBytes r)
    · rw [hr, mpintBe_of_wide hs]
      rfl
    · rw [hr]
      rfl

theorem encode_skEcdsaSha256_ok (h : Integers body r s) (hr : ofBigEndian r ≠ 0)
    (hr' : ofBigEndian r < 2 ^ 256) (hs : ofBigEndian s ≠ 0) (hs' : ofBigEndian s < 2 ^ 256) :
    encode (.skEcdsaSha256 ⟨algorithm, putTrailer body flags counter⟩) =
      .ok ⟨eccFromBeBytes r, eccFromBeBytes s, flags, counter⟩ := by
  obtain ⟨rbytes, hrok, hrvalue⟩ := mpintBe_fromPositiveBytes hr hr'
  obtain ⟨sbytes, hsok, hsvalue⟩ := mpintBe_fromPositiveBytes hs hs'
  rw [encode_skEcdsaSha256 h, hrok, hsok]
  simp only [bind, Except.bind, eccFromBeBytes, hrvalue, hsvalue]
  rfl

theorem encode_skEd25519 :
    encode (.skEd25519 ⟨algorithm, putTrailer body flags counter⟩) =
      if body.length = 64 then
        .ok ⟨eccFromBeBytes (body.take 32), eccFromBeBytes (body.drop 32), flags, counter⟩
      else .error (.failed (.signature "signature error")) := by
  simp only [encode, skSplit_putTrailer, bind, Except.bind]
  rfl

/-- A security key's signature in raw bytes. -/
inductive OfRaw (raw : SshSignature) : Signature → Prop
  | skEcdsaSha256 : OfRaw raw (.skEcdsaSha256 raw)
  | skEd25519 : OfRaw raw (.skEd25519 raw)

variable {raw : SshSignature} {signature : Signature}

theorem encode_of_short (hraw : OfRaw raw signature) (h : raw.data.length < trailerLen) :
    signature.encode = .error (.failed .signatureTooShort) := by
  cases hraw <;> simp only [encode, skSplit_of_short h, bind, Except.bind]

omit [SshKey] in
theorem short_or_putTrailer (raw : SshSignature) :
    raw.data.length < trailerLen ∨
      ∃ body flags counter, raw = ⟨raw.algorithm, putTrailer body flags counter⟩ := by
  by_cases h : raw.data.length < trailerLen
  · exact .inl h
  · have htrailer : (raw.data.drop (raw.data.length - trailerLen)).length = trailerLen := by
      rw [List.length_drop]
      omega
    obtain ⟨flags, counter, heq⟩ :=
      exists_putTrailer (raw.data.take (raw.data.length - trailerLen)) htrailer
    rw [List.take_append_drop] at heq
    exact .inr ⟨_, flags, counter, congrArg (SshSignature.mk raw.algorithm) heq⟩

theorem encode_ok_or_failed (hraw : OfRaw raw signature) :
    (∃ e, signature.encode = .ok e) ∨ ∃ error, signature.encode = .error (.failed error) := by
  obtain hshort | ⟨body, flags, counter, heq⟩ := short_or_putTrailer raw
  · exact .inr ⟨_, encode_of_short hraw hshort⟩
  rw [heq] at hraw
  cases hraw with
  | skEcdsaSha256 =>
    by_cases hints : ∃ r s, Integers body r s
    · obtain ⟨r, s, hints⟩ := hints
      rw [encode_skEcdsaSha256 hints]
      obtain ⟨rbytes, hr⟩ | hr := mpintBe_ok_or (.fromPositiveBytes r)
      · obtain ⟨sbytes, hs⟩ | hs := mpintBe_ok_or (.fromPositiveBytes s)
        · rw [hr, hs]
          exact .inl ⟨_, rfl⟩
        · rw [hr, hs]
          exact .inr ⟨_, rfl⟩
      · rw [hr]
        exact .inr ⟨_, rfl⟩
    · have htruncated : ∀ r s, ¬Integers body r s := fun r s h => hints ⟨r, s, h⟩
      exact .inr ⟨_, encode_skEcdsaSha256_of_truncated htruncated⟩
  | skEd25519 =>
    rw [encode_skEd25519]
    by_cases hlen : body.length = 64
    · exact .inl ⟨_, if_pos hlen⟩
    · exact .inr ⟨_, if_neg hlen⟩

/-- **Encoding never panics.** -/
theorem encode_ne_panicked (hraw : OfRaw raw signature) : signature.encode ≠ .error .panicked := by
  intro hpanic
  obtain ⟨e, h⟩ | ⟨error, h⟩ := encode_ok_or_failed hraw
  · rw [h] at hpanic
    cases hpanic
  · rw [h] at hpanic
    cases hpanic

end Signature

/-! ## There and back -/

theorem ofBigEndian_eccBytes (x : BitVec 256) : ofBigEndian (eccBytes x) = x.toNat :=
  Lib.ofBigEndian_bigEndian_of_lt x.isLt

theorem eccFromBeBytes_eccBytes (x : BitVec 256) : eccFromBeBytes (eccBytes x) = x := by
  rw [eccFromBeBytes, ofBigEndian_eccBytes, BitVec.ofNat_toNat, BitVec.setWidth_eq]

namespace Mpint

theorem ofBigEndian_bytes (bytes : List UInt8) :
    ofBigEndian (fromPositiveBytes bytes).bytes = ofBigEndian bytes := by
  unfold fromPositiveBytes
  dsimp only
  split
  · rw [← List.singleton_append, ← List.replicate_one, Lib.ofBigEndian_replicate_append,
      Lib.ofBigEndian_magnitude]
  · exact Lib.ofBigEndian_magnitude bytes

theorem length_bytes_le (bytes : List UInt8) :
    (fromPositiveBytes bytes).bytes.length ≤ bytes.length + 1 := by
  have hle : (Lib.magnitude bytes).length ≤ bytes.length := (List.dropWhile_suffix _).length_le
  unfold fromPositiveBytes
  dsimp only
  split
  · exact Nat.succ_le_succ hle
  · exact Nat.le_succ_of_le hle

end Mpint

theorem putMpint_eq (buf bytes : List UInt8) :
    putMpint buf bytes = buf ++ behindLength 4 (Mpint.fromPositiveBytes bytes).bytes :=
  List.append_assoc _ _ _

theorem integers_putMpint (r s : BitVec 256) :
    Integers (putMpint (putMpint [] (eccBytes r)) (eccBytes s))
      (Mpint.fromPositiveBytes (eccBytes r)).bytes (Mpint.fromPositiveBytes (eccBytes s)).bytes := by
  have hlen (x : BitVec 256) : (Mpint.fromPositiveBytes (eccBytes x)).bytes.length < 2 ^ 32 := by
    have hle := Mpint.length_bytes_le (eccBytes x)
    rw [eccBytes, Lib.length_bigEndian] at hle
    exact lt_of_le_of_lt hle (by decide)
  refine ⟨hlen r, hlen s, [], ?_⟩
  rw [putMpint_eq, putMpint_eq, List.nil_append, List.append_nil]

/-- Bytes in the format of a security key's algorithm: two integers below 2²⁵⁶ other than zero, or 64
bytes, and a trailer. -/
def SshSignature.WellFormed : SshAlgorithm → List UInt8 → Prop
  | .skEcdsaSha2NistP256, data => ∃ (r s : BitVec 256) (flags : UInt8) (counter : UInt32),
      r ≠ 0 ∧ s ≠ 0 ∧ data = putTrailer (putMpint (putMpint [] (eccBytes r)) (eccBytes s)) flags counter
  | .skEd25519, data => data.length = 64 + trailerLen
  | _, _ => False

variable [SshKey]

/-- `ssh_key::Signature::new` accepts what is well-formed. -/
def SshSignature.AcceptsWellFormed : Prop :=
  ∀ algorithm data, WellFormed algorithm data → SshKey.refuses algorithm data = none

namespace EncodedSignature

variable {e : EncodedSignature} {algorithm : SshAlgorithm}

omit [SshKey] in
theorem toNat_ne_zero {x : BitVec 256} (h : x ≠ 0) : x.toNat ≠ 0 :=
  fun h0 => h (BitVec.eq_of_toNat_eq h0)

omit [SshKey] in
theorem eccFromBeBytes_mpint (x : BitVec 256) :
    eccFromBeBytes (Mpint.fromPositiveBytes (eccBytes x)).bytes = x := by
  rw [eccFromBeBytes, Mpint.ofBigEndian_bytes]
  exact eccFromBeBytes_eccBytes x

theorem encode_of_decode (hr : e.r ≠ 0) (hs : e.s ≠ 0) (hsk : algorithm.isSkAlgorithm = true)
    {signature : Signature} (h : e.decodeWithSshPublicKey algorithm = .ok signature) :
    signature.encode = .ok e := by
  cases algorithm with
  | skEcdsaSha2NistP256 =>
    simp only [decodeWithSshPublicKey, SshSignature.new] at h
    cases hnew : SshKey.refuses .skEcdsaSha2NistP256
        (putTrailer (putMpint (putMpint [] (eccBytes e.r)) (eccBytes e.s)) e.flags e.counter) with
    | some error =>
      rw [hnew] at h
      cases h
    | none =>
      rw [hnew] at h
      cases h
      have hvalue (x : BitVec 256) :
          ofBigEndian (Mpint.fromPositiveBytes (eccBytes x)).bytes = x.toNat := by
        rw [Mpint.ofBigEndian_bytes, ofBigEndian_eccBytes]
      rw [Signature.encode_skEcdsaSha256_ok (integers_putMpint e.r e.s)
          (by rw [hvalue]; exact toNat_ne_zero hr) (by rw [hvalue]; exact e.r.isLt)
          (by rw [hvalue]; exact toNat_ne_zero hs) (by rw [hvalue]; exact e.s.isLt),
        eccFromBeBytes_mpint, eccFromBeBytes_mpint]
  | skEd25519 =>
    simp only [decodeWithSshPublicKey, SshSignature.new] at h
    cases hnew : SshKey.refuses .skEd25519
        (putTrailer (eccBytes e.r ++ eccBytes e.s) e.flags e.counter) with
    | some error =>
      rw [hnew] at h
      cases h
    | none =>
      rw [hnew] at h
      cases h
      have hlen (x : BitVec 256) : (eccBytes x).length = 32 := Lib.length_bigEndian 32 _
      rw [Signature.encode_skEd25519, if_pos (by rw [List.length_append, hlen, hlen]),
        List.take_left' (hlen _), List.drop_left' (hlen _), eccFromBeBytes_eccBytes,
        eccFromBeBytes_eccBytes]
  | ecdsaNistP256 => cases hsk
  | ed25519 => cases hsk
  | other name => cases hsk

theorem decode_ok (haccepts : SshSignature.AcceptsWellFormed) (hr : e.r ≠ 0) (hs : e.s ≠ 0)
    (hsk : algorithm.isSkAlgorithm = true) :
    ∃ signature, e.decodeWithSshPublicKey algorithm = .ok signature := by
  cases algorithm with
  | skEcdsaSha2NistP256 =>
    have hnew := haccepts .skEcdsaSha2NistP256 _ ⟨e.r, e.s, e.flags, e.counter, hr, hs, rfl⟩
    simp only [decodeWithSshPublicKey, SshSignature.new, hnew]
    exact ⟨_, rfl⟩
  | skEd25519 =>
    have hformed : SshSignature.WellFormed .skEd25519
        (putTrailer (eccBytes e.r ++ eccBytes e.s) e.flags e.counter) := by
      rw [SshSignature.WellFormed, length_putTrailer, List.length_append, eccBytes, eccBytes,
        Lib.length_bigEndian, Lib.length_bigEndian]
    simp only [decodeWithSshPublicKey, SshSignature.new, haccepts _ _ hformed]
    exact ⟨_, rfl⟩
  | ecdsaNistP256 => cases hsk
  | ed25519 => cases hsk
  | other name => cases hsk

end EncodedSignature

/-- **Security-key signatures re-encode faithfully.** What decoding under a security key's algorithm
gives is encoded as the same numbers, flags and counter, and decoding gives something where
`ssh_key::Signature::new` accepts what is well-formed. Encoding never panics, whatever the bytes. It
reports an error if the trailer is cut off, if one of the length-prefixed integers is, or if one is
wider than 32 bytes, and for Ed25519 if there are not 32 bytes for each number. -/
theorem skSignatures_reencode :
    (∀ (e : EncodedSignature) (algorithm : SshAlgorithm), algorithm.isSkAlgorithm = true →
      e.r ≠ 0 → e.s ≠ 0 →
      (∀ signature, e.decodeWithSshPublicKey algorithm = .ok signature → signature.encode = .ok e) ∧
      (SshSignature.AcceptsWellFormed →
        ∃ signature, e.decodeWithSshPublicKey algorithm = .ok signature)) ∧
    (∀ (raw : SshSignature) (signature : Signature), Signature.OfRaw raw signature →
      signature.encode ≠ .error .panicked ∧
      (raw.data.length < trailerLen → signature.encode = .error (.failed .signatureTooShort))) ∧
    (∀ (raw : SshSignature) (body trailer : List UInt8), raw.data = body ++ trailer →
      trailer.length = trailerLen →
      ((∀ r s, ¬Integers body r s) →
        Signature.encode (.skEcdsaSha256 raw) = .error (.failed .invalidSignatureEncoding)) ∧
      (∀ r s, Integers body r s → 2 ^ 256 ≤ ofBigEndian r ∨ 2 ^ 256 ≤ ofBigEndian s →
        Signature.encode (.skEcdsaSha256 raw) = .error (.failed .invalidSignatureEncoding)) ∧
      (body.length ≠ 64 →
        ∃ error, Signature.encode (.skEd25519 raw) = .error (.failed (.signature error)))) := by
  refine ⟨?_, ?_, ?_⟩
  · intro e algorithm hsk hr hs
    exact ⟨fun _ h => EncodedSignature.encode_of_decode hr hs hsk h,
      fun haccepts => EncodedSignature.decode_ok haccepts hr hs hsk⟩
  · intro raw signature hraw
    exact ⟨Signature.encode_ne_panicked hraw, Signature.encode_of_short hraw⟩
  · rintro ⟨algorithm, data⟩ body trailer rfl htrailer
    obtain ⟨flags, counter, heq⟩ := exists_putTrailer body htrailer
    rw [heq]
    refine ⟨Signature.encode_skEcdsaSha256_of_truncated, ?_, ?_⟩
    · intro r s hints hwide
      exact Signature.encode_skEcdsaSha256_of_wide hints hwide
    · intro hlen
      exact ⟨_, by rw [Signature.encode_skEd25519, if_neg hlen]⟩

end Sush

namespace Sush.Plain

open Lib (ofBigEndian)

/-- The positive bytes of an integer: none of zero, and none of a negative number. -/
def positiveBytes : List UInt8 → Option (List UInt8)
  | [] => none
  | b :: bytes => if b = 0 then some bytes else if b < 128 then some (b :: bytes) else none

theorem positiveBytes_fromPositiveBytes (bytes : List UInt8) (h : ofBigEndian bytes ≠ 0) :
    positiveBytes (Mpint.fromPositiveBytes bytes).bytes = some (Lib.magnitude bytes) := by
  obtain hnil | ⟨b, rest, hb, hcons⟩ := Lib.magnitude_eq_nil_or bytes
  · rw [← Lib.ofBigEndian_magnitude, hnil] at h
    exact absurd rfl h
  · simp only [Mpint.fromPositiveBytes, hcons, List.headD_cons]
    by_cases htop : 128 ≤ b
    · rw [if_pos htop]
      rfl
    · rw [if_neg htop]
      simp only [positiveBytes, if_neg hb, if_pos (UInt8.not_le.1 htop)]

/-- A crate that refuses no bytes. -/
abbrev sshKey : SshKey where
  asPositiveBytes m := positiveBytes m.bytes
  asPositiveBytes_fromPositiveBytes := positiveBytes_fromPositiveBytes
  refuses _ _ := none
  refusesScalars _ _ := none

attribute [local instance] sshKey

/-- A number with its top bit set and a small one, with a touch and a counter. -/
def skSignature : EncodedSignature := ⟨BitVec.twoPow 256 255, 1, 1, 7⟩

theorem skSignatures_reencode_touch :
    (∃ signature, skSignature.decodeWithSshPublicKey .skEcdsaSha2NistP256 = .ok signature ∧
      signature.encode = .ok skSignature) ∧
    Signature.encode (.skEcdsaSha256 ⟨.skEcdsaSha2NistP256, [0, 0, 0, 1, 0, 0, 0, 0, 0]⟩) =
      .error (.failed .invalidSignatureEncoding) ∧
    Signature.encode (.skEcdsaSha256 ⟨.skEcdsaSha2NistP256, []⟩) =
      .error (.failed .signatureTooShort) := by
  obtain ⟨hback, hraw, hints⟩ := skSignatures_reencode
  obtain ⟨hencode, hdecode⟩ := hback skSignature .skEcdsaSha2NistP256 rfl (by decide) (by decide)
  obtain ⟨signature, hsignature⟩ := hdecode fun _ _ _ => rfl
  have hcut : ∀ r s, ¬Integers [0, 0, 0, 1] r s := by
    rintro r s ⟨-, -, rest, h⟩
    have hlen := congrArg List.length h
    simp only [Lib.behindLength, List.length_append, Lib.length_bigEndian, List.length_cons,
      List.length_nil] at hlen
    omega
  exact ⟨⟨signature, hsignature, hencode signature hsignature⟩,
    (hints ⟨_, _⟩ [0, 0, 0, 1] [0, 0, 0, 0, 0] rfl rfl).1 hcut,
    (hraw ⟨_, _⟩ _ .skEcdsaSha256).2 (by decide)⟩

end Sush.Plain
