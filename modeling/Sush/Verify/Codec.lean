import Sush.Common.Plain
import Sush.Server.Envelope
import Sush.Server.Guard

/-!
# Slot envelopes survive their encoding

`Envelope.layout` says how the bytes of an envelope are laid out. The decoder accepts exactly what is
laid out so, with the digest in it that belongs to the rest (`Envelope.decode_cases`,
`Envelope.decode_layout`), and the encoder lays out so whatever fits its length prefixes
(`Envelope.encode_eq_layout`). Both round trips follow, whatever the digest is.
-/

namespace Sush

open Lib (utf8)

namespace Envelope

/-! ## Nonces -/

theorem nonceFromBeBytes_toBeBytes (nonce : Nonce) : nonceFromBeBytes (toBeBytes nonce) = nonce := by
  rw [nonceFromBeBytes, ofBigEndian_toBeBytes nonce (by decide)]
  exact Fin.ext (Nat.mod_eq_of_lt nonce.isLt)

theorem toBeBytes_nonceFromBeBytes {bytes : List UInt8} (hlength : bytes.length = 32)
    (h : Lib.ofBigEndian bytes < 2 ^ 88) : toBeBytes (nonceFromBeBytes bytes) = bytes := by
  have hval : (nonceFromBeBytes bytes).val = Lib.ofBigEndian bytes := Nat.mod_eq_of_lt h
  rw [toBeBytes, hval, ← hlength, Lib.bigEndian_ofBigEndian]

/-! ## The layout -/

/-- The bytes before the digest. -/
def header (magic : Magic) (fields : Fields) : List UInt8 :=
  magic.bytes ++ Lib.bigEndian 2 version ++ Lib.behindLength 2 fields.nonce ++
    Lib.behindLength 2 fields.seq ++ Lib.behindLength 2 fields.part ++
    Lib.behindLength 2 fields.serial

/-- The fields fit what they are read as. -/
structure Fields.Fit (fields : Fields) : Prop where
  nonce : fields.nonce.length = 32
  seq : fields.seq.length = 8
  part : fields.part.length < 256 ^ 2
  serial : fields.serial.length < 256 ^ 2

theorem put_of_le {bytes field : List UInt8} (h : field.length ≤ 65535) :
    put bytes field = bytes ++ Lib.behindLength 2 field := by
  rw [put, min_eq_left h, List.take_length, Lib.behindLength, List.append_assoc]

theorem slice_before (before rest : List UInt8) :
    checkedSub (before ++ rest).length rest.length = .ok before.length ∧
      sliceTo (before ++ rest) before.length = .ok before := by
  simp [checkedSub, sliceTo]

theorem decodeFields_eq_some_iff {magic : Magic} {bytes rest : List UInt8} {fields : Fields} :
    decodeFields magic bytes = some (fields, rest) ↔
      fields.Fit ∧ bytes = header magic fields ++ rest := by
  simp only [decodeFields, take, Option.bind_eq_bind, Option.bind_eq_some_iff, Prod.exists,
    Lib.takeThis_eq_some_iff, Lib.takeNat_eq_some_iff, Lib.takeField_eq_some_iff,
    Option.guard_eq_some', header, List.append_assoc]
  constructor
  · rintro ⟨_, rfl, _, _, ⟨-, rfl⟩, -, rfl, nonce, _, ⟨-, rfl⟩, -, hnonce, seq, _, ⟨-, rfl⟩, -, hseq,
      part, _, ⟨hpart, rfl⟩, serial, _, ⟨hserial, rfl⟩, hfields⟩
    cases hfields
    exact ⟨⟨hnonce, hseq, hpart, hserial⟩, rfl⟩
  · rintro ⟨⟨hnonce, hseq, hpart, hserial⟩, rfl⟩
    exact ⟨_, rfl, _, _, ⟨by decide, rfl⟩, (), rfl, _, _, ⟨by rw [hnonce]; decide, rfl⟩, (), hnonce,
      _, _, ⟨by rw [hseq]; decide, rfl⟩, (), hseq, _, _, ⟨hpart, rfl⟩, _, _, ⟨hserial, rfl⟩, rfl⟩

variable [Digest]

@[simp] theorem length_digest (before record : List UInt8) : (digest before record).length = 32 :=
  length_toBeBytes _

/-- The bytes of an envelope with these fields. -/
def layout (magic : Magic) (fields : Fields) (record : List UInt8) : List UInt8 :=
  header magic fields ++
    (Lib.behindLength 2 (digest (header magic fields) record) ++ record)

variable [World] [Phrases]

variable {e : Envelope} {magic : Magic} {seq : ℕ} {baseboard : BaseboardId}

/-- The record is accepted exactly behind its digest. -/
theorem decodeRecord_eq_some_iff {fields : Fields} {before rest : List UInt8} :
    decodeRecord fields before rest = some e ↔
      rest = Lib.behindLength 2 (digest before e.record) ++ e.record ∧
        fields.part = utf8 (Phrases.baseboardId e.baseboard).1 ∧
        fields.serial = utf8 (Phrases.baseboardId e.baseboard).2 ∧
        e.nonce = nonceFromBeBytes fields.nonce ∧ e.seq = Lib.ofBigEndian fields.seq := by
  simp only [decodeRecord, take, Option.bind_eq_bind, Option.bind_eq_some_iff, Prod.exists,
    Lib.takeField_eq_some_iff, Lib.ofUtf8_eq_some_iff, Option.guard_eq_some']
  constructor
  · rintro ⟨_, record, ⟨-, rfl⟩, -, -, part, hpart, serial, hserial, -, rfl, he⟩
    cases he
    exact ⟨rfl, by simpa using hpart, by simpa using hserial, rfl, rfl⟩
  · obtain ⟨nonce, seq, baseboard, record⟩ := e
    rintro ⟨rfl, hpart, hserial, rfl, rfl⟩
    exact ⟨_, _, ⟨by simp, rfl⟩, (), length_digest _ _, _, hpart, _, hserial, (), rfl, by simp⟩

theorem decode_of_fields {bytes rest : List UInt8} {fields : Fields}
    (h : decodeFields magic bytes = some (fields, rest)) :
    decode magic bytes = .ok (decodeRecord fields (header magic fields) rest) := by
  obtain ⟨-, rfl⟩ := decodeFields_eq_some_iff.1 h
  obtain ⟨hsub, hslice⟩ := slice_before (header magic fields) rest
  rw [decode, h]
  dsimp only
  rw [hsub]
  dsimp only [bind, Except.bind]
  rw [hslice]
  rfl

/-- **The decoder returns on every input.** -/
theorem decode_returns (magic : Magic) (bytes : List UInt8) :
    ∃ result, decode magic bytes = .ok result := by
  rcases hfields : decodeFields magic bytes with _ | ⟨fields, rest⟩
  · exact ⟨none, by rw [decode, hfields]⟩
  · exact ⟨_, decode_of_fields hfields⟩

/-- **The decoder accepts exactly what is laid out.** -/
theorem decode_eq_some_iff {bytes : List UInt8} :
    decode magic bytes = .ok (some e) ↔ ∃ fields : Fields, fields.Fit ∧
      bytes = layout magic fields e.record ∧
      fields.part = utf8 (Phrases.baseboardId e.baseboard).1 ∧
      fields.serial = utf8 (Phrases.baseboardId e.baseboard).2 ∧
      e.nonce = nonceFromBeBytes fields.nonce ∧ e.seq = Lib.ofBigEndian fields.seq := by
  constructor
  · intro h
    rcases hfields : decodeFields magic bytes with _ | ⟨fields, rest⟩
    · rw [decode, hfields] at h
      cases h
    · rw [decode_of_fields hfields, Except.ok.injEq, decodeRecord_eq_some_iff] at h
      obtain ⟨hfit, hbytes⟩ := decodeFields_eq_some_iff.1 hfields
      obtain ⟨hrest, hmeaning⟩ := h
      exact ⟨fields, hfit, by rw [hbytes, hrest, layout], hmeaning⟩
  · rintro ⟨fields, hfit, hbytes, hmeaning⟩
    rw [decode_of_fields (decodeFields_eq_some_iff.2 ⟨hfit, hbytes⟩), Except.ok.injEq]
    exact decodeRecord_eq_some_iff.2 ⟨rfl, hmeaning⟩

/-- The fields of an envelope, as the encoder writes them. -/
def fields (nonce : Nonce) (seq : ℕ) (baseboard : BaseboardId) : Fields where
  nonce := toBeBytes nonce
  seq := Lib.bigEndian 8 seq
  part := utf8 (Phrases.baseboardId baseboard).1
  serial := utf8 (Phrases.baseboardId baseboard).2

omit [Digest] in
theorem fit_fields {nonce : Nonce} (hpart : (utf8 (Phrases.baseboardId baseboard).1).length ≤ 65535)
    (hserial : (utf8 (Phrases.baseboardId baseboard).2).length ≤ 65535) :
    (fields nonce seq baseboard).Fit where
  nonce := length_toBeBytes nonce
  seq := Lib.length_bigEndian 8 seq
  part := Nat.lt_succ_of_le hpart
  serial := Nat.lt_succ_of_le hserial

theorem encode_eq_layout {nonce : Nonce} {record : List UInt8}
    (h : (fields nonce seq baseboard).Fit) :
    encode magic nonce seq baseboard record = layout magic (fields nonce seq baseboard) record := by
  have hnonce : (toBeBytes nonce).length ≤ 65535 := by simp
  have hseq : (Lib.bigEndian 8 seq).length ≤ 65535 := by simp
  have hpart : (utf8 (Phrases.baseboardId baseboard).1).length ≤ 65535 := Nat.le_of_lt_succ h.part
  have hserial : (utf8 (Phrases.baseboardId baseboard).2).length ≤ 65535 := Nat.le_of_lt_succ h.serial
  have hdigest : ∀ before, (digest before record).length ≤ 65535 := by simp
  simp only [encode, layout, header, fields, List.foldl_cons, List.foldl_nil, put_of_le hnonce,
    put_of_le hseq, put_of_le hpart, put_of_le hserial, put_of_le (hdigest _), List.append_assoc]

/-- The number in the nonce field: it stands behind the magic, the version and its own length. -/
def nonceField (bytes : List UInt8) : ℕ := Lib.ofBigEndian ((bytes.drop 16).take 32)

omit [World] [Phrases] in
theorem nonceField_layout (magic : Magic) {fields : Fields} (h : fields.Fit) (record : List UInt8) :
    nonceField (layout magic fields record) = Lib.ofBigEndian fields.nonce := by
  have hmagic := magic.length_bytes
  have hnonce := h.nonce
  have hlayout : ∃ rest, layout magic fields record =
      (magic.bytes ++ Lib.bigEndian 2 version ++ Lib.bigEndian 2 fields.nonce.length) ++
        (fields.nonce ++ rest) := by
    simp only [layout, header, Lib.behindLength, List.append_assoc]
    exact ⟨_, rfl⟩
  obtain ⟨rest, hlayout⟩ := hlayout
  rw [nonceField, hlayout, List.drop_left' (by simp [hmagic]), List.take_left' hnonce]

theorem encode_starts (magic : Magic) (nonce : Nonce) (seq : ℕ) (baseboard : BaseboardId)
    (record : List UInt8) : ∃ rest, encode magic nonce seq baseboard record = magic.bytes ++ rest := by
  simp only [encode, List.foldl_cons, List.foldl_nil, put, List.append_assoc]
  exact ⟨_, rfl⟩

theorem decode_of_other_magic {magic magic' : Magic} (h : magic ≠ magic') (rest : List UInt8) :
    decode magic' (magic.bytes ++ rest) = .ok none := by
  have hnone : decodeFields magic' (magic.bytes ++ rest) = none := by
    rcases hfields : decodeFields magic' (magic.bytes ++ rest) with _ | ⟨fields, rest'⟩
    · rfl
    · obtain ⟨-, hbytes⟩ := decodeFields_eq_some_iff.1 hfields
      simp only [header, List.append_assoc] at hbytes
      have hlength : magic.bytes.length = magic'.bytes.length :=
        magic.length_bytes.trans magic'.length_bytes.symm
      have hsame := (List.append_inj hbytes hlength).1
      cases magic
      cases magic'
      exact absurd (by congr) h
  rw [decode, hnone]

/-- **What is encoded is decoded.** -/
theorem decode_encode (magic : Magic) (nonce : Nonce) (record : List UInt8) (hseq : seq < 2 ^ 64)
    (hpart : (utf8 (Phrases.baseboardId baseboard).1).length ≤ 65535)
    (hserial : (utf8 (Phrases.baseboardId baseboard).2).length ≤ 65535) :
    decode magic (encode magic nonce seq baseboard record) =
      .ok (some ⟨nonce, seq, baseboard, record⟩) := by
  have hfit : (fields nonce seq baseboard).Fit := fit_fields hpart hserial
  rw [encode_eq_layout hfit]
  exact decode_eq_some_iff.2 ⟨_, hfit, rfl, rfl, rfl, (nonceFromBeBytes_toBeBytes nonce).symm,
    (Lib.ofBigEndian_bigEndian_of_lt hseq).symm⟩

/-- **What is decoded was encoded**, if its nonce is canonical. -/
theorem encode_of_decode {bytes : List UInt8} (h : decode magic bytes = .ok (some e))
    (hnonce : nonceField bytes < 2 ^ 88) :
    encode magic e.nonce e.seq e.baseboard e.record = bytes := by
  obtain ⟨f, hfit, hbytes, hpart, hserial, he, hseq⟩ := decode_eq_some_iff.1 h
  rw [hbytes, nonceField_layout magic hfit] at hnonce
  have hfields : fields e.nonce e.seq e.baseboard = f := by
    obtain ⟨nonce, seq, part, serial⟩ := f
    rw [fields, he, hseq, ← hpart, ← hserial, toBeBytes_nonceFromBeBytes hfit.nonce hnonce]
    have hwrite := Lib.bigEndian_ofBigEndian seq
    rw [hfit.seq] at hwrite
    rw [hwrite]
  rw [encode_eq_layout (hfields ▸ hfit), hfields, hbytes]

/-- **The slot envelope codec.** What is encoded is decoded under the same magic; what is decoded, with
a canonical nonce in its field, is what its encoding is; the decoder returns on every input; and what
is encoded under one magic is not decoded under another. -/
theorem codec_round_trips :
    (∀ (magic : Magic) (nonce : Nonce) (seq : ℕ) (baseboard : BaseboardId) (record : List UInt8),
      seq < 2 ^ 64 → (utf8 (Phrases.baseboardId baseboard).1).length ≤ 65535 →
      (utf8 (Phrases.baseboardId baseboard).2).length ≤ 65535 →
      decode magic (encode magic nonce seq baseboard record) =
        .ok (some ⟨nonce, seq, baseboard, record⟩)) ∧
    (∀ (magic : Magic) (bytes : List UInt8) (e : Envelope), decode magic bytes = .ok (some e) →
      nonceField bytes < 2 ^ 88 → encode magic e.nonce e.seq e.baseboard e.record = bytes) ∧
    (∀ (magic : Magic) (bytes : List UInt8), ∃ result, decode magic bytes = .ok result) ∧
    ∀ (magic magic' : Magic) (nonce : Nonce) (seq : ℕ) (baseboard : BaseboardId)
      (record : List UInt8), magic ≠ magic' →
      decode magic' (encode magic nonce seq baseboard record) = .ok none := by
  refine ⟨fun magic nonce seq baseboard record hseq hpart hserial => ?_,
    fun magic bytes e h hnonce => encode_of_decode h hnonce, decode_returns, ?_⟩
  · exact decode_encode magic nonce record hseq hpart hserial
  · intro magic magic' nonce seq baseboard record hne
    obtain ⟨rest, hstart⟩ := encode_starts magic nonce seq baseboard record
    rw [hstart]
    exact decode_of_other_magic hne rest

/-- **A slot holds what was stored in it**: the file that a store writes is read as the envelope it
stored, on a sled whose names fit. -/
theorem ofBytes_store {n : ℕ} {guard : Guard n} {record : List UInt8}
    (hpart : (utf8 (Phrases.baseboardId guard.baseboard).1).length ≤ 65535)
    (hserial : (utf8 (Phrases.baseboardId guard.baseboard).2).length ≤ 65535)
    (he : e ∈ (guard.store record).2) (magic : Magic) :
    SlotRead.ofBytes magic (encode magic e.nonce e.seq e.baseboard e.record) = .holds e := by
  unfold Guard.store at he
  split at he
  · cases he
  · cases he
    have hseq : (guard.reserved + 1) % 2 ^ 64 < 2 ^ 64 := Nat.mod_lt _ (by decide)
    rw [SlotRead.ofBytes, decode_encode magic guard.nonce record hseq hpart hserial]

end Envelope

end Sush

namespace Sush.Plain

attribute [local instance] world phrases digest

def boundaryMagic : Magic := ⟨Lib.utf8 "SUSHBOUNDARY", by decide⟩

def bookmarkMagic : Magic := ⟨Lib.utf8 "SUSHBOOKMARK", by decide⟩

def boundaryEnvelope : Envelope := ⟨5, 7, toLex ("913-0000019", "BRM42220031"), [1, 2]⟩

def boundaryBytes : List UInt8 :=
  Envelope.encode boundaryMagic boundaryEnvelope.nonce boundaryEnvelope.seq
    boundaryEnvelope.baseboard boundaryEnvelope.record

/-- Its bytes are read back under their own magic, written again as they were, and refused under the
other one. -/
theorem codec_round_trips_boundary :
    Envelope.decode boundaryMagic boundaryBytes = .ok (some boundaryEnvelope) ∧
      Envelope.encode boundaryMagic boundaryEnvelope.nonce boundaryEnvelope.seq
        boundaryEnvelope.baseboard boundaryEnvelope.record = boundaryBytes ∧
      Envelope.decode bookmarkMagic boundaryBytes = .ok none := by
  obtain ⟨hdecode, hencode, -, hother⟩ := Envelope.codec_round_trips
  have hread : Envelope.decode boundaryMagic boundaryBytes = .ok (some boundaryEnvelope) :=
    hdecode boundaryMagic _ _ _ _ (by decide) (by decide) (by decide)
  have hnonce : Envelope.nonceField boundaryBytes < 2 ^ 88 := by decide +kernel
  exact ⟨hread, hencode boundaryMagic boundaryBytes boundaryEnvelope hread hnonce,
    hother boundaryMagic bookmarkMagic _ _ _ _ (by decide)⟩

end Sush.Plain
