import Sush.Common.Serde
import Sush.Lib.Cursor

/-!
# Code phrases under a name

`codephrase_newtype!` of `common/src/codephrases.rs`. Identifiers, nonces and sequence numbers are
structures around a code phrase. Nothing in their type bounds the phrase: it is the conversion
`try_from` that refuses a phrase wider than the name allows, and the other constructors discard what is
too wide. `Newtype` is such a structure as the source has it, and `Newtype.Canonical` the bound.
Everywhere else these values are numbers below the bound (`Newtype.ofFin`); parsing one is parsing such
a number (`Newtype.tryFrom_eq`).

A canonical value is also what survives its text and its bytes (`fromStr_display_iff`,
`fromBeBytes_toBeBytes_iff`, `deserialize_serialize_iff`).
-/

namespace Sush

/-! ## Masks -/

namespace Codephrase

/-- Keep only the low-order bits of some entropy. -/
def mask (bits : ℕ) (c : Codephrase) : Codephrase :=
  ⟨c.val &&& (2 ^ bits - 1), lt_of_le_of_lt Nat.and_le_left c.isLt⟩

def truncate (c : Codephrase) : Codephrase := c.mask 88

def shorten (c : Codephrase) : Codephrase := c.mask 44

theorem ofBigEndian_lt (bytes : Vector UInt8 32) : Lib.ofBigEndian bytes.toList < 2 ^ 256 := by
  have h := Lib.ofBigEndian_lt bytes.toList
  rwa [Vector.length_toList] at h

/-- The phrase of 32 bytes, most significant first. -/
def fromBeBytes (bytes : Vector UInt8 32) : Codephrase :=
  ⟨Lib.ofBigEndian bytes.toList, ofBigEndian_lt bytes⟩

theorem size_toBeBytes (c : Codephrase) : (Sush.toBeBytes c).toArray.size = 32 := by
  rw [List.size_toArray, length_toBeBytes]

def toBeBytes (c : Codephrase) : Vector UInt8 32 := ⟨(Sush.toBeBytes c).toArray, size_toBeBytes c⟩

theorem toNat_lt (n : UInt64) : n.toNat < 2 ^ 256 := lt_trans n.toNat_lt (by decide)

/-- The phrase of a small integer. -/
def fromU64 (value : UInt64) : Codephrase := ⟨value.toNat, toNat_lt value⟩

/-- The small integer of a phrase, or nothing if it is wider than 64 bits. -/
def toU64 (c : Codephrase) : Option UInt64 :=
  let bytes := c.toBeBytes.toList
  if (bytes.take 24).any (· ≠ 0) then none
  else some (UInt64.ofNat (Lib.ofBigEndian (bytes.drop 24)))

theorem val_mask (bits : ℕ) (c : Codephrase) : (c.mask bits).val = c.val % 2 ^ bits :=
  Nat.and_two_pow_sub_one_eq_mod c.val bits

@[simp] theorem toList_toBeBytes (c : Codephrase) : c.toBeBytes.toList = Sush.toBeBytes c := rfl

@[simp] theorem fromBeBytes_toBeBytes (c : Codephrase) : fromBeBytes c.toBeBytes = c := by
  apply Fin.ext
  simp only [fromBeBytes, toList_toBeBytes]
  exact ofBigEndian_toBeBytes c (Nat.le_refl 256)

theorem toBeBytes_of_lt {c : Codephrase} (h : c.val < 2 ^ 64) :
    Sush.toBeBytes c = List.replicate 24 0 ++ Lib.bigEndian 8 c.val := by
  have hhigh : c.val / 256 ^ 8 = 0 := Nat.div_eq_of_lt h
  rw [Sush.toBeBytes, Lib.bigEndian_add 24 8, hhigh, Lib.bigEndian_zero]

theorem toU64_of_lt {c : Codephrase} (h : c.val < 2 ^ 64) : c.toU64 = some (UInt64.ofNat c.val) := by
  have hzero : ((List.replicate 24 (0 : UInt8)).any fun b => decide (b ≠ 0)) = false := by decide
  unfold toU64
  dsimp only
  rw [toList_toBeBytes, toBeBytes_of_lt h, List.take_left' List.length_replicate,
    List.drop_left' List.length_replicate, hzero, if_neg Bool.false_ne_true,
    Lib.ofBigEndian_bigEndian_of_lt h]

end Codephrase

/-! ## Lengths -/

/-- How much of a phrase a name keeps. -/
inductive CodephraseLength where
  | full
  | truncated
  | short
  deriving DecidableEq

namespace CodephraseLength

def canonical : CodephraseLength → Codephrase → Codephrase
  | full, c => c
  | truncated, c => c.truncate
  | short, c => c.shorten

/-- The number of bits that are kept. -/
def bits : CodephraseLength → ℕ
  | full => 256
  | truncated => 88
  | short => 44

theorem bits_le (length : CodephraseLength) : length.bits ≤ 256 := by
  cases length <;> decide

theorem val_canonical (length : CodephraseLength) (c : Codephrase) :
    (length.canonical c).val = c.val % 2 ^ length.bits := by
  cases length with
  | full => exact (Nat.mod_eq_of_lt c.isLt).symm
  | truncated => exact c.val_mask 88
  | short => exact c.val_mask 44

theorem canonical_eq_self_iff {length : CodephraseLength} {c : Codephrase} :
    length.canonical c = c ↔ c.val < 2 ^ length.bits := by
  rw [Fin.ext_iff, val_canonical]
  refine ⟨fun h => ?_, Nat.mod_eq_of_lt⟩
  rw [← h]
  exact Nat.mod_lt _ (Nat.two_pow_pos _)

end CodephraseLength

/-! ## Newtypes -/

/-- A structure that `codephrase_newtype!` declares. -/
structure Newtype (length : CodephraseLength) where
  phrase : Codephrase
  deriving DecidableEq

namespace Newtype

variable {length : CodephraseLength}

variable {x : Newtype length}

/-- The value is as narrow as its name says. -/
def Canonical (x : Newtype length) : Prop := x.phrase.val < 2 ^ length.bits

/-- Fail on values wider than the type allows. -/
def tryFrom (c : Codephrase) : Option (Newtype length) :=
  if length.canonical c ≠ c then none else some ⟨c⟩

/-- `random`, from 256 random bits. -/
def random (entropy : Codephrase) : Newtype length := ⟨length.canonical entropy⟩

def fromBeBytes (bytes : Vector UInt8 32) : Newtype length :=
  ⟨length.canonical (Codephrase.fromBeBytes bytes)⟩

/-- `from_hash`, from the bytes of the hash. -/
def fromHash (hash : Vector UInt8 32) : Newtype length :=
  ⟨length.canonical (Codephrase.fromBeBytes hash)⟩

def toBeBytes (x : Newtype length) : Vector UInt8 32 := x.phrase.toBeBytes

def display (x : Newtype length) : String := x.phrase.display wordlist

def fromStr (s : String) : Option (Newtype length) := Codephrase.fromStr wordlist s >>= tryFrom

def serialize (format : Format) (x : Newtype length) : Value := x.phrase.serialize format

/-- A newtype is read as the phrase in it, by way of `try_from`. -/
def deserialize (format : Format) (value : Value) : Except SerdeError (Newtype length) := do
  let c ← Codephrase.deserialize format value
  match tryFrom c with
  | some x => return x
  | none => throw invalidCodephrase

theorem canonical_canonical (c : Codephrase) : Canonical (⟨length.canonical c⟩ : Newtype length) := by
  rw [Canonical, CodephraseLength.val_canonical]
  exact Nat.mod_lt _ (Nat.two_pow_pos _)

theorem tryFrom_eq_some_iff {c : Codephrase} : tryFrom c = some x ↔ c = x.phrase ∧ x.Canonical := by
  unfold tryFrom
  by_cases hc : length.canonical c = c
  · rw [if_neg (not_not.2 hc), Option.some.injEq]
    refine ⟨fun h => ?_, fun h => by rw [h.1]⟩
    subst h
    exact ⟨rfl, CodephraseLength.canonical_eq_self_iff.1 hc⟩
  · rw [if_pos hc]
    refine ⟨fun h => (by cases h), ?_⟩
    rintro ⟨rfl, hcanonical⟩
    exact absurd (CodephraseLength.canonical_eq_self_iff.2 hcanonical) hc

theorem fromStr_eq_some_iff {s : String} :
    fromStr s = some x ↔ Codephrase.fromStr wordlist s = some x.phrase ∧ x.Canonical := by
  rw [fromStr, Option.bind_eq_bind, Option.bind_eq_some_iff]
  simp only [tryFrom_eq_some_iff]
  constructor
  · rintro ⟨c, hread, rfl, hcanonical⟩
    exact ⟨hread, hcanonical⟩
  · rintro ⟨hread, hcanonical⟩
    exact ⟨_, hread, rfl, hcanonical⟩

theorem deserialize_eq_ok_iff {format : Format} {value : Value} :
    deserialize format value = .ok x ↔
      Codephrase.deserialize format value = .ok x.phrase ∧ x.Canonical := by
  unfold deserialize
  cases hread : Codephrase.deserialize format value with
  | error e => exact ⟨fun h => (by cases h), fun h => (by cases h.1)⟩
  | ok c =>
    rw [Except.ok.injEq, ← tryFrom_eq_some_iff]
    show (match tryFrom c with
      | some x => pure x
      | none => throw invalidCodephrase) = Except.ok x ↔ _
    cases htry : (tryFrom c : Option (Newtype length)) with
    | none => exact ⟨fun h => (by cases h), fun h => (by cases h)⟩
    | some y => exact ⟨fun h => congrArg some (Except.ok.inj h), fun h => congrArg _ (Option.some.inj h)⟩

/-! ### Round trips -/

theorem fromStr_display_iff : fromStr x.display = some x ↔ x.Canonical := by
  rw [fromStr_eq_some_iff, display, Codephrase.fromStr_display, and_iff_right rfl]

theorem fromBeBytes_toBeBytes_iff : fromBeBytes x.toBeBytes = x ↔ x.Canonical := by
  rw [fromBeBytes, toBeBytes, Codephrase.fromBeBytes_toBeBytes, Canonical,
    ← CodephraseLength.canonical_eq_self_iff]
  exact ⟨fun h => congrArg phrase h, fun h => congrArg mk h⟩

theorem deserialize_serialize_iff {format : Format} :
    deserialize format (x.serialize format) = .ok x ↔ x.Canonical := by
  rw [deserialize_eq_ok_iff, serialize, Codephrase.deserialize_serialize, and_iff_right rfl]

/-! ### Numbers below the bound -/

/-- A number below the bound as a newtype. -/
def ofFin (p : Fin (2 ^ length.bits)) : Newtype length := ⟨widen p length.bits_le⟩

/-- The number below the bound of a newtype. -/
def toFin (x : Newtype length) : Fin (2 ^ length.bits) := Sush.canonical length.bits x.phrase.val

theorem tryFrom_eq (c : Codephrase) :
    (tryFrom c : Option (Newtype length)) = (Sush.tryFrom length.bits c).map ofFin := by
  unfold tryFrom Sush.tryFrom
  have hmod : length.canonical c = c ↔ (canonical length.bits c.val).val = c.val := by
    rw [Fin.ext_iff, CodephraseLength.val_canonical]
    rfl
  by_cases hc : length.canonical c = c
  · rw [if_neg (not_not.2 hc), if_pos (hmod.1 hc), Option.map_some]
    exact congrArg some (congrArg mk (Fin.ext (hmod.1 hc).symm))
  · rw [if_pos hc, if_neg fun h => hc (hmod.2 h), Option.map_none]

/-! ### Sequence numbers -/

/-- The largest encodable wall clock reading. -/
def maxMillis : UInt64 := ((1 : UInt64) <<< 44) - 1

def zero : Newtype .short := ⟨Codephrase.fromU64 0⟩

/-- A sequence number from a wall clock reading, if it is in range. -/
def fromUnixMillis (millis : UInt64) : Option (Newtype .short) :=
  if millis > maxMillis then none else some ⟨Codephrase.fromU64 millis⟩

/-- The wall clock reading of a sequence number. There is none if `expect` panics. -/
def asUnixMillis (seq : Newtype .short) : Option UInt64 := seq.phrase.toU64

theorem canonical_zero : zero.Canonical := Nat.two_pow_pos 44

theorem canonical_fromUnixMillis {millis : UInt64} {seq : Newtype .short}
    (h : fromUnixMillis millis = some seq) : seq.Canonical := by
  unfold fromUnixMillis at h
  by_cases hrange : millis > maxMillis
  · rw [if_pos hrange] at h
    cases h
  · rw [if_neg hrange] at h
    cases h
    have hle := UInt64.le_iff_toNat_le.1 (UInt64.not_lt.1 hrange)
    exact Nat.lt_of_le_of_lt hle (by decide)

theorem asUnixMillis_of_canonical {seq : Newtype .short} (h : seq.Canonical) :
    seq.asUnixMillis = some (UInt64.ofNat seq.phrase.val) :=
  Codephrase.toU64_of_lt (lt_trans h (by decide))

end Newtype

end Sush
