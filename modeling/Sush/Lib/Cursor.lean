import Mathlib.Data.List.Induction
import Sush.Lib.Frame

/-!
# Fields read off the front of a byte string

A reader takes a byte string and gives what it read with the bytes that are left, or nothing if the
bytes do not suffice: a fixed number of bytes (`takeBytes`), a number (`takeNat`), a byte string
behind its length (`takeField`), or bytes that are known (`takeThis`). Each has one rule, which says
of a result what the bytes were: the rule both reads an encoding back and finds the encoding of what
was read.
-/

namespace Sush.Lib

variable {bs rest : List UInt8}

/-- The first `n` bytes. -/
def takeBytes (n : ℕ) (bs : List UInt8) : Option (List UInt8 × List UInt8) :=
  if n ≤ bs.length then some (bs.take n, bs.drop n) else none

/-- A number of `k` bytes. -/
def takeNat (k : ℕ) (bs : List UInt8) : Option (ℕ × List UInt8) :=
  (takeBytes k bs).map fun (number, rest) => (ofBigEndian number, rest)

/-- `field` behind its length in `k` bytes. -/
def behindLength (k : ℕ) (field : List UInt8) : List UInt8 := bigEndian k field.length ++ field

/-- A byte string behind its length in `k` bytes. -/
def takeField (k : ℕ) (bs : List UInt8) : Option (List UInt8 × List UInt8) :=
  (takeNat k bs).bind fun (length, rest) => takeBytes length rest

/-- What follows the bytes `known`. -/
def takeThis (known bs : List UInt8) : Option (List UInt8) :=
  if known <+: bs then some (bs.drop known.length) else none

theorem takeBytes_eq_some_iff {n : ℕ} {field : List UInt8} :
    takeBytes n bs = some (field, rest) ↔ field.length = n ∧ bs = field ++ rest := by
  unfold takeBytes
  constructor
  · intro h
    split at h
    · next hle =>
      cases h
      exact ⟨List.length_take_of_le hle, (List.take_append_drop n bs).symm⟩
    · cases h
  · rintro ⟨rfl, rfl⟩
    simp

theorem bigEndian_ofBigEndian (bs : List UInt8) : bigEndian bs.length (ofBigEndian bs) = bs := by
  induction bs using List.reverseRecOn with
  | nil => rfl
  | append_singleton bs b ih =>
    have hlt : b.toNat < 256 := b.toNat_lt
    have hdiv : (ofBigEndian bs * 256 + b.toNat) / 256 = ofBigEndian bs := by omega
    have hlow : UInt8.ofNat (ofBigEndian bs * 256 + b.toNat) = b := by
      apply UInt8.toNat.inj
      rw [UInt8.toNat_ofNat']
      omega
    rw [List.length_append, List.length_singleton, ofBigEndian_concat, bigEndian, hdiv, ih, hlow]

theorem ofBigEndian_lt (bs : List UInt8) : ofBigEndian bs < 256 ^ bs.length := by
  have h := ofBigEndian_bigEndian bs.length (ofBigEndian bs)
  rw [bigEndian_ofBigEndian] at h
  rw [h]
  exact Nat.mod_lt _ (Nat.pow_pos (by decide))

theorem takeNat_eq_some_iff {k n : ℕ} :
    takeNat k bs = some (n, rest) ↔ n < 256 ^ k ∧ bs = bigEndian k n ++ rest := by
  unfold takeNat
  simp only [Option.map_eq_some_iff, Prod.exists, takeBytes_eq_some_iff, Prod.mk.injEq]
  constructor
  · rintro ⟨number, rest', ⟨rfl, rfl⟩, rfl, rfl⟩
    exact ⟨ofBigEndian_lt number, by rw [bigEndian_ofBigEndian]⟩
  · rintro ⟨hlt, rfl⟩
    exact ⟨_, rest, ⟨length_bigEndian k n, rfl⟩, ofBigEndian_bigEndian_of_lt hlt, rfl⟩

theorem takeField_eq_some_iff {k : ℕ} {field : List UInt8} :
    takeField k bs = some (field, rest) ↔
      field.length < 256 ^ k ∧ bs = behindLength k field ++ rest := by
  unfold takeField behindLength
  simp only [Option.bind_eq_some_iff, Prod.exists, takeNat_eq_some_iff, takeBytes_eq_some_iff]
  constructor
  · rintro ⟨_, _, ⟨hlt, rfl⟩, rfl, rfl⟩
    exact ⟨hlt, (List.append_assoc _ _ _).symm⟩
  · rintro ⟨hlt, rfl⟩
    exact ⟨_, _, ⟨hlt, List.append_assoc _ _ _⟩, rfl, rfl⟩

theorem takeThis_eq_some_iff {known : List UInt8} :
    takeThis known bs = some rest ↔ bs = known ++ rest := by
  unfold takeThis
  constructor
  · intro h
    split at h
    · next hfront =>
      obtain ⟨tail, rfl⟩ := hfront
      cases h
      simp
    · cases h
  · rintro rfl
    simp

/-! ## Text -/

def ofUtf8 (bs : List UInt8) : Option String := String.fromUTF8? ⟨bs.toArray⟩

theorem ofUtf8_eq_some_iff {s : String} : ofUtf8 bs = some s ↔ bs = utf8 s := by
  unfold ofUtf8 utf8 String.fromUTF8?
  constructor
  · intro h
    split at h
    · next hvalid =>
      cases h
      rfl
    · cases h
  · rintro rfl
    have hvalid : ByteArray.IsValidUTF8 ⟨s.toByteArray.data.toList.toArray⟩ := by
      simpa using s.isValidUTF8
    rw [dif_pos hvalid]
    exact congrArg some (String.toByteArray_inj.1 rfl)

end Sush.Lib
