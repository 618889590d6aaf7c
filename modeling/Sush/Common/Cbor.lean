import Mathlib.Data.Nat.Pairing
import Sush.Lib.Frame
import Sush.Lib.Numbering

/-!
# CBOR

The crate that reads and writes CBOR, `ciborium`, is not part of the repository. What is taken from it
is `Ciborium`: values are written so that they are read back, and the typed reads accept the values
that are written for their types. What they make of other values is left open: some skip tags, some
take byte strings for text.
-/

namespace Sush

/-- A number of 16 bits. -/
abbrev U16 : Type := Fin (2 ^ 16)

-- for numerals of 16 bits
instance neZero_two_pow_16 : NeZero (2 ^ 16) := inferInstance

/-- The integers that CBOR writes: 64 bits and a sign. -/
abbrev CborInteger : Type := { n : ℤ // -2 ^ 64 ≤ n ∧ n < 2 ^ 64 }

/-- `ciborium::Value`. A float is given by its bits. -/
inductive Cbor where
  | integer (n : CborInteger)
  | bytes (bytes : List UInt8)
  | float (bits : UInt64)
  | text (text : String)
  | bool (value : Bool)
  | null
  | tag (tag : UInt64) (value : Cbor)
  | array (elements : List Cbor)
  | map (entries : List (Cbor × Cbor))

/-- A number of 16 bits as a value. -/
def Cbor.ofU16 (n : U16) : Cbor := .integer ⟨n.val, by omega, by omega⟩

/-- The method of a visitor that `deserialize_any` calls, as far as a visitor of the repository has
it. -/
inductive Visit where
  | str (text : String)
  | map (entries : List (Cbor × Cbor))
  | other

class Ciborium where
  /-- `into_writer`, of a value. -/
  write : Cbor → List UInt8
  /-- `from_reader`, of a value. -/
  read : List UInt8 → Option Cbor
  /-- `deserialize_any`. -/
  visit : Cbor → Visit
  /-- `deserialize_seq`: the elements. -/
  seq : Cbor → Option (List Cbor)
  /-- `deserialize_u16`. -/
  u16 : Cbor → Option U16
  /-- `deserialize_bytes`. -/
  byteString : Cbor → Option (List UInt8)
  /-- `deserialize_string`. -/
  string : Cbor → Option String
  read_write : ∀ value, read (write value) = some value
  visit_text : ∀ text, visit (.text text) = .str text
  visit_map : ∀ entries, visit (.map entries) = .map entries
  seq_array : ∀ elements, seq (.array elements) = some elements
  u16_ofU16 : ∀ n, u16 (.ofU16 n) = some n
  /-- Of any length: that the crate may refuse byte strings longer than a buffer of its own is left out. -/
  byteString_bytes : ∀ bytes, byteString (.bytes bytes) = some bytes
  string_text : ∀ text, string (.text text) = some text

attribute [simp] Ciborium.read_write Ciborium.visit_text Ciborium.visit_map Ciborium.seq_array
  Ciborium.u16_ofU16 Ciborium.byteString_bytes Ciborium.string_text

/-! ## A crate that keeps what it writes

Values are numbered, and a value is written as that many bytes. -/

namespace Cbor

open Lib (num)

mutual

/-- A number that determines a value. -/
noncomputable def code : Cbor → ℕ
  | integer n => Nat.pair 0 (num n)
  | bytes bs => Nat.pair 1 (num bs)
  | float bits => Nat.pair 2 (num bits)
  | text s => Nat.pair 3 (num s)
  | bool value => Nat.pair 4 (num value)
  | null => Nat.pair 5 0
  | tag t value => Nat.pair 6 (Nat.pair (num t) (code value))
  | array elements => Nat.pair 7 (codes elements)
  | map entries => Nat.pair 8 (codeEntries entries)

noncomputable def codes : List Cbor → ℕ
  | [] => 0
  | value :: values => Nat.pair (code value) (codes values) + 1

noncomputable def codeEntries : List (Cbor × Cbor) → ℕ
  | [] => 0
  | (key, value) :: entries => Nat.pair (Nat.pair (code key) (code value)) (codeEntries entries) + 1

end

mutual

theorem code_inj (v w : Cbor) (h : code v = code w) : v = w := by
  cases v <;> cases w <;> simp [code] at h ⊢
  case tag.tag t v u w => exact ⟨h.1, code_inj v w h.2⟩
  case array.array vs ws => exact codes_inj vs ws h
  case map.map vs ws => exact codeEntries_inj vs ws h
  all_goals exact h

theorem codes_inj : ∀ (vs ws : List Cbor), codes vs = codes ws → vs = ws
  | [], [], _ => rfl
  | [], _ :: _, h => by simp [codes] at h
  | _ :: _, [], h => by simp [codes] at h
  | v :: vs, w :: ws, h => by
    simp only [codes, Nat.add_right_cancel_iff, Nat.pair_eq_pair] at h
    rw [code_inj v w h.1, codes_inj vs ws h.2]

theorem codeEntries_inj : ∀ (vs ws : List (Cbor × Cbor)), codeEntries vs = codeEntries ws → vs = ws
  | [], [], _ => rfl
  | [], (_, _) :: _, h => by simp [codeEntries] at h
  | (_, _) :: _, [], h => by simp [codeEntries] at h
  | (k, v) :: vs, (l, w) :: ws, h => by
    simp only [codeEntries, Nat.add_right_cancel_iff, Nat.pair_eq_pair] at h
    rw [code_inj k l h.1.1, code_inj v w h.1.2, codeEntries_inj vs ws h.2]

end

instance countableCbor : Countable Cbor := Function.Injective.countable (f := code) code_inj

end Cbor

end Sush

namespace Sush.Plain

/-- A value is written as its number, in unary. -/
noncomputable abbrev ciborium : Ciborium where
  write value := List.replicate (Lib.num value) 0
  read bytes := Lib.ofNum Cbor bytes.length
  visit
    | .text text => .str text
    | .map entries => .map entries
    | _ => .other
  seq
    | .array elements => some elements
    | _ => none
  u16
    | .integer n => if h : n.val.toNat < 2 ^ 16 then some ⟨n.val.toNat, h⟩ else none
    | _ => none
  byteString
    | .bytes bytes => some bytes
    | _ => none
  string
    | .text text => some text
    | _ => none
  read_write value := by rw [List.length_replicate, Lib.ofNum_num]
  visit_text _ := rfl
  visit_map _ := rfl
  seq_array _ := rfl
  u16_ofU16 n := dif_pos n.isLt
  byteString_bytes _ := rfl
  string_text _ := rfl

end Sush.Plain
