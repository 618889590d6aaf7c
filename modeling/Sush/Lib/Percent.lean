import Sush.Lib.Cursor

/-!
# Percent-encoding

A byte may be written as `%` and two hexadecimal digits. `percentDecode` reads such bytes back and leaves
everything else alone, also a `%` that no digits follow. `Encodes` says which texts write given bytes:
each byte as itself or as its digits, in either case, with `%` only as its digits. All of them are read
as these bytes (`Encodes.decode`).
-/

namespace Sush.Lib

/-- The value of a hexadecimal digit. -/
def hexValue (b : UInt8) : Option UInt8 :=
  if 48 ≤ b ∧ b ≤ 57 then some (b - 48)
  else if 65 ≤ b ∧ b ≤ 70 then some (b - 55)
  else if 97 ≤ b ∧ b ≤ 102 then some (b - 87)
  else none

/-- The byte that three bytes write, the first of which is a `%`. -/
def escaped (b high low : UInt8) : Option UInt8 :=
  if b = 37 then do
    let high ← hexValue high
    let low ← hexValue low
    return high * 16 + low
  else none

def percentDecode : List UInt8 → List UInt8
  | b :: high :: low :: rest =>
    match escaped b high low with
    | some byte => byte :: percentDecode rest
    | none => b :: percentDecode (high :: low :: rest)
  | bs => bs

theorem percentDecode_plain {b : UInt8} (h : b ≠ 37) (bs : List UInt8) :
    percentDecode (b :: bs) = b :: percentDecode bs := by
  cases bs with
  | nil => rfl
  | cons high bs =>
    cases bs with
    | nil => rfl
    | cons low rest => rw [percentDecode, escaped, if_neg h]

theorem percentDecode_escaped {b high low byte : UInt8} (h : escaped b high low = some byte)
    (bs : List UInt8) : percentDecode (b :: high :: low :: bs) = byte :: percentDecode bs := by
  rw [percentDecode, h]

/-- The text writes the bytes. -/
inductive Encodes : List UInt8 → List UInt8 → Prop
  | nil : Encodes [] []
  | plain {b : UInt8} {raw bs : List UInt8} (h : b ≠ 37) (hraw : Encodes raw bs) :
    Encodes (b :: raw) (b :: bs)
  | escaped {b high low byte : UInt8} {raw bs : List UInt8} (h : escaped b high low = some byte)
    (hraw : Encodes raw bs) : Encodes (b :: high :: low :: raw) (byte :: bs)

/-- **Every encoding of some bytes is read as these bytes.** -/
theorem Encodes.decode {raw bs : List UInt8} (h : Encodes raw bs) : percentDecode raw = bs := by
  induction h with
  | nil => rfl
  | plain hb _ ih => rw [percentDecode_plain hb, ih]
  | escaped hbyte _ ih => rw [percentDecode_escaped hbyte, ih]

end Sush.Lib
