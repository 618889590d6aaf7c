import Sush.Lib.Cursor

/-!
# Numbers without the zeros in front

A number has one shortest byte string, most significant byte first: any other is that one behind zeros.
`magnitude` strips the zeros, which does not change the number (`ofBigEndian_magnitude`), and the length
of what is left says how large the number is (`length_magnitude_le_iff`).
-/

namespace Sush.Lib

def magnitude (bs : List UInt8) : List UInt8 := bs.dropWhile (· = 0)

@[simp] theorem magnitude_zero_cons (bs : List UInt8) : magnitude (0 :: bs) = magnitude bs := rfl

theorem magnitude_of_head_ne_zero {b : UInt8} (bs : List UInt8) (h : b ≠ 0) :
    magnitude (b :: bs) = b :: bs := by
  simp [magnitude, h]

theorem exists_replicate_append_magnitude (bs : List UInt8) :
    ∃ n, bs = List.replicate n 0 ++ magnitude bs := by
  induction bs with
  | nil => exact ⟨0, rfl⟩
  | cons b bs ih =>
    by_cases hb : b = 0
    · obtain ⟨n, hn⟩ := ih
      refine ⟨n + 1, ?_⟩
      rw [hb, magnitude_zero_cons, List.replicate_succ, List.cons_append, ← hn]
    · exact ⟨0, (magnitude_of_head_ne_zero bs hb).symm⟩

theorem magnitude_eq_nil_or (bs : List UInt8) :
    magnitude bs = [] ∨ ∃ b rest, b ≠ 0 ∧ magnitude bs = b :: rest := by
  induction bs with
  | nil => exact .inl rfl
  | cons b bs ih =>
    by_cases hb : b = 0
    · rwa [hb, magnitude_zero_cons]
    · exact .inr ⟨b, bs, hb, magnitude_of_head_ne_zero bs hb⟩

theorem ofBigEndian_append (bs cs : List UInt8) :
    ofBigEndian (bs ++ cs) = ofBigEndian bs * 256 ^ cs.length + ofBigEndian cs := by
  induction cs using List.reverseRecOn with
  | nil => simp [ofBigEndian]
  | append_singleton cs c ih =>
    rw [← List.append_assoc, ofBigEndian_concat, ih, ofBigEndian_concat, List.length_append,
      List.length_singleton, pow_succ]
    ring

theorem ofBigEndian_replicate_append (n : ℕ) (bs : List UInt8) :
    ofBigEndian (List.replicate n 0 ++ bs) = ofBigEndian bs := by
  have hzeros : ofBigEndian (List.replicate n 0) = 0 := by
    rw [← bigEndian_zero, ofBigEndian_bigEndian, Nat.zero_mod]
  rw [ofBigEndian_append, hzeros, Nat.zero_mul, Nat.zero_add]

@[simp] theorem ofBigEndian_magnitude (bs : List UInt8) :
    ofBigEndian (magnitude bs) = ofBigEndian bs := by
  obtain ⟨n, hn⟩ := exists_replicate_append_magnitude bs
  conv => rhs; rw [hn, ofBigEndian_replicate_append]

theorem le_ofBigEndian_cons {b : UInt8} (bs : List UInt8) (h : b ≠ 0) :
    256 ^ bs.length ≤ ofBigEndian (b :: bs) := by
  have hpos : 0 < b.toNat := by
    rw [Nat.pos_iff_ne_zero]
    exact fun h0 => h (UInt8.toNat.inj h0)
  have hvalue : ofBigEndian ([b] ++ bs) = b.toNat * 256 ^ bs.length + ofBigEndian bs := by
    rw [ofBigEndian_append, show ofBigEndian [b] = b.toNat from Nat.zero_add _]
  calc 256 ^ bs.length
      ≤ b.toNat * 256 ^ bs.length := Nat.le_mul_of_pos_left _ hpos
    _ ≤ ofBigEndian (b :: bs) := by
      rw [← List.singleton_append, hvalue]
      exact Nat.le_add_right _ _

theorem length_magnitude_le_iff {bs : List UInt8} {k : ℕ} :
    (magnitude bs).length ≤ k ↔ ofBigEndian bs < 256 ^ k := by
  constructor
  · intro h
    have hlt := ofBigEndian_lt (magnitude bs)
    rw [ofBigEndian_magnitude] at hlt
    exact lt_of_lt_of_le hlt (Nat.pow_le_pow_right (by decide) h)
  · intro h
    by_contra hlong
    obtain hnil | ⟨b, rest, hb, hcons⟩ := magnitude_eq_nil_or bs
    · rw [hnil] at hlong
      exact hlong (Nat.zero_le k)
    · have hlen : k ≤ rest.length := by
        rw [hcons, List.length_cons] at hlong
        omega
      have hle : 256 ^ k ≤ ofBigEndian bs := by
        rw [← ofBigEndian_magnitude, hcons]
        exact le_trans (Nat.pow_le_pow_right (by decide) hlen) (le_ofBigEndian_cons rest hb)
      omega

end Sush.Lib
