import Mathlib.Algebra.Order.Ring.Nat
import Mathlib.Data.List.Basic
import Mathlib.Tactic.Ring

/-!
# Length-prefixed byte strings

A number is written as a fixed number of bytes, most significant first (`bigEndian`), and read back
(`ofBigEndian`). A byte string is framed by its length in eight bytes (`frame`), and a message is a
sequence of frames (`frames`). The length says where a frame ends, so a sequence of frames whose
lengths fit the prefix is read in one way only: `frames_injective`. Nothing is asked of what stands in
the frames.
-/

namespace Sush.Lib

/-! ## Numbers -/

/-- The `k` low bytes of `n`, most significant first. -/
def bigEndian : ℕ → ℕ → List UInt8
  | 0, _ => []
  | k + 1, n => bigEndian k (n / 256) ++ [UInt8.ofNat n]

/-- The number that `bs` writes, most significant byte first. -/
def ofBigEndian (bs : List UInt8) : ℕ := bs.foldl (fun n b => n * 256 + b.toNat) 0

@[simp] theorem length_bigEndian (k n : ℕ) : (bigEndian k n).length = k := by
  induction k generalizing n with
  | zero => rfl
  | succ k ih => simp [bigEndian, ih]

theorem bigEndian_zero (k : ℕ) : bigEndian k 0 = List.replicate k 0 := by
  induction k with
  | zero => rfl
  | succ k ih =>
    rw [bigEndian, Nat.zero_div, ih, List.replicate_succ']
    rfl

theorem bigEndian_add (j k n : ℕ) : bigEndian (j + k) n = bigEndian j (n / 256 ^ k) ++ bigEndian k n := by
  induction k generalizing n with
  | zero => simp [bigEndian]
  | succ k ih =>
    rw [Nat.add_succ, bigEndian, ih, bigEndian, List.append_assoc, Nat.div_div_eq_div_mul, pow_succ,
      mul_comm 256]

theorem ofBigEndian_concat (bs : List UInt8) (b : UInt8) :
    ofBigEndian (bs ++ [b]) = ofBigEndian bs * 256 + b.toNat := by
  simp [ofBigEndian]

theorem ofBigEndian_bigEndian (k n : ℕ) : ofBigEndian (bigEndian k n) = n % 256 ^ k := by
  induction k generalizing n with
  | zero => simp [bigEndian, ofBigEndian, Nat.mod_one]
  | succ k ih =>
    rw [bigEndian, ofBigEndian_concat, ih, pow_succ, mul_comm (256 ^ k), Nat.mod_mul]
    simp only [UInt8.toNat_ofNat', Nat.reducePow]
    ring

theorem ofBigEndian_bigEndian_of_lt {k n : ℕ} (h : n < 256 ^ k) :
    ofBigEndian (bigEndian k n) = n := by
  rw [ofBigEndian_bigEndian, Nat.mod_eq_of_lt h]

theorem bigEndian_inj {k n m : ℕ} (hn : n < 256 ^ k) (hm : m < 256 ^ k) :
    bigEndian k n = bigEndian k m ↔ n = m := by
  refine ⟨fun h => ?_, congrArg _⟩
  have := congrArg ofBigEndian h
  rwa [ofBigEndian_bigEndian_of_lt hn, ofBigEndian_bigEndian_of_lt hm] at this

/-! ## Text -/

def utf8 (s : String) : List UInt8 := s.toByteArray.data.toList

theorem utf8_inj {s t : String} : utf8 s = utf8 t ↔ s = t := by
  rw [utf8, utf8, Array.toList_inj, ← String.toByteArray_inj, ByteArray.ext_iff]

@[simp] theorem utf8_append (s t : String) : utf8 (s ++ t) = utf8 s ++ utf8 t := by
  simp [utf8]

theorem utf8_intercalate (sep : String) (ss : List String) :
    utf8 (sep.intercalate ss) = (utf8 sep).intercalate (ss.map utf8) := by
  induction ss with
  | nil => simp [utf8]
  | cons s ss ih =>
    cases ss with
    | nil => simp
    | cons t ss =>
      rw [String.intercalate_cons_cons, utf8_append, utf8_append, ih]
      simp [List.intercalate_cons_cons]

theorem mem_utf8 {s : String} {c : Char} (hc : c ∈ s.toList) {b : UInt8}
    (hb : b ∈ String.utf8EncodeChar c) : b ∈ utf8 s := by
  rw [utf8, ← String.utf8Encode_toList, List.utf8Encode, List.data_toByteArray]
  exact List.mem_flatMap.2 ⟨c, hc, hb⟩

theorem toNat_lt_of_utf8 {c : Char} (h : ∀ b ∈ String.utf8EncodeChar c, b < 128) :
    c.toNat < 128 ∧ UInt8.ofNat c.toNat ∈ String.utf8EncodeChar c := by
  by_cases hc : c.val.toNat ≤ 127
  · have hone : String.utf8EncodeChar c = [UInt8.ofNat c.val.toNat] := by
      rw [String.utf8EncodeChar, if_pos hc]
    rw [hone]
    exact ⟨Nat.lt_succ_of_le hc, List.mem_singleton_self _⟩
  · -- the first byte of a longer code is not ASCII
    exfalso
    unfold String.utf8EncodeChar at h
    dsimp only at h
    rw [if_neg hc] at h
    by_cases htwo : c.val.toNat ≤ 2047
    · rw [if_pos htwo] at h
      have := UInt8.lt_iff_toNat_lt.1 (h _ (List.mem_cons_self ..))
      simp only [UInt8.toNat_ofNat', UInt8.reduceToNat] at this
      omega
    rw [if_neg htwo] at h
    by_cases hthree : c.val.toNat ≤ 65535
    · rw [if_pos hthree] at h
      have := UInt8.lt_iff_toNat_lt.1 (h _ (List.mem_cons_self ..))
      simp only [UInt8.toNat_ofNat', UInt8.reduceToNat] at this
      omega
    · rw [if_neg hthree] at h
      have := UInt8.lt_iff_toNat_lt.1 (h _ (List.mem_cons_self ..))
      simp only [UInt8.toNat_ofNat', UInt8.reduceToNat] at this
      omega

/-! ## Frames -/

/-- `bs` behind its length. -/
def frame (bs : List UInt8) : List UInt8 := bigEndian 8 bs.length ++ bs

/-- The frames of `fs`, one after the other. -/
def frames (fs : List (List UInt8)) : List UInt8 := fs.flatMap frame

/-- Every field is short enough for its prefix. -/
def Framed (fs : List (List UInt8)) : Prop := ∀ f ∈ fs, f.length < 2 ^ 64

instance decidableFramed (fs : List (List UInt8)) : Decidable (Framed fs) :=
  inferInstanceAs (Decidable (∀ f ∈ fs, f.length < 2 ^ 64))

@[simp] theorem frames_nil : frames [] = [] := rfl

@[simp] theorem frames_cons (f : List UInt8) (fs : List (List UInt8)) :
    frames (f :: fs) = frame f ++ frames fs := rfl

theorem frame_ne_nil (bs : List UInt8) : frame bs ≠ [] := by
  intro h
  have := congrArg List.length h
  simp [frame] at this

theorem frame_append_inj {f g : List UInt8} {x y : List UInt8} (hf : f.length < 2 ^ 64)
    (hg : g.length < 2 ^ 64) (h : frame f ++ x = frame g ++ y) : f = g ∧ x = y := by
  rw [frame, frame, List.append_assoc, List.append_assoc] at h
  obtain ⟨hlength, hrest⟩ := List.append_inj h (by simp)
  exact List.append_inj hrest ((bigEndian_inj hf hg).1 hlength)

theorem frames_injective {fs gs : List (List UInt8)} (hfs : Framed fs) (hgs : Framed gs)
    (h : frames fs = frames gs) : fs = gs := by
  induction fs generalizing gs with
  | nil =>
    cases gs with
    | nil => rfl
    | cons g gs => exact absurd (List.append_eq_nil_iff.1 h.symm).1 (frame_ne_nil g)
  | cons f fs ih =>
    cases gs with
    | nil => exact absurd (List.append_eq_nil_iff.1 h).1 (frame_ne_nil f)
    | cons g gs =>
      have hf := List.forall_mem_cons.1 hfs
      have hg := List.forall_mem_cons.1 hgs
      obtain ⟨rfl, hrest⟩ := frame_append_inj hf.1 hg.1 h
      rw [ih hf.2 hg.2 hrest]

end Sush.Lib
