import Sush.Common.Authn
import Sush.Lib.Machine

/-!
# The sequence window is the spent set

`SeqWindow` compresses the numbers that were spent into the greatest one and a mask of 256 bits. Over
any calls it accepts exactly what was not accepted before and is not older than the window, and
nothing in it wraps around or shifts out of the mask.
-/

namespace Sush

namespace SeqWindow

/-! ## Arithmetic -/

/-- `a - b`, if it does not go below zero. -/
def subChecked (a b : UInt64) : Option UInt64 := if b ≤ a then some (a - b) else none

def shlChecked (mask : BitVec 256) (shift : UInt64) : Option (BitVec 256) :=
  if shift.toNat < 256 then some (mask <<< shift.toNat) else none

def bitChecked (mask : BitVec 256) (index : UInt64) : Option Bool :=
  if index.toNat < 256 then some (mask.getLsbD index.toNat) else none

/-- `spend`, where a subtraction below zero, or a shift or an index beyond the mask, gives nothing. -/
def spendChecked (w : SeqWindow) (seq : UInt64) : Option (SeqWindow × Bool) :=
  if seq > w.highest then do
    let shift ← subChecked seq w.highest
    let seen ← if shift < seqWindow then shlChecked w.seen shift else some 0
    return (⟨seq, seen ||| 1⟩, true)
  else do
    let age ← subChecked w.highest seq
    if age ≥ seqWindow then return (w, false)
    if ← bitChecked w.seen age then return (w, false)
    let mark ← shlChecked 1 age
    return (⟨w.highest, w.seen ||| mark⟩, true)

/-- **Nothing in `spend` goes below zero or beyond the mask.** -/
theorem spendChecked_eq (w : SeqWindow) (seq : UInt64) : w.spendChecked seq = some (w.spend seq) := by
  have hwindow : ∀ age : UInt64, age < seqWindow → age.toNat < 256 := fun age =>
    UInt64.lt_iff_toNat_lt.1
  unfold spendChecked spend
  by_cases habove : seq > w.highest
  · rw [if_pos habove, if_pos habove, subChecked, if_pos (UInt64.le_of_lt habove)]
    by_cases hshift : seq - w.highest < seqWindow
    · simp [hshift, shlChecked, hwindow _ hshift]
    · simp [hshift]
  · have hle : seq ≤ w.highest := UInt64.not_lt.1 habove
    rw [if_neg habove, if_neg habove, subChecked, if_pos hle]
    by_cases hold : w.highest - seq ≥ seqWindow
    · simp [hold]
    · have hage := hwindow _ (UInt64.not_le.1 hold)
      have hbit : bitChecked w.seen (w.highest - seq) =
          some (w.seen.getLsbD (w.highest - seq).toNat) := if_pos hage
      have hmark : shlChecked 1#256 (w.highest - seq) =
          some (1#256 <<< (w.highest - seq).toNat) := if_pos hage
      dsimp only
      generalize w.seen.getLsbD (w.highest - seq).toNat = spent at hbit ⊢
      cases spent <;> simp [hold, hbit, hmark]

/-! ## Calls -/

def call (w : SeqWindow) (seq : UInt64) : SeqWindow × List UInt64 :=
  ((w.spend seq).1, if (w.spend seq).2 then [seq] else [])

def calls (w : SeqWindow) (seqs : List UInt64) : SeqWindow × List UInt64 := Lib.run call w seqs

def greatest (seqs : List UInt64) : ℕ := (seqs.map UInt64.toNat).foldr max 0

theorem tracks_calls (seqs : List UInt64) :
    (default.calls seqs).1.Tracks { n | n ∈ (default.calls seqs).2 } ∧
      (default.calls seqs).2.Nodup := by
  refine Lib.run_invariant call (P := fun w _ accepted =>
    w.Tracks { n | n ∈ accepted } ∧ accepted.Nodup) (fun w _ accepted seq h => ?_)
    ⟨by simpa using tracks_default, List.nodup_nil⟩ seqs
  obtain ⟨htracks, hnodup⟩ := h
  obtain ⟨hiff, hnext⟩ := htracks.spend seq
  unfold call
  dsimp only
  cases hspend : (w.spend seq).2 with
  | false =>
    rw [hspend] at hnext
    simpa using ⟨hnext, hnodup⟩
  | true =>
    rw [hspend] at hnext
    have hnew : seq ∉ accepted := (hiff.1 hspend).1
    have hset : ({ n | n ∈ accepted ++ [seq] } : Set UInt64) = insert seq { n | n ∈ accepted } := by
      ext n
      simp [or_comm]
    refine ⟨?_, ?_⟩
    · rw [if_pos rfl, hset]
      exact hnext
    · rw [if_pos rfl, List.nodup_append]
      exact ⟨hnodup, List.nodup_singleton seq, by grind⟩

theorem le_greatest {seqs : List UInt64} {n : UInt64} (h : n ∈ seqs) : n.toNat ≤ greatest seqs := by
  induction seqs with
  | nil => cases h
  | cons m seqs ih =>
    have hcons : greatest (m :: seqs) = max m.toNat (greatest seqs) := rfl
    rw [hcons]
    rcases List.mem_cons.1 h with rfl | h
    · exact le_max_left _ _
    · exact (ih h).trans (le_max_right _ _)

theorem greatest_le {seqs : List UInt64} {bound : ℕ} (h : ∀ n ∈ seqs, n.toNat ≤ bound) :
    greatest seqs ≤ bound := by
  induction seqs with
  | nil => exact Nat.zero_le _
  | cons m seqs ih =>
    rw [List.forall_mem_cons] at h
    exact max_le h.1 (ih h.2)

theorem Tracks.highest_eq {w : SeqWindow} {accepted : List UInt64}
    (h : w.Tracks { n | n ∈ accepted }) : w.highest.toNat = greatest accepted := by
  apply le_antisymm
  · rcases h.highest_spent with hspent | hzero
    · exact le_greatest hspent
    · rw [hzero]
      exact Nat.zero_le _
  · exact greatest_le fun n hn => UInt64.le_iff_toNat_le.1 (h.le_highest n hn)

/-- **The sequence window refines the spent set.** After any calls, a number is accepted exactly when
it was not accepted before and is less than 256 below the greatest that was. So nothing is accepted
twice. No subtraction goes below zero and no shift beyond the mask. -/
theorem window_refines_spent (seqs : List UInt64) (seq : UInt64) :
    (((SeqWindow.default.calls seqs).1.spend seq).2 = true ↔
      seq ∉ (SeqWindow.default.calls seqs).2 ∧
        greatest (SeqWindow.default.calls seqs).2 < seq.toNat + 256) ∧
    (SeqWindow.default.calls seqs).2.Nodup ∧
    (SeqWindow.default.calls seqs).1.spendChecked seq =
      some ((SeqWindow.default.calls seqs).1.spend seq) := by
  obtain ⟨htracks, hnodup⟩ := tracks_calls seqs
  refine ⟨?_, hnodup, spendChecked_eq _ seq⟩
  rw [← htracks.highest_eq]
  exact (htracks.spend seq).1

end SeqWindow

end Sush
