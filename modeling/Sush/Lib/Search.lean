import Mathlib.Data.List.Basic

/-!
# Binary search

`locate` halves an interval of positions until one is left, always keeping the half that a sorted list
would have the key in, and `binarySearch` looks at that position. On a strictly sorted list the
position found for a member is the member's own (`binarySearch_getElem`); a position that is returned
always holds the key (`binarySearch_eq_some`). `ascending` checks in one pass that a list is sorted.
-/

namespace Sush.Lib

variable {α : Type} [LT α] [DecidableLT α]

/-- The last position among the `size` ones from `base` on that a search for `x` is left with. -/
def locate (l : List α) (x : α) (base size : ℕ) : ℕ :=
  if size ≤ 1 then base
  else
    -- the comparison is with the middle; the half it belongs to is kept
    match l[base + size / 2]? with
    | some middle =>
      if x < middle then locate l x base (size - size / 2)
      else locate l x (base + size / 2) (size - size / 2)
    | none => base
termination_by size

/-- The position of `x` in `l`, as a binary search finds it. -/
def binarySearch [DecidableEq α] (l : List α) (x : α) : Option ℕ :=
  let i := locate l x 0 l.length
  if l[i]? = some x then some i else none

theorem binarySearch_eq_some [DecidableEq α] {l : List α} {x : α} {i : ℕ}
    (h : binarySearch l x = some i) : l[i]? = some x := by
  unfold binarySearch at h
  dsimp only at h
  split at h
  case isTrue hx =>
    cases h
    exact hx
  case isFalse => cases h

def ascending : List α → Bool
  | a :: b :: l => decide (a < b) && ascending (b :: l)
  | _ => true

theorem pairwise_of_ascending [Trans (α := α) (· < ·) (· < ·) (· < ·)] {l : List α}
    (h : ascending l) : l.Pairwise (· < ·) := by
  refine List.IsChain.pairwise ?_
  fun_induction ascending l with
  | case1 a b l ih =>
    obtain ⟨hlt, hrest⟩ := Bool.and_eq_true_iff.1 h
    exact .cons_cons (of_decide_eq_true hlt) (ih hrest)
  | case2 l hshort =>
    cases l with
    | nil => exact .nil
    | cons a l =>
      cases l with
      | nil => exact .singleton a
      | cons b l => exact absurd rfl (hshort a b l)

variable [Std.Asymm (α := α) (· < ·)]

theorem locate_getElem {l : List α} (hsorted : l.Pairwise (· < ·)) {i : ℕ} (hi : i < l.length)
    {base size : ℕ} (hbase : base ≤ i) (hsize : i < base + size) (hlen : base + size ≤ l.length) :
    locate l l[i] base size = i := by
  have hlt := List.pairwise_iff_getElem.1 hsorted
  fun_induction locate l l[i] base size with
  | case1 base size hone => omega
  | case2 base size hone middle hmiddle hless ih =>
    obtain ⟨hmid, rfl⟩ := List.getElem?_eq_some_iff.1 hmiddle
    -- the middle is above the element, so the element is in the lower half
    have hbelow : i < base + size / 2 := by
      by_contra hge
      rcases Nat.eq_or_lt_of_le (Nat.le_of_not_lt hge) with heq | hgt
      · subst heq
        exact Std.Asymm.asymm _ _ hless hless
      · exact Std.Asymm.asymm _ _ hless (hlt _ _ hmid hi hgt)
    exact ih hbase (by omega) (by omega)
  | case3 base size hone middle hmiddle hless ih =>
    obtain ⟨hmid, rfl⟩ := List.getElem?_eq_some_iff.1 hmiddle
    have habove : base + size / 2 ≤ i := by
      by_contra hgt
      exact hless (hlt _ _ hi hmid (Nat.lt_of_not_le hgt))
    exact ih habove (by omega) (by omega)
  | case4 base size hone hmiddle =>
    have := List.getElem?_eq_none_iff.1 hmiddle
    omega

theorem binarySearch_getElem [DecidableEq α] {l : List α} (hsorted : l.Pairwise (· < ·)) {i : ℕ}
    (hi : i < l.length) : binarySearch l l[i] = some i := by
  have hat := locate_getElem hsorted hi (Nat.zero_le i) (by omega) (Nat.le_of_eq (Nat.zero_add _))
  simp [binarySearch, hat, hi]

end Sush.Lib
