import Mathlib

/-!
# Most recently used first

`recent` lists what was used, each once, the most recently used first. Another use moves an element to
the front (`recent_concat`). A list that keeps only the first `n + 1` of these can do the same without
what it has dropped: taking one element out of a list lets at most one other move up
(`take_filter_take`).
-/

namespace Sush.Lib

variable {α : Type} [DecidableEq α]

/-- The elements of a list of uses, the most recently used first. -/
def recent (uses : List α) : List α := uses.dedup.reverse

theorem nodup_recent (uses : List α) : (recent uses).Nodup := List.nodup_reverse.2 uses.nodup_dedup

theorem dedup_concat (uses : List α) (x : α) : (uses ++ [x]).dedup = uses.dedup.filter (· ≠ x) ++ [x] := by
  induction uses with
  | nil => rfl
  | cons a uses ih =>
    rw [List.cons_append]
    by_cases ha : a ∈ uses
    · rw [List.dedup_cons_of_mem (List.mem_append_left _ ha), List.dedup_cons_of_mem ha, ih]
    · rw [List.dedup_cons_of_notMem ha]
      by_cases hx : a = x
      · rw [List.dedup_cons_of_mem (List.mem_append_right _ (List.mem_singleton.2 hx)), ih]
        simp [hx]
      · have hnew : a ∉ uses ++ [x] := by simp [ha, hx]
        rw [List.dedup_cons_of_notMem hnew, ih]
        simp [hx]

/-- **Another use moves an element to the front.** -/
theorem recent_concat (uses : List α) (x : α) :
    recent (uses ++ [x]) = x :: (recent uses).filter (· ≠ x) := by
  rw [recent, dedup_concat, List.reverse_append, ← List.filter_reverse]
  rfl

/-- What is left of a list without `x` begins with what is left of its beginning. -/
theorem take_filter_take {l : List α} (h : l.Nodup) (n : ℕ) (x : α) :
    (l.filter (· ≠ x)).take n = ((l.take (n + 1)).filter (· ≠ x)).take n := by
  induction l generalizing n with
  | nil => rfl
  | cons a l ih =>
    obtain ⟨ha, hl⟩ := List.nodup_cons.1 h
    rw [List.take_succ_cons]
    by_cases hx : a = x
    · -- nothing else is dropped
      subst hx
      have hkeep (l' : List α) (hsub : l' ⊆ l) : l'.filter (· ≠ a) = l' := by
        refine List.filter_eq_self.2 fun b hb => decide_eq_true ?_
        rintro rfl
        exact ha (hsub hb)
      rw [List.filter_cons_of_neg (by simp), List.filter_cons_of_neg (by simp), hkeep l (List.Subset.refl l),
        hkeep _ (List.take_subset n l), List.take_take, min_self]
    · rw [List.filter_cons_of_pos (by simpa using hx), List.filter_cons_of_pos (by simpa using hx)]
      cases n with
      | zero => rfl
      | succ n => rw [List.take_succ_cons, List.take_succ_cons, ih hl n]

/-- **The front of the list is moved to without the rest of it.** -/
theorem take_recent_concat (uses : List α) (n : ℕ) (x : α) :
    (recent (uses ++ [x])).take (n + 1) =
      x :: (((recent uses).take (n + 1)).filter (· ≠ x)).take n := by
  rw [recent_concat, List.take_succ_cons, take_filter_take (nodup_recent uses)]

omit [DecidableEq α] in
theorem exists_most_recent {l : List α} {p : α → Prop} [DecidablePred p] (h : ∃ x ∈ l, p x) :
    ∃ newer x older, l = newer ++ x :: older ∧ (∀ y ∈ newer, ¬p y) ∧ p x := by
  obtain ⟨x, hmem, hx⟩ := h
  cases hfind : l.find? (fun y => decide (p y)) with
  | none => exact absurd hx (by simpa using List.find?_eq_none.1 hfind x hmem)
  | some first =>
    obtain ⟨hfirst, newer, older, heq, hnewer⟩ := List.find?_eq_some_iff_append.1 hfind
    exact ⟨newer, first, older, heq, fun y hy => by simpa using hnewer y hy, by simpa using hfirst⟩

end Sush.Lib
