import Sush.Lib.Map

/-!
# First occurrences and pages

`firsts` keeps the first occurrence of each element of a list. If the list is read off strictly
decreasing entries, the elements come in the order of their greatest entries (`pairwise_firsts`).

`take_pages` says that pages of a list put together are the list as far as they reach.
-/

namespace Sush.Lib

variable {E K : Type} [LinearOrder K]

def firsts (seen : BTreeSet K) : List K → List K
  | [] => []
  | k :: ks => if seen.contains k then firsts seen ks else k :: firsts (seen.insert k) ks

variable {seen : BTreeSet K} {k : K} {ks : List K}

theorem mem_firsts : k ∈ firsts seen ks ↔ k ∈ ks ∧ seen.contains k = false := by
  induction ks generalizing seen with
  | nil => simp [firsts]
  | cons a ks ih =>
    unfold firsts
    split
    · rename_i ha
      rw [ih, List.mem_cons]
      refine and_congr_left fun hk => (or_iff_right ?_).symm
      rintro rfl
      rw [ha] at hk
      cases hk
    · rename_i ha
      rw [List.mem_cons, ih, List.mem_cons]
      by_cases hk : k = a
      · subst hk
        simp [ha]
      · have hinsert : (seen.insert a).contains k = seen.contains k := by
          rw [Bool.eq_iff_iff, BTreeSet.contains_insert_iff, or_iff_right (Ne.symm hk)]
        simp [hk, hinsert]

theorem nodup_firsts : (firsts seen ks).Nodup := by
  induction ks generalizing seen with
  | nil => exact List.nodup_nil
  | cons a ks ih =>
    unfold firsts
    split
    · exact ih
    · refine List.nodup_cons.2 ⟨fun ha => ?_, ih⟩
      have hnew := (mem_firsts.1 ha).2
      rw [BTreeSet.contains_insert_iff.2 (.inl rfl)] at hnew
      cases hnew

/-- The entries of `es` that belong to `k`. -/
def entriesOf (f : E → K) (es : List E) (k : K) : Set E := {e | e ∈ es ∧ f e = k}

omit [LinearOrder K] in
theorem entriesOf_cons_of_ne {f : E → K} {es : List E} {e : E} (h : f e ≠ k) :
    entriesOf f (e :: es) k = entriesOf f es k := by
  ext x
  simp only [entriesOf, Set.mem_ofPred_eq, List.mem_cons]
  constructor
  · rintro ⟨rfl | hx, hk⟩
    · exact absurd hk h
    · exact ⟨hx, hk⟩
  · rintro ⟨hx, hk⟩
    exact ⟨.inr hx, hk⟩

theorem pairwise_firsts [LinearOrder E] {f : E → K} {es : List E} (h : es.Pairwise (· > ·)) :
    (firsts seen (es.map f)).Pairwise fun j k =>
      ∀ e e', IsGreatest (entriesOf f es j) e → IsGreatest (entriesOf f es k) e' → e' < e := by
  induction es generalizing seen with
  | nil => exact List.Pairwise.nil
  | cons x es ih =>
    obtain ⟨hx, hes⟩ := List.pairwise_cons.1 h
    -- the entries of what comes later are all in the rest
    have hrest : ∀ {seen : BTreeSet K}, seen.contains (f x) = true →
        (firsts seen (es.map f)).Pairwise fun j k =>
          ∀ e e', IsGreatest (entriesOf f (x :: es) j) e → IsGreatest (entriesOf f (x :: es) k) e' →
            e' < e := by
      intro seen hseen
      refine (ih hes).imp_of_mem fun {j k} hj hk hjk e e' he he' => ?_
      have hne : ∀ {i}, i ∈ firsts seen (es.map f) → f x ≠ i := by
        rintro i hi rfl
        rw [(mem_firsts.1 hi).2] at hseen
        cases hseen
      rw [entriesOf_cons_of_ne (hne hj)] at he
      rw [entriesOf_cons_of_ne (hne hk)] at he'
      exact hjk e e' he he'
    rw [List.map_cons]
    unfold firsts
    split
    · exact hrest ‹_›
    · have hin : (seen.insert (f x)).contains (f x) = true :=
        BTreeSet.contains_insert_iff.2 (.inl rfl)
      refine List.pairwise_cons.2 ⟨fun k hk e e' he he' => ?_, hrest hin⟩
      have hne : f x ≠ k := by
        rintro rfl
        rw [(mem_firsts.1 hk).2] at hin
        cases hin
      rw [entriesOf_cons_of_ne hne] at he'
      exact (hx e' he'.1.1).trans_le (he.2 ⟨.head _, rfl⟩)

theorem take_pages {α : Type} (l : List α) (limit n : ℕ) :
    (List.range n).flatMap (fun i => (l.drop (i * limit)).take limit) = l.take (n * limit) := by
  induction n with
  | zero => simp
  | succ n ih =>
    rw [List.range_succ, List.flatMap_append, ih, Nat.succ_mul, List.take_add]
    simp

end Sush.Lib
