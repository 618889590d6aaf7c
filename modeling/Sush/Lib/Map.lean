import Mathlib

/-!
# Ordered maps and sets

A `BTreeMap` is `Std.ExtTreeMap` at the key type's own linear order: it iterates in key order and
two maps with the same lookups are equal. The lemmas here restate the lookups after an update with
an equality of keys in place of a comparison.
-/

namespace Sush

abbrev BTreeMap (K V : Type) [LinearOrder K] : Type := Std.ExtTreeMap K V compare

abbrev BTreeSet (K : Type) [LinearOrder K] : Type := Std.ExtTreeSet K compare

namespace BTreeMap

variable {K V : Type} [LinearOrder K] {m : BTreeMap K V} {k a : K} {v : V}

theorem get_insert : (m.insert k v)[a]? = if k = a then some v else m[a]? := by
  rw [Std.ExtTreeMap.getElem?_insert]
  simp only [compare_eq_iff_eq]

theorem get_erase : (m.erase k)[a]? = if k = a then none else m[a]? := by
  rw [Std.ExtTreeMap.getElem?_erase]
  simp only [compare_eq_iff_eq]

theorem contains_iff : m.contains k = true ↔ ∃ v, m[k]? = some v := by
  rw [Std.ExtTreeMap.contains_eq_isSome_getElem?, Option.isSome_iff_exists]

theorem contains_eq_false_iff : m.contains k = false ↔ m[k]? = none := by
  rw [Std.ExtTreeMap.contains_eq_isSome_getElem?]
  cases m[k]? <;> simp

theorem mem_keys_iff : k ∈ m.keys ↔ m.contains k = true := by
  rw [Std.ExtTreeMap.mem_keys, Std.ExtTreeMap.mem_iff_contains]

theorem size_erase_lt (h : m[k]? = some v) : (m.erase k).size < m.size := by
  have hk : k ∈ m := Std.ExtTreeMap.mem_iff_contains.2 (contains_iff.2 ⟨v, h⟩)
  have hne : m.size ≠ 0 := by
    rw [Ne, ← Std.ExtTreeMap.eq_empty_iff_size_eq_zero]
    rintro rfl
    exact Std.ExtTreeMap.not_mem_empty hk
  rw [Std.ExtTreeMap.size_erase, if_pos (Std.ExtTreeMap.mem_iff_contains.1 hk)]
  omega

/-- A map whose keys are among `ids` has at most as many entries. -/
theorem size_le_card {ids : Finset K} (h : ∀ k v, m[k]? = some v → k ∈ ids) :
    m.size ≤ ids.card := by
  have hnodup : m.keys.Nodup := m.nodup_keys
  rw [← Std.ExtTreeMap.length_keys, ← List.toFinset_card_of_nodup hnodup]
  refine Finset.card_le_card fun k hk => ?_
  obtain ⟨v, hv⟩ := contains_iff.1 (mem_keys_iff.1 (List.mem_toFinset.1 hk))
  exact h k v hv

/-- A map that has all of `ids` among its keys has at least as many entries. -/
theorem card_le_size {ids : Finset K} (h : ∀ k ∈ ids, m.contains k = true) :
    ids.card ≤ m.size := by
  have hnodup : m.keys.Nodup := m.nodup_keys
  rw [← Std.ExtTreeMap.length_keys, ← List.toFinset_card_of_nodup hnodup]
  exact Finset.card_le_card fun k hk => List.mem_toFinset.2 (mem_keys_iff.2 (h k hk))

end BTreeMap

namespace BTreeSet

variable {K : Type} [LinearOrder K] {s : BTreeSet K} {k a : K}

theorem contains_insert_iff : (s.insert k).contains a = true ↔ k = a ∨ s.contains a = true := by
  rw [Std.ExtTreeSet.contains_insert, Bool.or_eq_true, beq_iff_eq, compare_eq_iff_eq]

theorem contains_erase_iff : (s.erase k).contains a = true ↔ k ≠ a ∧ s.contains a = true := by
  rw [Std.ExtTreeSet.contains_erase, Bool.and_eq_true, bne_iff_ne, Ne, compare_eq_iff_eq]

theorem mem_toList_iff : a ∈ s.toList ↔ s.contains a = true := by
  rw [Std.ExtTreeSet.mem_toList, Std.ExtTreeSet.mem_iff_contains]

theorem mem_toList_filter {f : K → Bool} : a ∈ (s.filter f).toList ↔ a ∈ s.toList ∧ f a = true := by
  rw [Std.ExtTreeSet.mem_toList, Std.ExtTreeSet.mem_toList, Std.ExtTreeSet.mem_filter]
  constructor
  · rintro ⟨hmem, hf⟩
    exact ⟨hmem, Std.ExtTreeSet.get_eq hmem ▸ hf⟩
  · rintro ⟨hmem, hf⟩
    exact ⟨hmem, (Std.ExtTreeSet.get_eq hmem).symm ▸ hf⟩

end BTreeSet

end Sush
