import Mathlib.Data.Countable.Basic
import Mathlib.Data.Finite.Prod
import Mathlib.Logic.Equiv.List
import Mathlib.Tactic.DeriveCountable
import Sush.Lib.Map

/-!
# Numbering

The elements of a countable type have numbers, and what has a number is found again from it.
-/

namespace Sush.Lib

variable {α β : Type}

noncomputable def num [Countable α] : α → ℕ := (exists_injective_nat α).choose

@[simp] theorem num_inj [Countable α] {a b : α} : num a = num b ↔ a = b :=
  (exists_injective_nat α).choose_spec.eq_iff

open Classical in
/-- What has this number, if anything has. -/
noncomputable def ofNum (α : Type) [Countable α] (n : ℕ) : Option α :=
  if h : ∃ a : α, num a = n then some h.choose else none

@[simp] theorem ofNum_num [Countable α] (a : α) : ofNum α (num a) = some a := by
  have h : ∃ b : α, num b = num a := ⟨a, rfl⟩
  rw [ofNum, dif_pos h, num_inj.1 h.choose_spec]

instance countableChar : Countable Char :=
  Function.Injective.countable (f := Char.toNat) fun _ _ => Char.toNat_inj.1

instance countableString : Countable String :=
  Function.Injective.countable (f := String.toList) fun _ _ => String.toList_injective

instance countableExcept [Countable α] [Countable β] : Countable (Except α β) := by
  refine Function.Injective.countable (f := fun | .error a => Sum.inl a | .ok b => .inr b) ?_
  intro a b h
  cases a <;> cases b <;> simp_all

instance countableSet [LinearOrder α] [Countable α] : Countable (BTreeSet α) := by
  refine Function.Injective.countable (f := Std.ExtTreeSet.toList) fun a b h => ?_
  exact Std.ExtTreeSet.ext_mem fun x => by rw [← Std.ExtTreeSet.mem_toList, h, Std.ExtTreeSet.mem_toList]

end Sush.Lib
