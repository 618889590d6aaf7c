import Mathlib.Data.Fintype.Order
import Mathlib.Order.WellFounded

/-!
# Walks to the root

`above a b` says that `b` is a parent of `a`. A walk from `a` that follows parents ends exactly if nothing
on its way is above itself, provided that it stays among finitely many elements (`ends_iff_acyclic`). That
a walk ends is accessibility, so what is proved about it can go by induction.
-/

namespace Sush.Lib

open Relation (ReflTransGen TransGen)

variable {α : Type} {above : α → α → Prop} {a b : α}

/-- The walks from `a` come to an end. -/
def Ends (above : α → α → Prop) (a : α) : Prop := Acc (fun b a => above a b) a

/-- Nothing on the way up from `a` is above itself. -/
def Acyclic (above : α → α → Prop) (a : α) : Prop :=
  ∀ b, ReflTransGen above a b → ¬TransGen above b b

theorem acyclic_of_ends (h : Ends above a) : Acyclic above a := by
  induction h with
  | intro a _ ih =>
    intro b hb hcycle
    rcases ReflTransGen.cases_head hb with rfl | ⟨c, hc, hcb⟩
    · -- a cycle at `a` is one on the way up from its parent
      obtain ⟨c, hc, hca⟩ := TransGen.head'_iff.1 hcycle
      exact ih c hc a hca hcycle
    · exact ih c hc b hcb hcycle

theorem ends_of_acyclic {s : Set α} (hs : s.Finite) (hup : ∀ a ∈ s, ∀ b, above a b → b ∈ s)
    (ha : a ∈ s) (h : Acyclic above a) : Ends above a := by
  let way : Set α := { b | b ∈ s ∧ ReflTransGen above a b }
  have hfinite : Finite way := (hs.subset fun b hb => hb.1).to_subtype
  let below : way → way → Prop := fun b c => TransGen above c.1 b.1
  have htrans : IsTrans way below := ⟨fun _ _ _ hab hbc => hbc.trans hab⟩
  have hirrefl : Std.Irrefl below := ⟨fun b => h b.1 b.2.2⟩
  have hwf : WellFounded below := Finite.wellFounded_of_trans_of_irrefl below
  have hends : ∀ b : way, Ends above b.1 := by
    intro b
    induction b using hwf.induction with
    | _ b ih =>
      refine Acc.intro _ fun c hc => ?_
      exact ih ⟨c, hup b.1 b.2.1 c hc, b.2.2.tail hc⟩ (.single hc)
  exact hends ⟨a, ha, .refl⟩

/-- **A walk among finitely many elements ends exactly if it meets no cycle.** -/
theorem ends_iff_acyclic {s : Set α} (hs : s.Finite) (hup : ∀ a ∈ s, ∀ b, above a b → b ∈ s)
    (ha : a ∈ s) : Ends above a ↔ Acyclic above a :=
  ⟨acyclic_of_ends, ends_of_acyclic hs hup ha⟩

end Sush.Lib
