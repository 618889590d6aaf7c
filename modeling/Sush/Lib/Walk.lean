import Sush.Lib.Chain

/-!
# Walks along a chain

A walk takes jobs one after the other, each at the position after the one before. A walk over a stock
of jobs is exhaustive if it takes no job twice and ends where the stock has nothing new to offer.
Jobs stand at different positions, so at every position there is at most one to take, and there is
only one exhaustive walk (`Exhausts.unique`): it does not matter in which order the stock came
together, only that each walk is extended as far as it goes (`Exhausts.append`).
-/

namespace Sush.Lib

variable {P J : Type} (C : SkipChain P J)

/-- The jobs are taken from `p` on, and the last one leads to `q`. -/
inductive Walk : P → List J → P → Prop
  | nil {p : P} : Walk p [] p
  | cons {j : J} {js : List J} {q : P} (h : Walk (C.after j) js q) : Walk (C.pos j) (j :: js) q

variable {C} {p q r : P} {i j : J} {js js' : List J}

namespace Walk

theorem append (h : Walk C p js q) (h' : Walk C q js' r) : Walk C p (js ++ js') r := by
  induction h with
  | nil => exact h'
  | cons _ ih => exact .cons (ih h')

theorem eq_of_nil (h : Walk C p [] q) : p = q := by
  cases h
  rfl

theorem reaches_end (h : Walk C p js q) : C.Reaches p q := by
  induction h with
  | nil => exact .refl
  | cons _ ih => exact .head (.after _) ih

theorem before_end (h : Walk C p (j :: js) q) : C.Before p q := by
  cases h with
  | cons h => exact .head' (.after j) h.reaches_end

theorem reaches (h : Walk C p js q) (hj : j ∈ js) : C.Reaches p (C.pos j) := by
  induction h with
  | nil => cases hj
  | cons _ ih =>
    cases hj with
    | head => exact .refl
    | tail _ hj => exact .head (.after _) (ih hj)

theorem pairwise (h : Walk C p js q) : js.Pairwise fun i j => C.Before (C.pos i) (C.pos j) := by
  induction h with
  | nil => exact .nil
  | cons h ih => exact .cons (fun j hj => .head' (.after _) (h.reaches hj)) ih

end Walk

variable (C) in
/-- The walk takes jobs of the stock `D`, none of them twice, and cannot go on. -/
structure Exhausts (D : List J) (p : P) (js : List J) (q : P) : Prop where
  walk : Walk C p js q
  nodup : js.Nodup
  sub : ∀ j ∈ js, j ∈ D
  stuck : ∀ j ∈ D, C.pos j = q → j ∈ js

namespace Exhausts

variable {D D' : List J}

/-- Walks from one position that agree so far cannot part: the one that stops first is not stuck. -/
private theorem unique_from (hpos : ∀ i ∈ D, ∀ j ∈ D, C.pos i = C.pos j → i = j) (taken : List J)
    {q' : P} (h : Walk C p js q) (h' : Walk C p js' q') (hnodup : (taken ++ js).Nodup)
    (hnodup' : (taken ++ js').Nodup) (hsub : ∀ j ∈ js, j ∈ D) (hsub' : ∀ j ∈ js', j ∈ D)
    (hstuck : ∀ j ∈ D, C.pos j = q → j ∈ taken ++ js)
    (hstuck' : ∀ j ∈ D, C.pos j = q' → j ∈ taken ++ js') : js = js' ∧ q = q' := by
  induction h generalizing js' taken with
  | @nil p =>
    cases h' with
    | nil => exact ⟨rfl, rfl⟩
    | @cons j js' _ h' =>
      have hold : j ∈ taken := by simpa using hstuck j (hsub' j (.head _)) rfl
      exact absurd hold (List.disjoint_of_nodup_append hnodup' · (.head _))
  | @cons j js q h ih =>
    generalize hp : C.pos j = p' at h'
    cases h' with
    | nil =>
      have hold : j ∈ taken := by simpa using hstuck' j (hsub j (.head _)) hp
      exact absurd hold (List.disjoint_of_nodup_append hnodup · (.head _))
    | @cons i js' _ h' =>
      obtain rfl := hpos j (hsub j (.head _)) i (hsub' i (.head _)) hp
      obtain ⟨rfl, hq⟩ := ih (taken ++ [j]) h' (by simpa using hnodup)
        (by simpa using hnodup') (fun k hk => hsub k (.tail _ hk)) (fun k hk => hsub' k (.tail _ hk))
        (by simpa using hstuck) (by simpa using hstuck')
      exact ⟨rfl, hq⟩

/-- **There is one exhaustive walk.** -/
theorem unique (hpos : ∀ i ∈ D, ∀ j ∈ D, C.pos i = C.pos j → i = j) {q' : P}
    (h : Exhausts C D p js q) (h' : Exhausts C D p js' q') : js = js' ∧ q = q' :=
  unique_from hpos [] h.walk h'.walk h.nodup h'.nodup h.sub h'.sub h.stuck h'.stuck

theorem append (h : Exhausts C D p js q) (hD : ∀ j ∈ D, j ∈ D') (hwalk : Walk C q js' r)
    (hnodup : js'.Nodup) (hnew : ∀ j ∈ js', j ∈ D' ∧ j ∉ js)
    (hstuck : ∀ j ∈ D', C.pos j = r → j ∈ js ∨ j ∈ js') : Exhausts C D' p (js ++ js') r where
  walk := h.walk.append hwalk
  nodup := List.nodup_append'.2 ⟨h.nodup, hnodup, fun j hj hj' => (hnew j hj').2 hj⟩
  sub := by
    intro j hj
    rcases List.mem_append.1 hj with hj | hj
    · exact hD j (h.sub j hj)
    · exact (hnew j hj).1
  stuck j hj hr := List.mem_append.2 (hstuck j hj hr)

end Exhausts

end Sush.Lib
