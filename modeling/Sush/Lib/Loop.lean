import Mathlib

/-!
# Bounded loops

`iterate body n s` runs `body` from `s` until it answers `none`, for at most `n` rounds. A `while`
loop whose body makes some measure smaller is `iterate` at any bound that is at least the measure:
the bound is then never what stops it.
-/

namespace Sush.Lib

variable {σ : Type} {body : σ → Option σ} {s s' : σ} {n : ℕ}

/-- Run `body` until it answers `none`, at most `n` times. -/
def iterate (body : σ → Option σ) : ℕ → σ → σ
  | 0, s => s
  | n + 1, s =>
    match body s with
    | none => s
    | some s' => iterate body n s'

@[simp] theorem iterate_zero : iterate body 0 s = s := rfl

theorem iterate_of_none (h : body s = none) : iterate body n s = s := by
  cases n with
  | zero => rfl
  | succ n => simp only [iterate, h]

theorem iterate_succ_of_some (h : body s = some s') :
    iterate body (n + 1) s = iterate body n s' := by
  simp only [iterate, h]

/-- One round of the loop. -/
def Round (body : σ → Option σ) (s s' : σ) : Prop := body s = some s'

/-- **The loop rule**: what every round preserves holds of the result. -/
theorem iterate_invariant {P : σ → Prop} (hround : ∀ s s', body s = some s' → P s → P s')
    (n : ℕ) (h : P s) : P (iterate body n s) := by
  induction n generalizing s with
  | zero => exact h
  | succ n ih =>
    cases hb : body s with
    | none => rw [iterate_of_none hb]; exact h
    | some s' => rw [iterate_succ_of_some hb]; exact ih (hround s s' hb h)

/-- The loop from `s` stops by itself after `n` rounds, in the given state. -/
inductive Halts (body : σ → Option σ) : ℕ → σ → σ → Prop
  | stop {s : σ} (h : body s = none) : Halts body 0 s s
  | round {n : ℕ} {s s' t : σ} (h : body s = some s') (ht : Halts body n s' t) :
    Halts body (n + 1) s t

/-- A loop whose rounds make a measure smaller halts where `iterate` ends, within as many rounds as the
measure allows. -/
theorem halts_iterate (μ : σ → ℕ) (hround : ∀ s s', body s = some s' → μ s' < μ s) (h : μ s ≤ n) :
    ∃ k ≤ μ s, Halts body k s (iterate body n s) := by
  induction n generalizing s with
  | zero =>
    cases hb : body s with
    | none => exact ⟨0, Nat.zero_le _, .stop hb⟩
    | some s' =>
      have hlt := hround s s' hb
      omega
  | succ n ih =>
    cases hb : body s with
    | none =>
      rw [iterate_of_none hb]
      exact ⟨0, Nat.zero_le _, .stop hb⟩
    | some s' =>
      have hlt := hround s s' hb
      obtain ⟨k, hk, hhalts⟩ := ih (s := s') (by omega)
      rw [iterate_succ_of_some hb]
      exact ⟨k + 1, by omega, .round hb hhalts⟩

theorem iterate_done (μ : σ → ℕ) (hround : ∀ s s', body s = some s' → μ s' < μ s) (h : μ s ≤ n) :
    body (iterate body n s) = none := by
  induction n generalizing s with
  | zero =>
    cases hb : body s with
    | none => exact hb
    | some s' =>
      have hlt := hround s s' hb
      omega
  | succ n ih =>
    cases hb : body s with
    | none => rwa [iterate_of_none hb]
    | some s' =>
      have hlt := hround s s' hb
      rw [iterate_succ_of_some hb]
      exact ih (by omega)

end Sush.Lib
