import Mathlib

/-!
# Attempts and acknowledgements

A log of attempted writes, oldest first, with the last one that was acknowledged. A value is
`Current` if it is that of the last acknowledged attempt or of a later one: what a reader may return
without being stale. New attempts keep values current; an acknowledgement keeps only the value it
acknowledges and later ones.
-/

namespace Sush.Lib

/-- Attempted writes, oldest first, and the place of the last one that was acknowledged. -/
structure AckLog (α : Type) where
  attempts : List α
  acked : Option ℕ
  acked_lt : ∀ k, acked = some k → k < attempts.length

namespace AckLog

variable {α : Type} {l : AckLog α} {a b : α} {i : ℕ}

def empty : AckLog α := ⟨[], none, fun _ h => by cases h⟩

/-- One more attempt. -/
def attempt (l : AckLog α) (a : α) : AckLog α where
  attempts := l.attempts ++ [a]
  acked := l.acked
  acked_lt k h := by
    rw [List.length_append]
    exact Nat.lt_add_right _ (l.acked_lt k h)

/-- The attempt at place `i` is acknowledged. -/
def ack (l : AckLog α) (i : ℕ) : AckLog α :=
  if h : i < l.attempts.length then
    ⟨l.attempts, some i, fun k hk => by cases hk; exact h⟩
  else l

def last (l : AckLog α) : Option α := l.acked.bind (l.attempts[·]?)

/-- Place `i` is that of the last acknowledged attempt, or a later one. -/
def Since (l : AckLog α) (i : ℕ) : Prop := ∀ k, l.acked = some k → k ≤ i

/-- `a` was written by the last acknowledged attempt or by a later one. -/
def Current (l : AckLog α) (a : α) : Prop := ∃ i, l.attempts[i]? = some a ∧ l.Since i

theorem getElem?_attempt (h : l.attempts[i]? = some a) : (l.attempt b).attempts[i]? = some a := by
  have hi := (List.getElem?_eq_some_iff.1 h).1
  exact (List.getElem?_append_left hi).trans h

theorem getElem?_attempt_self : (l.attempt a).attempts[l.attempts.length]? = some a := by
  simp [attempt]

theorem since_attempt_self : (l.attempt a).Since l.attempts.length :=
  fun k hk => (l.acked_lt k hk).le

theorem Current.attempt (h : l.Current a) : (l.attempt b).Current a := by
  obtain ⟨i, hi, hsince⟩ := h
  exact ⟨i, getElem?_attempt hi, hsince⟩

theorem attempts_ack : (l.ack i).attempts = l.attempts := by
  unfold ack
  split <;> rfl

theorem acked_ack (h : l.attempts[i]? = some a) : (l.ack i).acked = some i := by
  unfold ack
  rw [dif_pos (List.getElem?_eq_some_iff.1 h).1]

theorem current_ack (h : l.attempts[i]? = some a) : (l.ack i).Current a := by
  refine ⟨i, by rw [attempts_ack, h], fun k hk => ?_⟩
  rw [acked_ack h] at hk
  cases hk
  exact le_rfl

theorem Current.of_attempt (h : (l.attempt b).Current a) : a = b ∨ l.Current a := by
  obtain ⟨i, hi, hsince⟩ := h
  rcases Nat.lt_or_ge i l.attempts.length with hlt | hge
  · have hold : l.attempts[i]? = some a := (List.getElem?_append_left hlt).symm.trans hi
    exact .inr ⟨i, hold, hsince⟩
  · have hnew : [b][i - l.attempts.length]? = some a := (List.getElem?_append_right hge).symm.trans hi
    exact .inl (List.mem_singleton.1 (List.mem_of_getElem? hnew))

theorem current_getLast (h : l.attempts.getLast? = some a) : l.Current a := by
  rw [List.getLast?_eq_getElem?] at h
  refine ⟨_, h, fun k hk => ?_⟩
  have hlt := l.acked_lt k hk
  omega

theorem Current.of_acked_last (hacked : l.acked = some i) (hlast : i + 1 = l.attempts.length)
    (h : l.Current a) : l.attempts.getLast? = some a := by
  obtain ⟨j, hj, hsince⟩ := h
  have hle := hsince i hacked
  have hlt := (List.getElem?_eq_some_iff.1 hj).1
  obtain rfl : j = l.attempts.length - 1 := by omega
  rw [List.getLast?_eq_getElem?, hj]

theorem Current.of_ack_last (hlast : i + 1 = l.attempts.length) (h : (l.ack i).Current a) :
    l.attempts.getLast? = some a := by
  have hacked : (l.ack i).acked = some i := by
    unfold ack
    rw [dif_pos (by omega)]
  have hcurrent := h.of_acked_last hacked (by rw [attempts_ack, hlast])
  rwa [attempts_ack] at hcurrent

end AckLog

end Sush.Lib
