import Mathlib.Data.List.Basic

/-!
# Bounded channels

A channel has a queue of bounded length. Sending waits while the queue is full and fails once the
receiver is gone; receiving takes the oldest message. What was sent is what was received and what is in
the queue (`sent`): receiving leaves it alone, and sending appends to it. A receiver that is gone leaves
the queue as it was: nothing takes from it any more.
-/

namespace Sush.Lib

variable {α : Type}

structure Channel (α : Type) where
  capacity : ℕ
  /-- What the receiver took, oldest first. -/
  received : List α
  queue : List α
  /-- The receiver is gone. -/
  closed : Bool

namespace Channel

def empty (capacity : ℕ) : Channel α := ⟨capacity, [], [], false⟩

def sent (c : Channel α) : List α := c.received ++ c.queue

/-- Send a message, if there is a receiver and room. -/
def trySend (c : Channel α) (message : α) : Option (Channel α) :=
  if c.closed = false ∧ c.queue.length < c.capacity then
    some { c with queue := c.queue ++ [message] }
  else none

/-- Take the oldest message. -/
def recv (c : Channel α) : Option (α × Channel α) :=
  match c.queue with
  | [] => none
  | message :: queue => some (message, { c with received := c.received ++ [message], queue })

def close (c : Channel α) : Channel α := { c with closed := true }

variable {c c' : Channel α} {message : α}

theorem trySend_eq_some (h : c.trySend message = some c') :
    c.closed = false ∧ c' = { c with queue := c.queue ++ [message] } := by
  unfold trySend at h
  split at h
  · next hroom => exact ⟨hroom.1, (Option.some.inj h).symm⟩
  · cases h

theorem sent_trySend (h : c.trySend message = some c') : c'.sent = c.sent ++ [message] := by
  rw [(trySend_eq_some h).2]
  exact (List.append_assoc _ _ _).symm

theorem recv_eq_some (h : c.recv = some (message, c')) :
    c'.received = c.received ++ [message] ∧ c'.sent = c.sent ∧ c'.closed = c.closed := by
  unfold recv at h
  split at h
  · cases h
  · next first queue hqueue =>
    cases h
    refine ⟨rfl, ?_, rfl⟩
    rw [sent, sent, hqueue, List.append_assoc, List.singleton_append]

end Channel

end Sush.Lib
