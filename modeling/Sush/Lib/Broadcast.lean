import Mathlib.Data.List.Basic

/-!
# Broadcast channels

Every receiver of a broadcast channel takes what is sent while it is there, in order and at its own pace.
The channel keeps the last `capacity` messages: a receiver that is further behind has lost some, and is
told so in place of a message. A message without a receiver is dropped; here it stays in the log, where
no later receiver looks for it.

A `Reader` has some messages of its own to take before it follows the channel. What it has still to take
(`owed`) loses its first message with every one that is taken, and gets every one that is sent.
-/

namespace Sush.Lib

variable {α : Type}

structure Broadcast (α : Type) where
  capacity : ℕ
  /-- Everything that was sent, oldest first. -/
  log : List α
  /-- The sender is gone. -/
  closed : Bool
  deriving DecidableEq

/-- What a receiver gets. -/
inductive Received (α : Type) where
  | message (message : α)
  /-- There is nothing to take yet. -/
  | empty
  /-- Messages were lost. -/
  | lagged
  | closed
  deriving DecidableEq

namespace Broadcast

def new (capacity : ℕ) : Broadcast α := ⟨capacity, [], false⟩

def send (b : Broadcast α) (message : α) : Broadcast α := { b with log := b.log ++ [message] }

def close (b : Broadcast α) : Broadcast α := { b with closed := true }

def subscribe (b : Broadcast α) : ℕ := b.log.length

/-- What a receiver gets that took everything before position `next`. -/
def recv (b : Broadcast α) (next : ℕ) : Received α :=
  if next + b.capacity < b.log.length then .lagged
  else
    match b.log[next]? with
    | some message => .message message
    | none => if b.closed then .closed else .empty

variable {b : Broadcast α} {message : α} {next : ℕ}

theorem recv_eq_message (h : b.recv next = .message message) :
    b.log[next]? = some message ∧ b.log.length ≤ next + b.capacity := by
  unfold recv at h
  split at h
  · cases h
  · next hlag =>
    refine ⟨?_, Nat.not_lt.1 hlag⟩
    cases hget : b.log[next]? with
    | none =>
      rw [hget] at h
      dsimp only at h
      split at h
      · cases h
      · cases h
    | some first =>
      rw [hget] at h
      cases h
      rfl

end Broadcast

/-- A receiver with messages of its own to take first. -/
structure Reader (α : Type) where
  initial : List α
  next : ℕ
  deriving DecidableEq

namespace Reader

/-- Take a message, of the initial ones as long as there are any. -/
def take (r : Reader α) (b : Broadcast α) : Received α × Reader α :=
  match r.initial with
  | message :: initial => (.message message, { r with initial })
  | [] =>
    match b.recv r.next with
    | .message message => (.message message, { r with next := r.next + 1 })
    | received => (received, r)

def owed (r : Reader α) (b : Broadcast α) : List α := r.initial ++ b.log.drop r.next

/-- The reader has taken nothing that was not sent. -/
def Within (r : Reader α) (b : Broadcast α) : Prop := r.next ≤ b.log.length

variable {r r' : Reader α} {b : Broadcast α} {message : α}

theorem owed_subscribe (b : Broadcast α) (initial : List α) :
    owed ⟨initial, b.subscribe⟩ b = initial := by
  simp [owed, Broadcast.subscribe]

theorem owed_send (h : r.Within b) : r.owed (b.send message) = r.owed b ++ [message] := by
  have hzero : r.next - b.log.length = 0 := Nat.sub_eq_zero_of_le h
  simp [owed, Broadcast.send, List.drop_append, hzero]

theorem Within.send (h : r.Within b) (message : α) : r.Within (b.send message) := by
  have hlength : (b.send message).log.length = b.log.length + 1 := by simp [Broadcast.send]
  exact Nat.le_trans h (hlength ▸ Nat.le_succ _)

/-- **What is taken is the first of what was owed.** -/
theorem owed_take (hwithin : r.Within b) (h : r.take b = (.message message, r')) :
    r.owed b = message :: r'.owed b ∧ r'.Within b := by
  unfold take at h
  cases hinitial : r.initial with
  | cons first rest =>
    rw [hinitial] at h
    cases h
    exact ⟨by simp [owed, hinitial], hwithin⟩
  | nil =>
    rw [hinitial] at h
    dsimp only at h
    cases hrecv : b.recv r.next with
    | message first =>
      rw [hrecv] at h
      cases h
      obtain ⟨hget, -⟩ := Broadcast.recv_eq_message hrecv
      obtain ⟨hlt, rfl⟩ := List.getElem?_eq_some_iff.1 hget
      refine ⟨?_, hlt⟩
      simp only [owed, hinitial, List.nil_append]
      exact List.drop_eq_getElem_cons hlt
    | empty =>
      rw [hrecv] at h
      cases h
    | lagged =>
      rw [hrecv] at h
      cases h
    | closed =>
      rw [hrecv] at h
      cases h

end Reader

end Sush.Lib
