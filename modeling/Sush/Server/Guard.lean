import Sush.Server.Locker

/-!
# The guard of a tenant

`server/src/locker.rs`, `Guard::load` and `Guard::store` as whole calls. The guard is the lock on the
tenant's `reserved` number, so the calls of one process come one after the other, whatever the
blocking tasks do meanwhile. What a load reads is taken as it comes: every slot may be missing,
unreadable, corrupt, or hold any envelope.

`reserved` is a `u64`, and so are the sequence numbers in the slots. A release build wraps around.
A dropped call is covered as well: before its last read a load has changed nothing, and from there on
only its answer is lost.
-/

namespace Sush

variable [World]

/-- The guard of a tenant that spans `n` slots. -/
structure Guard (n : ℕ) where
  nonce : Nonce
  baseboard : BaseboardId
  reserved : ℕ

/-- What a load does: the guard it leaves, its verdict, and the envelope it handed to a blocking task
to repair the slots. -/
structure Loaded (n : ℕ) where
  guard : Guard n
  verdict : Verdict
  repair : Option Envelope

/-- `Vec::swap_remove(0)`: what remains without the first element, the last one in its place. -/
def swapRemove {α : Type*} (rest : List α) : List α :=
  match rest.getLast? with
  | some last => last :: rest.dropLast
  | none => []

/-- The loop over the slots in `Guard::load`, from `slot` on. -/
def collectAll (own : BaseboardId) : ℕ → List Envelope → List SlotRead →
    Except Discard (List Envelope)
  | _, found, [] => .ok found
  | slot, found, read :: reads =>
    match collect own slot found read with
    | .ok found => collectAll own (slot + 1) found reads
    | .error reason => .error reason

namespace Guard

variable {n : ℕ}

/-- `Locker::tenant`, in a process with this nonce. -/
def new (nonce : Nonce) (baseboard : BaseboardId) : Guard n := ⟨nonce, baseboard, 0⟩

/-- `Guard::store`, up to the blocking task: the envelope that the task renames into the slots. -/
def store (guard : Guard n) (record : List UInt8) : Guard n × Option Envelope :=
  if n = 0 then (guard, none)
  else
    let seq := (guard.reserved + 1) % 2 ^ 64
    ({ guard with reserved := seq }, some ⟨guard.nonce, seq, guard.baseboard, record⟩)

/-- `*self.reserved = seq.max(*self.reserved)` -/
def raise (guard : Guard n) (seq : ℕ) : Guard n :=
  { guard with reserved := max seq guard.reserved }

def load (guard : Guard n) (reads : Fin n → SlotRead) : Loaded n :=
  if n = 0 then ⟨guard, .empty, none⟩
  else
    match collectAll guard.baseboard 0 [] (List.ofFn reads) with
    | .error reason => ⟨guard, .discard reason, none⟩
    | .ok [] => ⟨guard, .empty, none⟩
    | .ok (first :: rest) =>
      let restored := (first :: rest).length < n
      if ¬(first :: rest).all (·.record = first.record) then
        let newest := newestOf first rest
        -- slots torn by one process resolve to its newest write
        let torn := (first :: rest).all (·.nonce = newest.nonce) ∧
          ((first :: rest).filter (·.seq = newest.seq)).length = 1
        if ¬torn then ⟨guard, .discard .disagree, none⟩
        else
          let (guard, envelope) := (guard.raise newest.seq).store newest.record
          ⟨guard, .adopt newest.record, envelope⟩
      else
        let newest := (swapRemove rest).foldl (fun seq e => max seq e.seq) first.seq
        let guard := guard.raise newest
        if restored then
          let (guard, envelope) := guard.store first.record
          ⟨guard, .restore first.record, envelope⟩
        else ⟨guard, .adopt first.record, none⟩

/-- A use of the guard. -/
inductive Call (n : ℕ) where
  | load (reads : Fin n → SlotRead)
  | store (record : List UInt8)

/-- The guard after a call, and the envelope the call stored. -/
def call (guard : Guard n) : Call n → Guard n × List Envelope
  | .load reads => ((guard.load reads).guard, (guard.load reads).repair.toList)
  | .store record => ((guard.store record).1, (guard.store record).2.toList)

/-- The guard after the calls of a process, and the envelopes they stored. -/
def calls (guard : Guard n) (cs : List (Call n)) : Guard n × List Envelope :=
  Lib.run call guard cs

end Guard

end Sush
