import Sush.Lib.AckLog
import Sush.Lib.Machine
import Sush.Common.Jobs

/-!
# The locker

`server/src/locker.rs`, one tenant's record across the slots. Every slot holds one file or none. A
store reserves a sequence number under the tenant's guard and hands the writing to a blocking task,
which renames the envelope into slot after slot unless a newer store has committed. A load reads the
slots one by one under the guard and applies the pair rules; it stores the record again when a slot
was missing or the slots were torn.

`Drives` is the whole system over many process lives: the files, the tenant of the running process,
and the log of all stores ever attempted. Its actions are what can happen between any two slot
accesses: a blocking task begins, writes one slot, fails or ends, a load reads one slot, the future
that holds the guard is dropped, a file is removed, the process dies or a new one starts. An action
that is not enabled leaves everything as it is.

Sequence numbers are `u64` in the source; before `2 ^ 64` stores they do not wrap. What a file decodes to is
taken as the envelope that was written to it: writes are atomic renames of whole envelopes and the
digest does not collide.
-/

namespace Sush

open Lib (AckLog)

variable [World]

/-- A record with the life that wrote it, its place among that life's stores, and the sled. -/
structure Envelope where
  nonce : Nonce
  seq : ℕ
  baseboard : BaseboardId
  record : List UInt8
  deriving DecidableEq

/-- Why the slots cannot be trusted. Slots are named by their place. -/
inductive Discard where
  | disagree
  | foreign (slot : ℕ) (baseboard : BaseboardId)
  | corrupt (slot : ℕ)
  | io (slot : ℕ) (error : String)
  deriving DecidableEq

/-- What a load found across the slots. -/
inductive Verdict where
  /-- Every slot holds this record. -/
  | adopt (record : List UInt8)
  /-- A slot is missing, but the survivors agree on this record. -/
  | restore (record : List UInt8)
  /-- No slot holds a record. -/
  | empty
  /-- The slots cannot be trusted. -/
  | discard (reason : Discard)
  deriving DecidableEq

/-- The record a verdict returns. -/
def Verdict.record : Verdict → Option (List UInt8)
  | adopt record | restore record => some record
  | empty | discard _ => none

inductive StoreError where
  | io (slot : ℕ) (error : String)
  | superseded
  deriving DecidableEq

/-! ## Loading -/

/-- What reading a slot's file gives. -/
inductive SlotRead where
  | missing
  | failed (error : String)
  | corrupt
  | holds (envelope : Envelope)

/-- One round of the loop over the slots in `Guard::load`: add what the slot holds to `found`, or
give up. -/
def collect (own : BaseboardId) (slot : ℕ) (found : List Envelope) :
    SlotRead → Except Discard (List Envelope)
  | .missing => .ok found
  | .failed error => .error (.io slot error)
  | .corrupt => .error (.corrupt slot)
  | .holds envelope =>
    if envelope.baseboard = own then .ok (found ++ [envelope])
    else .error (.foreign slot envelope.baseboard)

/-- What a load concludes: its verdict, the sequence number later stores must exceed, and the record
to store again. -/
structure Judgement where
  verdict : Verdict
  newest : ℕ
  repair : Option (List UInt8)

/-- The envelope with the greatest sequence number, the last one of several. -/
def newestOf (first : Envelope) (rest : List Envelope) : Envelope :=
  rest.foldl (fun best e => if best.seq ≤ e.seq then e else best) first

/-- The pair rules, for the envelopes found in `slots` slots. -/
def judge (slots : ℕ) : List Envelope → Judgement
  | [] => ⟨.empty, 0, none⟩
  | first :: rest =>
    if (first :: rest).all (·.record = first.record) then
      let newest := rest.foldl (fun seq e => max seq e.seq) first.seq
      if (first :: rest).length < slots then
        ⟨.restore first.record, newest, some first.record⟩
      else ⟨.adopt first.record, newest, none⟩
    else
      let newest := newestOf first rest
      -- slots torn by one process resolve to its newest write
      if (first :: rest).all (·.nonce = newest.nonce) ∧
          (first :: rest).countP (·.seq = newest.seq) = 1 then
        ⟨.adopt newest.record, newest.seq, some newest.record⟩
      else ⟨.discard .disagree, 0, none⟩

/-! ## The system -/

/-- The blocking half of a store. `id` is the store's place among all stores ever attempted. -/
structure Commit where
  id : ℕ
  seq : ℕ
  envelope : Envelope
  deriving DecidableEq

/-- What the future that holds the tenant's guard is at. -/
inductive Holder where
  /-- A load that has yet to read `slot` and has found `found` in the slots before it. -/
  | load (slot : ℕ) (found : List Envelope)
  /-- A store that waits for its blocking half. -/
  | store (seq : ℕ)
  /-- A load that waits for its repair store, and then returns `verdict`. -/
  | repair (seq : ℕ) (verdict : Verdict)
  deriving DecidableEq

/-- The tenant of a running process. -/
structure Tenant where
  nonce : Nonce
  reserved : ℕ
  committed : ℕ
  holder : Option Holder
  /-- Blocking halves that have not begun. -/
  detached : List Commit
  /-- The blocking half that has begun, and how many slots it has written. -/
  writing : Option (Commit × ℕ)
  deriving DecidableEq

/-- `Locker::tenant`, in a process with this nonce. -/
def Tenant.new (nonce : Nonce) : Tenant where
  nonce := nonce
  reserved := 0
  committed := 0
  holder := none
  detached := []
  writing := none

/-- The blocking halves that have not ended. -/
def Tenant.commits (t : Tenant) : List Commit := t.writing.toList.map Prod.fst ++ t.detached

/-- The slot files, the tenant of the running process if one runs, and the log of all stores. -/
structure Drives where
  slots : List (Option Envelope)
  tenant : Option Tenant
  log : AckLog (List UInt8)

inductive LockerAct where
  /-- A process starts, with a nonce of its own. -/
  | start (nonce : Nonce)
  /-- The process dies, with all its tasks. -/
  | crash
  /-- A slot's file is removed. -/
  | remove (slot : ℕ)
  | store (record : List UInt8)
  | load
  /-- The future that holds the guard is dropped. Its blocking half stays. -/
  | cancel
  /-- A blocking half takes its turn. -/
  | begin (detached : ℕ)
  /-- The blocking half writes its next slot. -/
  | write
  /-- The write of the next slot fails. -/
  | fail (error : String)
  /-- The blocking half ends, with every slot written. -/
  | finish
  /-- The load reads its next slot, or fails to. -/
  | read (error : Option String)
  deriving DecidableEq

inductive LockerOut where
  | stored (result : Except StoreError Unit)
  | loaded (verdict : Verdict)
  deriving DecidableEq

namespace Drives

/-- Drives with empty slots, and no process. -/
def new (slots : ℕ) : Drives := ⟨List.replicate slots none, none, .empty⟩

/-- The first half of `Guard::store`: reserve a sequence number and hand the envelope to a blocking
task. `holder` says what waits for it. -/
def reserve (own : BaseboardId) (d : Drives) (t : Tenant) (record : List UInt8)
    (holder : ℕ → Holder) : Drives :=
  let seq := t.reserved + 1
  let commit : Commit := {
    id := d.log.attempts.length
    seq := seq
    envelope := { nonce := t.nonce, seq := seq, baseboard := own, record := record } }
  { d with
    tenant := some { t with
      reserved := seq
      holder := some (holder seq)
      detached := t.detached ++ [commit] }
    log := d.log.attempt record }

/-- A load that has seen every slot returns, or repairs first. -/
def conclude (own : BaseboardId) (d : Drives) (t : Tenant) (judgement : Judgement) :
    Drives × List LockerOut :=
  let t := { t with reserved := max judgement.newest t.reserved, holder := none }
  match judgement.repair with
  | some record => (d.reserve own t record (.repair · judgement.verdict), [])
  | none => ({ d with tenant := some t }, [.loaded judgement.verdict])

/-- The load that holds the guard reads its next slot. -/
def readSlot (own : BaseboardId) (d : Drives) (t : Tenant) (slot : ℕ) (found : List Envelope)
    (error : Option String) : Drives × List LockerOut :=
  let file : SlotRead :=
    match error, (d.slots[slot]?).join with
    | some error, _ => .failed error
    | none, some envelope => .holds envelope
    | none, none => .missing
  match collect own slot found file with
  | .error reason => ({ d with tenant := some { t with holder := none } }, [.loaded (.discard reason)])
  | .ok found =>
    if slot + 1 < d.slots.length then
      ({ d with tenant := some { t with holder := some (.load (slot + 1) found) } }, [])
    else d.conclude own t (judge d.slots.length found)

/-- The blocking half of `commit` has ended with `result`: tell the future that waits for it, if it
was not dropped. -/
def report (d : Drives) (t : Tenant) (commit : Commit) (result : Except StoreError Unit) :
    Drives × List LockerOut :=
  let acknowledged : AckLog (List UInt8) :=
    match result with
    | .ok () => d.log.ack commit.id
    | .error _ => d.log
  match t.holder with
  | some (.store seq) =>
    if seq = commit.seq then
      ({ d with tenant := some { t with holder := none }, log := acknowledged }, [.stored result])
    else ({ d with tenant := some t }, [])
  | some (.repair seq verdict) =>
    if seq = commit.seq then
      ({ d with tenant := some { t with holder := none }, log := acknowledged }, [.loaded verdict])
    else ({ d with tenant := some t }, [])
  | _ => ({ d with tenant := some t }, [])

/-- `commit`, up to its first write: a store that a newer one has overtaken is refused. -/
def beginCommit (d : Drives) (t : Tenant) (place : ℕ) : Drives × List LockerOut :=
  match t.detached[place]?, t.writing with
  | some commit, none =>
    let t := { t with detached := t.detached.eraseIdx place }
    if commit.seq ≤ t.committed then d.report t commit (.error .superseded)
    else ({ d with tenant := some { t with writing := some (commit, 0) } }, [])
  | _, _ => (d, [])

/-- What the running process does. -/
def act (own : BaseboardId) (d : Drives) (t : Tenant) : LockerAct → Drives × List LockerOut
  | .store record =>
    if t.holder.isSome then (d, [])
    else if d.slots.isEmpty then (d, [.stored (.ok ())])
    else (d.reserve own t record .store, [])
  | .load =>
    if t.holder.isSome then (d, [])
    else if d.slots.isEmpty then (d, [.loaded .empty])
    else ({ d with tenant := some { t with holder := some (.load 0 []) } }, [])
  | .cancel => ({ d with tenant := some { t with holder := none } }, [])
  | .begin place => d.beginCommit t place
  | .write =>
    match t.writing with
    | some (commit, slot) =>
      if slot < d.slots.length then
        ({ d with
          slots := d.slots.set slot (some commit.envelope)
          tenant := some { t with writing := some (commit, slot + 1) } }, [])
      else (d, [])
    | none => (d, [])
  | .fail error =>
    match t.writing with
    | some (commit, slot) =>
      if slot < d.slots.length then
        d.report { t with writing := none } commit (.error (.io slot error))
      else (d, [])
    | none => (d, [])
  | .finish =>
    match t.writing with
    | some (commit, slot) =>
      if slot < d.slots.length then (d, [])
      else d.report { t with writing := none, committed := commit.seq } commit (.ok ())
    | none => (d, [])
  | .read error =>
    match t.holder with
    | some (.load slot found) => d.readSlot own t slot found error
    | _ => (d, [])
  | _ => (d, [])

/-- One action. -/
def step (own : BaseboardId) (d : Drives) : LockerAct → Drives × List LockerOut
  | .remove slot => ({ d with slots := d.slots.set slot none }, [])
  | .crash => ({ d with tenant := none }, [])
  | .start nonce =>
    match d.tenant with
    | none => ({ d with tenant := some (Tenant.new nonce) }, [])
    | some _ => (d, [])
  | action =>
    match d.tenant with
    | some t => d.act own t action
    | none => (d, [])

/-- Any number of actions, in any order. -/
def run (own : BaseboardId) (d : Drives) (acts : List LockerAct) : Drives × List LockerOut :=
  Lib.run (Drives.step own) d acts

end Drives

end Sush
