import Sush.Server.Executor
import Sush.Server.Format
import Sush.Server.Locker

/-!
# A sled and its boundary record

How `server/src/locker/boundary.rs` puts the executor (`server/src/executor.rs`) on top of the locker
(`server/src/locker.rs`), over many process lives. A life begins with a load of the record, and the
executor starts with what it found. From then on the guard of the record is the locker's: whoever gets it,
the launcher or a task that records an ending, encodes the new record and stores it, and learns from the
locker whether the store succeeded.

The drives go on by themselves: blocking halves of stores begin, write one slot, fail or end, and a load
reads one slot after the other. The process may die at any point, and slot files may be removed. Nothing
drops a future that holds the guard while its process lives, so there is no such action here.
-/

namespace Sush

variable [World]

/-! ## The record -/

/-- How `serde` writes a boundary and reads it back. -/
class BoundaryCbor where
  serialize : Boundary → List UInt8
  deserialize : List UInt8 → Except String Boundary
  deserialize_serialize : ∀ boundary, deserialize (serialize boundary) = .ok boundary

attribute [simp] BoundaryCbor.deserialize_serialize

/-- `StoreError`, printed; `path` names the slots' files. -/
def StoreError.display (path : ℕ → String) : StoreError → String
  | io slot error => "storing `" ++ path slot ++ "` failed: " ++ error
  | superseded => "superseded by a newer record"

section Record

variable [BoundaryCbor]

/-- The one format of a boundary. It supersedes none. -/
def Boundary.formats : Formats where
  Record := Unit
  Carrier _ := Boundary
  version _ := 1
  serialize _ := BoundaryCbor.serialize
  deserialize _ := BoundaryCbor.deserialize
  previous _ := none
  tryInto h := (Option.some_ne_none _ h.symm).elim

variable [Ciborium]

/-- `format::encode`, of a boundary. -/
def Boundary.encode (boundary : Boundary) : List UInt8 := Boundary.formats.encode () boundary

/-- `format::decode`, of a boundary. Errors are logged only. -/
def Boundary.decode (record : List UInt8) : Option Boundary :=
  match Boundary.formats.decode 1 () record with
  | some (.ok boundary) => some boundary
  | _ => none

/-- `BoundaryStore::load`, of what the locker found. -/
def BoundaryStore.load (verdict : Verdict) : BoundaryStore := ⟨verdict.record.bind Boundary.decode⟩

end Record

/-! ## The system -/

/-- A process: at its load of the record, or past it. -/
inductive Process where
  | loading
  | running (executor : Executor)

structure Sled where
  drives : Drives
  life : Option Process

inductive SledAct where
  /-- A process starts, with a nonce of its own, and loads the record. -/
  | start (nonce : Nonce)
  /-- The process dies, with all its tasks. -/
  | crash
  /-- A slot's file is removed. -/
  | remove (slot : ℕ)
  /-- A blocking half or the load goes on. -/
  | disk (action : LockerAct)
  /-- A task of the executor goes on, or its driver calls it. -/
  | executor (action : ExecutorAct)

inductive SledOut where
  /-- A life has loaded the record. -/
  | loaded (boundary : Option Boundary)
  /-- The store of the boundary of this launch begins. -/
  | attempted (launch : Run)
  | executor (out : ExecutorOut)

/-- The actions that go on with a store or a load that has begun. -/
def LockerAct.goesOn : LockerAct → Bool
  | .begin _ | .write | .fail _ | .finish | .read _ => true
  | _ => false

/-- The results of stores. -/
def ExecutorAct.isAnswer : ExecutorAct → Bool
  | .stored _ | .recorded _ => true
  | _ => false

namespace Sled

/-- A sled whose slots are empty, before its first life. -/
def new (slots : ℕ) : Sled := ⟨.new slots, none⟩

variable [BoundaryCbor] [Ciborium] (own : BaseboardId) (path : ℕ → String)

/-- The locker answers whoever holds the guard. -/
def deliver (s : Sled) : LockerOut → Sled × List SledOut
  | .loaded verdict =>
    match s.life with
    | some .loading =>
      let store := BoundaryStore.load verdict
      ({ s with life := some (.running (.new store)) }, [.loaded store.boundary])
    | _ => (s, [])
  | .stored result =>
    match s.life with
    | some (.running e) =>
      let ran := match e.launcher with
        | .storing _ => e.step (.stored (result.mapError (StoreError.display path)))
        | _ => e.step (.recorded result.isOk)
      ({ s with life := some (.running ran.1) }, ran.2.map .executor)
    | _ => (s, [])

/-- The drives have moved, and their answers are delivered. -/
def serve (s : Sled) (moved : Drives × List LockerOut) : Sled × List SledOut :=
  Lib.run (deliver path) { s with drives := moved.1 } moved.2

/-- The executor of the running process does something. Whoever gets the guard stores at once. -/
def execute (s : Sled) (e : Executor) (action : ExecutorAct) : Sled × List SledOut :=
  let ran := e.step action
  let s := { s with life := some (.running ran.1) }
  match action with
  | .lock =>
    match e.launcher, ran.1.launcher with
    | .waiting _, .storing launch =>
      let served := s.serve path (s.drives.step own (.store launch.boundary.encode))
      (served.1, .attempted launch :: served.2)
    | _, _ => (s, [])
  | .lockEnding _ =>
    match e.recording, ran.1.recording with
    | none, some boundary => s.serve path (s.drives.step own (.store boundary.encode))
    | _, _ => (s, [])
  | _ => (s, ran.2.map .executor)

/-- One action. The executor learns the results of stores from the drives alone. -/
def step (s : Sled) : SledAct → Sled × List SledOut
  | .start nonce =>
    match s.life with
    | none =>
      let drives := (s.drives.step own (.start nonce)).1
      serve path { s with life := some .loading } (drives.step own .load)
    | some _ => (s, [])
  | .crash => (⟨(s.drives.step own .crash).1, none⟩, [])
  | .remove slot => ({ s with drives := (s.drives.step own (.remove slot)).1 }, [])
  | .disk action => if action.goesOn then s.serve path (s.drives.step own action) else (s, [])
  | .executor action =>
    match s.life with
    | some (.running e) => if action.isAnswer then (s, []) else s.execute own path e action
    | _ => (s, [])

/-- Any number of actions, in any order. -/
def run (s : Sled) (acts : List SledAct) : Sled × List SledOut := Lib.run (step own path) s acts

end Sled

end Sush
