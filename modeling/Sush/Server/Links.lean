import Sush.Lib.Book
import Sush.Server.Gossip

/-!
# The gossip manager by itself

`Manager::run` of `server/src/gossip.rs` as a machine: one turn of its select loop, and what can happen
beside it. The watch of the peer set may change at any time, also between the two reads of it after a
change was noticed. A driver's session ends at any time; the manager learns of it when it reaps the
task. A migration holds up the loop until it is over.

What is seen of a turn is what it does to the drivers: the acts on the book that `live` is about them.
-/

namespace Sush.Gossip

open Lib (Book)

variable {P N : Type} [LinearOrder P] [LinearOrder N]

/-- The branches of the loop. -/
inductive LoopEvent (P : Type) where
  | tick
  /-- The peer set changed. The set is this one by the time peers are linked. -/
  | peersChanged (later : List P)
  | accepted (peer : P)
  | dialed (id : ℕ) (linked : Bool)
  | dialLost (id : ℕ)
  | driverDone (id : ℕ)
  | driverLost (id : ℕ)

inductive LinkEvent (P N : Type) where
  | loop (event : LoopEvent P)
  /-- The watch of the peer set has a new value. -/
  | watched (peers : List P)
  | sessionEnded (id : ℕ) (stopped : Stopped)
  | served (network : N)
  | joined
  | joinFailed

namespace Manager

/-- What `onLink` does to the drivers. -/
def linkActs (m : Manager P N) (peer : P) : List (Book.Act P) :=
  if peer ∈ m.joins then [.clear] else [.spawn peer m.nextId]

/-- A turn of the loop. -/
def loop (m : Manager P N) : LoopEvent P → Manager P N × List (Book.Act P)
  | .tick => (m.linkAbsent, [])
  | .peersChanged later => (linkAbsent { m.prune with peers := later }, [.cull m.peers.contains])
  | .accepted peer => (m.onLink peer, m.linkActs peer)
  | .dialed id linked =>
    match m.dials.find? (·.id = id) with
    | some dial =>
      (m.reapDial dial linked,
        if linked = true ∧ m.dialing dial.peer = some dial.id then m.linkActs dial.peer else [])
    | none => (m, [])
  | .dialLost id =>
    match m.dials.find? (·.id = id) with
    | some dial => (m.loseDial dial, [])
    | none => (m, [])
  | .driverDone id =>
    match m.drivers.find? (·.id = id) with
    | some driver =>
      match driver.stopped with
      | some stopped => (m.reapDriver driver stopped, [.reap driver.id])
      | none => (m, [])
    | none => (m, [])
  | .driverLost id =>
    match m.drivers.find? (·.id = id) with
    | some driver => (m.loseDriver driver, [.reap driver.id])
    | none => (m, [])

def step (m : Manager P N) : LinkEvent P N → Manager P N × List (Book.Act P)
  | .loop event => if m.migration.isSome then (m, []) else m.loop event
  | .watched peers => ({ m with peers }, [])
  | .sessionEnded id stopped =>
    match m.drivers.find? (·.id = id) with
    | some driver => if driver.stopped = none then (m.stopDriver id stopped, []) else (m, [])
    | none => (m, [])
  | .served network =>
    match m.migration with
    | some migration => ({ m with migration := some { migration with served := some network } }, [])
    | none => (m, [])
  | .joined =>
    match m.migration with
    | some ⟨_, some network⟩ => ((m.adopt network).finishMigrate, [])
    | _ => (m, [])
  | .joinFailed =>
    match m.migration with
    | some _ => (m.finishMigrate, [])
    | none => (m, [])

/-- A manager from its start. -/
def links (own : P) (peers : List P) (network : N) (events : List (LinkEvent P N)) :
    Manager P N × List (Book.Act P) :=
  Lib.run step (new own peers network) events

end Manager

end Sush.Gossip
