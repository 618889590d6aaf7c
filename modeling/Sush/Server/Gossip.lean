import Sush.Lib.Machine

/-!
# The gossip manager and a fleet of them

`server/src/gossip.rs`. Every sled begins in a universe of its own. A manager keeps one driver task for
each live link; a driver whose session finds a universe that dominates its own stops, and the manager
then owes the peer a join: the next link to that peer is used to leave its own universe for the peer's.

`Manager` has the tasks, the books about them (`live`, `dialing`, `joins`) and the operations of the
source. `Fleet.step` runs many managers. Tasks finish, and are reaped, in any order; a migration waits
for the peer to serve it, and everything but its own manager goes on meanwhile. What is on the other end
of a link is a driver of the peer's manager, which serves the universe it was started in.

A universe is its network identifier. How many events it has is a function of it, which every member
reports.
-/

namespace Sush.Gossip

variable {P N : Type} [LinearOrder P] [LinearOrder N]

/-- Whether the peer's universe dominates ours. -/
def remoteDominates (localEvents remoteEvents : ℕ) (localNetwork remoteNetwork : N) : Bool :=
  match compare remoteEvents localEvents with
  | .gt => true
  | .lt => false
  -- any total order serves, as long as both sides use the same one
  | .eq => remoteNetwork < localNetwork

/-- Why a link's driver stopped. -/
inductive Stopped where
  /-- Its session found a universe that dominates ours. -/
  | dominated
  /-- The link failed, or was poisoned by a session. -/
  | failed
  deriving DecidableEq

/-- A driver task: the universe it gossips in, whether it was aborted, and what it returned. -/
structure Driver (P N : Type) where
  id : ℕ
  peer : P
  network : N
  aborted : Bool
  stopped : Option Stopped

/-- A task that establishes a link. -/
structure Dial (P : Type) where
  id : ℕ
  peer : P
  aborted : Bool

/-- A join under way: the peer it goes through, and the universe that was served, if one was. -/
structure Migration (P N : Type) where
  peer : P
  served : Option N

structure Manager (P N : Type) where
  /-- Our address. -/
  own : P
  peers : List P
  /-- The universe we are in. -/
  network : N
  drivers : List (Driver P N)
  live : P → Option ℕ
  dials : List (Dial P)
  dialing : P → Option ℕ
  /-- Peers whose universes beat ours, to be joined through. -/
  joins : Finset P
  /-- The identifier of the next task. -/
  nextId : ℕ
  /-- The join that the manager waits for; it does nothing else meanwhile. -/
  migration : Option (Migration P N)

namespace Manager

/-- A manager in a universe of its own. -/
def new (own : P) (peers : List P) (network : N) : Manager P N where
  own
  peers
  network
  drivers := []
  live _ := none
  dials := []
  dialing _ := none
  joins := ∅
  nextId := 0
  migration := none

/-- The addresses the dial tiebreak makes ours to establish. -/
def wanted (m : Manager P N) : List P := m.peers.filter (· < m.own)

/-- Start a link to `peer`, unless there is one or one is being established. -/
def dialAbsent (m : Manager P N) (peer : P) : Manager P N :=
  if (m.live peer).isSome || (m.dialing peer).isSome then m
  else
    { m with
      dials := m.dials ++ [⟨m.nextId, peer, false⟩]
      dialing := Function.update m.dialing peer (some m.nextId)
      nextId := m.nextId + 1 }

/-- Establish a link to every wanted peer without one already. -/
def linkAbsent (m : Manager P N) : Manager P N := m.wanted.foldl dialAbsent m

/-- Tear down links and dials for peers no longer in the peer set, and forgive any debt owed to them.
The handle that `live` or `dialing` has for a peer is that of the task with its identifier. -/
def prune (m : Manager P N) : Manager P N where
  own := m.own
  peers := m.peers
  network := m.network
  drivers := m.drivers.map fun d =>
    if d.peer ∉ m.peers ∧ m.live d.peer = some d.id then { d with aborted := true } else d
  live peer := if peer ∈ m.peers then m.live peer else none
  dials := m.dials.map fun d =>
    if d.peer ∉ m.peers ∧ m.dialing d.peer = some d.id then { d with aborted := true } else d
  dialing peer := if peer ∈ m.peers then m.dialing peer else none
  joins := m.joins.filter (· ∈ m.peers)
  nextId := m.nextId
  migration := m.migration

/-- Spawn a session driver on a link; it replaces the one there was. -/
def drive (m : Manager P N) (peer : P) : Manager P N :=
  { m with
    drivers := (m.drivers.map fun d =>
        if m.live peer = some d.id then { d with aborted := true } else d) ++
      [⟨m.nextId, peer, m.network, false, none⟩]
    live := Function.update m.live peer (some m.nextId)
    nextId := m.nextId + 1 }

/-- Begin to abandon our universe for the one `peer` belongs to: every driver stops first. -/
def migrate (m : Manager P N) (peer : P) : Manager P N :=
  { m with
    drivers := m.drivers.map fun d => { d with aborted := true }
    live := fun _ => none
    migration := some ⟨peer, none⟩ }

/-- Gossip on a fresh link, or use it to join a universe that beat ours. -/
def onLink (m : Manager P N) (peer : P) : Manager P N :=
  if peer ∈ m.joins then m.migrate peer else m.drive peer

/-- Follow the joined peer into its universe. -/
def adopt (m : Manager P N) (network : N) : Manager P N := { m with network, joins := ∅ }

/-- The end of `migrate`, whatever came of it. -/
def finishMigrate (m : Manager P N) : Manager P N := linkAbsent { m with migration := none }

/-- A dial finished. Only the dial still on the books may act on its result. -/
def reapDial (m : Manager P N) (dial : Dial P) (linked : Bool) : Manager P N :=
  let m := { m with dials := m.dials.filter (·.id ≠ dial.id) }
  if m.dialing dial.peer = some dial.id then
    let m := { m with dialing := Function.update m.dialing dial.peer none }
    if linked then m.onLink dial.peer else m
  else m

/-- A dial was aborted, or panicked. -/
def loseDial (m : Manager P N) (dial : Dial P) : Manager P N :=
  { m with
    dials := m.dials.filter (·.id ≠ dial.id)
    dialing := fun peer => if m.dialing peer = some dial.id then none else m.dialing peer }

/-- A driver returned. Only the living driver's death may take the peer out of the live set. -/
def reapDriver (m : Manager P N) (driver : Driver P N) (stopped : Stopped) : Manager P N :=
  let m := { m with drivers := m.drivers.filter (·.id ≠ driver.id) }
  if m.live driver.peer = some driver.id then
    let m := { m with live := Function.update m.live driver.peer none }
    if stopped = .dominated then { m with joins := insert driver.peer m.joins } else m
  else m

/-- A driver was aborted, or panicked. -/
def loseDriver (m : Manager P N) (driver : Driver P N) : Manager P N :=
  { m with
    drivers := m.drivers.filter (·.id ≠ driver.id)
    live := fun peer => if m.live peer = some driver.id then none else m.live peer }

/-- The session of a driver ends. -/
def stopDriver (m : Manager P N) (id : ℕ) (stopped : Stopped) : Manager P N :=
  { m with
    drivers := m.drivers.map fun d => if d.id = id then { d with stopped := some stopped } else d }

/-- What the driver found when its session met the universe `remote`. -/
def mismatch (count : N → ℕ) (driver : Driver P N) (remote : N) : Stopped :=
  if remoteDominates (count driver.network) (count remote) driver.network remote then .dominated
  else .failed

end Manager

/-! ## The fleet -/

/-- What can happen at one sled. -/
inductive Action (P N : Type) where
  | tick
  | peersChanged (peers : List P)
  | accepted (peer : P)
  | dialed (id : ℕ) (linked : Bool)
  | dialLost (id : ℕ)
  | mismatch (id : ℕ) (remote : N)
  | sessionFailed (id : ℕ)
  | driverDone (id : ℕ)
  | driverLost (id : ℕ)
  /-- A driver of the peer, of this identifier, serves our join. -/
  | served (id : ℕ)
  | joined
  | joinFailed

/-- A sled moved from one universe to another. -/
structure Migrated (P N : Type) where
  sled : P
  origin : N
  network : N

/-- The managers, and the universes that each has been in. -/
structure Fleet (P N : Type) where
  managers : P → Manager P N
  past : P → List N

namespace Fleet

/-- Every sled in the universe it was seeded with. -/
def seed (peers : P → List P) (networks : P → N) : Fleet P N where
  managers sled := .new sled (peers sled) (networks sled)
  past sled := [networks sled]

/-- The universe that a sled is in. -/
def network (f : Fleet P N) (sled : P) : N := (f.managers sled).network

/-- The fleet with another manager at `sled`. -/
def set (f : Fleet P N) (sled : P) (m : Manager P N) : Fleet P N :=
  { f with managers := Function.update f.managers sled m }

/-- One action at one sled. An action that is not enabled does nothing. A mismatch is with a universe
that the peer is in, or was in when it sent its half of the session. -/
def step (count : N → ℕ) (f : Fleet P N) (input : P × Action P N) :
    Fleet P N × List (Migrated P N) :=
  let (sled, action) := input
  let m := f.managers sled
  match action with
  | .mismatch id remote =>
    match m.drivers.find? (·.id = id) with
    | some driver =>
      if driver.stopped = none ∧ remote ∈ f.past driver.peer ∧ remote ≠ driver.network then
        (f.set sled (m.stopDriver id (Manager.mismatch count driver remote)), [])
      else (f, [])
    | none => (f, [])
  | .sessionFailed id =>
    match m.drivers.find? (·.id = id) with
    | some driver =>
      if driver.stopped = none then (f.set sled (m.stopDriver id .failed), []) else (f, [])
    | none => (f, [])
  | .served id =>
    match m.migration with
    | some migration =>
      match (f.managers migration.peer).drivers.find? (·.id = id) with
      | some driver =>
        if driver.peer = sled ∧ driver.aborted = false ∧ driver.stopped = none then
          let migration := { migration with served := some driver.network }
          (f.set sled { m with migration := some migration }, [])
        else (f, [])
      | none => (f, [])
    | none => (f, [])
  | .joined =>
    match m.migration with
    | some ⟨_, some network⟩ =>
      let f := f.set sled (m.adopt network).finishMigrate
      ({ f with past := Function.update f.past sled (network :: f.past sled) },
        [⟨sled, m.network, network⟩])
    | _ => (f, [])
  | .joinFailed =>
    match m.migration with
    | some _ => (f.set sled m.finishMigrate, [])
    | none => (f, [])
  -- the rest is the manager's loop, which a join holds up
  | action =>
    if m.migration.isSome then (f, [])
    else
      match action with
      | .tick => (f.set sled m.linkAbsent, [])
      | .peersChanged peers => (f.set sled ({ m with peers }).prune.linkAbsent, [])
      | .accepted peer => (f.set sled (m.onLink peer), [])
      | .dialed id linked =>
        match m.dials.find? (·.id = id) with
        | some dial => (f.set sled (m.reapDial dial linked), [])
        | none => (f, [])
      | .dialLost id =>
        match m.dials.find? (·.id = id) with
        | some dial => (f.set sled (m.loseDial dial), [])
        | none => (f, [])
      | .driverDone id =>
        match m.drivers.find? (·.id = id) with
        | some driver =>
          match driver.stopped with
          | some stopped => (f.set sled (m.reapDriver driver stopped), [])
          | none => (f, [])
        | none => (f, [])
      | .driverLost id =>
        match m.drivers.find? (·.id = id) with
        | some driver => (f.set sled (m.loseDriver driver), [])
        | none => (f, [])
      | _ => (f, [])

/-- Take actions one after the other, collecting the migrations. -/
abbrev run (count : N → ℕ) (f : Fleet P N) (inputs : List (P × Action P N)) :
    Fleet P N × List (Migrated P N) :=
  Lib.run (step count) f inputs

end Fleet

end Sush.Gossip
