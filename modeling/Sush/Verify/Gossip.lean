import Mathlib.Algebra.BigOperators.Group.Finset.Basic
import Mathlib.Algebra.Order.BigOperators.Group.Finset
import Mathlib.Data.Prod.Lex
import Sush.Server.Gossip

/-!
# Migrations only go up

Domination is a strict order on universes: by the number of events, and among equals by the lesser
network identifier (`beats_iff_rank_lt`). A debt is owed to a peer whose universe beat ours when it was
incurred. The peer may have moved since, but only up, so its universe beats ours still; and we have not
moved, since a migration forgives all debts. This is `Manager.Good`, with the universes of all sleds as
a parameter: it survives what the manager does, and it survives other sleds moving up (`Good.mono`).

A join is served by a driver that was not aborted. Drivers are aborted before their manager moves, so
such a driver is in the universe its manager is in, and that is one that beats ours. So every migration
goes up, among the universes that were seeded, and there are fewer than the square of the number of
sleds (`migrations_go_up`).
-/

namespace Sush.Gossip

variable {P N : Type} [LinearOrder N]

/-! ## The order -/

/-- The universe `v` dominates `u`, with the events that every member reports. -/
def Beats (count : N → ℕ) (u v : N) : Prop := remoteDominates (count u) (count v) u v = true

/-- Where a universe stands: by its events, then the lesser identifier first. -/
def rank (count : N → ℕ) (u : N) : ℕ ×ₗ Nᵒᵈ := toLex (count u, OrderDual.toDual u)

variable {count : N → ℕ}

theorem beats_iff_rank_lt {u v : N} : Beats count u v ↔ rank count u < rank count v := by
  rw [Beats, rank, rank, Prod.Lex.toLex_lt_toLex, remoteDominates]
  rcases lt_trichotomy (count u) (count v) with h | h | h
  · simp [compare_gt_iff_gt.2 h, h]
  · simp [h]
  · simp [compare_lt_iff_lt.2 h, h.not_gt, h.ne']

omit [LinearOrder N] in
theorem rank_injective : Function.Injective (rank count) := by
  intro u v h
  exact OrderDual.toDual.injective (Prod.ext_iff.1 (toLex.injective h)).2

theorem Beats.trans {u v w : N} (h : Beats count u v) (h' : Beats count v w) : Beats count u w :=
  beats_iff_rank_lt.2 ((beats_iff_rank_lt.1 h).trans (beats_iff_rank_lt.1 h'))

theorem Beats.irrefl {u : N} : ¬Beats count u u := fun h => lt_irrefl _ (beats_iff_rank_lt.1 h)

theorem beats_or_beats {u v : N} (h : u ≠ v) :
    (Beats count u v ∧ ¬Beats count v u) ∨ (Beats count v u ∧ ¬Beats count u v) := by
  have hne : rank count u ≠ rank count v := fun heq => h (rank_injective heq)
  rw [beats_iff_rank_lt, beats_iff_rank_lt]
  rcases hne.lt_or_gt with hlt | hgt
  · exact .inl ⟨hlt, hlt.not_gt⟩
  · exact .inr ⟨hgt, hgt.not_gt⟩

/-- `v` is `u` or beats it. -/
def Above (count : N → ℕ) (u v : N) : Prop := u = v ∨ Beats count u v

theorem Beats.trans_above {u v w : N} (h : Beats count u v) (h' : Above count v w) :
    Beats count u w := by
  rcases h' with rfl | h'
  · exact h
  · exact h.trans h'

theorem Above.trans {u v w : N} (h : Above count u v) (h' : Above count v w) : Above count u w := by
  rcases h with rfl | h
  · exact h'
  · exact .inr (h.trans_above h')

/-! ## One manager -/

namespace Manager

variable {cur now : P → N} {seeds : Set N} {m : Manager P N}

/-- What holds of a manager while the sleds are in the universes `cur`, all of them among `seeds`. -/
structure Good (count : N → ℕ) (seeds : Set N) (cur : P → N) (m : Manager P N) : Prop where
  seeded : m.network ∈ seeds
  ids : ∀ d ∈ m.drivers, d.id < m.nextId
  unique : (m.drivers.map (·.id)).Nodup
  /-- The driver on the books is in our universe. -/
  live : ∀ d ∈ m.drivers, m.live d.peer = some d.id → d.network = m.network
  /-- So is every driver that may still serve. -/
  unaborted : ∀ d ∈ m.drivers, d.aborted = false → d.network = m.network
  dominated : ∀ d ∈ m.drivers, d.stopped = some .dominated → Beats count d.network (cur d.peer)
  joins : ∀ peer ∈ m.joins, Beats count m.network (cur peer)
  migration : ∀ g, m.migration = some g → g.peer ∈ m.joins ∧ (∀ peer, m.live peer = none) ∧
    (∀ d ∈ m.drivers, d.aborted = true) ∧
    ∀ u, g.served = some u → Beats count m.network u ∧ u ∈ seeds

theorem Good.mono (h : Good count seeds cur m) (hup : ∀ peer, Above count (cur peer) (now peer)) :
    Good count seeds now m :=
  { h with
    dominated := fun d hd hs => (h.dominated d hd hs).trans_above (hup d.peer)
    joins := fun peer hp => (h.joins peer hp).trans_above (hup peer) }

theorem good_new {own : P} {peers : List P} {network : N} (h : network ∈ seeds) :
    Good count seeds cur (new own peers network) where
  seeded := h
  ids _ hd := by cases hd
  unique := List.nodup_nil
  live _ hd := by cases hd
  unaborted _ hd := by cases hd
  dominated _ hd := by cases hd
  joins _ hp := by cases hp
  migration _ hg := by cases hg

/-- The drivers `ds'` are among `ds`, but for some that are now aborted. -/
structure Fewer (ds' ds : List (Driver P N)) : Prop where
  ids : (ds'.map (·.id)).Sublist (ds.map (·.id))
  of_mem : ∀ d ∈ ds', ∃ d₀ ∈ ds, d.id = d₀.id ∧ d.peer = d₀.peer ∧ d.network = d₀.network ∧
    d.stopped = d₀.stopped ∧ (d.aborted = false → d₀.aborted = false)

section

variable {ds : List (Driver P N)}

omit [LinearOrder N]

theorem Fewer.refl : Fewer ds ds := ⟨.refl _, fun d hd => ⟨d, hd, rfl, rfl, rfl, rfl, id⟩⟩

theorem Fewer.filter (keep : Driver P N → Bool) : Fewer (ds.filter keep) ds where
  ids := List.filter_sublist.map _
  of_mem d hd := ⟨d, List.mem_of_mem_filter hd, rfl, rfl, rfl, rfl, id⟩

theorem Fewer.abort (c : Driver P N → Prop) [DecidablePred c] :
    Fewer (ds.map fun d => if c d then { d with aborted := true } else d) ds where
  ids := by
    have hsame : (ds.map fun d => if c d then { d with aborted := true } else d).map (·.id) =
        ds.map (·.id) := by
      rw [List.map_map]
      refine List.map_congr_left fun d _ => ?_
      simp only [Function.comp_apply]
      split <;> rfl
    rw [hsame]
  of_mem d hd := by
    obtain ⟨d₀, hd₀, rfl⟩ := List.mem_map.1 hd
    refine ⟨d₀, hd₀, ?_⟩
    split
    · exact ⟨rfl, rfl, rfl, rfl, fun h => by cases h⟩
    · exact ⟨rfl, rfl, rfl, rfl, id⟩

end

/-- A manager with fewer drivers, and fewer of them on the books. -/
theorem Good.of_fewer {m' : Manager P N} (h : Good count seeds cur m)
    (hnetwork : m'.network = m.network) (hnext : m.nextId ≤ m'.nextId)
    (hdrivers : Fewer m'.drivers m.drivers)
    (hlive : ∀ peer id, m'.live peer = some id → m.live peer = some id)
    (hjoins : m'.joins ⊆ m.joins)
    (hmigration : ∀ g, m'.migration = some g → g.peer ∈ m'.joins ∧ (∀ peer, m'.live peer = none) ∧
      (∀ d ∈ m'.drivers, d.aborted = true) ∧
      ∀ u, g.served = some u → Beats count m'.network u ∧ u ∈ seeds) :
    Good count seeds cur m' where
  seeded := hnetwork ▸ h.seeded
  ids d hd := by
    obtain ⟨d₀, hd₀, hid, -⟩ := hdrivers.of_mem d hd
    rw [hid]
    exact (h.ids d₀ hd₀).trans_le hnext
  unique := h.unique.sublist hdrivers.ids
  live d hd hl := by
    obtain ⟨d₀, hd₀, hid, hpeer, hnet, -⟩ := hdrivers.of_mem d hd
    have hold := hlive _ _ hl
    rw [hid, hpeer] at hold
    rw [hnet, hnetwork]
    exact h.live d₀ hd₀ hold
  unaborted d hd ha := by
    obtain ⟨d₀, hd₀, -, -, hnet, -, haborted⟩ := hdrivers.of_mem d hd
    rw [hnet, hnetwork]
    exact h.unaborted d₀ hd₀ (haborted ha)
  dominated d hd hs := by
    obtain ⟨d₀, hd₀, -, hpeer, hnet, hstopped, -⟩ := hdrivers.of_mem d hd
    rw [hnet, hpeer]
    exact h.dominated d₀ hd₀ (hstopped ▸ hs)
  joins peer hp := hnetwork ▸ h.joins peer (hjoins hp)
  migration := hmigration

theorem Good.eq_of_id_eq (h : Good count seeds cur m) {d d' : Driver P N} (hd : d ∈ m.drivers)
    (hd' : d' ∈ m.drivers) (hid : d.id = d'.id) : d = d' :=
  List.inj_on_of_nodup_map h.unique hd hd' hid

theorem Good.stopDriver (h : Good count seeds cur m) {id : ℕ} {stopped : Stopped}
    (hfound : stopped = .dominated →
      ∀ d ∈ m.drivers, d.id = id → Beats count d.network (cur d.peer)) :
    Good count seeds cur (m.stopDriver id stopped) := by
  have hold : ∀ d ∈ (m.stopDriver id stopped).drivers, ∃ d₀ ∈ m.drivers, d.id = d₀.id ∧
      d.peer = d₀.peer ∧ d.network = d₀.network ∧ d.aborted = d₀.aborted ∧
      (d.stopped = d₀.stopped ∨ (d₀.id = id ∧ d.stopped = some stopped)) := by
    intro d hd
    obtain ⟨d₀, hd₀, rfl⟩ := List.mem_map.1 hd
    refine ⟨d₀, hd₀, ?_⟩
    split
    · rename_i hid
      exact ⟨rfl, rfl, rfl, rfl, .inr ⟨hid, rfl⟩⟩
    · exact ⟨rfl, rfl, rfl, rfl, .inl rfl⟩
  refine ⟨h.seeded, fun d hd => ?_, ?_, fun d hd hl => ?_, fun d hd ha => ?_, fun d hd hs => ?_,
    h.joins, fun g hg => ?_⟩
  · obtain ⟨d₀, hd₀, hid, -⟩ := hold d hd
    exact hid ▸ h.ids d₀ hd₀
  · have hids : (m.stopDriver id stopped).drivers.map (·.id) = m.drivers.map (·.id) := by
      rw [Manager.stopDriver, List.map_map]
      refine List.map_congr_left fun d _ => ?_
      simp only [Function.comp_apply]
      split <;> rfl
    exact hids ▸ h.unique
  · obtain ⟨d₀, hd₀, hid, hpeer, hnet, -⟩ := hold d hd
    rw [hid, hpeer] at hl
    exact hnet.trans (h.live d₀ hd₀ hl)
  · obtain ⟨d₀, hd₀, -, -, hnet, haborted, -⟩ := hold d hd
    exact hnet.trans (h.unaborted d₀ hd₀ (haborted ▸ ha))
  · obtain ⟨d₀, hd₀, -, hpeer, hnet, -, hstopped | ⟨hid, hstopped⟩⟩ := hold d hd
    · rw [hnet, hpeer]
      exact h.dominated d₀ hd₀ (hstopped ▸ hs)
    · rw [hnet, hpeer]
      exact hfound (Option.some.inj (hstopped.symm.trans hs)) d₀ hd₀ hid
  · obtain ⟨hpeer, hlive, haborted, hserved⟩ := h.migration g hg
    refine ⟨hpeer, hlive, fun d hd => ?_, hserved⟩
    obtain ⟨d₀, hd₀, -, -, -, hsame, -⟩ := hold d hd
    exact hsame.trans (haborted d₀ hd₀)

theorem Good.serve (h : Good count seeds cur m) {g : Migration P N} (hg : m.migration = some g)
    (hseed : cur g.peer ∈ seeds) :
    Good count seeds cur { m with migration := some { g with served := some (cur g.peer) } } := by
  obtain ⟨hpeer, hlive, haborted, -⟩ := h.migration g hg
  refine { h with migration := fun g' hg' => ?_ }
  cases hg'
  refine ⟨hpeer, hlive, haborted, fun u hu => ?_⟩
  cases hu
  exact ⟨h.joins g.peer hpeer, hseed⟩

theorem Good.migrate (h : Good count seeds cur m) {peer : P} (hpeer : peer ∈ m.joins) :
    Good count seeds cur (m.migrate peer) := by
  have hall : Fewer (m.migrate peer).drivers m.drivers := by
    have habort : Fewer _ m.drivers := .abort fun _ => True
    simpa [Manager.migrate] using habort
  refine h.of_fewer rfl le_rfl hall (fun peer id hl => ?_) (Finset.Subset.refl _) (fun g hg => ?_)
  · cases hl
  · cases hg
    refine ⟨hpeer, fun _ => rfl, fun d hd => ?_, fun u hu => by cases hu⟩
    obtain ⟨d₀, -, rfl⟩ := List.mem_map.1 hd
    rfl

theorem Good.loseDial (h : Good count seeds cur m) (dial : Dial P) :
    Good count seeds cur (m.loseDial dial) :=
  h.of_fewer rfl le_rfl .refl (fun _ _ hl => hl)
    (Finset.Subset.refl _) h.migration

theorem Good.loseDriver (h : Good count seeds cur m) (hidle : m.migration = none)
    (driver : Driver P N) : Good count seeds cur (m.loseDriver driver) := by
  refine h.of_fewer rfl le_rfl (.filter _)
    (fun peer id hl => ?_) (Finset.Subset.refl _) (fun g hg => ?_)
  · simp only [Manager.loseDriver] at hl
    split at hl
    · cases hl
    · exact hl
  · cases hidle.symm.trans hg

variable [LinearOrder P]

omit [LinearOrder N] in
@[simp] theorem linkAbsent_network : m.linkAbsent.network = m.network := by
  unfold Manager.linkAbsent
  generalize m.wanted = wanted
  induction wanted generalizing m with
  | nil => rfl
  | cons peer wanted ih =>
    rw [List.foldl_cons, ih]
    unfold Manager.dialAbsent
    split <;> rfl

omit [LinearOrder N] in
@[simp] theorem finishMigrate_network : m.finishMigrate.network = m.network := linkAbsent_network

omit [LinearOrder N] in
@[simp] theorem onLink_network {peer : P} : (m.onLink peer).network = m.network := by
  unfold Manager.onLink
  split <;> rfl

omit [LinearOrder N] in
@[simp] theorem reapDial_network {dial : Dial P} {linked : Bool} :
    (m.reapDial dial linked).network = m.network := by
  unfold Manager.reapDial
  dsimp only
  split
  · split
    · exact onLink_network
    · rfl
  · rfl

omit [LinearOrder N] in
@[simp] theorem reapDriver_network {driver : Driver P N} {stopped : Stopped} :
    (m.reapDriver driver stopped).network = m.network := by
  unfold Manager.reapDriver
  dsimp only
  split
  · split <;> rfl
  · rfl

theorem Good.dialAbsent (h : Good count seeds cur m) (peer : P) :
    Good count seeds cur (m.dialAbsent peer) := by
  unfold Manager.dialAbsent
  split
  · exact h
  · exact h.of_fewer rfl (Nat.le_succ _) .refl
      (fun _ _ hl => hl) (Finset.Subset.refl _) h.migration

theorem Good.linkAbsent (h : Good count seeds cur m) : Good count seeds cur m.linkAbsent := by
  unfold Manager.linkAbsent
  generalize m.wanted = wanted
  induction wanted generalizing m with
  | nil => exact h
  | cons peer wanted ih => exact ih (h.dialAbsent peer)

theorem Good.prune (h : Good count seeds cur m) (hidle : m.migration = none) :
    Good count seeds cur m.prune := by
  refine h.of_fewer rfl le_rfl (.abort _) (fun peer id hl => ?_)
    (Finset.filter_subset _ _) (fun g hg => ?_)
  · simp only [Manager.prune] at hl
    split at hl
    · exact hl
    · cases hl
  · cases hidle.symm.trans hg

theorem Good.drive (h : Good count seeds cur m) (hidle : m.migration = none) (peer : P) :
    Good count seeds cur (m.drive peer) := by
  -- the drivers there were have smaller identifiers, so none of them is the new one on the books
  have hfewer : Fewer _ m.drivers := .abort fun d => m.live peer = some d.id
  have hold : ∀ d ∈ (m.drive peer).drivers,
      (∃ d₀ ∈ m.drivers, d.id = d₀.id ∧ d.peer = d₀.peer ∧ d.network = d₀.network ∧
        d.stopped = d₀.stopped ∧ (d.aborted = false → d₀.aborted = false)) ∨
      d = ⟨m.nextId, peer, m.network, false, none⟩ := by
    intro d hd
    rcases List.mem_append.1 hd with hd | hd
    · exact .inl (hfewer.of_mem d hd)
    · exact .inr (List.mem_singleton.1 hd)
  refine ⟨h.seeded, fun d hd => ?_, ?_, fun d hd hl => ?_, fun d hd ha => ?_, fun d hd hs => ?_,
    h.joins, fun g hg => ?_⟩
  · rcases hold d hd with ⟨d₀, hd₀, hid, -⟩ | rfl
    · rw [hid]
      exact (h.ids d₀ hd₀).trans (Nat.lt_succ_self _)
    · exact Nat.lt_succ_self _
  · rw [Manager.drive, List.map_append]
    refine List.nodup_append.2 ⟨h.unique.sublist hfewer.ids, List.nodup_singleton _, ?_⟩
    rintro id hid _ hnew rfl
    obtain ⟨d, hd, heq⟩ := List.mem_map.1 (hfewer.ids.subset hid)
    have hlt := h.ids d hd
    rw [heq, List.mem_singleton.1 hnew] at hlt
    exact lt_irrefl _ hlt
  · rcases hold d hd with ⟨d₀, hd₀, hid, hpeer, hnet, -⟩ | rfl
    · have hlt := h.ids d₀ hd₀
      rw [hnet]
      refine h.live d₀ hd₀ ?_
      rw [hid, hpeer] at hl
      simp only [Manager.drive, Function.update_apply] at hl
      split at hl
      · rw [Option.some.injEq] at hl
        omega
      · exact hl
    · rfl
  · rcases hold d hd with ⟨d₀, hd₀, -, -, hnet, -, haborted⟩ | rfl
    · rw [hnet]
      exact h.unaborted d₀ hd₀ (haborted ha)
    · rfl
  · rcases hold d hd with ⟨d₀, hd₀, -, hpeer, hnet, hstopped, -⟩ | rfl
    · rw [hnet, hpeer]
      exact h.dominated d₀ hd₀ (hstopped ▸ hs)
    · cases hs
  · cases hidle.symm.trans hg

theorem Good.onLink (h : Good count seeds cur m) (hidle : m.migration = none) (peer : P) :
    Good count seeds cur (m.onLink peer) := by
  unfold Manager.onLink
  split
  · exact h.migrate ‹_›
  · exact h.drive hidle peer

theorem Good.reapDial (h : Good count seeds cur m) (hidle : m.migration = none) (dial : Dial P)
    (linked : Bool) : Good count seeds cur (m.reapDial dial linked) := by
  have hreaped : Good count seeds cur { m with dials := m.dials.filter (·.id ≠ dial.id) } :=
    h.of_fewer rfl le_rfl .refl (fun _ _ hl => hl)
      (Finset.Subset.refl _) h.migration
  unfold Manager.reapDial
  dsimp only
  split
  · have hoff : Good count seeds cur { m with
        dials := m.dials.filter (·.id ≠ dial.id)
        dialing := Function.update m.dialing dial.peer none } :=
      hreaped.of_fewer rfl le_rfl .refl (fun _ _ hl => hl) (Finset.Subset.refl _) h.migration
    split
    · exact hoff.onLink hidle dial.peer
    · exact hoff
  · exact hreaped

theorem Good.reapDriver (h : Good count seeds cur m) (hidle : m.migration = none)
    {driver : Driver P N} (hdriver : driver ∈ m.drivers) {stopped : Stopped}
    (hstopped : driver.stopped = some stopped) :
    Good count seeds cur (m.reapDriver driver stopped) := by
  have hreaped : Good count seeds cur { m with drivers := m.drivers.filter (·.id ≠ driver.id) } :=
    h.of_fewer rfl le_rfl (.filter _)
      (fun _ _ hl => hl) (Finset.Subset.refl _) fun g hg => by cases hidle.symm.trans hg
  unfold Manager.reapDriver
  dsimp only
  split
  case isFalse => exact hreaped
  case isTrue hlive =>
    have hoff : Good count seeds cur { m with
        drivers := m.drivers.filter (·.id ≠ driver.id)
        live := Function.update m.live driver.peer none } := hreaped.of_fewer rfl le_rfl .refl
      (fun peer id hl => by
        simp only [Function.update_apply] at hl
        split at hl
        · cases hl
        · exact hl)
      (Finset.Subset.refl _) fun g hg => by cases hidle.symm.trans hg
    split
    case isFalse => exact hoff
    case isTrue hdominated =>
      subst hdominated
      have hbeats := h.dominated driver hdriver hstopped
      rw [h.live driver hdriver hlive] at hbeats
      refine { hoff with joins := fun peer hp => ?_, migration := fun g hg => ?_ }
      · rcases Finset.mem_insert.1 hp with rfl | hp
        · exact hbeats
        · exact h.joins peer hp
      · cases hidle.symm.trans hg

theorem Good.finishMigrate (h : Good count seeds cur m) : Good count seeds cur m.finishMigrate := by
  have hidle : Good count seeds cur { m with migration := none } :=
    h.of_fewer rfl le_rfl .refl (fun _ _ hl => hl)
      (Finset.Subset.refl _) fun g hg => by cases hg
  exact hidle.linkAbsent

theorem Good.adopt (h : Good count seeds cur m) {peer : P} {network : N}
    (hmigration : m.migration = some ⟨peer, some network⟩) :
    Good count seeds cur (m.adopt network).finishMigrate := by
  obtain ⟨-, hlive, haborted, hserved⟩ := h.migration _ hmigration
  have hmoved : Good count seeds cur { m.adopt network with migration := none } := {
    seeded := (hserved network rfl).2
    ids := h.ids
    unique := h.unique
    live := fun d _ hl => by cases (hlive d.peer).symm.trans hl
    unaborted := fun d hd ha => by cases (haborted d hd).symm.trans ha
    dominated := h.dominated
    joins := fun p hp => by cases hp
    migration := fun g hg => by cases hg }
  exact hmoved.linkAbsent

end Manager

/-! ## The fleet -/

namespace Fleet

variable {seeds : Set N} {f : Fleet P N}

/-- What holds of a fleet: of every manager with the universes that all are in, and of the universes that
a sled has been in, of which the latest is the one it is in. -/
structure Good (count : N → ℕ) (seeds : Set N) (f : Fleet P N) : Prop where
  managers : ∀ sled, Manager.Good count seeds f.network (f.managers sled)
  visited : ∀ sled, ∀ u ∈ f.past sled, u ∈ seeds
  latest : ∀ sled, ∃ us, f.past sled = f.network sled :: us
  rising : ∀ sled, (f.past sled).Pairwise fun later earlier => Beats count earlier later

theorem good_seed [LinearOrder P] (peers : P → List P) (networks : P → N) :
    Good count (Set.range networks) (seed peers networks) where
  managers sled := Manager.good_new (Set.mem_range_self sled)
  visited sled u hu := by
    rw [List.mem_singleton.1 hu]
    exact Set.mem_range_self sled
  latest _ := ⟨[], rfl⟩
  rising _ := List.pairwise_singleton _ _

theorem Good.above_of_mem_past (h : Good count seeds f) {sled : P} {u : N} (hu : u ∈ f.past sled) :
    Above count u (f.network sled) := by
  obtain ⟨us, hus⟩ := h.latest sled
  have hrising := h.rising sled
  rw [hus] at hu hrising
  rcases List.mem_cons.1 hu with rfl | hu
  · exact .inl rfl
  · exact .inr (List.rel_of_pairwise_cons hrising hu)

variable [LinearOrder P]

omit [LinearOrder N] in
theorem network_set (f : Fleet P N) (sled : P) (m : Manager P N) :
    (f.set sled m).network = Function.update f.network sled m.network := by
  funext peer
  by_cases hpeer : peer = sled
  · subst hpeer
    simp [Fleet.network, Fleet.set]
  · simp [Fleet.network, Fleet.set, hpeer]

theorem Good.set (h : Good count seeds f) {sled : P} {m : Manager P N}
    (hm : Manager.Good count seeds f.network m) (hnetwork : m.network = f.network sled) :
    Good count seeds (f.set sled m) := by
  have hsame : (f.set sled m).network = f.network := by
    rw [network_set, hnetwork, Function.update_eq_self]
  refine ⟨fun peer => ?_, h.visited, fun peer => ?_, h.rising⟩
  · rw [hsame]
    by_cases hpeer : peer = sled
    · subst hpeer
      simpa [Fleet.set] using hm
    · simpa [Fleet.set, hpeer] using h.managers peer
  · rw [hsame]
    exact h.latest peer

/-- The fleet after `sled` has joined the universe `u`. -/
def follow (f : Fleet P N) (sled : P) (u : N) : Fleet P N where
  managers := (f.set sled ((f.managers sled).adopt u).finishMigrate).managers
  past := Function.update f.past sled (u :: f.past sled)

omit [LinearOrder N] in
theorem network_follow (f : Fleet P N) (sled : P) (u : N) :
    (f.follow sled u).network = Function.update f.network sled u := by
  have h := network_set f sled ((f.managers sled).adopt u).finishMigrate
  rw [Manager.finishMigrate_network] at h
  exact h

omit [LinearOrder N] in
theorem past_follow (f : Fleet P N) (sled p : P) (u : N) :
    (f.follow sled u).past p = if p = sled then u :: f.past p else f.past p := by
  by_cases hp : p = sled
  · subst hp
    simp [Fleet.follow]
  · simp [Fleet.follow, hp]

theorem Good.follow (h : Good count seeds f) {sled peer : P} {u : N}
    (hmigration : (f.managers sled).migration = some ⟨peer, some u⟩) :
    Good count seeds (f.follow sled u) := by
  obtain ⟨-, -, -, hserved⟩ := (h.managers sled).migration _ hmigration
  obtain ⟨hbeats, hseed⟩ := hserved u rfl
  have hup : ∀ p, Above count (f.network p) ((f.follow sled u).network p) := by
    intro p
    rw [network_follow, Function.update_apply]
    split
    · subst p
      exact .inr hbeats
    · exact .inl rfl
  refine ⟨fun p => ?_, fun p v hv => ?_, fun p => ?_, fun p => ?_⟩
  · by_cases hp : p = sled
    · subst hp
      simpa [Fleet.follow, Fleet.set] using ((h.managers p).adopt hmigration).mono hup
    · simpa [Fleet.follow, Fleet.set, hp] using (h.managers p).mono hup
  · rw [past_follow] at hv
    split at hv
    · rcases List.mem_cons.1 hv with rfl | hv
      · exact hseed
      · exact h.visited p v hv
    · exact h.visited p v hv
  · rw [past_follow, network_follow, Function.update_apply]
    split
    · exact ⟨f.past p, rfl⟩
    · exact h.latest p
  · rw [past_follow]
    split
    · subst p
      refine List.pairwise_cons.2 ⟨fun v hv => ?_, h.rising sled⟩
      rcases h.above_of_mem_past hv with rfl | hv
      · exact hbeats
      · exact hv.trans hbeats
    · exact h.rising p

/-- What one action can do: the manager stays where it is, or it follows a peer that it owes a join. -/
theorem Good.step_cases (h : Good count seeds f) (sled : P) (action : Action P N) :
    (∃ m, Manager.Good count seeds f.network m ∧ m.network = f.network sled ∧
      Fleet.step count f (sled, action) = (f.set sled m, [])) ∨
    ∃ peer u, (f.managers sled).migration = some ⟨peer, some u⟩ ∧
      Fleet.step count f (sled, action) = (f.follow sled u, [⟨sled, f.network sled, u⟩]) := by
  have hm := h.managers sled
  have hstay : (∃ m, Manager.Good count seeds f.network m ∧ m.network = f.network sled ∧
      (f, ([] : List (Migrated P N))) = (f.set sled m, [])) :=
    ⟨f.managers sled, hm, rfl, by rw [Fleet.set, Function.update_eq_self]⟩
  cases action with
  | joined =>
    simp only [Fleet.step]
    split
    · rename_i peer u hmigration
      exact .inr ⟨peer, u, hmigration, rfl⟩
    · exact .inl hstay
  | mismatch id remote =>
    left
    simp only [Fleet.step]
    split
    · rename_i driver hdriver
      split
      · rename_i hmet
        refine ⟨_, hm.stopDriver fun hdominated d hd hid => ?_, rfl, rfl⟩
        obtain rfl : d = driver := hm.eq_of_id_eq hd (List.mem_of_find?_eq_some hdriver)
          (hid.trans (by simpa [eq_comm] using List.find?_some hdriver))
        have hbeats : Beats count d.network remote := by
          by_contra hlost
          rw [Beats] at hlost
          simp [Manager.mismatch, hlost] at hdominated
        exact hbeats.trans_above (h.above_of_mem_past hmet.2.1)
      · exact hstay
    · exact hstay
  | sessionFailed id =>
    left
    simp only [Fleet.step]
    split
    · split
      · have hfailed : Manager.Good count seeds f.network ((f.managers sled).stopDriver id .failed) :=
          hm.stopDriver fun hdominated => by cases hdominated
        exact ⟨_, hfailed, rfl, rfl⟩
      · exact hstay
    · exact hstay
  | served id =>
    left
    simp only [Fleet.step]
    split
    · rename_i migration hmigration
      split
      · rename_i driver hdriver
        split
        · rename_i hserves
          -- a driver that may serve is in the universe that its manager is in
          have hnetwork : driver.network = f.network migration.peer :=
            (h.managers migration.peer).unaborted driver (List.mem_of_find?_eq_some hdriver) hserves.2.1
          rw [hnetwork]
          exact ⟨_, hm.serve hmigration (h.managers migration.peer).seeded, rfl, rfl⟩
        · exact hstay
      · exact hstay
    · exact hstay
  | joinFailed =>
    left
    simp only [Fleet.step]
    split
    · exact ⟨_, hm.finishMigrate, Manager.finishMigrate_network, rfl⟩
    · exact hstay
  | tick =>
    left
    simp only [Fleet.step]
    split
    · exact hstay
    · exact ⟨_, hm.linkAbsent, Manager.linkAbsent_network, rfl⟩
  | peersChanged peers =>
    left
    simp only [Fleet.step]
    split
    · exact hstay
    · rename_i hidle
      have hpeers : Manager.Good count seeds f.network { f.managers sled with peers } :=
        hm.of_fewer rfl le_rfl .refl (fun _ _ hl => hl) (Finset.Subset.refl _) hm.migration
      exact ⟨_, (hpeers.prune (Option.not_isSome_iff_eq_none.1 hidle)).linkAbsent,
        Manager.linkAbsent_network, rfl⟩
  | accepted peer =>
    left
    simp only [Fleet.step]
    split
    · exact hstay
    · rename_i hidle
      exact ⟨_, hm.onLink (Option.not_isSome_iff_eq_none.1 hidle) peer, Manager.onLink_network, rfl⟩
  | dialed id linked =>
    left
    simp only [Fleet.step]
    split
    · exact hstay
    · rename_i hidle
      split
      · exact ⟨_, hm.reapDial (Option.not_isSome_iff_eq_none.1 hidle) _ _,
          Manager.reapDial_network, rfl⟩
      · exact hstay
  | dialLost id =>
    left
    simp only [Fleet.step]
    split
    · exact hstay
    · split
      · exact ⟨_, hm.loseDial _, rfl, rfl⟩
      · exact hstay
  | driverDone id =>
    left
    simp only [Fleet.step]
    split
    · exact hstay
    · rename_i hidle
      split
      · rename_i driver hdriver
        split
        · rename_i stopped hstopped
          exact ⟨_, hm.reapDriver (Option.not_isSome_iff_eq_none.1 hidle)
            (List.mem_of_find?_eq_some hdriver) hstopped, Manager.reapDriver_network, rfl⟩
        · exact hstay
      · exact hstay
  | driverLost id =>
    left
    simp only [Fleet.step]
    split
    · exact hstay
    · rename_i hidle
      split
      · exact ⟨_, hm.loseDriver (Option.not_isSome_iff_eq_none.1 hidle) _, rfl, rfl⟩
      · exact hstay

/-- What a run keeps, with the migrations so far: each went up, and they are what the sleds have been
through. -/
structure Traced (count : N → ℕ) (networks : P → N) (f : Fleet P N) (moves : List (Migrated P N)) :
    Prop where
  good : Good count (Set.range networks) f
  up : ∀ move ∈ moves, Beats count move.origin move.network
  past : ∀ sled, f.past sled =
    ((moves.filter (·.sled = sled)).map (·.network)).reverse ++ [networks sled]

theorem traced_run (peers : P → List P) (networks : P → N) (inputs : List (P × Action P N)) :
    Traced count networks (run count (seed peers networks) inputs).1
      (run count (seed peers networks) inputs).2 := by
  refine Lib.run_invariant (step count) (P := fun f _ moves => Traced count networks f moves)
    (fun f _ moves input h => ?_) ⟨good_seed peers networks, by simp, fun _ => rfl⟩ inputs
  obtain ⟨sled, action⟩ := input
  rcases h.good.step_cases sled action with ⟨m, hm, hnetwork, hstep⟩ | ⟨peer, u, hmigration, hstep⟩
  · rw [hstep]
    exact ⟨h.good.set hm hnetwork, by simpa using h.up, by simpa [Fleet.set] using h.past⟩
  · obtain ⟨-, -, -, hserved⟩ := (h.good.managers sled).migration _ hmigration
    rw [hstep]
    refine ⟨h.good.follow hmigration, fun move hmove => ?_, fun p => ?_⟩
    · rcases List.mem_append.1 hmove with hmove | hmove
      · exact h.up move hmove
      · rw [List.mem_singleton.1 hmove]
        exact (hserved u rfl).1
    · rw [past_follow, h.past p]
      by_cases hp : p = sled
      · subst hp
        simp
      · simp [hp, Ne.symm hp]

theorem Traced.length_past_le [Fintype P] {networks : P → N} {moves : List (Migrated P N)}
    (h : Traced count networks f moves) (sled : P) : (f.past sled).length ≤ Fintype.card P := by
  have hnodup : (f.past sled).Nodup := by
    refine (h.good.rising sled).imp fun hbeats heq => ?_
    rw [heq] at hbeats
    exact Beats.irrefl hbeats
  have hsub : (f.past sled).toFinset ⊆ Finset.univ.image networks := by
    intro u hu
    obtain ⟨p, rfl⟩ := h.good.visited sled u (List.mem_toFinset.1 hu)
    exact Finset.mem_image_of_mem _ (Finset.mem_univ p)
  calc (f.past sled).length
      = (f.past sled).toFinset.card := (List.toFinset_card_of_nodup hnodup).symm
    _ ≤ (Finset.univ.image networks).card := Finset.card_le_card hsub
    _ ≤ Fintype.card P := Finset.card_image_le

omit [LinearOrder N] in
theorem length_eq_sum_sleds [Fintype P] (moves : List (Migrated P N)) :
    moves.length = ∑ sled, (moves.filter (·.sled = sled)).length := by
  induction moves with
  | nil => simp
  | cons move moves ih =>
    have hone : ∀ sled, ((move :: moves).filter (·.sled = sled)).length =
        (moves.filter (·.sled = sled)).length + if move.sled = sled then 1 else 0 := by
      intro sled
      by_cases hsled : move.sled = sled <;> simp [hsled]
    simp only [hone, Finset.sum_add_distrib, ← ih, Finset.sum_ite_eq, Finset.mem_univ, if_true,
      List.length_cons]

theorem Traced.length_moves_le [Fintype P] {networks : P → N} {moves : List (Migrated P N)}
    (h : Traced count networks f moves) :
    moves.length ≤ Fintype.card P * (Fintype.card P - 1) := by
  have hsled : ∀ sled, (moves.filter (·.sled = sled)).length ≤ Fintype.card P - 1 := by
    intro sled
    have hle := h.length_past_le sled
    simp only [h.past sled, List.length_append, List.length_reverse, List.length_map,
      List.length_singleton] at hle
    omega
  calc moves.length
      = ∑ sled, (moves.filter (·.sled = sled)).length := length_eq_sum_sleds moves
    _ ≤ ∑ _sled : P, (Fintype.card P - 1) := Finset.sum_le_sum fun sled _ => hsled sled
    _ = Fintype.card P * (Fintype.card P - 1) := by simp

end Fleet

/-- **Migrations only go up.** Domination is a strict total order. In every run of every fleet, a debt is
owed to a peer whose universe beats ours, every migration goes to a universe that beats the one it
leaves, the universes that a sled goes through each beat all the ones before, and there are no more
migrations than ordered pairs of sleds. -/
theorem migrations_go_up [LinearOrder P] [Fintype P] (count : N → ℕ) (peers : P → List P)
    (networks : P → N) (inputs : List (P × Action P N)) :
    ((∀ u : N, ¬Beats count u u) ∧
      (∀ u v : N, u ≠ v → (Beats count u v ∧ ¬Beats count v u) ∨ (Beats count v u ∧ ¬Beats count u v)) ∧
      ∀ u v w : N, Beats count u v → Beats count v w → Beats count u w) ∧
    let (f, moves) := Fleet.run count (Fleet.seed peers networks) inputs
    (∀ sled, ∀ peer ∈ (f.managers sled).joins, Beats count (f.network sled) (f.network peer)) ∧
    (∀ move ∈ moves, Beats count move.origin move.network) ∧
    (∀ sled, (networks sled :: (moves.filter (·.sled = sled)).map (·.network)).Pairwise (Beats count)) ∧
    moves.length ≤ Fintype.card P * (Fintype.card P - 1) := by
  have h : Fleet.Traced count networks _ _ := Fleet.traced_run peers networks inputs
  refine ⟨⟨fun _ => Beats.irrefl, fun _ _ => beats_or_beats, fun _ _ _ => Beats.trans⟩,
    fun sled peer hpeer => (h.good.managers sled).joins peer hpeer, h.up, fun sled => ?_,
    h.length_moves_le⟩
  have hrising := h.good.rising sled
  rw [h.past sled] at hrising
  simpa using List.pairwise_reverse.2 hrising

-- Two sleds: sled 1 dials, sled 0 loses the tie and joins over the second link.
example : (Fleet.run (fun _ => 0) (Fleet.seed (fun _ => [0, 1]) (fun sled : Fin 2 => 5 - sled.val))
    [(1, .tick), (1, .dialed 0 true), (0, .accepted 1), (0, .mismatch 0 4), (0, .driverDone 0),
      (1, .sessionFailed 1), (1, .driverDone 1), (1, .tick), (1, .dialed 2 true), (0, .accepted 1),
      (0, .served 3), (0, .joined)]).2.map (fun move => (move.sled, move.origin, move.network)) =
    [(0, 5, 4)] := by decide

end Sush.Gossip
