import Sush.Server.Links

/-!
# The books about links

`live` is a book about the drivers, and `dialing` one about the dials. Every operation of the manager is
an act on these books or leaves them alone; reaping a task goes through the peer that the task names or
through all entries, which is the same in a sound book (`driverBook_reapDriver`). So both books stay
sound, and an entry of `live` is what the acts so far say (`Linked`). A peer that is owed a join is not
live: its driver was just reaped, and a link to it is used to migrate.
-/

namespace Sush.Gossip

open Lib (Book)

variable {P N : Type}
variable {dial : Dial P} {peer : P} {id : ℕ} {event : LoopEvent P}

def Driver.task (d : Driver P N) : Lib.Task P := ⟨d.id, d.peer, d.aborted⟩

def Dial.task (d : Dial P) : Lib.Task P := ⟨d.id, d.peer, d.aborted⟩

namespace Manager

/-- What `live` is about. -/
def driverBook (m : Manager P N) : Book P := ⟨m.drivers.map Driver.task, m.live⟩

/-- What `dialing` is about. -/
def dialBook (m : Manager P N) : Book P := ⟨m.dials.map Dial.task, m.dialing⟩

variable {m m' : Manager P N} {acts : List (Book.Act P)}

/-! ## What the books say -/

/-- The books are sound, `live` is what the acts on the drivers say, and a peer that is owed a join is
not live. -/
structure Linked (m : Manager P N) (acts : List (Book.Act P)) : Prop where
  drivers : m.driverBook.Numbered m.nextId
  dials : m.dialBook.Numbered m.nextId
  live_iff : ∀ peer id, m.live peer = some id ↔ Book.Last acts peer id
  joins : ∀ peer ∈ m.joins, m.live peer = none

theorem linked_new (own : P) (peers : List P) (network : N) : Linked (new own peers network) [] where
  drivers := ⟨Book.sound_empty, fun _ ht => by cases ht⟩
  dials := ⟨Book.sound_empty, fun _ ht => by cases ht⟩
  live_iff peer id := by
    constructor
    · intro heq
      cases heq
    · rintro ⟨pre, post, heq, -⟩
      simp at heq
  joins peer hpeer := by simp [new] at hpeer

theorem Linked.keep (h : Linked m acts) (hbook : m'.driverBook = m.driverBook) (hle : m.nextId ≤ m'.nextId)
    (hdials : m'.dialBook.Numbered m'.nextId) (hjoins : m'.joins ⊆ m.joins) : Linked m' acts := by
  have hlive : m'.live = m.live := congrArg Book.entry hbook
  refine ⟨?_, hdials, ?_, ?_⟩
  · rw [hbook]
    exact h.drivers.mono hle
  · rw [hlive]
    exact h.live_iff
  · rw [hlive]
    exact fun peer hpeer => h.joins peer (hjoins hpeer)

theorem Linked.stopDriver (h : Linked m acts) (id : ℕ) (stopped : Stopped) :
    Linked (m.stopDriver id stopped) acts := by
  have hbook : (m.stopDriver id stopped).driverBook = m.driverBook := by
    simp only [driverBook, Manager.stopDriver, List.map_map]
    congr 1
    refine List.map_congr_left fun d _ => ?_
    simp only [Function.comp_apply]
    split
    · rfl
    · rfl
  exact h.keep hbook le_rfl h.dials (Finset.Subset.refl _)

variable [LinearOrder P]

/-! ## Operations as acts -/

theorem driverBook_drive (m : Manager P N) (peer : P) :
    (m.drive peer).driverBook = m.driverBook.step (.spawn peer m.nextId) := by
  simp only [driverBook, drive, Book.step, List.map_append, List.map_map, List.map_cons, List.map_nil]
  congr 2
  exact List.map_congr_left fun d _ => apply_ite Driver.task _ _ _

theorem driverBook_prune (m : Manager P N) :
    m.prune.driverBook = m.driverBook.step (.cull m.peers.contains) := by
  simp only [driverBook, prune, Book.step, List.map_map, List.contains_eq_mem, decide_eq_true_eq]
  congr 1
  refine List.map_congr_left fun d _ => ?_
  simp only [Function.comp_apply, decide_eq_false_iff_not]
  exact apply_ite Driver.task _ _ _

theorem dialBook_prune (m : Manager P N) :
    m.prune.dialBook = m.dialBook.step (.cull m.peers.contains) := by
  simp only [dialBook, prune, Book.step, List.map_map, List.contains_eq_mem, decide_eq_true_eq]
  congr 1
  refine List.map_congr_left fun d _ => ?_
  simp only [Function.comp_apply, decide_eq_false_iff_not]
  exact apply_ite Dial.task _ _ _

theorem driverBook_migrate (m : Manager P N) (peer : P) :
    (m.migrate peer).driverBook = m.driverBook.step .clear := by
  simp only [driverBook, migrate, Book.step, List.map_map]
  rfl

theorem driverBook_loseDriver (m : Manager P N) (driver : Driver P N) :
    (m.loseDriver driver).driverBook = m.driverBook.step (.reap driver.id) := by
  simp only [driverBook, loseDriver, Book.step, List.filter_map]
  rfl

theorem dialBook_loseDial (m : Manager P N) (dial : Dial P) :
    (m.loseDial dial).dialBook = m.dialBook.step (.reap dial.id) := by
  simp only [dialBook, loseDial, Book.step, List.filter_map]
  rfl

theorem driverBook_reapDriver (h : m.driverBook.Sound) {driver : Driver P N} (hdriver : driver ∈ m.drivers)
    (stopped : Stopped) :
    (m.reapDriver driver stopped).driverBook = m.driverBook.step (.reap driver.id) := by
  have hentry := h.entry_reap_eq (List.mem_map_of_mem (f := Driver.task) hdriver)
  have hbook (entry : P → Option ℕ) (heq : (m.driverBook.step (.reap driver.id)).entry = entry) :
      ⟨(m.drivers.filter (·.id ≠ driver.id)).map Driver.task, entry⟩ =
        m.driverBook.step (.reap driver.id) := by
    rw [← heq]
    simp only [driverBook, Book.step, List.filter_map]
    rfl
  simp only [reapDriver]
  by_cases hlive : m.live driver.peer = some driver.id
  · rw [if_pos hlive]
    have hupdated := hentry.trans (if_pos hlive)
    split
    · exact hbook _ hupdated
    · exact hbook _ hupdated
  · rw [if_neg hlive]
    exact hbook _ (hentry.trans (if_neg hlive))

/-- The books after a dial is reaped, before its link is used. -/
def dropDial (m : Manager P N) (dial : Dial P) : Manager P N :=
  { m with
    dials := m.dials.filter (·.id ≠ dial.id)
    dialing := if m.dialing dial.peer = some dial.id then Function.update m.dialing dial.peer none
      else m.dialing }

theorem reapDial_eq (m : Manager P N) (dial : Dial P) (linked : Bool) :
    m.reapDial dial linked =
      if linked = true ∧ m.dialing dial.peer = some dial.id then (m.dropDial dial).onLink dial.peer
      else m.dropDial dial := by
  simp only [reapDial, dropDial]
  by_cases hdialing : m.dialing dial.peer = some dial.id
  · cases linked with
    | false => simp [hdialing]
    | true => simp [hdialing]
  · simp [hdialing]

theorem dialBook_dropDial (h : m.dialBook.Sound) (hdial : dial ∈ m.dials) :
    (m.dropDial dial).dialBook = m.dialBook.step (.reap dial.id) := by
  have hentry := h.entry_reap_eq (List.mem_map_of_mem (f := Dial.task) hdial)
  have hentry' : (m.dropDial dial).dialing = (m.dialBook.step (.reap dial.id)).entry := hentry.symm
  unfold dialBook at hentry' ⊢
  rw [hentry']
  simp only [dropDial, Book.step, List.filter_map]
  rfl

theorem dialBook_dialAbsent (hlive : m.live peer = none) (hdialing : m.dialing peer = none) :
    (m.dialAbsent peer).dialBook = m.dialBook.step (.spawn peer m.nextId) := by
  have hidle : ¬((m.live peer).isSome || (m.dialing peer).isSome) = true := by simp [hlive, hdialing]
  unfold dialBook
  rw [dialAbsent, if_neg hidle]
  simp [Book.step, hdialing, Dial.task]

/-! ## Operations keep the books -/

theorem Linked.act (h : Linked m acts) {act : Book.Act P} (hbook : m'.driverBook = m.driverBook.step act)
    (hdrivers : (m.driverBook.step act).Numbered m'.nextId) (hdials : m'.dialBook.Numbered m'.nextId)
    (hjoins : ∀ peer ∈ m'.joins, m'.live peer = none) : Linked m' (acts ++ [act]) := by
  have hlive : m'.live = (m.driverBook.step act).entry := congrArg Book.entry hbook
  refine ⟨?_, hdials, ?_, hjoins⟩
  · rw [hbook]
    exact hdrivers
  · rw [hlive]
    exact Book.entry_step_iff h.live_iff act

theorem Linked.drive (h : Linked m acts) (hpeer : peer ∉ m.joins) :
    Linked (m.drive peer) (acts ++ [.spawn peer m.nextId]) := by
  refine h.act (m.driverBook_drive peer) (h.drivers.spawn peer) (h.dials.mono (Nat.le_succ _)) ?_
  intro q hq
  have hne : q ≠ peer := by
    rintro rfl
    exact hpeer hq
  exact (Function.update_of_ne hne _ _).trans (h.joins q hq)

theorem Linked.migrate (h : Linked m acts) (peer : P) : Linked (m.migrate peer) (acts ++ [.clear]) :=
  h.act (m.driverBook_migrate peer) (h.drivers.act (by simp)) h.dials fun _ _ => rfl

theorem Linked.onLink (h : Linked m acts) (peer : P) : Linked (m.onLink peer) (acts ++ m.linkActs peer) := by
  unfold Manager.onLink linkActs
  by_cases hpeer : peer ∈ m.joins
  · rw [if_pos hpeer, if_pos hpeer]
    exact h.migrate peer
  · rw [if_neg hpeer, if_neg hpeer]
    exact h.drive hpeer

theorem Linked.prune (h : Linked m acts) :
    Linked m.prune (acts ++ [.cull m.peers.contains]) := by
  refine h.act m.driverBook_prune (h.drivers.act (by simp)) ?_ ?_
  · rw [m.dialBook_prune]
    exact h.dials.act (by simp)
  · intro peer hpeer
    obtain ⟨hold, hkept⟩ := Finset.mem_filter.1 hpeer
    exact (if_pos hkept).trans (h.joins peer hold)

theorem Linked.dialAbsent (h : Linked m acts) (peer : P) : Linked (m.dialAbsent peer) acts := by
  by_cases hbusy : (m.live peer).isSome || (m.dialing peer).isSome
  · rw [Manager.dialAbsent, if_pos hbusy]
    exact h
  · have hidle := hbusy
    simp only [Bool.or_eq_true, not_or, Option.not_isSome_iff_eq_none] at hidle
    have hdials := h.dials.spawn peer
    rw [← dialBook_dialAbsent hidle.1 hidle.2] at hdials
    rw [Manager.dialAbsent, if_neg hbusy] at hdials ⊢
    exact h.keep rfl (Nat.le_succ _) hdials (Finset.Subset.refl _)

theorem Linked.linkAbsent (h : Linked m acts) : Linked m.linkAbsent acts := by
  unfold Manager.linkAbsent
  generalize m.wanted = wanted
  induction wanted generalizing m with
  | nil => exact h
  | cons peer wanted ih => exact ih (h.dialAbsent peer)

theorem Linked.dropDial (h : Linked m acts) (hdial : dial ∈ m.dials) :
    Linked (m.dropDial dial) acts := by
  refine h.keep rfl le_rfl ?_ (Finset.Subset.refl _)
  rw [dialBook_dropDial h.dials.sound hdial]
  exact h.dials.act (by simp)

theorem Linked.reapDial (h : Linked m acts) (hdial : dial ∈ m.dials) (linked : Bool) :
    Linked (m.reapDial dial linked) (acts ++
      if linked = true ∧ m.dialing dial.peer = some dial.id then m.linkActs dial.peer else []) := by
  rw [reapDial_eq]
  split
  · exact (h.dropDial hdial).onLink dial.peer
  · rw [List.append_nil]
    exact h.dropDial hdial

theorem Linked.loseDial (h : Linked m acts) (dial : Dial P) : Linked (m.loseDial dial) acts := by
  refine h.keep rfl le_rfl ?_ (Finset.Subset.refl _)
  rw [m.dialBook_loseDial]
  exact h.dials.act (by simp)

theorem Linked.reapDriver (h : Linked m acts) {driver : Driver P N} (hdriver : driver ∈ m.drivers)
    (stopped : Stopped) : Linked (m.reapDriver driver stopped) (acts ++ [.reap driver.id]) := by
  have hbook := driverBook_reapDriver h.drivers.sound hdriver stopped
  have hdrivers : (m.driverBook.step (.reap driver.id)).Numbered m.nextId := h.drivers.act (by simp)
  have hcleared (peer : P) (hpeer : peer = driver.peer ∨ peer ∈ m.joins) :
      Function.update m.live driver.peer none peer = none := by
    by_cases heq : peer = driver.peer
    · rw [heq, Function.update_self]
    · rw [Function.update_of_ne heq]
      exact h.joins peer (hpeer.resolve_left heq)
  unfold Manager.reapDriver at hbook ⊢
  dsimp only at hbook ⊢
  by_cases hlive : m.live driver.peer = some driver.id
  · rw [if_pos hlive] at hbook ⊢
    by_cases hstopped : stopped = .dominated
    · rw [if_pos hstopped] at hbook ⊢
      exact h.act hbook hdrivers h.dials fun peer hpeer => hcleared peer (Finset.mem_insert.1 hpeer)
    · rw [if_neg hstopped] at hbook ⊢
      exact h.act hbook hdrivers h.dials fun peer hpeer => hcleared peer (.inr hpeer)
  · rw [if_neg hlive] at hbook ⊢
    exact h.act hbook hdrivers h.dials h.joins

theorem Linked.loseDriver (h : Linked m acts) (driver : Driver P N) :
    Linked (m.loseDriver driver) (acts ++ [.reap driver.id]) := by
  refine h.act (m.driverBook_loseDriver driver) (h.drivers.act (by simp)) h.dials ?_
  intro peer hpeer
  simp [Manager.loseDriver, h.joins peer hpeer]

theorem Linked.loop (h : Linked m acts) (event : LoopEvent P) :
    Linked (m.loop event).1 (acts ++ (m.loop event).2) := by
  have hnone : Linked m (acts ++ []) := by
    rw [List.append_nil]
    exact h
  unfold Manager.loop
  split
  · rw [List.append_nil]
    exact h.linkAbsent
  · exact Linked.linkAbsent (h.prune.keep rfl le_rfl h.prune.dials (Finset.Subset.refl _))
  · exact h.onLink _
  · split
    · next hfind => exact h.reapDial (List.mem_of_find?_eq_some hfind) _
    · exact hnone
  · split
    · rw [List.append_nil]
      exact h.loseDial _
    · exact hnone
  · split
    · next hfind =>
      split
      · exact h.reapDriver (List.mem_of_find?_eq_some hfind) _
      · exact hnone
    · exact hnone
  · split
    · exact h.loseDriver _
    · exact hnone

theorem Linked.step (h : Linked m acts) (event : LinkEvent P N) :
    Linked (m.step event).1 (acts ++ (m.step event).2) := by
  have hnone : Linked m (acts ++ []) := by
    rw [List.append_nil]
    exact h
  have hidle (migration : Option (Migration P N)) : Linked { m with migration } acts :=
    h.keep rfl le_rfl h.dials (Finset.Subset.refl _)
  unfold Manager.step
  split
  · split
    · exact hnone
    · exact h.loop _
  · exact hnone.keep rfl le_rfl h.dials (Finset.Subset.refl _)
  · split
    · split
      · rw [List.append_nil]
        exact h.stopDriver _ _
      · exact hnone
    · exact hnone
  · split
    · rw [List.append_nil]
      exact hidle _
    · exact hnone
  · split
    · rw [List.append_nil]
      exact Linked.linkAbsent ((hidle none).keep rfl le_rfl h.dials (Finset.empty_subset _))
    · exact hnone
  · split
    · rw [List.append_nil]
      exact (hidle none).linkAbsent
    · exact hnone

/-- **The books after any run.** -/
theorem linked_links (own : P) (peers : List P) (network : N) (events : List (LinkEvent P N)) :
    Linked (links own peers network events).1 (links own peers network events).2 :=
  Lib.run_invariant step (P := fun m _ acts => Linked m acts) (fun _ _ _ event h => h.step event)
    (linked_new own peers network) events

/-! ## What reaping leaves alone -/

/-- What the manager has on its books about peers is the same. -/
structure SameBooks (m m' : Manager P N) : Prop where
  live : m'.live = m.live
  dialing : m'.dialing = m.dialing
  joins : m'.joins = m.joins

omit [LinearOrder P] in
theorem SameBooks.refl (m : Manager P N) : SameBooks m m := ⟨rfl, rfl, rfl⟩

theorem sameBooks_driver (hother : ∀ peer, m.live peer ≠ some id)
    (hevent : event ∈ [LoopEvent.driverDone id, .driverLost id]) :
    SameBooks m (m.loop event).1 := by
  simp only [List.mem_cons, List.not_mem_nil, or_false] at hevent
  rcases hevent with rfl | rfl
  · simp only [loop]
    split
    · next driver hfind =>
      have hid : driver.id = id := by simpa using List.find?_some hfind
      split
      · rw [reapDriver, if_neg (by rw [hid]; exact hother _)]
        exact ⟨rfl, rfl, rfl⟩
      · exact .refl m
    · exact .refl m
  · simp only [loop]
    split
    · next driver hfind =>
      have hid : driver.id = id := by simpa using List.find?_some hfind
      refine ⟨?_, rfl, rfl⟩
      funext peer
      exact if_neg (by rw [hid]; exact hother peer)
    · exact .refl m

theorem sameBooks_dial (hother : ∀ peer, m.dialing peer ≠ some id)
    (hevent : event ∈ [LoopEvent.dialed id true, .dialed id false, .dialLost id]) :
    SameBooks m (m.loop event).1 := by
  have hdialed (linked : Bool) : SameBooks m (m.loop (.dialed id linked)).1 := by
    simp only [loop]
    split
    · next dial hfind =>
      have hid : dial.id = id := by simpa using List.find?_some hfind
      rw [reapDial, if_neg (by rw [hid]; exact hother _)]
      exact ⟨rfl, rfl, rfl⟩
    · exact .refl m
  simp only [List.mem_cons, List.not_mem_nil, or_false] at hevent
  rcases hevent with rfl | rfl | rfl
  · exact hdialed true
  · exact hdialed false
  · simp only [loop]
    split
    · next dial hfind =>
      have hid : dial.id = id := by simpa using List.find?_some hfind
      refine ⟨rfl, ?_, rfl⟩
      funext peer
      exact if_neg (by rw [hid]; exact hother peer)
    · exact .refl m

theorem SameBooks.step (h : SameBooks m (m.loop event).1) :
    SameBooks m (m.step (.loop event)).1 := by
  simp only [Manager.step]
  split
  · exact .refl m
  · exact h

omit [LinearOrder P] in
theorem Linked.running_le_one [DecidableEq P] (h : Linked m acts) (peer : P) :
    (m.drivers.filter fun d => d.peer = peer ∧ d.aborted = false).length ≤ 1 := by
  have hbook := h.drivers.sound.running_le_one peer
  simp only [driverBook, List.filter_map, List.length_map] at hbook
  exact hbook

omit [LinearOrder P] in
theorem Linked.driver_of_live (h : Linked m acts) (hlive : m.live peer = some id) :
    ∃ d ∈ m.drivers, d.id = id ∧ d.peer = peer ∧ d.aborted = false := by
  obtain ⟨d, hd, heq⟩ := List.mem_map.1 ((h.drivers.sound.entry_iff peer id).1 hlive)
  exact ⟨d, hd, congrArg Lib.Task.id heq, congrArg Lib.Task.key heq, congrArg Lib.Task.aborted heq⟩

/-- **No link is lost or comes back.** After any run a peer is live exactly if the driver spawned for it
last was not reaped since, and the peer not pruned and the links not cleared for a migration; that
driver is there and runs. Reaping any other driver, or a dial that is not on the books, changes nothing
on them. There is at most one running driver for a peer, and a peer that is owed a join is not live. -/
theorem link_books (own : P) (peers : List P) (network : N) (events : List (LinkEvent P N)) :
    (∀ peer id, (links own peers network events).1.live peer = some id ↔
      Book.Last (links own peers network events).2 peer id) ∧
    (∀ peer id, (links own peers network events).1.live peer = some id →
      ∃ d ∈ (links own peers network events).1.drivers, d.id = id ∧ d.peer = peer ∧ d.aborted = false) ∧
    (∀ id, (∀ peer, (links own peers network events).1.live peer ≠ some id) →
      ∀ event ∈ [LoopEvent.driverDone id, .driverLost id],
        SameBooks (links own peers network events).1
          ((links own peers network events).1.step (.loop event)).1) ∧
    (∀ id, (∀ peer, (links own peers network events).1.dialing peer ≠ some id) →
      ∀ event ∈ [LoopEvent.dialed id true, .dialed id false, .dialLost id],
        SameBooks (links own peers network events).1
          ((links own peers network events).1.step (.loop event)).1) ∧
    (∀ peer, ((links own peers network events).1.drivers.filter fun d =>
      d.peer = peer ∧ d.aborted = false).length ≤ 1) ∧
    (∀ peer ∈ (links own peers network events).1.joins,
      (links own peers network events).1.live peer = none) := by
  have h := linked_links own peers network events
  refine ⟨h.live_iff, fun _ _ hlive => h.driver_of_live hlive, ?_, ?_, h.running_le_one, h.joins⟩
  · exact fun _ hother _ hevent => (sameBooks_driver hother hevent).step
  · exact fun _ hother _ hevent => (sameBooks_dial hother hevent).step

/-- A link that replaced another is still there after the other's driver is reaped. -/
theorem link_books_replaced :
    ((links 9 [] 0 [LinkEvent.loop (.accepted 5), .loop (.accepted 5)]).1.step
      (.loop (.driverLost 0))).1.live 5 = some 1 := by
  have hsame := (link_books 9 [] 0 [LinkEvent.loop (.accepted 5), .loop (.accepted 5)]).2.2.1 0
    (fun peer => by
      by_cases hpeer : peer = 5
      · rw [hpeer]
        decide
      · intro hlive
        simp [links, new, step, loop, onLink, drive, hpeer] at hlive)
    (.driverLost 0) (by simp)
  rw [hsame.live]
  rfl

/-! ## The managers of a fleet -/

/-- The manager gets from one state to another by itself. -/
def Reaches (m m' : Manager P N) : Prop := ∃ events, m' = (Lib.run step m events).1

theorem Reaches.refl (m : Manager P N) : Reaches m m := ⟨[], rfl⟩

theorem Reaches.trans {m₁ m₂ m₃ : Manager P N} (h : Reaches m₁ m₂) (h' : Reaches m₂ m₃) :
    Reaches m₁ m₃ := by
  obtain ⟨events, rfl⟩ := h
  obtain ⟨events', rfl⟩ := h'
  exact ⟨events ++ events', by rw [Lib.run_append]⟩

theorem reaches_step (m : Manager P N) (event : LinkEvent P N) : Reaches m (m.step event).1 :=
  ⟨[event], rfl⟩

end Manager

namespace Fleet

variable [LinearOrder P] [LinearOrder N]

omit [LinearOrder N] in
theorem reaches_set {f : Fleet P N} {place : P} {m : Manager P N} (h : (f.managers place).Reaches m)
    (sled : P) :
    (f.managers sled).Reaches ((f.set place m).managers sled) := by
  simp only [set]
  by_cases hsled : sled = place
  · rw [hsled, Function.update_self]
    exact h
  · rw [Function.update_of_ne hsled]
    exact .refl _

theorem reaches_step (count : N → ℕ) (f : Fleet P N) (input : P × Action P N) (sled : P) :
    (f.managers sled).Reaches ((f.step count input).1.managers sled) := by
  obtain ⟨place, action⟩ := input
  have hstep (event : LinkEvent P N) {m' : Manager P N} (heq : ((f.managers place).step event).1 = m') :
      (f.managers sled).Reaches ((f.set place m').managers sled) :=
    reaches_set (heq ▸ Manager.reaches_step _ event) sled
  have hloop (event : LoopEvent P) (hidle : ¬(f.managers place).migration.isSome) {m' : Manager P N}
      (heq : ((f.managers place).loop event).1 = m') :
      (f.managers sled).Reaches ((f.set place m').managers sled) :=
    hstep (.loop event) (by rw [Manager.step, if_neg hidle, heq])
  unfold step
  cases action with
  | mismatch id remote =>
    dsimp only
    split
    · next driver hfind =>
      split
      · next hcond =>
        exact hstep (.sessionEnded id _) (by simp only [Manager.step, hfind, if_pos hcond.1]; rfl)
      · exact .refl _
    · exact .refl _
  | sessionFailed id =>
    dsimp only
    split
    · next hfind =>
      split
      · next hcond => exact hstep (.sessionEnded id .failed) (by simp only [Manager.step, hfind, if_pos hcond])
      · exact .refl _
    · exact .refl _
  | served id =>
    dsimp only
    split
    · next hmigration =>
      split
      · next driver _ =>
        split
        · exact hstep (.served driver.network) (by simp only [Manager.step, hmigration])
        · exact .refl _
      · exact .refl _
    · exact .refl _
  | joined =>
    dsimp only
    split
    · next hmigration => exact hstep .joined (by simp only [Manager.step, hmigration])
    · exact .refl _
  | joinFailed =>
    dsimp only
    split
    · next hmigration => exact hstep .joinFailed (by simp only [Manager.step, hmigration])
    · exact .refl _
  | tick =>
    dsimp only
    split
    · exact .refl _
    · next hidle => exact hloop .tick hidle rfl
  | peersChanged peers =>
    dsimp only
    split
    · exact .refl _
    · next hidle =>
      have hwatched : (f.managers place).Reaches { f.managers place with peers } :=
        Manager.reaches_step _ (.watched peers)
      have hchanged := Manager.reaches_step { f.managers place with peers } (.loop (.peersChanged peers))
      rw [Manager.step, if_neg hidle] at hchanged
      exact reaches_set (hwatched.trans hchanged) sled
  | accepted peer =>
    dsimp only
    split
    · exact .refl _
    · next hidle => exact hloop (.accepted peer) hidle rfl
  | dialed id linked =>
    dsimp only
    split
    · exact .refl _
    · next hidle =>
      split
      · next hfind => exact hloop (.dialed id linked) hidle (by simp only [Manager.loop, hfind])
      · exact .refl _
  | dialLost id =>
    dsimp only
    split
    · exact .refl _
    · next hidle =>
      split
      · next hfind => exact hloop (.dialLost id) hidle (by simp only [Manager.loop, hfind])
      · exact .refl _
  | driverDone id =>
    dsimp only
    split
    · exact .refl _
    · next hidle =>
      split
      · next hfind =>
        split
        · next hstopped =>
          exact hloop (.driverDone id) hidle (by simp only [Manager.loop, hfind, hstopped])
        · exact .refl _
      · exact .refl _
  | driverLost id =>
    dsimp only
    split
    · exact .refl _
    · next hidle =>
      split
      · next hfind => exact hloop (.driverLost id) hidle (by simp only [Manager.loop, hfind])
      · exact .refl _

/-- **The managers of a fleet run by themselves.** -/
theorem reaches_run (count : N → ℕ) (peers : P → List P) (networks : P → N) (inputs : List (P × Action P N))
    (sled : P) : ∃ events, (run count (seed peers networks) inputs).1.managers sled =
      (Manager.links sled (peers sled) (networks sled) events).1 := by
  refine Lib.run_invariant (step count)
    (P := fun f _ _ => (Manager.new sled (peers sled) (networks sled)).Reaches (f.managers sled))
    (fun f _ _ input h => h.trans (f.reaches_step count input sled)) ?_ inputs
  exact .refl _

end Fleet

end Sush.Gossip
