import Sush.Lib.Chain

/-!
# Jobs released in chain order

The jobs of a skip chain arrive in any order, wait in a queue, and are released when the front of the
chain reaches them. A burn of the next position, or of the job released last, turns the chain.

`Follows` says that nothing is lost on the way: a job that arrived waits, or the front is past it. A
sequencer that follows its jobs and is settled has gone as far as they lead, so where it stands
depends on the burnt positions only (`Follows.next_eq_iff`). `Agrees` relates two sequencers that
differ only in jobs that can no longer be reached, and they stay together (`Agrees.releases`).
-/

namespace Sush.Lib

open Relation SkipChain

structure Sequencer (P J : Type) where
  front : Front P J
  queue : P → Option J

namespace Sequencer

variable {P J : Type} [DecidableEq P] (C : SkipChain P J)

def put (x : Sequencer P J) (j : J) : Sequencer P J :=
  { x with queue := Function.update x.queue (C.pos j) (some j) }

def take (x : Sequencer P J) (p : P) : Sequencer P J :=
  { x with queue := Function.update x.queue p none }

def burn (x : Sequencer P J) (p : P) : Sequencer P J :=
  ⟨C.burn p, Function.update x.queue p none⟩

def pass (x : Sequencer P J) (j : J) : Sequencer P J :=
  ⟨C.pass j, Function.update x.queue x.front.next none⟩

/-- No job waits at the next position. -/
def Settled (x : Sequencer P J) : Prop := x.queue x.front.next = none

/-- The jobs `js` are released in turn, until no job waits at the next position. -/
inductive Releases : Sequencer P J → List J → Sequencer P J → Prop
  | done {x : Sequencer P J} (h : x.Settled) : Releases x [] x
  | pass {x y : Sequencer P J} {j : J} {js : List J} (hj : x.queue x.front.next = some j)
    (h : Releases (x.pass C j) js y) : Releases x (j :: js) y

variable {C} {x y x' y' : Sequencer P J} {p : P} {j : J} {js js' : List J}

theorem Releases.settled (h : Releases C x js y) : y.Settled := by
  induction h with
  | done h => exact h
  | pass _ _ ih => exact ih

theorem Releases.queue (h : Releases C x js y) (hp : y.queue p = some j) : x.queue p = some j := by
  induction h with
  | done => exact hp
  | @pass x _ _ _ _ _ ih =>
    have hpass := ih hp
    by_cases hq : p = x.front.next
    · subst hq
      simp [Sequencer.pass] at hpass
    · simpa only [Sequencer.pass, Function.update_of_ne hq] using hpass

/-! ## Nothing is lost -/

variable (C) in
/-- The sequencer started as `f₀`, burned the positions `E` of the walk from `o`, and took in the jobs
`D`. -/
structure Follows (picks : P → J → Prop) (f₀ : Front P J) (o : P) (E : Set P) (D : List J)
    (x : Sequencer P J) : Prop where
  trail : C.Trail picks E o x.front
  ahead : ∀ p, x.front.Ahead C p → f₀.Ahead C p
  queue : ∀ p j, x.queue p = some j → C.pos j = p ∧ j ∈ D
  kept : ∀ j ∈ D, x.queue (C.pos j) = some j ∨ C.Before (C.pos j) x.front.next

namespace Follows

variable {picks : P → J → Prop} {f₀ : Front P J} {o : P} {E E' : Set P} {D D' : List J}

theorem put (hnew : ∀ j' ∈ D, C.pos j' ≠ C.pos j) (h : Follows C picks f₀ o E D x) :
    Follows C picks f₀ o E (D ++ [j]) (x.put C j) where
  trail := h.trail
  ahead := h.ahead
  queue := by
    intro p j' hj'
    by_cases hp : p = C.pos j
    · subst hp
      simp only [Sequencer.put, Function.update_self, Option.some.injEq] at hj'
      subst hj'
      simp
    · simp only [Sequencer.put, Function.update_of_ne hp] at hj'
      obtain ⟨hpos, hmem⟩ := h.queue p j' hj'
      exact ⟨hpos, by simp [hmem]⟩
  kept := by
    intro j' hj'
    rcases List.mem_append.1 hj' with hj' | hj'
    · simp only [Sequencer.put, Function.update_of_ne (hnew j' hj')]
      exact h.kept j' hj'
    · obtain rfl := List.mem_singleton.1 hj'
      exact .inl (Function.update_self ..)

omit [DecidableEq P] in
theorem refuse (hj : C.Before (C.pos j) x.front.next) (h : Follows C picks f₀ o E D x) :
    Follows C picks f₀ o E (D ++ [j]) x where
  trail := h.trail
  ahead := h.ahead
  queue p j' hj' := ⟨(h.queue p j' hj').1, List.mem_append_left _ (h.queue p j' hj').2⟩
  kept := by
    intro j' hj'
    rcases List.mem_append.1 hj' with hj' | hj'
    · exact h.kept j' hj'
    · obtain rfl := List.mem_singleton.1 hj'
      exact .inr hj

variable (hC : C.Free)

include hC

theorem burn (hpos : ∀ p j, picks p j → C.pos j = p) (hp : x.front.CanBurn C p)
    (h : Follows C picks f₀ o E D x) : Follows C picks f₀ o (insert p E) D (x.burn C p) where
  trail := h.trail.burn hC hpos hp
  ahead q hq := h.ahead q (Front.ahead_of_ahead_burn hp hq)
  queue := by
    intro q j hj
    by_cases hq : q = p
    · subst hq
      simp [Sequencer.burn] at hj
    · simp only [Sequencer.burn, Function.update_of_ne hq] at hj
      exact h.queue q j hj
  kept := by
    intro j hj
    rcases h.kept j hj with hqueue | hbefore
    · by_cases hq : C.pos j = p
      · exact .inr (hq ▸ .single (.burned _))
      · left
        simpa only [Sequencer.burn, Function.update_of_ne hq] using hqueue
    · exact .inr (Front.before_burn hC h.trail.ok hp hbefore)

theorem pass (hpick : ∀ j ∈ D, f₀.Ahead C (C.pos j) → picks (C.pos j) j)
    (hj : x.queue x.front.next = some j) (h : Follows C picks f₀ o E D x) :
    Follows C picks f₀ o E D (x.pass C j) := by
  obtain ⟨hpos, hmem⟩ := h.queue _ j hj
  have hpicks : picks x.front.next j :=
    hpos ▸ hpick j hmem (hpos ▸ h.ahead _ Front.ahead_next)
  refine ⟨h.trail.pass hC hpicks hpos, fun q hq => h.ahead q (Front.ahead_of_ahead_pass hpos hq),
    ?_, ?_⟩
  · intro q j' hj'
    by_cases hq : q = x.front.next
    · subst hq
      simp [Sequencer.pass] at hj'
    · simp only [Sequencer.pass, Function.update_of_ne hq] at hj'
      exact h.queue q j' hj'
  · intro j' hj'
    rcases h.kept j' hj' with hqueue | hbefore
    · by_cases hq : C.pos j' = x.front.next
      · exact .inr (Front.before_pass hpos (hq ▸ .refl))
      · left
        simpa only [Sequencer.pass, Function.update_of_ne hq] using hqueue
    · exact .inr (Front.before_pass hpos hbefore.to_reflTransGen)

theorem releases (hpick : ∀ j ∈ D, f₀.Ahead C (C.pos j) → picks (C.pos j) j)
    (hr : Releases C x js y) (h : Follows C picks f₀ o E D x) :
    Follows C picks f₀ o E D y ∧
      (∀ p, C.Before p x.front.next → C.Before p y.front.next) ∧
      ∀ j ∈ js, j ∈ D ∧ C.Before (C.pos j) y.front.next := by
  induction hr with
  | done => exact ⟨h, fun _ hp => hp, by simp⟩
  | @pass x y j js hj _ ih =>
    obtain ⟨hpos, hmem⟩ := h.queue _ j hj
    obtain ⟨hy, hbefore, hjs⟩ := ih (h.pass hC hpick hj)
    refine ⟨hy, fun p hp => hbefore p (Front.before_pass hpos hp.to_reflTransGen), ?_⟩
    rintro j' (_ | ⟨_, hj'⟩)
    · exact ⟨hmem, hbefore _ (Front.before_pass hpos (hpos ▸ .refl))⟩
    · exact hjs j' hj'

omit [DecidableEq P] in
theorem stuck (hpos : ∀ p j, picks p j → C.pos j = p)
    (hpick : ∀ p j, picks p j → f₀.Ahead C p → j ∈ D) (hx : x.Settled)
    (h : Follows C picks f₀ o E D x) (j : J) : ¬picks x.front.next j := by
  intro hj
  have hp := hpos _ j hj
  rcases h.kept j (hpick _ j hj (h.ahead _ Front.ahead_next)) with hqueue | hbefore
  · rw [hp, hx] at hqueue
    cases hqueue
  · rw [hp] at hbefore
    exact hC.before_irrefl _ hbefore

end Follows

/-! ## Two sequencers side by side -/

variable (C) in
/-- The two stand at the same place, and the same jobs wait where the front can still get to. -/
structure Agrees (x y : Sequencer P J) : Prop where
  front : x.front = y.front
  queue : ∀ p, x.front.Ahead C p → x.queue p = y.queue p
  pos : ∀ p j, x.queue p = some j → C.pos j = p

namespace Agrees

theorem pass (hj : x.queue x.front.next = some j) (h : Agrees C x y) :
    Agrees C (x.pass C j) (y.pass C j) := by
  have hpos := h.pos _ j hj
  refine ⟨rfl, fun p hp => ?_, fun p j' hj' => ?_⟩
  · by_cases hq : p = x.front.next
    · simp [Sequencer.pass, hq, h.front]
    · simp only [Sequencer.pass, ← h.front, Function.update_of_ne hq]
      exact h.queue p (Front.ahead_of_ahead_pass hpos hp)
  · by_cases hq : p = x.front.next
    · subst hq
      simp [Sequencer.pass] at hj'
    · simp only [Sequencer.pass, Function.update_of_ne hq] at hj'
      exact h.pos p j' hj'

theorem releases (hx : Releases C x js x') (hy : Releases C y js' y') (h : Agrees C x y) :
    Agrees C x' y' := by
  induction hx generalizing y js' with
  | @done x hx =>
    cases hy with
    | done => exact h
    | pass hj =>
      rw [← h.front, ← h.queue _ Front.ahead_next, hx] at hj
      cases hj
  | @pass x _ j _ hj _ ih =>
    have hj' : y.queue y.front.next = some j := by
      rw [← h.front, ← h.queue _ Front.ahead_next, hj]
    cases hy with
    | done hy =>
      rw [hy] at hj'
      cases hj'
    | pass hj'' hy =>
      rw [hj'] at hj''
      cases hj''
      exact ih hy (h.pass hj)

/-- A change to the queues at `p` keeps them together if it is the same in both, or the front can no
longer get to `p`. -/
theorem update {v w : Option J} (hv : ∀ j, v = some j → C.pos j = p)
    (hvw : x.front.Ahead C p → v = w) (h : Agrees C x y) :
    Agrees C { x with queue := Function.update x.queue p v }
      { y with queue := Function.update y.queue p w } := by
  refine ⟨h.front, fun q hq => ?_, fun q j hj => ?_⟩
  · by_cases hqp : q = p
    · subst hqp
      simp [hvw hq]
    · simp only [Function.update_of_ne hqp]
      exact h.queue q hq
  · by_cases hqp : q = p
    · subst hqp
      exact hv j (by simpa using hj)
    · simp only [Function.update_of_ne hqp] at hj
      exact h.pos q j hj

theorem burn (hp : x.front.CanBurn C p) (h : Agrees C x y) : Agrees C (x.burn C p) (y.burn C p) := by
  refine ⟨rfl, fun q hq => ?_, fun q j hj => ?_⟩
  · by_cases hqp : q = p
    · simp [Sequencer.burn, hqp]
    · simp only [Sequencer.burn, Function.update_of_ne hqp]
      exact h.queue q (Front.ahead_of_ahead_burn hp hq)
  · by_cases hqp : q = p
    · subst hqp
      simp [Sequencer.burn] at hj
    · simp only [Sequencer.burn, Function.update_of_ne hqp] at hj
      exact h.pos q j hj

end Agrees

end Sequencer

end Sush.Lib
