import Mathlib

/-!
# A race for one slot

Claims of different rank compete for one slot. An offer puts a claim on hold; a confirmation of its
key gives it the slot, if it outranks the holder; the owner of the holder's claim may yield the slot.
An offer that does not outrank the holder, that repeats the holder's key, or that repeats a claim on
hold is dropped.

The slot is held under the key of greatest rank among those confirmed, if each of its confirmations
has an offer before it and none of its owners yields it after one (`held_run`). Which events matter to
the holder, and which of them can be exchanged, is said at the end.
-/

namespace Sush.Lib

structure Claim (K R A : Type) where
  key : K
  rank : R
  owner : A

structure Race (K R A : Type) where
  holder : Option (Claim K R A)
  pending : K → Option (Claim K R A)

namespace Race

inductive Event (K R A : Type) where
  | offer (c : Claim K R A)
  | confirm (k : K)
  | yield (k : K) (owner : A)
  | idle

variable {K R A : Type}

/-- The rank of the holder, below every rank when the slot is empty. -/
def rank (x : Race K R A) : WithBot R := x.holder.elim ⊥ fun c => (c.rank : WithBot R)

def empty : Race K R A := ⟨none, fun _ => none⟩

/-- A claim on hold was offered, and the holder's was also confirmed. -/
structure Sound (es : List (Event K R A)) (x : Race K R A) : Prop where
  pending : ∀ k c, x.pending k = some c → c.key = k ∧ .offer c ∈ es
  holder : ∀ c, x.holder = some c → .offer c ∈ es ∧ .confirm c.key ∈ es

theorem rank_of_holder {x : Race K R A} {c : Claim K R A} (h : x.holder = some c) :
    x.rank = c.rank := by
  simp [rank, h]

theorem sound_empty : Sound [] (empty : Race K R A) := ⟨by simp [empty], by simp [empty]⟩

theorem Sound.mono {x : Race K R A} {es es' : List (Event K R A)} (h : Sound es x)
    (hsub : es ⊆ es') : Sound es' x where
  pending k c hc := ⟨(h.pending k c hc).1, hsub (h.pending k c hc).2⟩
  holder c hc := ⟨hsub (h.holder c hc).1, hsub (h.holder c hc).2⟩

theorem pending_update_none [DecidableEq K] {x : Race K R A} {k k' : K} {c : Claim K R A}
    (h : Function.update x.pending k none k' = some c) : x.pending k' = some c := by
  by_cases hk : k' = k
  · subst hk
    rw [Function.update_self] at h
    cases h
  · rwa [Function.update_of_ne hk] at h

variable [DecidableEq K] [LinearOrder R] [DecidableEq A]

/-- An offer is dropped that repeats the key of the holder, does not outrank it, or repeats a claim
on hold. -/
abbrev Drops (x : Race K R A) (c : Claim K R A) : Prop :=
  x.holder.map Claim.key = some c.key ∨ (c.rank : WithBot R) ≤ x.rank ∨ (x.pending c.key).isSome

def step (x : Race K R A) : Event K R A → Race K R A
  | .offer c =>
    if x.Drops c then x else { x with pending := Function.update x.pending c.key (some c) }
  | .confirm k =>
    match x.pending k with
    | none => x
    | some c =>
      { holder := if (c.rank : WithBot R) ≤ x.rank then x.holder else some c
        pending := Function.update x.pending k none }
  | .yield k owner =>
    match x.holder with
    | none => x
    | some c => if c.key = k ∧ c.owner = owner then { x with holder := none } else x
  | .idle => x

def run (x : Race K R A) (es : List (Event K R A)) : Race K R A := es.foldl step x

variable {x y : Race K R A} {e : Event K R A} {es pre post : List (Event K R A)} {w : K}

/-! ## One step -/

/-- All that a step can do. -/
inductive Move (x : Race K R A) : Event K R A → Race K R A → Prop
  | drop {c : Claim K R A} (h : x.Drops c) : Move x (.offer c) x
  | hold {c : Claim K R A} (h : ¬x.Drops c) :
    Move x (.offer c) { x with pending := Function.update x.pending c.key (some c) }
  | unknown {k : K} (h : x.pending k = none) : Move x (.confirm k) x
  | stale {k : K} {c : Claim K R A} (h : x.pending k = some c) (hr : (c.rank : WithBot R) ≤ x.rank) :
    Move x (.confirm k) { x with pending := Function.update x.pending k none }
  | win {k : K} {c : Claim K R A} (h : x.pending k = some c) (hr : x.rank < c.rank) :
    Move x (.confirm k) ⟨some c, Function.update x.pending k none⟩
  | ignore {k : K} {a : A} (h : ∀ c, x.holder = some c → ¬(c.key = k ∧ c.owner = a)) :
    Move x (.yield k a) x
  | leave {c : Claim K R A} (h : x.holder = some c) :
    Move x (.yield c.key c.owner) { x with holder := none }
  | idle : Move x .idle x

theorem step_move (x : Race K R A) (e : Event K R A) : Move x e (x.step e) := by
  cases e with
  | offer c =>
    simp only [step]
    split
    · next h => exact .drop h
    · next h => exact .hold h
  | confirm k =>
    simp only [step]
    split
    · next h => exact .unknown h
    · next c h =>
      split
      · next hr => exact .stale h hr
      · next hr => exact .win h (not_le.1 hr)
  | yield k a =>
    simp only [step]
    split
    · next h =>
      refine .ignore fun c hc => ?_
      rw [h] at hc
      cases hc
    · next c h =>
      split
      · next hc =>
        obtain ⟨rfl, rfl⟩ := hc
        exact .leave h
      · next hc =>
        refine .ignore fun c' hc' => ?_
        rw [h] at hc'
        cases hc'
        exact hc
  | idle => exact .idle

theorem Sound.step (h : Sound es x) : Sound (es ++ [e]) (x.step e) := by
  have hmono : Sound (es ++ [e]) x := h.mono (by simp)
  have hmove := step_move x e
  generalize x.step e = y at hmove ⊢
  cases hmove with
  | @hold c hd =>
    refine ⟨fun k c' hc' => ?_, hmono.holder⟩
    by_cases hk : k = c.key
    · subst hk
      simp only [Function.update_self, Option.some.injEq] at hc'
      subst hc'
      simp
    · simp only [Function.update_of_ne hk] at hc'
      exact hmono.pending k c' hc'
  | stale hp hr => exact ⟨fun k c hc => hmono.pending k c (pending_update_none hc), hmono.holder⟩
  | @win k c hp hr =>
    refine ⟨fun k c hc => hmono.pending k c (pending_update_none hc), fun c' hc' => ?_⟩
    cases hc'
    have hc := hmono.pending k c hp
    exact ⟨hc.2, by simp [hc.1]⟩
  | leave hx => exact ⟨hmono.pending, by simp⟩
  | _ => exact hmono

/-! ## The greatest rank wins -/

/-- `w` outranks whatever else is confirmed, and no owner of an offer of `w` yields it once it is
confirmed. -/
structure Favours (w : K) (es : List (Event K R A)) : Prop where
  offered : ∀ pre post, es = pre ++ .confirm w :: post → ∃ c, .offer c ∈ pre ∧ c.key = w
  top : ∀ c c', .offer c ∈ es → .offer c' ∈ es → c.key = w → c'.key ≠ w → .confirm c'.key ∈ es →
    c'.rank < c.rank
  yields : ∀ pre a post, es = pre ++ .yield w a :: post →
    (∃ c, .offer c ∈ es ∧ c.key = w ∧ c.owner = a) → .confirm w ∉ pre

omit [DecidableEq K] [DecidableEq A] in
theorem exists_top
    (hrank : ∀ c c', .offer c ∈ es → .offer c' ∈ es → (c.key = c'.key ↔ c.rank = c'.rank))
    {d : Claim K R A} (hd : .offer d ∈ es) (hconf : .confirm d.key ∈ es) :
    ∃ w, .confirm w ∈ es ∧ (∃ c, .offer c ∈ es ∧ c.key = w) ∧
      ∀ c c', .offer c ∈ es → .offer c' ∈ es → c.key = w → c'.key ≠ w → .confirm c'.key ∈ es →
        c'.rank < c.rank := by
  let claims : Set (Claim K R A) := { c | .offer c ∈ es ∧ .confirm c.key ∈ es }
  have hoffer : Function.Injective (Event.offer : Claim K R A → Event K R A) :=
    fun _ _ h => Event.offer.inj h
  have hfin : claims.Finite :=
    ((List.finite_toSet es).preimage hoffer.injOn).subset fun c hc => hc.1
  obtain ⟨t, ⟨ht, htconf⟩, hmax⟩ := Set.exists_max_image claims Claim.rank hfin ⟨d, hd, hconf⟩
  refine ⟨t.key, htconf, ⟨t, ht, rfl⟩, fun c c' hc hc' hkey hne hconf' => ?_⟩
  rw [(hrank c t hc ht).1 hkey]
  refine lt_of_le_of_ne (hmax c' ⟨hc', hconf'⟩) fun heq => ?_
  exact hne ((hrank c' t hc' ht).2 heq)

/-- How far the race for `w` has come after `pre`: `w` waits for its first confirmation, or holds the
slot. -/
structure Phase (w : K) (pre : List (Event K R A)) (x : Race K R A) : Prop where
  sound : Sound pre x
  waiting : .confirm w ∉ pre → (∃ c, .offer c ∈ pre ∧ c.key = w) → ∃ c, x.pending w = some c
  held : .confirm w ∈ pre → (∃ c, x.holder = some c ∧ c.key = w) ∧ x.pending w = none

section Phase

variable (hw : Favours w (pre ++ e :: post)) (h : Phase w pre x)

include hw h

omit [DecidableEq K] [DecidableEq A] in
/-- Before `w` is confirmed, every offer of `w` outranks the holder. -/
theorem Phase.outranks (hpre : .confirm w ∉ pre) {c : Claim K R A}
    (hc : .offer c ∈ pre ++ e :: post) (hkey : c.key = w) : x.rank < c.rank := by
  cases hx : x.holder with
  | none =>
    have hbot : x.rank = ⊥ := by simp [rank, hx]
    rw [hbot]
    exact WithBot.bot_lt_coe _
  | some d =>
    obtain ⟨hoffer, hconfirm⟩ := h.sound.holder d hx
    have hd : d.key ≠ w := fun hd => hpre (hd ▸ hconfirm)
    rw [rank_of_holder hx]
    exact WithBot.coe_lt_coe.2 (hw.top c d hc (List.mem_append_left _ hoffer) hkey hd
      (List.mem_append_left _ hconfirm))

theorem Phase.step_waiting (hpre : .confirm w ∉ pre ++ [e])
    (hoffer : ∃ c, .offer c ∈ pre ++ [e] ∧ c.key = w) : ∃ c, (x.step e).pending w = some c := by
  have hpre' : .confirm w ∉ pre := fun hmem => hpre (List.mem_append_left _ hmem)
  have hmove := step_move x e
  obtain ⟨c, hc, hkey⟩ := hoffer
  rcases List.mem_append.1 hc with hc | hc
  · obtain ⟨d, hd⟩ := h.waiting hpre' ⟨c, hc, hkey⟩
    generalize x.step e = y at hmove ⊢
    cases hmove with
    | @hold c' hdrops =>
      by_cases hk : w = c'.key
      · exact ⟨c', by simp [hk]⟩
      · exact ⟨d, by simpa [Function.update_of_ne hk] using hd⟩
    | @stale k c' hp hr =>
      have hk : w ≠ k := by rintro rfl; exact hpre (by simp)
      exact ⟨d, by simpa [Function.update_of_ne hk] using hd⟩
    | @win k c' hp hr =>
      have hk : w ≠ k := by rintro rfl; exact hpre (by simp)
      exact ⟨d, by simpa [Function.update_of_ne hk] using hd⟩
    | _ => exact ⟨d, hd⟩
  · obtain rfl : Event.offer c = e := by simpa using hc
    have hlt := h.outranks hw hpre' (by simp) hkey
    generalize x.step (.offer c) = y at hmove ⊢
    cases hmove with
    | drop hdrops =>
      rcases hdrops with hholder | hrank | hpending
      · obtain ⟨d, hd, hdkey⟩ := Option.map_eq_some_iff.1 hholder
        exact absurd (hkey ▸ hdkey ▸ (h.sound.holder d hd).2) hpre'
      · exact absurd hrank (not_le.2 hlt)
      · rw [← hkey]
        exact Option.isSome_iff_exists.1 hpending
    | hold hdrops => exact ⟨c, by simp [hkey]⟩

theorem Phase.step_held (hmem : .confirm w ∈ pre ++ [e]) :
    (∃ c, (x.step e).holder = some c ∧ c.key = w) ∧ (x.step e).pending w = none := by
  have hmove := step_move x e
  by_cases hpre : .confirm w ∈ pre
  · obtain ⟨⟨d, hd, hkey⟩, hpend⟩ := h.held hpre
    obtain ⟨hdoffer, -⟩ := h.sound.holder d hd
    generalize hy : x.step e = y at hmove ⊢
    cases hmove with
    | @hold c hdrops =>
      have hk : w ≠ c.key := by
        rintro rfl
        exact hdrops (.inl (by rw [hd, Option.map_some, hkey]))
      exact ⟨⟨d, hd, hkey⟩, by simpa [Function.update_of_ne hk] using hpend⟩
    | @stale k c hp hr =>
      have hk : w ≠ k := by rintro rfl; rw [hpend] at hp; cases hp
      exact ⟨⟨d, hd, hkey⟩, by simpa [Function.update_of_ne hk] using hpend⟩
    | @win k c hp hr =>
      have hk : w ≠ k := by rintro rfl; rw [hpend] at hp; cases hp
      obtain ⟨hck, hcoffer⟩ := h.sound.pending k c hp
      have hlt : c.rank < d.rank := hw.top d c (List.mem_append_left _ hdoffer)
        (List.mem_append_left _ hcoffer) hkey (hck ▸ hk.symm) (by simp [hck])
      rw [rank_of_holder hd] at hr
      exact absurd (WithBot.coe_lt_coe.1 hr) (not_lt.2 hlt.le)
    | @leave c hc =>
      rw [hd] at hc
      cases hc
      exact absurd hpre (hw.yields pre d.owner post (by rw [hkey])
        ⟨d, List.mem_append_left _ hdoffer, hkey, rfl⟩)
    | _ => exact ⟨⟨d, hd, hkey⟩, hpend⟩
  · obtain rfl : Event.confirm w = e := by simpa [hpre] using hmem
    obtain ⟨d, hd⟩ := h.waiting hpre (hw.offered pre post rfl)
    obtain ⟨hkey, hoffer⟩ := h.sound.pending w d hd
    have hlt := h.outranks hw hpre (List.mem_append_left _ hoffer) hkey
    generalize x.step (.confirm w) = y at hmove ⊢
    cases hmove with
    | unknown hp => rw [hp] at hd; cases hd
    | stale hp hr =>
      rw [hp] at hd
      cases hd
      exact absurd hr (not_le.2 hlt)
    | win hp hr =>
      rw [hp] at hd
      cases hd
      exact ⟨⟨d, rfl, hkey⟩, by simp⟩

theorem Phase.step : Phase w (pre ++ [e]) (x.step e) :=
  ⟨h.sound.step, h.step_waiting hw, h.step_held hw⟩

end Phase

theorem phase_run (hw : Favours w es) : Phase w es ((empty : Race K R A).run es) := by
  suffices hgen : ∀ (post pre : List (Event K R A)) (x : Race K R A), es = pre ++ post →
      Phase w pre x → Phase w es (x.run post) by
    exact hgen es [] empty rfl ⟨sound_empty, by simp, by simp⟩
  intro post
  induction post with
  | nil =>
    rintro pre x rfl h
    simpa [run] using h
  | cons e post ih =>
    rintro pre x rfl h
    exact ih (pre ++ [e]) (x.step e) (by simp) (h.step hw)

/-- **The greatest rank wins.** -/
theorem held_run (hw : Favours w es) (hconf : .confirm w ∈ es) :
    (∃ c, ((empty : Race K R A).run es).holder = some c ∧ c.key = w) ∧
      ((empty : Race K R A).run es).pending w = none :=
  (phase_run hw).held hconf

theorem sound_run (es : List (Event K R A)) : Sound es ((empty : Race K R A).run es) := by
  induction es using List.reverseRecOn with
  | nil => exact sound_empty
  | append_singleton es e ih =>
    have hstep := ih.step (e := e)
    simpa [run] using hstep

theorem holder_run_of_not_confirmed (h : ∀ k, .confirm k ∉ es) :
    ((empty : Race K R A).run es).holder = none := by
  cases hc : ((empty : Race K R A).run es).holder with
  | none => rfl
  | some c => exact absurd ((sound_run es).holder c hc).2 (h c.key)

/-! ## Events that do not matter -/

/-- The same holder, and the same claims on hold under the keys in `N`. -/
structure Agree (N : Set K) (x y : Race K R A) : Prop where
  holder : x.holder = y.holder
  pending : ∀ k ∈ N, x.pending k = y.pending k

section Agree

variable {N : Set K}

omit [LinearOrder R] [DecidableEq A] in
theorem agree_update {k : K} (hk : k ∉ N) (c : Option (Claim K R A)) :
    Agree N { x with pending := Function.update x.pending k c } x :=
  ⟨rfl, fun _ hk' => Function.update_of_ne (ne_of_mem_of_not_mem hk' hk) _ _⟩

theorem Agree.step (h : Agree N x y) (he : ∀ k, e = .confirm k → k ∈ N) :
    Agree N (x.step e) (y.step e) := by
  have hrank : x.rank = y.rank := by rw [rank, rank, h.holder]
  cases e with
  | offer c =>
    by_cases hk : c.key ∈ N
    · have hdrops : x.Drops c ↔ y.Drops c := by rw [Drops, Drops, h.holder, hrank, h.pending _ hk]
      simp only [Race.step, hdrops]
      split
      · exact h
      · refine ⟨h.holder, fun k hk => ?_⟩
        simp only [Function.update_apply, h.pending k hk]
    · have hoffer (z : Race K R A) : Agree N (z.step (.offer c)) z := by
        simp only [Race.step]
        split
        · exact ⟨rfl, fun _ _ => rfl⟩
        · exact agree_update hk _
      exact ⟨(hoffer x).holder.trans (h.holder.trans (hoffer y).holder.symm), fun k hk =>
        ((hoffer x).pending k hk).trans ((h.pending k hk).trans ((hoffer y).pending k hk).symm)⟩
  | confirm k =>
    simp only [Race.step, h.pending k (he k rfl)]
    split
    · exact h
    · refine ⟨by rw [hrank, h.holder], fun k hk => ?_⟩
      simp only [Function.update_apply, h.pending k hk]
  | yield k a =>
    simp only [Race.step, h.holder]
    split
    · exact h
    · split
      · exact ⟨rfl, h.pending⟩
      · exact h
  | idle => exact h

theorem Agree.run (h : Agree N x y) (hes : ∀ k, .confirm k ∈ es → k ∈ N) :
    Agree N (x.run es) (y.run es) := by
  induction es generalizing x y with
  | nil => exact h
  | cons e es ih =>
    exact ih (h.step fun k hk => hes k (hk ▸ .head _)) fun k hk => hes k (.tail _ hk)

end Agree

def Event.key? : Event K R A → Option K
  | .offer c => some c.key
  | .confirm k | .yield k _ => some k
  | .idle => none

open Classical in
noncomputable def Event.within (N : Set K) (e : Event K R A) : Event K R A :=
  if ∃ k ∈ N, e.key? = some k then e else .idle

section Within

variable {N M : Set K} {e' : Event K R A}

omit [DecidableEq K] [LinearOrder R] [DecidableEq A] in
theorem within_eq_iff (hne : e' ≠ .idle) :
    e.within N = e' ↔ e = e' ∧ ∃ k ∈ N, e'.key? = some k := by
  unfold Event.within
  split
  · next h => exact ⟨fun he => ⟨he, he ▸ h⟩, And.left⟩
  · next h => exact ⟨fun he => absurd he.symm hne, fun he => absurd (he.1 ▸ he.2) h⟩

omit [DecidableEq K] [LinearOrder R] [DecidableEq A] in
theorem within_univ (e : Event K R A) : e.within Set.univ = e := by
  unfold Event.within
  split
  · rfl
  · cases e with
    | idle => rfl
    | _ => simp [Event.key?] at *

omit [DecidableEq K] [LinearOrder R] [DecidableEq A] in
theorem within_within (h : M ⊆ N) : (e.within N).within M = e.within M := by
  by_cases hN : ∃ k ∈ N, e.key? = some k
  · rw [Event.within.eq_1 N, if_pos hN]
  · have hM : ¬∃ k ∈ M, e.key? = some k := fun ⟨k, hk, he⟩ => hN ⟨k, h hk, he⟩
    rw [Event.within.eq_1 N, if_neg hN, Event.within, Event.within, if_neg hM, ite_self]

theorem agree_within (h : ∀ k, k ∉ N → (∀ c, .offer c ∈ es → c.key ≠ k) ∨ .confirm k ∉ es) :
    Agree N ((empty : Race K R A).run es) (empty.run (es.map (Event.within N))) := by
  induction es using List.reverseRecOn with
  | nil => exact ⟨rfl, fun _ _ => rfl⟩
  | append_singleton es e ih =>
    have hagree := ih fun k hk => (h k hk).imp (fun hc c hmem => hc c (List.mem_append_left _ hmem))
      fun hc hmem => hc (List.mem_append_left _ hmem)
    have hsound := sound_run es
    have hnot : ∀ c, .offer c ∈ es → .confirm c.key ∈ es ++ [e] → c.key ∈ N := by
      intro c hoffer hconfirm
      by_contra hk
      exact (h c.key hk).elim (fun hc => hc c (List.mem_append_left _ hoffer) rfl) fun hc => hc hconfirm
    rw [List.map_append]
    simp only [run, List.foldl_append, List.map_cons, List.map_nil, List.foldl_cons, List.foldl_nil]
      at hagree hsound ⊢
    generalize List.foldl step empty es = x at hagree hsound ⊢
    by_cases hin : ∃ k ∈ N, e.key? = some k
    · rw [Event.within, if_pos hin]
      refine hagree.step fun k he => ?_
      obtain ⟨k', hk', heq⟩ := hin
      subst he
      cases heq
      exact hk'
    · rw [Event.within, if_neg hin]
      -- an event about another key changes nothing that matters
      have hquiet : Agree N (x.step e) x := by
        have hmove := step_move x e
        generalize x.step e = z at hmove ⊢
        cases hmove with
        | @hold c hd => exact agree_update (fun hk => hin ⟨_, hk, rfl⟩) _
        | @stale k c hp hr =>
          obtain ⟨rfl, hoffer⟩ := hsound.pending k c hp
          exact absurd ⟨_, hnot c hoffer (by simp), rfl⟩ hin
        | @win k c hp hr =>
          obtain ⟨rfl, hoffer⟩ := hsound.pending k c hp
          exact absurd ⟨_, hnot c hoffer (by simp), rfl⟩ hin
        | @leave c hx =>
          obtain ⟨hoffer, hconfirm⟩ := hsound.holder c hx
          exact absurd ⟨_, hnot c hoffer (List.mem_append_left _ hconfirm), rfl⟩ hin
        | _ => exact ⟨rfl, fun _ _ => rfl⟩
      exact ⟨hquiet.holder.trans hagree.holder,
        fun k hk => (hquiet.pending k hk).trans (hagree.pending k hk)⟩

end Within

theorem run_of_no_offer (h : ∀ c, .offer c ∉ es) : (empty : Race K R A).run es = empty := by
  induction es with
  | nil => rfl
  | cons e es ih =>
    have hstep : (empty : Race K R A).step e = empty := by
      cases e with
      | offer c => exact absurd (.head _) (h c)
      | _ => rfl
    rw [run, List.foldl_cons, hstep]
    exact ih fun c hc => h c (.tail _ hc)

/-- **A yield that clears the slot.** What comes after it is a race of its own, if the keys that are
still confirmed were not offered before. -/
theorem holder_run_yield {a : A} (hw : Favours w pre) (hconf : .confirm w ∈ pre)
    (howner : ∀ c, .offer c ∈ pre → c.key = w → c.owner = a)
    (hfresh : ∀ k, .confirm k ∈ post → k ≠ w → ∀ c, .offer c ∈ pre → c.key ≠ k) :
    ((empty : Race K R A).run (pre ++ .yield w a :: post)).holder = (empty.run post).holder := by
  obtain ⟨⟨d, hd, rfl⟩, hpend⟩ := held_run hw hconf
  have hsound := sound_run pre
  have hstep : ((empty : Race K R A).run pre).step (.yield d.key a) =
      { (empty : Race K R A).run pre with holder := none } := by
    simp only [step, hd, howner d (hsound.holder d hd).1 rfl, and_self, if_true]
  rw [run, List.foldl_append, List.foldl_cons]
  change ((((empty : Race K R A).run pre).step (.yield d.key a)).run post).holder = _
  have hagree : Agree { k | .confirm k ∈ post } { (empty : Race K R A).run pre with holder := none }
      empty := by
    refine ⟨rfl, fun k hk => ?_⟩
    by_cases hkey : k = d.key
    · rw [hkey]
      exact hpend
    · change ((empty : Race K R A).run pre).pending k = none
      cases hp : ((empty : Race K R A).run pre).pending k with
      | none => rfl
      | some c =>
        obtain ⟨hck, hoffer⟩ := hsound.pending k c hp
        exact absurd hck (hfresh k hk hkey c hoffer)
  rw [hstep]
  exact (hagree.run fun _ hk => hk).holder

/-! ## Events that can be exchanged -/

theorem exchange_offers {c d : Claim K R A} (hne : c.key ≠ d.key) :
    (x.step (.offer c)).step (.offer d) = (x.step (.offer d)).step (.offer c) := by
  have hdrops {c d : Claim K R A} (hne : c.key ≠ d.key) :
      (x.step (.offer c)).Drops d ↔ x.Drops d := by
    simp only [step]
    split
    · rfl
    · simp only [Drops, rank, Function.update_of_ne hne.symm]
  rw [step.eq_1 (x.step _), step.eq_1 (x.step _)]
  simp only [hdrops hne, hdrops hne.symm]
  by_cases hc : x.Drops c <;> by_cases hd : x.Drops d <;> simp [step, hc, hd, Function.update_comm hne]

theorem exchange_confirms {P : Claim K R A → Prop}
    (hpending : ∀ k c, x.pending k = some c → c.key = k ∧ P c)
    (hrank : ∀ c d, P c → P d → (c.key = d.key ↔ c.rank = d.rank)) (k k' : K) :
    (x.step (.confirm k)).step (.confirm k') = (x.step (.confirm k')).step (.confirm k) := by
  by_cases hk : k = k'
  · rw [hk]
  · cases hp : x.pending k with
    | none =>
      cases hp' : x.pending k' with
      | none => simp only [step, hp, hp']
      | some d' => simp only [step, hp, hp', Function.update_of_ne hk]
    | some d =>
      cases hp' : x.pending k' with
      | none => simp only [step, hp, hp', Function.update_of_ne (Ne.symm hk)]
      | some d' =>
        -- both are taken off hold, and the higher of the two wins in either order
        obtain ⟨rfl, hd⟩ := hpending k d hp
        obtain ⟨rfl, hd'⟩ := hpending k' d' hp'
        have hne : d.rank ≠ d'.rank := fun h => hk ((hrank d d' hd hd').2 h)
        simp only [step, hp, hp', Function.update_of_ne hk, Function.update_of_ne (Ne.symm hk),
          Function.update_comm hk]
        congr 1
        have hsome (c : Claim K R A) (p) : rank ⟨some c, p⟩ = c.rank := rfl
        have hsame (p) : rank ⟨x.holder, p⟩ = x.rank := rfl
        have hne' : (d.rank : WithBot R) ≠ d'.rank := fun h => hne (WithBot.coe_injective h)
        split_ifs
        all_goals first
          | rfl
          | exfalso; simp only [hsome, hsame] at *; order

/-- Two events that may come in either order. -/
inductive Exchangeable : Event K R A → Event K R A → Prop
  | confirms (k k' : K) : Exchangeable (.confirm k) (.confirm k')
  | offers {c d : Claim K R A} (hne : c.key ≠ d.key) : Exchangeable (.offer c) (.offer d)

theorem exchange {P : Claim K R A → Prop} {e' : Event K R A}
    (hpending : ∀ k c, x.pending k = some c → c.key = k ∧ P c)
    (hrank : ∀ c d, P c → P d → (c.key = d.key ↔ c.rank = d.rank)) (h : Exchangeable e e') :
    (x.step e).step e' = (x.step e').step e := by
  cases h with
  | confirms k k' => exact exchange_confirms hpending hrank k k'
  | offers hne => exact exchange_offers hne

end Race

end Sush.Lib
