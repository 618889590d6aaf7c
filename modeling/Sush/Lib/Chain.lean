import Mathlib

/-!
# Chains with skips

A job stands at a position and leads to the position after it, and any position can be burned, which
leads to another position. When no two of these edges meet (`SkipChain.Free`), the positions form a
forest, so what lies before a position is a single path.

A `Front` is where someone stands on such a chain: the position that is next, and the job at the head
that may still be burned. It moves by passing a job that stands at the next position, or by burning
the next position or the head. Burning the head turns back, so the front is not monotone; what is
monotone is the set of positions `Ahead` of it, and the set of positions strictly `Before` it.

The second half tells where a front ends. If every position offers at most one job, the moves made so
far are a walk along a function (`Hop`) that depends on the burned positions alone (`Trail`). So two
fronts that have nothing left to do end at the same position exactly if they burned the same
positions (`Trail.next_eq_iff`).
-/

namespace Sush.Lib

open Relation (ReflTransGen TransGen)

/-- Jobs at positions, the position after each job, and the position that replaces a burned one. -/
structure SkipChain (P J : Type) where
  pos : J → P
  after : J → P
  burned : P → P

namespace SkipChain

variable {P J : Type} (C : SkipChain P J)

/-- One position follows another. -/
inductive Edge : P → P → Prop
  | after (j : J) : Edge (C.pos j) (C.after j)
  | burned (p : P) : Edge p (C.burned p)

/-- Positions are free terms: no two edges meet, and no position is before itself. -/
structure Free : Prop where
  after_injective : Function.Injective C.after
  burned_injective : Function.Injective C.burned
  after_ne_burned : ∀ j p, C.after j ≠ C.burned p
  wf : WellFounded C.Edge

/-- `p` is `q` or before it. -/
abbrev Reaches (p q : P) : Prop := ReflTransGen C.Edge p q

/-- `p` is strictly before `q`. -/
abbrev Before (p q : P) : Prop := TransGen C.Edge p q

variable {C} {p q r : P} {j : J}

/-! ## Positions form a forest -/

namespace Free

variable (hC : C.Free)

include hC

theorem parent_unique (h : C.Edge p r) (h' : C.Edge q r) : p = q := by
  cases h with
  | after j =>
    generalize hr : C.after j = r at h'
    cases h' with
    | after j' => rw [hC.after_injective hr]
    | burned p' => exact absurd hr (hC.after_ne_burned j _)
  | burned p =>
    generalize hr : C.burned p = r at h'
    cases h' with
    | after j' => exact absurd hr.symm (hC.after_ne_burned j' _)
    | burned p' => exact hC.burned_injective hr

theorem before_irrefl (p : P) : ¬C.Before p p := by
  intro h
  exact hC.wf.transGen.irrefl.irrefl p h

theorem reaches_antisymm (h : C.Reaches p q) (h' : C.Reaches q p) : p = q := by
  rcases ReflTransGen.cases_head h with rfl | ⟨r, hpr, hrq⟩
  · rfl
  · exact absurd (TransGen.head' hpr (hrq.trans h')) (hC.before_irrefl p)

theorem before_iff_of_edge (h : C.Edge q r) : C.Before p r ↔ C.Reaches p q := by
  constructor
  · intro hp
    obtain ⟨b, hpb, hbr⟩ := TransGen.tail'_iff.1 hp
    rwa [hC.parent_unique h hbr]
  · intro hp
    exact TransGen.tail' hp h

theorem comparable (hp : C.Reaches p r) (hq : C.Reaches q r) : C.Reaches p q ∨ C.Reaches q p := by
  induction hp with
  | refl => exact .inr hq
  | @tail b c hb hbc ih =>
    rcases ReflTransGen.cases_tail hq with rfl | ⟨b', hb', hbc'⟩
    · exact .inl (hb.tail hbc)
    · obtain rfl := hC.parent_unique hbc hbc'
      exact ih hb'

/-- From a position there is one way on to `r`. -/
theorem edge_unique {q' : P} (h : C.Edge p q) (h' : C.Edge p q') (hr : C.Reaches q r)
    (hr' : C.Reaches q' r) : q = q' := by
  have hone : ∀ {a b : P}, C.Edge p a → C.Edge p b → C.Reaches a b → a = b := by
    intro a b ha hb hab
    rcases ReflTransGen.cases_tail hab with heq | ⟨c, hac, hcb⟩
    · exact heq.symm
    · obtain rfl := hC.parent_unique hb hcb
      exact absurd (TransGen.head' ha hac) (hC.before_irrefl _)
  rcases hC.comparable hr hr' with hqq' | hqq'
  · exact hone h h' hqq'
  · exact (hone h' h hqq').symm

end Free

/-! ## Fronts -/

/-- Where someone stands on a chain: the next position, and the job at the head, if it may still be
burned. -/
structure Front (P J : Type) where
  next : P
  head : Option J

/-- The front past `j`. -/
def pass (C : SkipChain P J) (j : J) : Front P J := ⟨C.after j, some j⟩

/-- The front after a burn of `p`. -/
def burn (C : SkipChain P J) (p : P) : Front P J := ⟨C.burned p, none⟩

namespace Front

variable (C) in
/-- The job at the head leads to the next position. -/
def Ok (f : Front P J) : Prop := ∀ j, f.head = some j → f.next = C.after j

variable (C) in
/-- A burn of `p` applies: it is the next position or that of the head. -/
def CanBurn (f : Front P J) (p : P) : Prop := p = f.next ∨ ∃ j, f.head = some j ∧ C.pos j = p

variable (C) in
/-- `p` can still come to be the next position. -/
def Ahead (f : Front P J) (p : P) : Prop :=
  C.Reaches f.next p ∨ ∃ j, f.head = some j ∧ C.Reaches (C.burned (C.pos j)) p

variable (C) in
/-- Where the front came from: the head, if there is one. -/
def origin (f : Front P J) : P := f.head.elim f.next C.pos

variable {f : Front P J}

theorem ok_pass (j : J) : (C.pass j).Ok C := by
  intro j' h
  cases h
  rfl

theorem ok_burn (p : P) : (C.burn p).Ok C := by
  intro j h
  cases h

theorem ahead_next : f.Ahead C f.next := .inl .refl

theorem not_ahead_head (hC : C.Free) (hf : f.Ok C) (hj : f.head = some j) :
    ¬f.Ahead C (C.pos j) := by
  rintro (h | ⟨j', hj', h⟩)
  · rw [hf j hj] at h
    exact hC.before_irrefl _ (TransGen.head' (.after j) h)
  · rw [hj] at hj'
    cases hj'
    exact hC.before_irrefl _ (TransGen.head' (.burned _) h)

theorem before_of_ahead_pass (hj : C.pos j = f.next) (h : (C.pass j).Ahead C p) :
    C.Before f.next p := by
  rw [← hj]
  rcases h with h | ⟨j', hj', h⟩
  · exact TransGen.head' (.after j) h
  · cases hj'
    exact TransGen.head' (.burned _) h

theorem ahead_of_ahead_pass (hj : C.pos j = f.next) (h : (C.pass j).Ahead C p) : f.Ahead C p :=
  .inl (before_of_ahead_pass hj h).to_reflTransGen

theorem ahead_of_ahead_burn (hq : f.CanBurn C q) (h : (C.burn q).Ahead C p) : f.Ahead C p := by
  have hreach : C.Reaches (C.burned q) p := by
    rcases h with h | ⟨j, hj, -⟩
    · exact h
    · cases hj
  rcases hq with rfl | ⟨j, hj, rfl⟩
  · exact .inl (.head (.burned _) hreach)
  · exact .inr ⟨j, hj, hreach⟩

theorem before_pass (hj : C.pos j = f.next) (h : C.Reaches p f.next) :
    C.Before p (C.pass j).next :=
  TransGen.tail' (hj ▸ h) (.after j)

theorem before_burn (hC : C.Free) (hf : f.Ok C) (hq : f.CanBurn C q) (h : C.Before p f.next) :
    C.Before p (C.burn q).next := by
  rcases hq with rfl | ⟨j, hj, rfl⟩
  · exact h.tail (.burned _)
  · rw [hf j hj, hC.before_iff_of_edge (.after j)] at h
    exact TransGen.tail' h (.burned _)

end Front

/-! ## Walks -/

section Walk

variable (C) in
/-- One hop from `p`: to its replacement if it is burned, else past the job picked there. -/
def Hop (picks : P → J → Prop) (E : Set P) (p q : P) : Prop :=
  (p ∈ E ∧ q = C.burned p) ∨ (p ∉ E ∧ ∃ j, picks p j ∧ q = C.after j)

variable {picks : P → J → Prop} {E : Set P} (hpos : ∀ p j, picks p j → C.pos j = p)

include hpos in
theorem edge_of_hop (h : C.Hop picks E p q) : C.Edge p q := by
  rcases h with ⟨-, rfl⟩ | ⟨-, j, hj, rfl⟩
  · exact .burned p
  · rw [← hpos p j hj]
    exact .after j

include hpos in
theorem reaches_of_walk (h : ReflTransGen (C.Hop picks E) p q) : C.Reaches p q :=
  ReflTransGen.mono (fun _ _ hop => edge_of_hop hpos hop) _ _ h

theorem hop_rightUnique (hpick : Relator.RightUnique picks) :
    Relator.RightUnique (C.Hop picks E) := by
  rintro p q q' (⟨hE, rfl⟩ | ⟨hE, j, hj, rfl⟩) (⟨hE', rfl⟩ | ⟨hE', j', hj', rfl⟩)
  · rfl
  · exact absurd hE hE'
  · exact absurd hE' hE
  · rw [hpick hj hj']

variable (hC : C.Free)

include hpos hC

theorem walk_insert (h : ReflTransGen (C.Hop picks E) p q) :
    ReflTransGen (C.Hop picks (insert q E)) p q := by
  suffices hgen : ∀ r, ReflTransGen (C.Hop picks E) p r → C.Reaches r q →
      ReflTransGen (C.Hop picks (insert q E)) p r from hgen q h .refl
  intro r hr
  induction hr with
  | refl => exact fun _ => .refl
  | @tail b c _ hop ih =>
    intro hcq
    have hbc := edge_of_hop hpos hop
    -- `b` is strictly before `q`, so its hop is not affected
    have hbq : b ≠ q := by
      rintro rfl
      exact hC.before_irrefl b (TransGen.head' hbc hcq)
    refine (ih (.head hbc hcq)).tail ?_
    rcases hop with ⟨hE, rfl⟩ | ⟨hE, j, hj, rfl⟩
    · exact .inl ⟨.inr hE, rfl⟩
    · exact .inr ⟨fun hmem => hmem.elim hbq hE, j, hj, rfl⟩

theorem walk_through (h : ReflTransGen (C.Hop picks E) p r) (hpq : C.Reaches p q)
    (hqr : C.Reaches q r) :
    ReflTransGen (C.Hop picks E) p q ∧ ReflTransGen (C.Hop picks E) q r := by
  induction h with
  | refl =>
    obtain rfl := hC.reaches_antisymm hpq hqr
    exact ⟨.refl, .refl⟩
  | @tail b c hb hop ih =>
    rcases ReflTransGen.cases_tail hqr with rfl | ⟨b', hqb, hbc⟩
    · exact ⟨hb.tail hop, .refl⟩
    · obtain rfl := hC.parent_unique (edge_of_hop hpos hop) hbc
      obtain ⟨hleft, hright⟩ := ih hqb
      exact ⟨hleft, hright.tail hop⟩

theorem hop_of_walk (h : ReflTransGen (C.Hop picks E) p r) (hpq : C.Reaches p q) {q' : P}
    (hedge : C.Edge q q') (hqr : C.Reaches q' r) : C.Hop picks E q q' := by
  obtain ⟨hleft, -⟩ := walk_through hpos hC h (hpq.tail hedge) hqr
  rcases ReflTransGen.cases_tail hleft with heq | ⟨b, -, hop⟩
  · subst heq
    exact absurd (TransGen.tail' hpq hedge) (hC.before_irrefl _)
  · obtain rfl := hC.parent_unique (edge_of_hop hpos hop) hedge
    exact hop

theorem mem_of_walk (h : ReflTransGen (C.Hop picks E) p r) (hpq : C.Reaches p q)
    (hqr : C.Reaches (C.burned q) r) : q ∈ E := by
  rcases hop_of_walk hpos hC h hpq (.burned q) hqr with ⟨hE, -⟩ | ⟨-, j, -, hj⟩
  · exact hE
  · exact absurd hj.symm (hC.after_ne_burned j q)

end Walk

/-! ## Trails -/

/-- The moves that led a front from `o` to where it is, having burned `E`. -/
structure Trail (C : SkipChain P J) (picks : P → J → Prop) (E : Set P) (o : P) (f : Front P J) :
    Prop where
  ok : f.Ok C
  walk : ReflTransGen (C.Hop picks E) o f.next
  head : ∀ j, f.head = some j → picks (C.pos j) j ∧ C.pos j ∉ E ∧
    ReflTransGen (C.Hop picks E) o (C.pos j)
  burnt : ∀ e ∈ E, C.Reaches o e ∧ C.Reaches (C.burned e) f.next

namespace Trail

variable {picks : P → J → Prop} {E E' : Set P} {o : P} {f f' : Front P J}

theorem start (hf : f.Ok C) (hpick : ∀ j, f.head = some j → picks (C.pos j) j) :
    C.Trail picks ∅ (f.origin C) f where
  ok := hf
  walk := by
    unfold Front.origin
    cases hj : f.head with
    | none => exact .refl
    | some j => exact .single (.inr ⟨Set.notMem_empty _, j, hpick j hj, hf j hj⟩)
  head := by
    intro j hj
    refine ⟨hpick j hj, Set.notMem_empty _, ?_⟩
    unfold Front.origin
    rw [hj]
    exact .refl
  burnt := by simp

theorem next_notMem (hC : C.Free) (h : C.Trail picks E o f) : f.next ∉ E := by
  intro hmem
  exact hC.before_irrefl _ (TransGen.head' (.burned _) (h.burnt _ hmem).2)

theorem pass (hC : C.Free) (h : C.Trail picks E o f) (hj : picks f.next j)
    (hposj : C.pos j = f.next) : C.Trail picks E o (C.pass j) := by
  have hnext := h.next_notMem hC
  refine ⟨Front.ok_pass j, h.walk.tail (.inr ⟨hnext, j, hj, rfl⟩), ?_, ?_⟩
  · rintro _ ⟨⟩
    rw [hposj]
    exact ⟨hj, hnext, h.walk⟩
  · intro e he
    refine ⟨(h.burnt e he).1, (h.burnt e he).2.tail ?_⟩
    rw [← hposj]
    exact .after j

/-- Where a burn of `p` applies, a walk leads to `p`. -/
theorem walk_canBurn (h : C.Trail picks E o f) (hp : f.CanBurn C p) :
    ReflTransGen (C.Hop picks E) o p := by
  rcases hp with rfl | ⟨j, hj, rfl⟩
  · exact h.walk
  · exact (h.head j hj).2.2

theorem no_hop (hC : C.Free) (h : C.Trail picks E o f) (hstuck : ∀ j, ¬picks f.next j) :
    ¬C.Hop picks E f.next q := by
  rintro (⟨hE, -⟩ | ⟨-, j, hj, -⟩)
  · exact h.next_notMem hC hE
  · exact hstuck j hj

section Burn

variable (hC : C.Free) (hpos : ∀ p j, picks p j → C.pos j = p)

include hC hpos

theorem burn (h : C.Trail picks E o f) (hp : f.CanBurn C p) :
    C.Trail picks (insert p E) o (C.burn p) := by
  have hwalk := h.walk_canBurn hp
  refine ⟨Front.ok_burn p, (walk_insert hpos hC hwalk).tail (.inl ⟨.inl rfl, rfl⟩), ?_, ?_⟩
  · rintro j ⟨⟩
  · rintro e (rfl | he)
    · exact ⟨reaches_of_walk hpos hwalk, .refl⟩
    · obtain ⟨hoe, hef⟩ := h.burnt e he
      refine ⟨hoe, ?_⟩
      rcases hp with rfl | ⟨j, hj, rfl⟩
      · exact hef.tail (.burned _)
      · -- the front turns back to the head, which is after every earlier burn
        rw [h.ok j hj] at hef
        have hbefore : C.Before (C.burned e) (C.after j) := by
          rcases ReflTransGen.cases_head hef with heq | ⟨r, hr, hrest⟩
          · exact absurd heq.symm (hC.after_ne_burned j e)
          · exact TransGen.head' hr hrest
        exact ((hC.before_iff_of_edge (.after j)).1 hbefore).tail (.burned _)

/-- A walk from a position between the ends of a trail, along hops that agree with the trail's from
there on, ends where the trail ends, if it is stuck there. -/
theorem next_eq_of_walk (hpick : Relator.RightUnique picks) (h : C.Trail picks E o f)
    (hstuck : ∀ j, ¬picks f.next j) (hpo : C.Reaches o p) (hpf : C.Reaches p f.next)
    (hagree : ∀ e, C.Reaches p e → (e ∈ E ↔ e ∈ E')) (hq : ReflTransGen (C.Hop picks E') p q)
    (hend : ∀ r, ¬C.Hop picks E' q r) : f.next = q := by
  have hiff : ∀ {a b}, C.Reaches p a → (C.Hop picks E a b ↔ C.Hop picks E' a b) := by
    intro a b ha
    unfold Hop
    rw [hagree a ha]
  obtain ⟨-, hright⟩ := walk_through hpos hC h.walk hpo hpf
  -- the rest of the trail is a walk of the other kind
  have hwalk : ReflTransGen (C.Hop picks E') p f.next := by
    suffices hgen : ∀ r, ReflTransGen (C.Hop picks E) p r → ReflTransGen (C.Hop picks E') p r from
      hgen _ hright
    intro r hr
    induction hr with
    | refl => exact .refl
    | tail hb hop ih => exact ih.tail ((hiff (reaches_of_walk hpos hb)).1 hop)
  rcases ReflTransGen.total_of_right_unique (hop_rightUnique hpick) hwalk hq with hr | hr
  · rcases ReflTransGen.cases_head hr with heq | ⟨r, hop, -⟩
    · exact heq
    · exact absurd ((hiff hpf).2 hop) (h.no_hop hC hstuck)
  · rcases ReflTransGen.cases_head hr with heq | ⟨r, hop, -⟩
    · exact heq.symm
    · exact absurd hop (hend r)

/-- **Where fronts meet.** Two fronts that went the same way until `p` and are stuck end at the same
position exactly if they burned the same positions from `p` on. -/
theorem next_eq_iff_from (hpick : Relator.RightUnique picks) {o' : P}
    (h : C.Trail picks E o f) (h' : C.Trail picks E' o' f') (hstuck : ∀ j, ¬picks f.next j)
    (hstuck' : ∀ j, ¬picks f'.next j) (hpo : C.Reaches o p) (hpo' : C.Reaches o' p)
    (hpf : C.Reaches p f.next) (hpf' : C.Reaches p f'.next) :
    f.next = f'.next ↔ ∀ e, C.Reaches p e → (e ∈ E ↔ e ∈ E') := by
  constructor
  · intro heq e he
    constructor
    · intro hE
      have hef := (h.burnt e hE).2
      rw [heq] at hef
      exact mem_of_walk hpos hC h'.walk (hpo'.trans he) hef
    · intro hE
      have hef := (h'.burnt e hE).2
      rw [← heq] at hef
      exact mem_of_walk hpos hC h.walk (hpo.trans he) hef
  · intro hagree
    obtain ⟨-, hright⟩ := walk_through hpos hC h'.walk hpo' hpf'
    exact h.next_eq_of_walk hC hpos hpick hstuck hpo hpf hagree hright
      fun r => h'.no_hop hC hstuck'

/-- Two fronts with a common origin that are stuck end at the same position exactly if they burned
the same positions. -/
theorem next_eq_iff (hpick : Relator.RightUnique picks) (h : C.Trail picks E o f)
    (h' : C.Trail picks E' o f') (hstuck : ∀ j, ¬picks f.next j)
    (hstuck' : ∀ j, ¬picks f'.next j) : f.next = f'.next ↔ E = E' := by
  rw [h.next_eq_iff_from hC hpos hpick h' hstuck hstuck' .refl .refl
    (reaches_of_walk hpos h.walk) (reaches_of_walk hpos h'.walk)]
  constructor
  · intro hagree
    ext e
    constructor
    · intro hE; exact (hagree e (h.burnt e hE).1).1 hE
    · intro hE; exact (hagree e (h'.burnt e hE).1).2 hE
  · rintro rfl e -
    rfl

end Burn

end Trail

end SkipChain

end Sush.Lib
