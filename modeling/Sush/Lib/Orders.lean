import Sush.Lib.Machine
import Sush.Lib.Race

/-!
# A race in many orders

The events of a race may be taken in any order that their causes allow. `Settled` is a condition on the
events and their causes alone under which all these orders end with the same holder (`holder_eq`). It
looks at the keys of a set and has three cases. No two events that matter are concurrent, but for
confirmations and for offers of different keys. Or the key of greatest rank, once confirmed, is never
yielded by an owner, so that it holds the slot in the end whatever happens to the others. Or it is, by a
yield that clears the slot: every other key was confirmed for the last time before this yield, or is
offered for the first time after it, and the keys of the second kind are settled among themselves.
-/

namespace Sush.Lib.Race

variable {ι K R A : Type} [LinearOrder R]

section Conditions

variable (before : ι → ι → Prop) (ev : ι → Event K R A)

/-- A claim that is offered, under a key of the set that is confirmed. -/
def Contends (live : Set K) (c : Claim K R A) : Prop :=
  c.key ∈ live ∧ (∃ i, ev i = .offer c) ∧ ∃ i, ev i = .confirm c.key

/-- A confirmation has an offer of its key among its causes. -/
def Offered : Prop := ∀ i k, ev i = .confirm k → ∃ j c, before j i ∧ ev j = .offer c ∧ c.key = k

/-- Claims have the same rank if and only if they have the same key. -/
def Ranked : Prop :=
  ∀ i j c d, ev i = .offer c → ev j = .offer d → (c.key = d.key ↔ c.rank = d.rank)

/-- The key is confirmed, and outranks all others in the set that are. -/
structure Wins (live : Set K) (w : K) : Prop where
  mem : w ∈ live
  confirmed : ∃ i, ev i = .confirm w
  top : ∀ c d, Contends ev live c → Contends ev live d → c.key = w → d.key ≠ w → d.rank < c.rank

/-- A yield by the owner of an offer. -/
def OwnerYields (w : K) (x : ι) : Prop := ∃ i c, ev i = .offer c ∧ c.key = w ∧ ev x = .yield w c.owner

/-- The yield `x` of `w` comes before every confirmation of `w`, and so too early. -/
def Early (w : K) (x : ι) : Prop := ∀ i, ev i = .confirm w → before x i

/-- The yield `x` of `w` comes after a confirmation and all offers of `w`, which are its owner's. Of the
other keys, those in `next` are offered after it, and the rest is confirmed before it. -/
structure Clears (live next : Set K) (w : K) (x : ι) : Prop where
  owner : ∃ a, ev x = .yield w a ∧ ∀ i c, ev i = .offer c → c.key = w → before i x ∧ c.owner = a
  confirmed : ∃ i, ev i = .confirm w ∧ before i x
  spent : ∀ c, Contends ev live c → c.key ≠ w → c.key ∉ next → ∀ i, ev i = .confirm c.key → before i x
  fresh : ∀ i c, ev i = .offer c → c.key ∈ next → before x i

/-- An event of a claim that contends. -/
inductive Matters (live : Set K) : Event K R A → Prop
  | offer {c : Claim K R A} (hc : Contends ev live c) : Matters live (.offer c)
  | confirm {c : Claim K R A} (hc : Contends ev live c) : Matters live (.confirm c.key)
  | yield {c : Claim K R A} (hc : Contends ev live c) : Matters live (.yield c.key c.owner)

/-- All orders of the events about these keys end with one holder. -/
inductive Settled : Set K → Prop
  | ordered {live : Set K} (h : ∀ i j, Matters ev live (ev i) → Matters ev live (ev j) → i ≠ j →
      before i j ∨ before j i ∨ Exchangeable (ev i) (ev j)) : Settled live
  | held {live : Set K} {w : K} (hwins : Wins ev live w)
      (hyields : ∀ x, OwnerYields ev w x → Early before ev w x) : Settled live
  | cleared {live next : Set K} {w : K} (hwins : Wins ev live w) (hnext : next ⊆ live)
      (hclears : ∃ x, Clears before ev live next w x)
      (hyields : ∀ x, OwnerYields ev w x → Early before ev w x ∨ Clears before ev live next w x ∨
        ∃ y, Clears before ev live next w y ∧ before y x) (hrest : Settled next) : Settled live

end Conditions

variable {before : ι → ι → Prop} {ev : ι → Event K R A} {live next : Set K} {l l' p q : List ι} {w : K}

noncomputable def events (ev : ι → Event K R A) (live : Set K) (l : List ι) : List (Event K R A) :=
  l.map fun i => (ev i).within live

section Events

variable {e : Event K R A}

omit [LinearOrder R] in
theorem mem_events (hne : e ≠ .idle) :
    e ∈ events ev live l ↔ (∃ i ∈ l, ev i = e) ∧ ∃ k ∈ live, e.key? = some k := by
  simp only [events, List.mem_map, within_eq_iff hne]
  exact ⟨fun ⟨i, hi, he, hk⟩ => ⟨⟨i, hi, he⟩, hk⟩, fun ⟨⟨i, hi, he⟩, hk⟩ => ⟨i, hi, he, hk⟩⟩

omit [LinearOrder R] in
theorem mem_offer {c : Claim K R A} :
    .offer c ∈ events ev live l ↔ (∃ i ∈ l, ev i = .offer c) ∧ c.key ∈ live := by
  simp [mem_events, Event.key?]

omit [LinearOrder R] in
theorem mem_confirm {k : K} :
    .confirm k ∈ events ev live l ↔ (∃ i ∈ l, ev i = .confirm k) ∧ k ∈ live := by
  simp [mem_events, Event.key?]

omit [LinearOrder R] in
theorem exists_of_events_eq {pre post : List (Event K R A)} (hne : e ≠ .idle)
    (h : events ev live l = pre ++ e :: post) :
    ∃ p x q, l = p ++ x :: q ∧ ev x = e ∧ pre = events ev live p := by
  obtain ⟨p, rest, rfl, rfl, hrest⟩ := List.map_eq_append_iff.1 h
  obtain ⟨x, q, rfl, hx, -⟩ := List.map_eq_cons_iff.1 hrest
  exact ⟨p, x, q, rfl, ((within_eq_iff hne).1 hx).1, rfl⟩

omit [LinearOrder R] in
theorem contends_of_mem {c : Claim K R A} (hc : .offer c ∈ events ev live l)
    (hk : .confirm c.key ∈ events ev live l') : Contends ev live c := by
  obtain ⟨⟨i, -, hi⟩, hmem⟩ := mem_offer.1 hc
  obtain ⟨⟨j, -, hj⟩, -⟩ := mem_confirm.1 hk
  exact ⟨hmem, ⟨i, hi⟩, j, hj⟩

end Events

theorem favours_of_wins (hl : LinearExtension before (p ++ q)) (hoffered : Offered before ev)
    (hwins : Wins ev live w)
    (hyields : ∀ p' x q', p = p' ++ x :: q' → OwnerYields ev w x → ∀ i ∈ p', ev i ≠ .confirm w) :
    Favours w (events ev live p) where
  offered := by
    intro pre post hes
    obtain ⟨p', x, q', rfl, hx, rfl⟩ := exists_of_events_eq (by simp) hes
    obtain ⟨j, c, hbefore, hj, rfl⟩ := hoffered x w hx
    have hmem : j ∈ p' := hl.causal p' x (q' ++ q) (by simp) j hbefore
    exact ⟨c, mem_offer.2 ⟨⟨j, hmem, hj⟩, hwins.mem⟩, rfl⟩
  top := by
    intro c d hc hd hkey hne hconfirm
    obtain ⟨⟨i, -, hi⟩, hlive⟩ := mem_offer.1 hc
    exact hwins.top c d ⟨hlive, ⟨i, hi⟩, hkey ▸ hwins.confirmed⟩ (contends_of_mem hd hconfirm) hkey hne
  yields := by
    rintro pre a post hes ⟨c, hc, hkey, rfl⟩ hconfirm
    obtain ⟨p', x, q', hp, hx, rfl⟩ := exists_of_events_eq (by simp) hes
    obtain ⟨⟨i, -, hi⟩, -⟩ := mem_offer.1 hc
    obtain ⟨⟨j, hj, hconfirm⟩, -⟩ := mem_confirm.1 hconfirm
    exact hyields p' x q' hp ⟨i, c, hi, hkey, hx⟩ j hj hconfirm

variable [DecidableEq K] [DecidableEq A]

/-- The holder after the events about the keys of a set, in an order. -/
noncomputable def outcome (ev : ι → Event K R A) (live : Set K) (l : List ι) : Option K :=
  ((empty : Race K R A).run (events ev live l)).holder.map Claim.key

theorem outcome_held (hl : LinearExtension before l) (hoffered : Offered before ev)
    (hwins : Wins ev live w) (hyields : ∀ x, OwnerYields ev w x → Early before ev w x) :
    outcome ev live l = some w := by
  have hfavours : Favours w (events ev live l) := by
    refine favours_of_wins (q := []) (by simpa using hl) hoffered hwins ?_
    intro p' x q' hsplit hx i hi hconfirm
    exact hl.not_before_of_mem hsplit hi (hyields x hx i hconfirm)
  obtain ⟨i, hi⟩ := hwins.confirmed
  obtain ⟨⟨c, hc, rfl⟩, -⟩ := held_run hfavours (mem_confirm.2 ⟨⟨i, hl.mem i, hi⟩, hwins.mem⟩)
  rw [outcome, hc, Option.map_some]

/-- Keys that are not both offered and confirmed make no difference. -/
theorem holder_within (hnext : next ⊆ live) (h : ∀ c, .offer c ∈ events ev live l →
      .confirm c.key ∈ events ev live l → c.key ∈ next) :
    ((empty : Race K R A).run (events ev live l)).holder = (empty.run (events ev next l)).holder := by
  have hwithin : (events ev live l).map (Event.within next) = events ev next l := by
    simp only [events, List.map_map]
    exact List.map_congr_left fun i _ => within_within hnext
  rw [(agree_within fun k hk => ?_).holder, hwithin]
  by_contra hnot
  obtain ⟨hoffer, hconfirm⟩ := not_or.1 hnot
  simp only [not_forall, not_not] at hoffer hconfirm
  obtain ⟨c, hc, rfl⟩ := hoffer
  exact hk (h c hc hconfirm)

/-! ## A yield that clears the slot -/

section Clears

variable {x : ι} (hl : LinearExtension before (p ++ x :: q)) (hx : Clears before ev live next w x)

include hl hx

omit [LinearOrder R] [DecidableEq K] [DecidableEq A] in
/-- After the yield, only the keys of `next` are both offered and confirmed. -/
theorem Clears.mem_next {c : Claim K R A} (hc : .offer c ∈ events ev live q)
    (hconfirm : .confirm c.key ∈ events ev live q) : c.key ∈ next := by
  obtain ⟨a, -, hoffers⟩ := hx.owner
  obtain ⟨⟨i, hi, hoffer⟩, -⟩ := mem_offer.1 hc
  obtain ⟨⟨j, hj, hj'⟩, -⟩ := mem_confirm.1 hconfirm
  by_contra hnext
  by_cases hkey : c.key = w
  · exact hl.not_before rfl hi (hoffers i c hoffer hkey).1
  · exact hl.not_before rfl hj (hx.spent c (contends_of_mem hc hconfirm) hkey hnext j hj')

omit [LinearOrder R] [DecidableEq K] [DecidableEq A] in
/-- What is confirmed after the yield was not offered before it. -/
theorem Clears.offered_after {c : Claim K R A} (hc : .offer c ∈ events ev live p)
    (hkey : c.key ≠ w) : .confirm c.key ∉ events ev live q := by
  intro hconfirm
  obtain ⟨⟨i, hi, hoffer⟩, -⟩ := mem_offer.1 hc
  obtain ⟨⟨j, hj, hj'⟩, -⟩ := mem_confirm.1 hconfirm
  by_cases hnext : c.key ∈ next
  · exact hl.not_before_of_mem rfl hi (hx.fresh i c hoffer hnext)
  · exact hl.not_before rfl hj (hx.spent c (contends_of_mem hc hconfirm) hkey hnext j hj')

/-- Up to the yield, nothing happens to the keys of `next`. -/
theorem Clears.run_next : (empty : Race K R A).run (events ev next (p ++ x :: q)) =
    empty.run (events ev next q) := by
  have hnone : ∀ c, .offer c ∉ events ev next (p ++ [x]) := by
    intro c hc
    obtain ⟨⟨i, hi, hoffer⟩, hkey⟩ := mem_offer.1 hc
    have hbefore := hx.fresh i c hoffer hkey
    rcases List.mem_append.1 hi with hi | hi
    · exact hl.not_before_of_mem rfl hi hbefore
    · rw [List.mem_singleton.1 hi] at hbefore
      exact hl.irrefl x hbefore
  have hsplit : events ev next (p ++ x :: q) = events ev next (p ++ [x]) ++ events ev next q := by
    simp [events]
  rw [hsplit, run, List.foldl_append]
  exact congrArg (List.foldl step · _) (run_of_no_offer hnone)

theorem Clears.outcome (hwins : Wins ev live w) (hnext : next ⊆ live)
    (hfavours : Favours w (events ev live p)) :
    outcome ev live (p ++ x :: q) = outcome ev next (p ++ x :: q) := by
  obtain ⟨a, hyield, hoffers⟩ := hx.owner
  have hconfirm : .confirm w ∈ events ev live p := by
    obtain ⟨i, hi, hbefore⟩ := hx.confirmed
    exact mem_confirm.2 ⟨⟨i, hl.causal p x q rfl i hbefore, hi⟩, hwins.mem⟩
  have howner : ∀ c, .offer c ∈ events ev live p → c.key = w → c.owner = a := by
    intro c hc hkey
    obtain ⟨⟨i, -, hi⟩, -⟩ := mem_offer.1 hc
    exact (hoffers i c hi hkey).2
  have hfresh : ∀ k, .confirm k ∈ events ev live q → k ≠ w →
      ∀ c, .offer c ∈ events ev live p → c.key ≠ k := by
    rintro k hk hkw c hc rfl
    exact hx.offered_after hl hc hkw hk
  have hsplit : events ev live (p ++ x :: q) = events ev live p ++ .yield w a :: events ev live q := by
    have hwithin : (ev x).within live = .yield w a :=
      (within_eq_iff (by simp)).2 ⟨hyield, w, hwins.mem, rfl⟩
    simp [events, hwithin]
  rw [Race.outcome, Race.outcome, hsplit, hx.run_next hl,
    holder_run_yield hfavours hconfirm howner hfresh,
    holder_within hnext fun c => hx.mem_next hl]

end Clears

theorem outcome_cleared (hl : LinearExtension before l) (hoffered : Offered before ev)
    (hwins : Wins ev live w) (hnext : next ⊆ live)
    (hclears : ∃ x, Clears before ev live next w x)
    (hyields : ∀ x, OwnerYields ev w x → Early before ev w x ∨ Clears before ev live next w x ∨
      ∃ y, Clears before ev live next w y ∧ before y x) :
    outcome ev live l = outcome ev next l := by
  -- the first such yield in this order
  obtain ⟨p, x, q, rfl, hfirst, y, hy, hclears⟩ := exists_first
    (P := fun l => ∃ x ∈ l, Clears before ev live next w x) (by simp)
    (hclears.imp fun x hx => ⟨hl.mem x, hx⟩)
  obtain rfl : y = x := by
    rcases List.mem_append.1 hy with hy | hy
    · exact absurd ⟨y, hy, hclears⟩ hfirst
    · exact List.mem_singleton.1 hy
  refine hclears.outcome hl hwins hnext (favours_of_wins hl hoffered hwins ?_)
  intro p' z q' hp hz i hi hconfirm
  have hsplit : p ++ y :: q = p' ++ z :: (q' ++ y :: q) := by simp [hp]
  rcases hyields z hz with hearly | hclears | ⟨z', hclears, hbefore⟩
  · exact hl.not_before_of_mem hsplit hi (hearly i hconfirm)
  · exact hfirst ⟨z, by simp [hp], hclears⟩
  · exact hfirst ⟨z', by simp [hp, hl.causal p' z _ hsplit z' hbefore], hclears⟩

/-! ## Events in order -/

/-- The keys of the claims that contend. -/
def contenders (ev : ι → Event K R A) (live : Set K) : Set K := { k | ∃ c, Contends ev live c ∧ c.key = k }

theorem outcome_contenders : outcome ev live l = outcome ev (contenders ev live) l := by
  have hlive : contenders ev live ⊆ live := by
    rintro k ⟨c, hc, rfl⟩
    exact hc.1
  rw [outcome, outcome, holder_within hlive]
  exact fun c hc hconfirm => ⟨c, contends_of_mem hc hconfirm, rfl⟩

section Ordered

variable {keys : Set K} (hkeys : keys = contenders ev live)

include hkeys

omit [LinearOrder R] [DecidableEq K] [DecidableEq A] in
theorem contends_of_offer {c : Claim K R A} (hc : .offer c ∈ events ev keys l) : Contends ev live c := by
  subst hkeys
  obtain ⟨⟨i, -, hi⟩, d, hd, hkey⟩ := mem_offer.1 hc
  exact ⟨hkey ▸ hd.1, ⟨i, hi⟩, hkey ▸ hd.2.2⟩

/-- What does not matter does nothing. -/
theorem step_of_not_matters {i : ι} (hnot : ¬Matters ev live (ev i)) (l : List ι) :
    ((empty : Race K R A).run (events ev keys l)).step ((ev i).within keys) =
      empty.run (events ev keys l) := by
  unfold Event.within
  split
  · next hk =>
    obtain ⟨k, hk, hkey⟩ := hk
    have hmove := step_move (empty.run (events ev keys l)) (ev i)
    have hholder := (sound_run (events ev keys l)).holder
    have hoffer (c : Claim K R A) (he : ev i = .offer c) : Contends ev live c := by
      rw [he] at hkey
      cases hkey
      exact contends_of_offer (l := [i]) hkeys (mem_offer.2 ⟨⟨i, .head _, he⟩, hk⟩)
    generalize empty.run (events ev keys l) = x at hmove hholder ⊢
    generalize x.step (ev i) = y at hmove ⊢
    generalize ev i = e at hmove hnot hkey hoffer
    cases hmove with
    | drop _ | hold _ => exact absurd (.offer (hoffer _ rfl)) hnot
    | unknown _ | stale _ _ | win _ _ =>
      cases hkey
      obtain ⟨c, hc, rfl⟩ := hkeys ▸ hk
      exact absurd (.confirm hc) hnot
    | leave hx => exact absurd (.yield (contends_of_offer hkeys (hholder _ hx).1)) hnot
    | ignore _ | idle => rfl
  · rfl

theorem step_comm_of_exchangeable (hranked : Ranked ev) {e f : Event K R A} (he : Matters ev live e)
    (hf : Matters ev live f) (hex : Exchangeable e f) (l : List ι) :
    (((empty : Race K R A).run (events ev keys l)).step (e.within keys)).step (f.within keys) =
      ((empty.run (events ev keys l)).step (f.within keys)).step (e.within keys) := by
  have hsame {e : Event K R A} (he : Matters ev live e) : e.within keys = e := by
    subst hkeys
    cases he with
    | offer hc | confirm hc | yield hc => exact if_pos ⟨_, ⟨_, hc, rfl⟩, rfl⟩
  have hpending := (sound_run (events ev keys l)).pending
  rw [hsame he, hsame hf]
  refine exchange (fun k c hc => ⟨(hpending k c hc).1, contends_of_offer hkeys (hpending k c hc).2⟩)
    (fun c d hc hd => ?_) hex
  obtain ⟨-, ⟨i, hi⟩, -⟩ := hc
  obtain ⟨-, ⟨j, hj⟩, -⟩ := hd
  exact hranked i j c d hi hj

end Ordered

theorem outcome_ordered (hranked : Ranked ev)
    (h : ∀ i j, Matters ev live (ev i) → Matters ev live (ev j) → i ≠ j →
      before i j ∨ before j i ∨ Exchangeable (ev i) (ev j))
    (hl : LinearExtension before l) (hl' : LinearExtension before l') :
    outcome ev live l = outcome ev live l' := by
  rw [outcome_contenders, @outcome_contenders _ _ _ _ _ _ _ l']
  generalize hkeys : contenders ev live = keys
  have hquiet {i : ι} (hnot : ¬Matters ev live (ev i)) := step_of_not_matters hkeys.symm hnot
  refine LinearExtension.eq_of_swaps (fun p a b q hab hnab hnba => ?_) hl hl'
  have hconcat (l : List ι) (i : ι) : ((empty : Race K R A).run (events ev keys l)).step
      ((ev i).within keys) = empty.run (events ev keys (l ++ [i])) := by
    simp [run, events]
  have hexchange : (((empty : Race K R A).run (events ev keys p)).step ((ev a).within keys)).step
      ((ev b).within keys) = (((empty : Race K R A).run (events ev keys p)).step
        ((ev b).within keys)).step ((ev a).within keys) := by
    by_cases ha : Matters ev live (ev a)
    · by_cases hb : Matters ev live (ev b)
      · have hne : a ≠ b := by
          rintro rfl
          exact (List.nodup_cons.1 (List.nodup_append.1 hab.nodup).2.1).1 (.head _)
        obtain hbefore | hbefore | hex := h a b ha hb hne
        · exact absurd hbefore hnab
        · exact absurd hbefore hnba
        · exact step_comm_of_exchangeable hkeys.symm hranked ha hb hex p
      · rw [hquiet hb, hconcat, hquiet hb]
    · rw [hquiet ha, hconcat, hquiet ha]
  have hrun (i j : ι) : (empty : Race K R A).run (events ev keys (p ++ i :: j :: q)) =
      ((((empty : Race K R A).run (events ev keys p)).step ((ev i).within keys)).step
        ((ev j).within keys)).run (events ev keys q) := by
    simp [run, events]
  rw [outcome, outcome, hrun, hrun, hexchange]

/-- **All orders of settled events end with the same holder.** -/
theorem holder_eq (hoffered : Offered before ev) (hranked : Ranked ev) (h : Settled before ev live)
    (hl : LinearExtension before l) (hl' : LinearExtension before l') :
    outcome ev live l = outcome ev live l' := by
  induction h with
  | ordered h => exact outcome_ordered hranked h hl hl'
  | held hwins hyields =>
    rw [outcome_held hl hoffered hwins hyields, outcome_held hl' hoffered hwins hyields]
  | cleared hwins hnext hclears hyields _ ih =>
    rw [outcome_cleared hl hoffered hwins hnext hclears hyields,
      outcome_cleared hl' hoffered hwins hnext hclears hyields, ih]

end Sush.Lib.Race
