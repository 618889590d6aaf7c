import Mathlib

/-!
# Runs of a machine with outputs

A machine is a step function `σ → ι → σ × List ω`. `run` feeds it a list of inputs and collects the
outputs. The rules below are the only inductions over inputs the developments need: a property of
the state, the inputs taken so far and the outputs made so far that every step preserves holds at
the end of every run, also when each step is known to meet a condition on the state before it.
`LinearExtension` says which lists of inputs deliver all inputs in an order their causes allow.
-/

namespace Sush.Lib

variable {σ ι ω : Type} (step : σ → ι → σ × List ω)

/-- Feed a list of inputs to the machine, collecting its outputs. -/
def run : σ → List ι → σ × List ω
  | s, [] => (s, [])
  | s, i :: is => ((run (step s i).1 is).1, (step s i).2 ++ (run (step s i).1 is).2)

variable {step} {s : σ} {i : ι} {is js : List ι}

@[simp] theorem run_nil : run step s [] = (s, []) := rfl

@[simp] theorem run_cons : run step s (i :: is) =
    ((run step (step s i).1 is).1, (step s i).2 ++ (run step (step s i).1 is).2) := rfl

theorem run_append : run step s (is ++ js) =
    ((run step (run step s is).1 js).1, (run step s is).2 ++ (run step (run step s is).1 js).2) := by
  induction is generalizing s with
  | nil => simp
  | cons i is ih => simp [ih, List.append_assoc]

theorem run_concat : run step s (is ++ [i]) =
    ((step (run step s is).1 i).1, (run step s is).2 ++ (step (run step s is).1 i).2) := by
  rw [run_append]
  simp

variable (step) in
/-- Every step of the run meets `C`, a condition on the state before the step, the outputs made
before it and its input. -/
def Always (C : σ → List ω → ι → Prop) : σ → List ω → List ι → Prop
  | _, _, [] => True
  | s, os, i :: is => C s os i ∧ Always C (step s i).1 (os ++ (step s i).2) is

theorem always_of_forall {C : ι → Prop} {os : List ω} (h : ∀ i ∈ is, C i) :
    Always step (fun _ _ i => C i) s os is := by
  induction is generalizing s os with
  | nil => trivial
  | cons i is ih => exact ⟨h i (.head _), ih fun j hj => h j (.tail _ hj)⟩

theorem Always.and {C D : σ → List ω → ι → Prop} {os : List ω} (hC : Always step C s os is)
    (hD : Always step D s os is) : Always step (fun s os i => C s os i ∧ D s os i) s os is := by
  induction is generalizing s os with
  | nil => trivial
  | cons i is ih => exact ⟨⟨hC.1, hD.1⟩, ih hC.2 hD.2⟩

theorem Always.imp {C D : σ → List ω → ι → Prop} {os : List ω} (h : Always step C s os is)
    (himp : ∀ s os i, C s os i → D s os i) : Always step D s os is := by
  induction is generalizing s os with
  | nil => trivial
  | cons i is ih => exact ⟨himp _ _ _ h.1, ih h.2⟩

theorem Always.forget {C : σ → ι → Prop} {os os' : List ω}
    (h : Always step (fun s _ i => C s i) s os is) : Always step (fun s _ i => C s i) s os' is := by
  induction is generalizing s os os' with
  | nil => trivial
  | cons i is ih => exact ⟨h.1, ih h.2⟩

theorem Always.split {C : σ → List ω → ι → Prop} {os : List ω} {pre post : List ι}
    (h : Always step C s os (pre ++ post)) :
    Always step C (run step s pre).1 (os ++ (run step s pre).2) post := by
  induction pre generalizing s os with
  | nil => simpa using h
  | cons i pre ih => simpa [List.append_assoc] using ih h.2

/-- **The run rule with a condition on the steps.** `P` may speak of the inputs and the outputs so
far. -/
theorem run_invariant_of_always (step : σ → ι → σ × List ω) {C : σ → List ω → ι → Prop}
    {P : σ → List ι → List ω → Prop}
    (hstep : ∀ s pre os i, C s os i → P s pre os →
      P (step s i).1 (pre ++ [i]) (os ++ (step s i).2))
    (halways : Always step C s [] is) (h : P s [] []) :
    P (run step s is).1 is (run step s is).2 := by
  suffices hgen : ∀ (is : List ι) (s : σ) (pre : List ι) (os : List ω), Always step C s os is →
      P s pre os → P (run step s is).1 (pre ++ is) (os ++ (run step s is).2) by
    simpa using hgen is s [] [] halways h
  intro is
  induction is with
  | nil => intro s pre os _ h; simpa using h
  | cons i is ih =>
    intro s pre os ha h
    have := ih _ _ _ ha.2 (hstep s pre os i ha.1 h)
    simpa [List.append_assoc] using this

/-- **The run rule**: what every step preserves holds at the end of every run. -/
theorem run_invariant (step : σ → ι → σ × List ω) {P : σ → List ι → List ω → Prop}
    (hstep : ∀ s pre os i, P s pre os → P (step s i).1 (pre ++ [i]) (os ++ (step s i).2))
    {s : σ} (h : P s [] []) (is : List ι) : P (run step s is).1 is (run step s is).2 := by
  have hall : Always step (fun _ _ _ => True) s [] is := always_of_forall fun _ _ => trivial
  exact run_invariant_of_always step (fun s pre os i _ hp => hstep s pre os i hp) hall h

/-- **The run rule with the inputs so far**: what a step preserves that extends the inputs taken so
far towards `is` holds after `is`. -/
theorem run_invariant_of_splits (step : σ → ι → σ × List ω) {P : σ → List ι → List ω → Prop}
    (hstep : ∀ pre i post, is = pre ++ i :: post →
      P (run step s pre).1 pre (run step s pre).2 →
      P (run step s (pre ++ [i])).1 (pre ++ [i]) (run step s (pre ++ [i])).2)
    (h : P s [] []) : P (run step s is).1 is (run step s is).2 := by
  suffices hgen : ∀ pre post, is = pre ++ post →
      P (run step s pre).1 pre (run step s pre).2 by
    exact hgen is [] (List.append_nil is).symm
  intro pre
  induction pre using List.reverseRecOn with
  | nil => exact fun _ _ => h
  | append_singleton pre i ih =>
    intro post hsplit
    have hsplit' : is = pre ++ i :: post := by simpa using hsplit
    exact hstep pre i post hsplit' (ih (i :: post) hsplit')

/-- Where a list that grew by one element can be split: at the new element, or as before. -/
theorem split_concat {α : Type} {l pre post : List α} {x y : α} (h : l ++ [x] = pre ++ y :: post) :
    (post = [] ∧ pre = l ∧ y = x) ∨ ∃ post', post = post' ++ [x] ∧ l = pre ++ y :: post' := by
  rcases List.eq_nil_or_concat post with rfl | ⟨post', z, rfl⟩
  · obtain ⟨hl, hx⟩ := List.append_inj' h rfl
    exact .inl ⟨rfl, hl.symm, (List.singleton_inj.1 hx).symm⟩
  · have hcut : l ++ [x] = (pre ++ y :: post') ++ [z] := by simpa using h
    obtain ⟨hl, hx⟩ := List.append_inj' hcut rfl
    obtain rfl := List.singleton_inj.1 hx
    exact .inr ⟨post', by simp, hl⟩

theorem exists_first {P : List ι → Prop} (hnil : ¬P []) (h : P is) :
    ∃ pre i post, is = pre ++ i :: post ∧ ¬P pre ∧ P (pre ++ [i]) := by
  induction is using List.reverseRecOn with
  | nil => exact absurd h hnil
  | append_singleton is i ih =>
    by_cases hbefore : P is
    · obtain ⟨pre, j, post, rfl, hpre, hj⟩ := ih hbefore
      exact ⟨pre, j, post ++ [i], by simp, hpre, hj⟩
    · exact ⟨is, i, [], rfl, hbefore, h⟩

/-! ## Inputs that leave no trace -/

variable (step) in
/-- The inputs without those that `drop` names in the state they are taken in. -/
def prune (drop : σ → ι → Bool) : σ → List ι → List ι
  | _, [] => []
  | s, i :: is =>
    if drop s i then prune drop (step s i).1 is else i :: prune drop (step s i).1 is

/-- **Inputs that leave the state alone and make no output can be left out of a run.** -/
theorem run_prune {drop : σ → ι → Bool} (hdrop : ∀ s i, drop s i = true → step s i = (s, [])) :
    run step s (prune step drop s is) = run step s is := by
  induction is generalizing s with
  | nil => rfl
  | cons i is ih =>
    by_cases h : drop s i = true
    · rw [prune, if_pos h, run_cons, hdrop s i h]
      exact ih
    · rw [prune, if_neg h, run_cons, run_cons, ih]

/-! ## What is seen of the inputs -/

section Seen

variable {β : Type} {see : σ → ι → Option β}

variable (step) in
/-- What `see` notes of each input, in the state the input is taken in. -/
def seen (see : σ → ι → Option β) : σ → List ι → List β
  | _, [] => []
  | s, i :: is => (see s i).toList ++ seen see (step s i).1 is

theorem seen_concat : seen step see s (is ++ [i]) =
    seen step see s is ++ (see (run step s is).1 i).toList := by
  induction is generalizing s with
  | nil => simp [seen]
  | cons j is ih => simp [seen, ih, List.append_assoc]

theorem filterMap_run {f : ω → Option β}
    (h : ∀ s i, (step s i).2.filterMap f = (see s i).toList) :
    (run step s is).2.filterMap f = seen step see s is := by
  induction is generalizing s with
  | nil => rfl
  | cons i is ih => rw [run_cons, List.filterMap_append, h, ih, seen]

end Seen

/-! ## Orders of delivery -/

/-- All the inputs, each once, in an order in which nothing comes before its causes. -/
structure LinearExtension (before : ι → ι → Prop) (l : List ι) : Prop where
  nodup : l.Nodup
  mem : ∀ i, i ∈ l
  causal : ∀ pre i post, l = pre ++ i :: post → ∀ j, before j i → j ∈ pre

namespace LinearExtension

variable {before : ι → ι → Prop} {l pre post : List ι} {j : ι}

theorem not_before (hl : LinearExtension before l) (h : l = pre ++ i :: post) (hj : j ∈ post) :
    ¬before j i := by
  intro hbefore
  have hpre := hl.causal pre i post h j hbefore
  have hdisjoint := List.disjoint_of_nodup_append (h ▸ hl.nodup)
  exact hdisjoint hpre (List.mem_cons_of_mem i hj)

theorem not_before_of_mem (hl : LinearExtension before l) (h : l = pre ++ i :: post)
    (hj : j ∈ pre) : ¬before i j := by
  obtain ⟨p, q, rfl⟩ := List.append_of_mem hj
  have hsplit : l = p ++ j :: (q ++ i :: post) := by simpa using h
  exact hl.not_before hsplit (by simp)

theorem of_pairwise (hnodup : l.Nodup) (hmem : ∀ i, i ∈ l) (hirrefl : ∀ i, ¬before i i)
    (hl : l.Pairwise fun i j => ¬before j i) : LinearExtension before l := by
  refine ⟨hnodup, hmem, ?_⟩
  rintro pre i post rfl j hbefore
  rcases List.mem_append.1 (hmem j) with hj | hj
  · exact hj
  · rcases List.mem_cons.1 hj with rfl | hj
    · exact absurd hbefore (hirrefl j)
    · have hpost := (List.pairwise_append.1 hl).2.1
      exact absurd hbefore (List.rel_of_pairwise_cons hpost hj)

theorem irrefl (hl : LinearExtension before l) (i : ι) : ¬before i i := by
  intro hbefore
  obtain ⟨p, q, hsplit⟩ := List.append_of_mem (hl.mem i)
  exact hl.not_before_of_mem hsplit (hl.causal p i q hsplit i hbefore) hbefore

theorem pairwise (hl : LinearExtension before l) : l.Pairwise fun i j => ¬before j i := by
  suffices hgen : ∀ q p, l = p ++ q → q.Pairwise fun i j => ¬before j i from hgen l [] rfl
  intro q
  induction q with
  | nil => exact fun _ _ => .nil
  | cons i q ih =>
    exact fun p hsplit => .cons (fun j hj => hl.not_before hsplit hj) (ih (p ++ [i]) (by simp [hsplit]))

theorem swap {a b : ι} (hl : LinearExtension before (pre ++ a :: b :: post)) (h : ¬before a b) :
    LinearExtension before (pre ++ b :: a :: post) := by
  have hperm : (pre ++ b :: a :: post).Perm (pre ++ a :: b :: post) :=
    (List.Perm.swap a b post).append_left pre
  refine of_pairwise (hperm.nodup_iff.2 hl.nodup) (fun i => hperm.mem_iff.2 (hl.mem i)) hl.irrefl ?_
  have hpairs := hl.pairwise
  simp only [List.pairwise_append, List.pairwise_cons, List.mem_cons] at hpairs ⊢
  grind

/-- **What does not change when two neighbours that are not ordered are exchanged is the same for all
orders.** -/
theorem eq_of_swaps {β : Type} {f : List ι → β}
    (hswap : ∀ p a b q, LinearExtension before (p ++ a :: b :: q) → ¬before a b → ¬before b a →
      f (p ++ a :: b :: q) = f (p ++ b :: a :: q)) {l l' : List ι} (hl : LinearExtension before l)
    (hl' : LinearExtension before l') : f l = f l' := by
  suffices hgen : ∀ t p t', LinearExtension before (p ++ t) → LinearExtension before (p ++ t') →
      f (p ++ t) = f (p ++ t') from hgen l [] l' hl hl'
  intro t
  induction t with
  | nil =>
    intro p t' hp hp'
    have hnil : t' = [] := by
      refine List.eq_nil_iff_forall_not_mem.2 fun i hi => ?_
      exact List.disjoint_of_nodup_append hp'.nodup (by simpa using hp.mem i) hi
    rw [hnil]
  | cons a t ih =>
    intro p t' hp hp'
    have ha : a ∈ t' := by
      refine (List.mem_append.1 (hp'.mem a)).resolve_left fun h => ?_
      exact List.disjoint_of_nodup_append hp.nodup h (.head _)
    obtain ⟨u, v, rfl⟩ := List.append_of_mem ha
    -- `a` moves to the front of `u`, past inputs that come after it in the first order
    have hmove : ∀ u v, LinearExtension before (p ++ (u ++ a :: v)) →
        LinearExtension before (p ++ a :: (u ++ v)) ∧ f (p ++ (u ++ a :: v)) = f (p ++ a :: (u ++ v)) := by
      intro u
      induction u using List.reverseRecOn with
      | nil => exact fun v hv => ⟨hv, rfl⟩
      | append_singleton u b ihu =>
        intro v hv
        have hv' : LinearExtension before ((p ++ u) ++ b :: a :: v) := by simpa using hv
        have hb : ¬before b a := by
          intro hbefore
          exact List.disjoint_of_nodup_append hv.nodup (hp.causal p a t rfl b hbefore) (by simp)
        obtain ⟨hext, heq⟩ := ihu (b :: v) (by simpa using hv'.swap hb)
        refine ⟨by simpa using hext, ?_⟩
        have hneighbours := hswap (p ++ u) b a v hv' hb (hv'.not_before rfl (.head _))
        simpa using hneighbours.trans (by simpa using heq)
    obtain ⟨hext, heq⟩ := hmove u v hp'
    rw [heq]
    simpa using ih (p ++ [a]) (u ++ v) (by simpa using hp) (by simpa using hext)

end LinearExtension

end Sush.Lib
