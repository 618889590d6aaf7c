import Mathlib.Data.List.DropRight
import Mathlib.Data.List.Forall2

/-!
# Trimmed text and lists of parsed items

`trim` drops a kind of character from both ends of a text, and nothing else (`mem_trim`, `trim_around`).
`splitOnce` cuts a text at the first of a character. A parser that goes through the items of a list
stops at the first error; it succeeds when every item does (`mapM_eq_ok_iff`).
-/

namespace Sush.Lib

variable {α : Type}

variable {l : List α} {a : α} {p : α → Bool} {β ε : Type} {f : α → Except ε β}

/-- `l` without the elements that satisfy `p` at its ends. -/
def trim (p : α → Bool) (l : List α) : List α := (l.dropWhile p).rdropWhile p

theorem trim_eq_self (h : ∀ a ∈ l, p a = false) : trim p l = l := by
  have hdrop : l.dropWhile p = l := by
    cases l with
    | nil => rfl
    | cons a l => simp [h a]
  rw [trim, hdrop, List.rdropWhile_eq_self_iff]
  intro hl
  simp [h (l.getLast hl) (List.getLast_mem hl)]

theorem mem_dropWhile (ha : a ∈ l) (hp : p a = false) : a ∈ l.dropWhile p := by
  rw [← List.takeWhile_append_dropWhile (p := p) (l := l)] at ha
  rcases List.mem_append.1 ha with hmem | hmem
  · exact absurd (List.mem_takeWhile_imp hmem) (by simp [hp])
  · exact hmem

theorem mem_trim (ha : a ∈ l) (hp : p a = false) : a ∈ trim p l := by
  rw [trim, List.rdropWhile, List.mem_reverse]
  exact mem_dropWhile (List.mem_reverse.2 (mem_dropWhile ha hp)) hp

theorem trim_around {before l after : List α} (hbefore : ∀ a ∈ before, p a)
    (hl : ∀ a ∈ l, p a = false) (hafter : ∀ a ∈ after, p a) :
    trim p (before ++ l ++ after) = l := by
  have hdrop : ∀ (m ws : List α), (∀ a ∈ m, p a = false) → (∀ a ∈ ws, p a) →
      (ws ++ m).dropWhile p = m := by
    intro m ws hm hws
    rw [List.dropWhile_append_of_pos hws]
    cases m with
    | nil => rfl
    | cons a m => simp [hm a]
  cases l with
  | nil =>
    have hall : ∀ a ∈ before ++ after, p a := fun a ha =>
      (List.mem_append.1 ha).elim (hbefore a) (hafter a)
    have hnil := hdrop [] (before ++ after) (by simp) hall
    rw [List.append_nil] at hnil
    rw [List.append_nil, trim, hnil]
    rfl
  | cons a l =>
    have hfront : (before ++ (a :: l ++ after)).dropWhile p = a :: l ++ after := by
      rw [List.dropWhile_append_of_pos hbefore]
      simp [hl a]
    rw [trim, List.append_assoc, hfront, List.rdropWhile, List.reverse_append,
      hdrop (a :: l).reverse after.reverse (fun b hb => hl b (List.mem_reverse.1 hb))
        (fun b hb => hafter b (List.mem_reverse.1 hb)), List.reverse_reverse]

/-- What is before the first `a` in a list and what is after it. -/
def splitOnce [DecidableEq α] (a : α) (l : List α) : Option (List α × List α) :=
  match l.dropWhile (· ≠ a) with
  | [] => none
  | _ :: rest => some (l.takeWhile (· ≠ a), rest)

theorem splitOnce_append [DecidableEq α] (h : a ∉ l) (rest : List α) :
    splitOnce a (l ++ a :: rest) = some (l, rest) := by
  have hne : ∀ b ∈ l, (decide (b ≠ a)) = true := fun b hb =>
    decide_eq_true fun heq => h (heq ▸ hb)
  rw [splitOnce, List.dropWhile_append_of_pos hne, List.takeWhile_append_of_pos hne]
  simp

theorem mem_intercalate {sep : List α} {ls : List (List α)} (h : a ∈ sep.intercalate ls) :
    a ∈ sep ∨ ∃ l ∈ ls, a ∈ l := by
  induction ls with
  | nil => simp at h
  | cons l ls ih =>
    cases ls with
    | nil => exact .inr ⟨l, List.mem_cons_self .., by simpa using h⟩
    | cons m ls =>
      rw [List.intercalate_cons_cons, List.mem_append, List.mem_append] at h
      rcases h with (h | h) | h
      · exact .inr ⟨l, List.mem_cons_self .., h⟩
      · exact .inl h
      · rcases ih h with h | ⟨k, hk, h⟩
        · exact .inl h
        · exact .inr ⟨k, List.mem_cons_of_mem _ hk, h⟩

theorem bind_eq_ok_iff {x : Except ε α} {b : β} :
    x >>= f = .ok b ↔ ∃ a, x = .ok a ∧ f a = .ok b := by
  cases x with
  | error e => exact ⟨fun h => (by cases h), fun ⟨a, ha, _⟩ => (by cases ha)⟩
  | ok a =>
    constructor
    · intro h
      exact ⟨a, rfl, h⟩
    · rintro ⟨a', ha, h⟩
      cases ha
      exact h

theorem toOption_eq_some_iff {ε : Type} {x : Except ε α} : x.toOption = some a ↔ x = .ok a := by
  cases x with
  | error e => exact ⟨fun h => (by cases h), fun h => (by cases h)⟩
  | ok b => exact ⟨fun h => congrArg _ (Option.some.inj h), fun h => congrArg _ (Except.ok.inj h)⟩

theorem mapM_eq_ok_iff {r : List β} :
    l.mapM f = .ok r ↔ List.Forall₂ (fun a b => f a = .ok b) l r := by
  induction l generalizing r with
  | nil =>
    rw [List.mapM_nil, List.forall₂_nil_left_iff]
    exact ⟨fun h => (Except.ok.inj h).symm, fun h => congrArg Except.ok h.symm⟩
  | cons a l ih =>
    rw [List.mapM_cons, List.forall₂_cons_left_iff]
    cases ha : f a with
    | error e => simp [bind, Except.bind]
    | ok b =>
      cases hl : l.mapM f with
      | error e =>
        have hnone : ∀ r, ¬List.Forall₂ (fun a b => f a = .ok b) l r := fun r h => by
          cases (ih.2 h).symm.trans hl
        simp [bind, Except.bind, hnone]
      | ok bs =>
        have hrest := ih.1 hl
        constructor
        · intro h
          cases h
          exact ⟨b, bs, rfl, hrest, rfl⟩
        · rintro ⟨b', bs', hb, hbs, rfl⟩
          cases hb
          cases (ih.2 hbs).symm.trans hl
          rfl

theorem exists_of_mapM_eq_ok {r : List β} (h : l.mapM f = .ok r) {b : β} (hb : b ∈ r) :
    ∃ a ∈ l, f a = .ok b := by
  rw [mapM_eq_ok_iff] at h
  induction h with
  | nil => cases hb
  | cons hhead _ ih =>
    rcases List.mem_cons.1 hb with rfl | hb
    · exact ⟨_, List.mem_cons_self .., hhead⟩
    · obtain ⟨a, ha, hab⟩ := ih hb
      exact ⟨a, List.mem_cons_of_mem _ ha, hab⟩

theorem map_inj_on {β : Type} {f : α → β} {l m : List α}
    (hf : ∀ a ∈ l, ∀ b ∈ m, f a = f b → a = b) (h : l.map f = m.map f) : l = m := by
  induction l generalizing m with
  | nil => exact (List.map_eq_nil_iff.1 h.symm).symm
  | cons a l ih =>
    cases m with
    | nil => cases h
    | cons b m =>
      obtain ⟨hhead, hrest⟩ := List.cons.inj h
      have hab := hf a (List.mem_cons_self ..) b (List.mem_cons_self ..) hhead
      have hlm := ih (fun x hx y hy => hf x (List.mem_cons_of_mem _ hx) y (List.mem_cons_of_mem _ hy))
        hrest
      rw [hab, hlm]

end Sush.Lib
