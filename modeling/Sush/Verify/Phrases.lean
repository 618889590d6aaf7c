import Mathlib.Data.Nat.Digits.Defs
import Sush.Common.Codephrases

/-!
# The grammar of code phrases

`Codephrase::from_str` is liberal: it lowers ASCII letters, reads hyphens as spaces and skips leading
zeros. What it accepts is still exact. The words of a text have a value to the base of 2048
(`Wordlist.value`), and a text is read when it has at most 24 words, all of them of the list, and a
value of 256 bits; then it is read as the value (`Codephrase.fromStr_eq_some_iff`). The loop checks for
an overflow at every word, and it finds one only if the whole value overflows, since a value only grows
with the words after it (`foldlM_decodeWord_iff`).
-/

namespace Sush

namespace Wordlist

variable (W : Wordlist)

def entries : List (List UInt8) := W.words.map Lib.utf8

/-- The value of a sequence of words to the base of 2048, most significant first. -/
def value (ws : List (List UInt8)) : ℕ := Nat.ofDigits 2048 (ws.map W.entries.idxOf).reverse

variable {W}

theorem nodup_entries : W.entries.Nodup :=
  W.sorted.imp fun hlt heq => by
    subst heq
    exact absurd hlt (List.lt_irrefl _)

@[simp] theorem value_nil : W.value [] = 0 := rfl

theorem value_cons (w : List UInt8) (ws : List (List UInt8)) :
    W.value (w :: ws) = W.entries.idxOf w * 2048 ^ ws.length + W.value ws := by
  rw [value, List.map_cons, List.reverse_cons, Nat.ofDigits_append, Nat.ofDigits_singleton,
    List.length_reverse, List.length_map, value]
  ring

theorem index_eq_some_iff {w : List UInt8} {i : ℕ} :
    W.index w = some i ↔ w ∈ W.entries ∧ W.entries.idxOf w = i := by
  constructor
  · intro h
    obtain ⟨hi, hget⟩ := List.getElem?_eq_some_iff.1 (Lib.binarySearch_eq_some h)
    subst hget
    exact ⟨List.getElem_mem hi, nodup_entries.idxOf_getElem i hi⟩
  · rintro ⟨hmem, rfl⟩
    have hlt := List.idxOf_lt_length_iff.2 hmem
    calc W.index w = Lib.binarySearch W.entries W.entries[W.entries.idxOf w] := by
          rw [List.getElem_idxOf hlt, index, entries]
      _ = some (W.entries.idxOf w) := Lib.binarySearch_getElem W.sorted hlt

end Wordlist

namespace Codephrase

variable {W : Wordlist}

theorem checked_eq_some_iff {n : ℕ} {c : Codephrase} : checked n = some c ↔ c.val = n := by
  unfold checked
  split
  case isTrue h => rw [Option.some.injEq, Fin.ext_iff, eq_comm]
  case isFalse h => exact ⟨fun hnone => (by cases hnone), fun heq => absurd (heq ▸ c.isLt) h⟩

theorem decodeWord_eq_some_iff {n m : Codephrase} {k j : ℕ} {w : List UInt8} :
    decodeWord W (n, k) w = some (m, j) ↔
      k + 1 ≤ phraseWords256 ∧ w ∈ W.entries ∧
        m.val = n.val * 2048 + W.entries.idxOf w ∧ j = k + 1 := by
  unfold decodeWord
  dsimp only
  by_cases hk : k + 1 > phraseWords256
  · rw [if_pos hk]
    exact ⟨fun h => (by cases h), fun h => absurd h.1 (by omega)⟩
  rw [if_neg hk]
  simp only [bind, Option.bind_eq_some_iff, Wordlist.index_eq_some_iff, checked_eq_some_iff, pure,
    Option.some.injEq, Prod.mk.injEq]
  constructor
  · rintro ⟨i, ⟨hmem, rfl⟩, p, hp, q, hq, rfl, rfl⟩
    exact ⟨by omega, hmem, by rw [hq, hp], rfl⟩
  · rintro ⟨-, hmem, hval, rfl⟩
    -- the product fits because the sum does
    have hmul : n.val * 2048 < 2 ^ 256 := by
      have := m.isLt
      omega
    exact ⟨_, ⟨hmem, rfl⟩, ⟨_, hmul⟩, rfl, m, hval, rfl, rfl⟩

/-- The loop goes through the words when they are known and not too many and the value of all of them
fits: no check on the way fails that the last one would pass. -/
theorem foldlM_decodeWord_iff {ws : List (List UInt8)} {n m : Codephrase} {k j : ℕ}
    (hk : k ≤ phraseWords256) :
    ws.foldlM (decodeWord W) (n, k) = some (m, j) ↔
      k + ws.length ≤ phraseWords256 ∧ (∀ w ∈ ws, w ∈ W.entries) ∧
        m.val = n.val * 2048 ^ ws.length + W.value ws ∧ j = k + ws.length := by
  induction ws generalizing n k with
  | nil =>
    simp only [List.foldlM_nil, pure, Option.some.injEq, Prod.mk.injEq, List.length_nil, pow_zero,
      mul_one, Wordlist.value_nil, add_zero, List.not_mem_nil, false_implies, implies_true, true_and,
      Fin.ext_iff]
    exact ⟨fun ⟨hval, hj⟩ => ⟨hk, hval.symm, hj.symm⟩, fun ⟨_, hval, hj⟩ => ⟨hval.symm, hj.symm⟩⟩
  | cons w ws ih =>
    rw [List.foldlM_cons, Option.bind_eq_bind, Option.bind_eq_some_iff, List.length_cons,
      Wordlist.value_cons]
    constructor
    · rintro ⟨⟨p, i⟩, hstep, hrest⟩
      obtain ⟨hle, hmem, hp, rfl⟩ := decodeWord_eq_some_iff.1 hstep
      obtain ⟨hlen, hall, hval, hj⟩ := (ih hle).1 hrest
      refine ⟨by omega, ?_, ?_, by omega⟩
      · rintro v hv
        rcases List.mem_cons.1 hv with rfl | hv
        · exact hmem
        · exact hall v hv
      · rw [hval, hp]
        ring
    · rintro ⟨hlen, hall, hval, hj⟩
      have hmem := hall w (List.mem_cons_self ..)
      have hvalue : m.val =
          (n.val * 2048 + W.entries.idxOf w) * 2048 ^ ws.length + W.value ws := by
        rw [hval]
        ring
      -- the digits read so far are at most the whole value
      have hfits : n.val * 2048 + W.entries.idxOf w < 2 ^ 256 := by
        have hgrow := Nat.le_mul_of_pos_right (n.val * 2048 + W.entries.idxOf w)
          (Nat.pow_pos (n := ws.length) (by decide : 0 < 2048))
        have := m.isLt
        omega
      refine ⟨(⟨_, hfits⟩, k + 1), decodeWord_eq_some_iff.2 ⟨by omega, hmem, rfl, rfl⟩, ?_⟩
      exact (ih (by omega)).2
        ⟨by omega, fun v hv => hall v (List.mem_cons_of_mem _ hv), hvalue, by omega⟩

theorem fromStr_eq_some_iff {s : String} {c : Codephrase} :
    fromStr W s = some c ↔
      (Wordlist.splitWords s).length ≤ phraseWords256 ∧
        (∀ w ∈ Wordlist.splitWords s, w ∈ W.entries) ∧
          W.value (Wordlist.splitWords s) = c.val := by
  rw [fromStr, Option.map_eq_some_iff]
  constructor
  · rintro ⟨⟨m, j⟩, hfold, rfl⟩
    obtain ⟨hlen, hall, hval, -⟩ := (foldlM_decodeWord_iff (Nat.zero_le _)).1 hfold
    exact ⟨by omega, hall, by simpa using hval.symm⟩
  · rintro ⟨hlen, hall, hval⟩
    refine ⟨(c, _), (foldlM_decodeWord_iff (Nat.zero_le _)).2 ⟨by omega, hall, ?_, rfl⟩, rfl⟩
    simpa using hval.symm

theorem display_injective : Function.Injective (display W) := fun c d h =>
  Option.some.inj ((fromStr_display c).symm.trans ((congrArg (fromStr W) h).trans (fromStr_display d)))

theorem length_splitWords_display (c : Codephrase) :
    (Wordlist.splitWords (display W c)).length ≤ phraseWords256 :=
  (fromStr_eq_some_iff.1 (fromStr_display c)).1

/-- Code phrases over any word list are printed in at most 24 words, read back, and told apart; a text
is read as the value of its words if they are at most 24 words of the list with a value below `2 ^ 256`,
and is refused for one of the three reasons otherwise. -/
theorem grammar (W : Wordlist) :
    (∀ c : Codephrase, (Wordlist.splitWords (display W c)).length ≤ 24 ∧
      fromStr W (display W c) = some c) ∧
    Function.Injective (display W) ∧
    (∀ (s : String) (c : Codephrase), fromStr W s = some c ↔
      (Wordlist.splitWords s).length ≤ 24 ∧ (∀ w ∈ Wordlist.splitWords s, w ∈ W.words.map Lib.utf8) ∧
        W.value (Wordlist.splitWords s) = c.val) ∧
    ∀ s : String, fromStr W s = none ↔
      24 < (Wordlist.splitWords s).length ∨ (∃ w ∈ Wordlist.splitWords s, w ∉ W.words.map Lib.utf8) ∨
        2 ^ 256 ≤ W.value (Wordlist.splitWords s) := by
  refine ⟨fun c => ⟨length_splitWords_display c, fromStr_display c⟩, display_injective,
    fun s c => fromStr_eq_some_iff, fun s => ?_⟩
  constructor
  · intro hnone
    by_contra hgood
    simp only [not_or, not_exists, not_and, not_not, not_lt, not_le] at hgood
    obtain ⟨hlen, hall, hfits⟩ := hgood
    have hread := fromStr_eq_some_iff.2 ⟨hlen, hall, show _ = (⟨_, hfits⟩ : Codephrase).val from rfl⟩
    rw [hnone] at hread
    cases hread
  · intro hbad
    cases hread : fromStr W s with
    | none => rfl
    | some c =>
      obtain ⟨hlen, hall, hval⟩ := fromStr_eq_some_iff.1 hread
      rcases hbad with hmany | ⟨w, hw, hunknown⟩ | hwide
      · exact absurd hmany (Nat.not_lt.2 hlen)
      · exact absurd (hall w hw) hunknown
      · exact absurd hwide (Nat.not_le.2 (hval ▸ c.isLt))

end Codephrase

end Sush
