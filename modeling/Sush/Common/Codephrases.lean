import Sush.Common.Wordlist
import Sush.World

/-!
# Code phrases

`common/src/codephrases.rs`. A code phrase is a number of 256 bits that people read as words: its
digits to the base of 2048, most significant first. Programs read it as 32 bytes. Identifiers and
nonces are phrases of 88 bits and session sequence numbers phrases of 44, and a wider phrase is refused
where one of them is expected. Reading a printed phrase gives back the number (`fromStr_display`).

`Phrases` says that the identifiers of `World` are such phrases, and that a baseboard is a part number
and a serial number. The parser of baseboards is not part of the repository and is a parameter.
-/

namespace Sush

/-- A code phrase. -/
abbrev Codephrase : Type := Fin (2 ^ 256)

/-- More words than this encode nothing. -/
def phraseWords256 : ℕ := 24

/-! ## Words -/

namespace Wordlist

variable (W : Wordlist)

/-- The word at an index. -/
def word (i : ℕ) : String := W.words.getD i ""

/-- The index of a word. -/
def index (word : List UInt8) : Option ℕ := Lib.binarySearch (W.words.map Lib.utf8) word

/-- The words of a number. -/
def phrase (n : ℕ) : List String :=
  if n = 0 then [] else phrase (n / 2048) ++ [W.word (n % 2048)]

/-- Text as words: letters lowered, split at hyphens and whitespace. -/
def splitWords (s : String) : List (List UInt8) :=
  let bytes := ((Lib.utf8 s).map asciiLower).map fun b => if b = 45 then 32 else b
  (bytes.splitOnP isAsciiWhitespace).filter (· ≠ [])

variable {W}

theorem word_mem {i : ℕ} (hi : i < 2048) : W.word i ∈ W.words := by
  have hlen : i < W.words.length := by rw [W.length_words]; exact hi
  rw [word, List.getD_eq_getElem _ _ hlen]
  exact List.getElem_mem hlen

theorem index_word {i : ℕ} (hi : i < 2048) : W.index (Lib.utf8 (W.word i)) = some i := by
  have hlen : i < (W.words.map Lib.utf8).length := by
    rw [List.length_map, W.length_words]
    exact hi
  have hget : Lib.utf8 (W.word i) = (W.words.map Lib.utf8)[i] := by
    rw [word, List.getD_eq_getElem _ _ (by simpa using hlen), List.getElem_map]
  rw [index, hget]
  exact Lib.binarySearch_getElem W.sorted hlen

theorem phrase_subset (n : ℕ) : ∀ w ∈ W.phrase n, w ∈ W.words := by
  fun_induction phrase W n with
  | case1 => simp
  | case2 n _ ih =>
    intro w hw
    rcases List.mem_append.1 hw with hw | hw
    · exact ih w hw
    · rw [List.mem_singleton.1 hw]
      exact word_mem (Nat.mod_lt _ (by decide))

theorem length_phrase_le {n k : ℕ} (h : n < 2048 ^ k) : (W.phrase n).length ≤ k := by
  fun_induction phrase W n generalizing k with
  | case1 => simp
  | case2 n hn ih =>
    cases k with
    | zero => exact absurd (Nat.lt_one_iff.1 h) hn
    | succ k =>
      have hdiv : n / 2048 < 2048 ^ k := Nat.div_lt_of_lt_mul (by rwa [pow_succ, mul_comm] at h)
      simpa using ih hdiv

theorem splitWords_intercalate {ws : List String} (hws : ∀ w ∈ ws, w ∈ W.words) :
    splitWords ("-".intercalate ws) = ws.map Lib.utf8 := by
  have hhyphen : Lib.utf8 "-" = [45] := by decide
  -- lowering and replacing act on the separators only
  have hword : ∀ w ∈ W.words,
      ((Lib.utf8 w).map asciiLower).map (fun b => if b = 45 then 32 else b) = Lib.utf8 w := by
    intro w hw
    rw [List.map_map]
    refine List.map_congr_left (fun b hb => ?_) |>.trans (List.map_id _)
    simp [W.lowercase w hw b hb, (W.unseparated w hw b hb).1]
  simp only [splitWords, Lib.utf8_intercalate, hhyphen]
  induction ws with
  | nil => decide
  | cons w ws ih =>
    have hw := hws w (List.mem_cons_self ..)
    have hrest := ih fun v hv => hws v (List.mem_cons_of_mem _ hv)
    have hplain : ∀ b ∈ Lib.utf8 w, isAsciiWhitespace b = false :=
      fun b hb => (W.unseparated w hw b hb).2
    cases ws with
    | nil =>
      simp only [List.map_cons, List.map_nil, List.intercalate_singleton, hword w hw]
      rw [List.splitOnP_eq_singleton hplain]
      simp [W.nonempty w hw]
    | cons v ws =>
      simp only [List.map_cons] at hrest ⊢
      rw [List.intercalate_cons_cons, List.append_assoc, List.map_append, List.map_append,
        hword w hw, List.singleton_append, List.map_cons, List.map_cons]
      rw [List.splitOnP_append_cons_of_forall_mem hplain _ (by decide)]
      rw [List.filter_cons_of_pos (by simpa using W.nonempty w hw), hrest]

end Wordlist

/-! ## Text -/

namespace Codephrase

variable (W : Wordlist)

/-- `n` as 256 bits, if it fits. -/
def checked (n : ℕ) : Option Codephrase := if h : n < 2 ^ 256 then some ⟨n, h⟩ else none

/-- The words of a phrase, joined by hyphens. -/
def display (c : Codephrase) : String := "-".intercalate (W.phrase c.val)

/-- One turn of the decoding loop: the number so far and how many words it came from. -/
def decodeWord (state : Codephrase × ℕ) (word : List UInt8) : Option (Codephrase × ℕ) :=
  let words := state.2 + 1
  if words > phraseWords256 then none
  else do
    let r ← W.index word
    let n ← checked (state.1.val * 2048)
    let n ← checked (n.val + r)
    return (n, words)

def fromStr (s : String) : Option Codephrase :=
  ((Wordlist.splitWords s).foldlM (decodeWord W) (0, 0)).map Prod.fst

variable {W}

theorem checked_of_lt {n : ℕ} (h : n < 2 ^ 256) : checked n = some ⟨n, h⟩ := dif_pos h

/-- The loop reads the words of `n` as `n`. -/
theorem foldlM_phrase {n : ℕ} (hn : n < 2 ^ 256) (hlen : (W.phrase n).length ≤ phraseWords256) :
    ((W.phrase n).map Lib.utf8).foldlM (decodeWord W) (0, 0) =
      some (⟨n, hn⟩, (W.phrase n).length) := by
  fun_induction Wordlist.phrase W n with
  | case1 => rfl
  | case2 n hzero ih =>
    have hdiv : n / 2048 ≤ n := Nat.div_le_self n 2048
    have hmul : n / 2048 * 2048 ≤ n := Nat.div_mul_le_self n 2048
    have hsum : n / 2048 * 2048 + n % 2048 = n := by omega
    rw [List.length_append, List.length_singleton] at hlen ⊢
    rw [List.map_append, List.foldlM_append, ih (by omega) (by omega)]
    have hindex := Wordlist.index_word (W := W) (Nat.mod_lt n (by decide : 0 < 2048))
    have hstep : decodeWord W (⟨n / 2048, by omega⟩, (W.phrase (n / 2048)).length)
        (Lib.utf8 (W.word (n % 2048))) = some (⟨n, hn⟩, (W.phrase (n / 2048)).length + 1) := by
      simp only [decodeWord]
      rw [if_neg (by omega), hindex]
      simp only [Option.bind_eq_bind, Option.bind_some]
      rw [checked_of_lt (by omega)]
      simp only [Option.bind_some, hsum]
      rw [checked_of_lt hn]
      rfl
    simp [hstep]

theorem fromStr_display (c : Codephrase) : fromStr W (display W c) = some c := by
  have hlen : (W.phrase c.val).length ≤ phraseWords256 :=
    Wordlist.length_phrase_le (lt_of_lt_of_le c.isLt (by decide))
  rw [fromStr, display, Wordlist.splitWords_intercalate (Wordlist.phrase_subset c.val),
    foldlM_phrase c.isLt hlen]
  rfl

end Codephrase

/-! ## Phrases of fixed width -/

/-- `CodephraseLength::canonical`: the low `bits` bits. -/
def canonical (bits n : ℕ) : Fin (2 ^ bits) := ⟨n % 2 ^ bits, Nat.mod_lt _ (Nat.two_pow_pos bits)⟩

/-- A phrase of `bits` bits from one of 256, if it is not wider. -/
def tryFrom (bits : ℕ) (c : Codephrase) : Option (Fin (2 ^ bits)) :=
  if (canonical bits c.val).val = c.val then some (canonical bits c.val) else none

/-- A narrow phrase among all of them. -/
def widen {bits : ℕ} (p : Fin (2 ^ bits)) (h : bits ≤ 256) : Codephrase :=
  ⟨p.val, lt_of_lt_of_le p.isLt (Nat.pow_le_pow_right two_pos h)⟩

/-- The bytes of a phrase, most significant first. -/
def toBeBytes {bits : ℕ} (p : Fin (2 ^ bits)) : List UInt8 := Lib.bigEndian 32 p.val

theorem tryFrom_widen {bits : ℕ} (p : Fin (2 ^ bits)) (h : bits ≤ 256) :
    tryFrom bits (widen p h) = some p := by
  have hval : (canonical bits p.val).val = p.val := Nat.mod_eq_of_lt p.isLt
  rw [tryFrom, widen, if_pos hval]
  exact congrArg some (Fin.ext hval)

@[simp] theorem length_toBeBytes {bits : ℕ} (p : Fin (2 ^ bits)) : (toBeBytes p).length = 32 :=
  Lib.length_bigEndian 32 p.val

theorem lt_of_bits {bits : ℕ} (p : Fin (2 ^ bits)) (h : bits ≤ 256) : p.val < 256 ^ 32 :=
  lt_of_lt_of_le p.isLt (by simpa using Nat.pow_le_pow_right two_pos h)

theorem ofBigEndian_toBeBytes {bits : ℕ} (p : Fin (2 ^ bits)) (h : bits ≤ 256) :
    Lib.ofBigEndian (toBeBytes p) = p.val :=
  Lib.ofBigEndian_bigEndian_of_lt (lt_of_bits p h)

theorem toBeBytes_inj {bits : ℕ} (h : bits ≤ 256) {p q : Fin (2 ^ bits)} :
    toBeBytes p = toBeBytes q ↔ p = q := by
  rw [toBeBytes, toBeBytes, Lib.bigEndian_inj (lt_of_bits p h) (lt_of_bits q h), Fin.ext_iff]

/-! ## Identifiers -/

/-- The identifiers of `World` as the phrases they are, and baseboards as part and serial number. -/
class Phrases [World] where
  keyId : KeyId ≃ Fin (2 ^ 88)
  sessionId : SessionId ≃ Fin (2 ^ 88)
  jobId : JobId ≃ Fin (2 ^ 88)
  /-- The part number and the serial number of a baseboard. -/
  baseboardId : BaseboardId ≃ String × String
  /-- `BaseboardId::from_str`. -/
  parseBaseboardId : String → Option BaseboardId
  /-- The text of a baseboard. -/
  displayBaseboardId : BaseboardId → String
  /-- It is neither a number nor a `*`. -/
  colon_mem : ∀ b, ':' ∈ (displayBaseboardId b).toList

export Phrases (parseBaseboardId displayBaseboardId)

variable [World] [Phrases]

/-- The bytes of a key identifier. -/
def keyIdBytes (k : KeyId) : List UInt8 := toBeBytes (Phrases.keyId k)

/-- The bytes of a session identifier. -/
def sessionIdBytes (s : SessionId) : List UInt8 := toBeBytes (Phrases.sessionId s)

/-- The bytes of a job identifier. -/
def jobIdBytes (j : JobId) : List UInt8 := toBeBytes (Phrases.jobId j)

theorem keyIdBytes_inj {j k : KeyId} : keyIdBytes j = keyIdBytes k ↔ j = k := by
  rw [keyIdBytes, keyIdBytes, toBeBytes_inj (by decide), EmbeddingLike.apply_eq_iff_eq]

theorem sessionIdBytes_inj {s t : SessionId} : sessionIdBytes s = sessionIdBytes t ↔ s = t := by
  rw [sessionIdBytes, sessionIdBytes, toBeBytes_inj (by decide), EmbeddingLike.apply_eq_iff_eq]

theorem jobIdBytes_inj {j k : JobId} : jobIdBytes j = jobIdBytes k ↔ j = k := by
  rw [jobIdBytes, jobIdBytes, toBeBytes_inj (by decide), EmbeddingLike.apply_eq_iff_eq]

end Sush
