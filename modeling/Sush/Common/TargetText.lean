import Sush.Common.Codephrases
import Sush.Common.Targets
import Sush.Lib.Text

/-!
# Targets as text

`common/src/targets.rs`: `*` names every sled, and a list of baseboards and cubby numbers separated by
commas names some. Whitespace around an item is dropped, and a cubby number may have leading zeros, so
many texts parse to one target; the text it prints as is one of them (`Target.fromStr_display`).

How a baseboard is parsed and printed is not part of the repository. `Phrases` asks for a colon in its
text; what else the results need of it is `BaseboardText`.
-/

namespace Sush

/-! ## Characters -/

/-- `char::is_whitespace`: the Unicode property `White_Space`. -/
def isWhitespace (c : Char) : Bool :=
  let n := c.toNat
  9 ≤ n && n ≤ 13 || n = 0x20 || n = 0x85 || n = 0xA0 || n = 0x1680 || 0x2000 ≤ n && n ≤ 0x200A ||
    n = 0x2028 || n = 0x2029 || n = 0x202F || n = 0x205F || n = 0x3000

def trim (s : List Char) : List Char := Lib.trim isWhitespace s

/-- The highest cubby number in a rack. -/
def maxCubby : Cubby := 31

/-- A target failed to parse: the text of the sled that did. -/
structure InvalidTarget where
  text : String
  deriving DecidableEq

/-- Whether a text is digits and at least one of them. -/
def isDigits (s : List Char) : Bool := !s.isEmpty && s.all Char.isDigit

/-- The byte that a text of digits writes. -/
def parseByte (s : List Char) : Option Cubby :=
  let n := Nat.ofDigitChars 10 s 0
  if h : n < 256 then some ⟨n, h⟩ else none

theorem parseByte_toString (c : Cubby) :
    isDigits (toString c.val).toList ∧ parseByte (toString c.val).toList = some c := by
  revert c
  decide +kernel

theorem plain_of_isDigit {c : Char} (h : c.isDigit) :
    isWhitespace c = false ∧ c ≠ ',' ∧ c ≠ '*' := by
  obtain ⟨hlow, hhigh⟩ : 48 ≤ c.toNat ∧ c.toNat ≤ 57 := by
    simpa [Char.isDigit, UInt32.le_iff_toNat_le] using h
  have hne : ∀ d : Char, d.toNat < 48 → c ≠ d := by
    rintro d hd rfl
    omega
  refine ⟨?_, hne ',' (by decide), hne '*' (by decide)⟩
  simp only [isWhitespace, Bool.or_eq_false_iff, Bool.and_eq_false_iff, decide_eq_false_iff_not]
  omega

theorem plain_cubby (c : Cubby) :
    ∀ d ∈ (toString c.val).toList, isWhitespace d = false ∧ d ≠ ',' := by
  intro d hd
  have hdigits := (Bool.and_eq_true_iff.1 (parseByte_toString c).1).2
  have hplain := plain_of_isDigit (List.all_eq_true.1 hdigits d hd)
  exact ⟨hplain.1, hplain.2.1⟩

/-! ## Parsing and printing -/

variable [World] [Phrases]

namespace SledId

def fromStr (s : String) : Except InvalidTarget SledId :=
  let parsed :=
    if isDigits s.toList then ((parseByte s.toList).filter (· ≤ maxCubby)).map cubby
    else (parseBaseboardId s).map baseboard
  match parsed with
  | some sled => .ok sled
  | none => .error ⟨s⟩

/-- The text of a sled. -/
def display : SledId → String
  | baseboard b => displayBaseboardId b
  | cubby c => toString c.val

/-- A sled that some text parses to. -/
def Parsed (sled : SledId) : Prop := ∃ s, fromStr s = .ok sled

end SledId

namespace Target

def fromStr (s : String) : Except InvalidTarget Target :=
  if trim s.toList = ['*'] then .ok all
  else (s.toList.splitOn ',').mapM (fun sled => SledId.fromStr (String.ofList (trim sled)))
    |>.map sleds

/-- The text of a target. -/
def display : Target → String
  | all => "*"
  | sleds ids => ",".intercalate (ids.map SledId.display)

/-- A target that some text parses to. -/
def Parsed (target : Target) : Prop := ∃ s, fromStr s = .ok target

end Target

/-- What parsed baseboards are assumed to print as: a text without a comma, without whitespace around
it, and that parses to the same baseboard. -/
structure BaseboardText : Prop where
  comma_free : ∀ s (b : BaseboardId), parseBaseboardId s = some b → ',' ∉ (displayBaseboardId b).toList
  trimmed : ∀ s (b : BaseboardId), parseBaseboardId s = some b →
    trim (displayBaseboardId b).toList = (displayBaseboardId b).toList
  reparses : ∀ s (b : BaseboardId), parseBaseboardId s = some b →
    parseBaseboardId (displayBaseboardId b) = some b

/-! ## Sleds -/

namespace SledId

/-- What a text that parses to a sled is: a cubby number in range, or a baseboard. -/
theorem fromStr_eq_ok_iff {s : String} {sled : SledId} :
    fromStr s = .ok sled ↔
      (isDigits s.toList ∧ ∃ c ≤ maxCubby, parseByte s.toList = some c ∧ sled = cubby c) ∨
        (¬isDigits s.toList ∧ ∃ b, parseBaseboardId s = some b ∧ sled = baseboard b) := by
  unfold fromStr
  by_cases hdigits : isDigits s.toList
  · cases hbyte : parseByte s.toList with
    | none => simp [hdigits]
    | some c =>
      by_cases hc : c ≤ maxCubby
      · simp [hdigits, Option.filter, hc, eq_comm]
      · simp [hdigits, Option.filter, hc]
  · cases hparse : parseBaseboardId s with
    | none => simp [hdigits]
    | some b => simp [hdigits, eq_comm]

theorem Parsed.cubby_le {c : Cubby} (h : Parsed (cubby c)) : c ≤ maxCubby := by
  obtain ⟨s, hs⟩ := h
  rcases fromStr_eq_ok_iff.1 hs with ⟨-, c', hle, -, heq⟩ | ⟨-, b, -, heq⟩
  · cases heq
    exact hle
  · cases heq

theorem Parsed.baseboard_parses {b : BaseboardId} (h : Parsed (baseboard b)) :
    ∃ s, parseBaseboardId s = some b := by
  obtain ⟨s, hs⟩ := h
  rcases fromStr_eq_ok_iff.1 hs with ⟨-, c, -, -, heq⟩ | ⟨-, b', hparse, heq⟩
  · cases heq
  · cases heq
    exact ⟨s, hparse⟩

/-- A baseboard's text is not a number: it has a colon. -/
theorem not_isDigits_baseboard (b : BaseboardId) : ¬isDigits (displayBaseboardId b).toList := by
  intro h
  have hall := List.all_eq_true.1 (Bool.and_eq_true_iff.1 h).2
  exact absurd (hall _ (Phrases.colon_mem b)) (by decide)

theorem exists_mem_display (sled : SledId) :
    ∃ c ∈ sled.display.toList, (c.isDigit ∨ c = ':') := by
  cases sled with
  | baseboard b => exact ⟨':', Phrases.colon_mem b, .inr rfl⟩
  | cubby c =>
    have hdigits := Bool.and_eq_true_iff.1 (parseByte_toString c).1
    have hne : (toString c.val).toList ≠ [] := by simp
    obtain ⟨d, hd⟩ := List.exists_mem_of_ne_nil _ hne
    exact ⟨d, hd, .inl (List.all_eq_true.1 hdigits.2 d hd)⟩

theorem comma_not_mem {sled : SledId} (hsled : sled.Parsed)
    (hcomma : ∀ s (b : BaseboardId), parseBaseboardId s = some b →
      ',' ∉ (displayBaseboardId b).toList) : ',' ∉ sled.display.toList := by
  cases sled with
  | baseboard b =>
    obtain ⟨s, hs⟩ := hsled.baseboard_parses
    exact hcomma s b hs
  | cubby c =>
    intro hmem
    exact (plain_cubby c ',' hmem).2 rfl

theorem display_inj {a b : SledId} (ha : a.Parsed) (hb : b.Parsed)
    (hinj : ∀ s t (x y : BaseboardId), parseBaseboardId s = some x → parseBaseboardId t = some y →
      displayBaseboardId x = displayBaseboardId y → x = y)
    (h : a.display = b.display) : a = b := by
  cases a with
  | baseboard x =>
    cases b with
    | baseboard y =>
      obtain ⟨s, hs⟩ := ha.baseboard_parses
      obtain ⟨t, ht⟩ := hb.baseboard_parses
      rw [hinj s t x y hs ht h]
    | cubby d =>
      have h : displayBaseboardId x = toString d.val := h
      exact absurd (h ▸ (parseByte_toString d).1) (not_isDigits_baseboard x)
  | cubby c =>
    cases b with
    | baseboard y =>
      have h : toString c.val = displayBaseboardId y := h
      exact absurd (h ▸ (parseByte_toString c).1) (not_isDigits_baseboard y)
    | cubby d =>
      have h : toString c.val = toString d.val := h
      have hc := (parseByte_toString c).2
      rw [h, (parseByte_toString d).2] at hc
      rw [Option.some.inj hc]

theorem trim_display {sled : SledId} (hsled : sled.Parsed) (hbase : BaseboardText) :
    trim sled.display.toList = sled.display.toList := by
  cases sled with
  | baseboard b =>
    obtain ⟨s, hs⟩ := hsled.baseboard_parses
    exact hbase.trimmed s b hs
  | cubby c => exact Lib.trim_eq_self fun d hd => (plain_cubby c d hd).1

theorem fromStr_display {sled : SledId} (hsled : sled.Parsed) (hbase : BaseboardText) :
    fromStr sled.display = .ok sled := by
  cases sled with
  | baseboard b =>
    obtain ⟨s, hs⟩ := hsled.baseboard_parses
    exact fromStr_eq_ok_iff.2 (.inr ⟨not_isDigits_baseboard b, b, hbase.reparses s b hs, rfl⟩)
  | cubby c =>
    have hbyte := parseByte_toString c
    exact fromStr_eq_ok_iff.2 (.inl ⟨hbyte.1, c, hsled.cubby_le, hbyte.2, rfl⟩)

end SledId

/-! ## Targets -/

namespace Target

theorem parsed_sleds {ids : List SledId} (h : Parsed (sleds ids)) :
    ids ≠ [] ∧ ∀ sled ∈ ids, sled.Parsed := by
  obtain ⟨s, hs⟩ := h
  unfold fromStr at hs
  split at hs
  · cases hs
  cases hparts : (s.toList.splitOn ',').mapM
      (fun sled => SledId.fromStr (String.ofList (trim sled))) with
  | error e =>
    rw [hparts] at hs
    cases hs
  | ok parsed =>
    rw [hparts] at hs
    cases hs
    have hall := Lib.mapM_eq_ok_iff.1 hparts
    refine ⟨?_, fun sled hsled => ?_⟩
    · rintro rfl
      exact List.splitOn_ne_nil _ _ (List.forall₂_nil_right_iff.1 hall)
    · obtain ⟨part, -, hpart⟩ := Lib.exists_of_mapM_eq_ok hparts hsled
      exact ⟨_, hpart⟩

theorem toList_display (ids : List SledId) :
    (display (sleds ids)).toList = [','].intercalate (ids.map fun sled => sled.display.toList) := by
  simp [display, String.toList_intercalate, Function.comp_def]

theorem trim_display_ne {ids : List SledId} (hne : ids ≠ []) :
    trim (display (sleds ids)).toList ≠ ['*'] := by
  intro h
  obtain ⟨sled, rest, rfl⟩ := List.exists_cons_of_ne_nil hne
  obtain ⟨c, hc, hkind⟩ := sled.exists_mem_display
  have hplain : isWhitespace c = false ∧ c ≠ '*' := by
    rcases hkind with hdigit | rfl
    · exact ⟨(plain_of_isDigit hdigit).1, (plain_of_isDigit hdigit).2.2⟩
    · decide
  have hmem : c ∈ (display (sleds (sled :: rest))).toList := by
    rw [toList_display]
    cases rest with
    | nil => simpa using hc
    | cons sled' rest => simp [List.intercalate_cons_cons, hc]
  have hstar : c ∈ trim (display (sleds (sled :: rest))).toList := Lib.mem_trim hmem hplain.1
  rw [h] at hstar
  exact hplain.2 (List.mem_singleton.1 hstar)

theorem splitOn_display {ids : List SledId} (hids : Parsed (sleds ids))
    (hcomma : ∀ s (b : BaseboardId), parseBaseboardId s = some b →
      ',' ∉ (displayBaseboardId b).toList) :
    (display (sleds ids)).toList.splitOn ',' = ids.map fun sled => sled.display.toList := by
  obtain ⟨hne, hall⟩ := parsed_sleds hids
  rw [toList_display]
  refine List.splitOn_intercalate _ ?_ (by simpa using hne)
  intro text htext
  obtain ⟨sled, hsled, rfl⟩ := List.mem_map.1 htext
  exact SledId.comma_not_mem (hall sled hsled) hcomma

theorem fromStr_display {target : Target} (htarget : target.Parsed) (hbase : BaseboardText) :
    fromStr target.display = .ok target := by
  cases target with
  | all =>
    have hstar : trim "*".toList = ['*'] := by decide
    exact if_pos hstar
  | sleds ids =>
    obtain ⟨hne, hall⟩ := parsed_sleds htarget
    have hparts : (ids.map fun sled => sled.display.toList).mapM
        (fun sled => SledId.fromStr (String.ofList (trim sled))) = .ok ids := by
      rw [Lib.mapM_eq_ok_iff, List.forall₂_map_left_iff, List.forall₂_same]
      intro sled hsled
      rw [SledId.trim_display (hall sled hsled) hbase, String.ofList_toList]
      exact SledId.fromStr_display (hall sled hsled) hbase
    rw [fromStr, if_neg (trim_display_ne hne), splitOn_display htarget hbase.comma_free, hparts]
    rfl

/-- Lists of sleds that were parsed print differently. -/
theorem display_sleds_inj {a b : List SledId} (ha : Parsed (sleds a)) (hb : Parsed (sleds b))
    (hcomma : ∀ s (x : BaseboardId), parseBaseboardId s = some x →
      ',' ∉ (displayBaseboardId x).toList)
    (hinj : ∀ s t (x y : BaseboardId), parseBaseboardId s = some x → parseBaseboardId t = some y →
      displayBaseboardId x = displayBaseboardId y → x = y)
    (h : display (sleds a) = display (sleds b)) : a = b := by
  have htexts := splitOn_display ha hcomma
  rw [h, splitOn_display hb hcomma] at htexts
  refine Lib.map_inj_on (fun x hx y hy htext => ?_) htexts.symm
  exact SledId.display_inj ((parsed_sleds ha).2 x hx) ((parsed_sleds hb).2 y hy) hinj
    (String.toList_injective htext)

end Target

end Sush
