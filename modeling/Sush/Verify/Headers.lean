import Sush.Common.Headers

/-!
# Authentication headers round trip

A header has many spellings: its parameters in any order, the scheme and the names in any case,
whitespace around commas and equals signs (`Spells`). All of them parse to the same parameters up to
their order (`AuthnParams.fromStr_of_spells`), and no reader of parameters can tell the order
(`AuthnParams.parse_of_perm`). So a header is read as what it was printed from, in every spelling,
unless a phrase in it is wider than its type allows: such a phrase is printed in full and refused when
it is read (`Credentials.fromStr_of_spells`, `BoundCredentials.fromStr_of_spells`). Only a challenge is
read back whatever its nonce is (`Challenge.fromStr_of_spells`), and through it such a phrase gets into
a client's credentials.
-/

namespace Sush.Header
variable {s : String} {b : BoundCredentials} {ps : AuthnParams} {c : Credentials}

/-! ## Characters -/

def isPlain (c : Char) : Bool := !isWhitespace c && c ≠ ',' && c ≠ '='

theorem isPlain_iff {c : Char} : isPlain c ↔ isWhitespace c = false ∧ c ≠ ',' ∧ c ≠ '=' := by
  simp [isPlain, and_assoc]

theorem isPlain_of_range {c : Char} (h : 62 ≤ c.toNat ∧ c.toNat ≤ 126) : isPlain c := by
  have hne : ∀ d : Char, d.toNat < 62 → c ≠ d := by
    rintro d hd rfl
    omega
  refine isPlain_iff.2 ⟨?_, hne ',' (by decide), hne '=' (by decide)⟩
  simp only [isWhitespace, Bool.or_eq_false_iff, Bool.and_eq_false_iff, decide_eq_false_iff_not]
  omega

theorem isPlain_toLower (c : Char) : isPlain c.toLower = isPlain c := by
  by_cases hup : c.isUpper
  · have hval : 65 ≤ c.toNat ∧ c.toNat ≤ 90 := by
      simpa [Char.isUpper, UInt32.le_iff_toNat_le] using hup
    have hlow : c.toLower.toNat = c.toNat + 32 := by
      rw [Char.toLower_eq_of_isUpper hup, Char.toNat_ofNat, if_pos (.inl (by omega))]
    rw [isPlain_of_range (c := c) (by omega), isPlain_of_range (c := c.toLower) (by omega)]
  · rw [Char.toLower_eq_of_not_isUpper (by simpa using hup)]

theorem plain_of_lowercase {s t : List Char} (h : toAsciiLowercase s = t) (ht : ∀ c ∈ t, isPlain c) :
    ∀ c ∈ s, isPlain c := by
  intro c hc
  rw [← isPlain_toLower]
  exact ht _ (h ▸ List.mem_map_of_mem hc)

theorem plain_authnScheme : ∀ c ∈ toAsciiLowercase authnScheme.toList, isPlain c := by
  have hscheme : toAsciiLowercase authnScheme.toList = ['s', 'u', 's', 'h'] := by rfl
  have hrange : ∀ c ∈ ['s', 'u', 's', 'h'], 62 ≤ c.toNat ∧ c.toNat ≤ 126 := by simp
  exact fun c hc => isPlain_of_range (hrange c (hscheme ▸ hc))

theorem plain_display (c : Codephrase) : ∀ d ∈ (c.display wordlist).toList, isPlain d := by
  intro d hd
  rw [Codephrase.display, String.toList_intercalate] at hd
  rcases Lib.mem_intercalate hd with hsep | ⟨l, hl, hd⟩
  · rw [show d = '-' from List.mem_singleton.1 hsep]
    decide
  · obtain ⟨w, hw, rfl⟩ := List.mem_map.1 hl
    have hbytes := (letter_of_bip39 (Wordlist.phrase_subset c.val w hw)).2
    have hletter : ∀ b ∈ String.utf8EncodeChar d, 97 ≤ b ∧ b ≤ 122 := fun b hb =>
      hbytes b (Lib.mem_utf8 hd hb)
    obtain ⟨hascii, hmem⟩ := Lib.toNat_lt_of_utf8 fun b hb =>
      UInt8.lt_of_le_of_lt (hletter b hb).2 (by decide)
    obtain ⟨hlow, hhigh⟩ := hletter _ hmem
    have hnat : (UInt8.ofNat d.toNat).toNat = d.toNat := UInt8.toNat_ofNat_of_lt' (lt_trans hascii (by decide))
    rw [UInt8.le_iff_toNat_le, hnat] at hlow hhigh
    have hlow : 97 ≤ d.toNat := hlow
    have hhigh : d.toNat ≤ 122 := hhigh
    exact isPlain_of_range ⟨by omega, by omega⟩

/-! ## Numbers -/

theorem isDigit_toString {n : ℕ} : ∀ d ∈ (toString n).toList, d.isDigit := by
  intro d hd
  rw [show (toString n).toList = Nat.toDigits 10 n from Nat.toList_repr] at hd
  exact Nat.isDigit_of_mem_toDigits (by decide) (by decide) hd

theorem plain_toString (n : ℕ) : ∀ d ∈ (toString n).toList, isPlain d := by
  intro d hd
  have hdigit := isDigit_toString d hd
  have hplain := plain_of_isDigit hdigit
  refine isPlain_iff.2 ⟨hplain.1, hplain.2.1, ?_⟩
  rintro rfl
  exact absurd hdigit (by decide)

theorem parseUnsigned_toString {bits n : ℕ} (h : n < 2 ^ bits) :
    parseUnsigned bits (toString n) = some n := by
  have hlist : (toString n).toList = Nat.toDigits 10 n := Nat.toList_repr
  have hdigits := isDigit_toString (n := n)
  rw [hlist] at hdigits
  have hstrip : stripPlus (Nat.toDigits 10 n) = Nat.toDigits 10 n := by
    unfold stripPlus
    split
    · rename_i digits heq
      exact absurd (hdigits '+' (heq ▸ List.mem_cons_self ..)) (by decide)
    · rfl
  have hne : (Nat.toDigits 10 n).isEmpty = false := by
    rw [List.isEmpty_eq_false_iff, ← List.length_pos_iff]
    exact Nat.length_toDigits_pos
  have hall : isDigits (Nat.toDigits 10 n) = true := by
    rw [isDigits, hne, List.all_eq_true.2 hdigits]
    rfl
  rw [parseUnsigned, hlist, hstrip, Nat.ofDigitChars_ten_toDigits, hall, Bool.true_and,
    if_pos (decide_eq_true h)]

@[simp] theorem parseU8_toString (n : UInt8) : parseU8 (toString n.toNat) = some n := by
  rw [parseU8, parseUnsigned_toString n.toNat_lt, Option.map_some, UInt8.ofNat_toNat]

@[simp] theorem parseU32_toString (n : UInt32) : parseU32 (toString n.toNat) = some n := by
  rw [parseU32, parseUnsigned_toString n.toNat_lt, Option.map_some, UInt32.ofNat_toNat]

@[simp] theorem parseU64_toString (n : UInt64) : parseU64 (toString n.toNat) = some n := by
  rw [parseU64, parseUnsigned_toString n.toNat_lt, Option.map_some, UInt64.ofNat_toNat]

@[simp] theorem parseScalar_displayScalar (r : BitVec 256) :
    parseScalar (displayScalar r) = some r := by
  have hread : Newtype.fromStr (displayScalar r) = some (⟨r.toFin⟩ : Newtype .full) :=
    Newtype.fromStr_display_iff.2 r.toFin.isLt
  rw [parseScalar, hread]
  rfl

instance decidableCanonical {length : CodephraseLength} (x : Newtype length) :
    Decidable x.Canonical :=
  inferInstanceAs (Decidable (x.phrase.val < 2 ^ length.bits))

theorem fromStr_display {length : CodephraseLength} (x : Newtype length) :
    Newtype.fromStr x.display = if x.Canonical then some x else none := by
  by_cases hx : x.Canonical
  · rw [if_pos hx, Newtype.fromStr_display_iff.2 hx]
  · rw [if_neg hx]
    cases hread : (Newtype.fromStr x.display : Option (Newtype length)) with
    | none => rfl
    | some y =>
      obtain ⟨hphrase, hy⟩ := Newtype.fromStr_eq_some_iff.1 hread
      rw [Newtype.display, Codephrase.fromStr_display, Option.some.injEq] at hphrase
      rw [Newtype.Canonical, ← hphrase] at hy
      exact absurd hy hx

/-! ## Spellings -/

/-- A parameter as it may be written: with whitespace around the name and the value. -/
structure Spelled where
  name : List Char
  value : String
  beforeName : List Char
  afterName : List Char
  beforeValue : List Char
  afterValue : List Char

namespace Spelled

def text (p : Spelled) : List Char :=
  p.beforeName ++ p.name ++ p.afterName ++ '=' :: (p.beforeValue ++ p.value.toList ++ p.afterValue)

def param (p : Spelled) : String × String := (String.ofList (toAsciiLowercase p.name), p.value)

/-- Nothing but whitespace stands around the name and the value. -/
def Spaced (p : Spelled) : Prop :=
  ∀ c ∈ p.beforeName ++ p.afterName ++ p.beforeValue ++ p.afterValue, isWhitespace c

end Spelled

/-- `s` is a header of the parameters `ps`, in any order and case and with any whitespace around commas
and equals signs. -/
def Spells (ps : AuthnParams) (s : String) : Prop :=
  ∃ (scheme : List Char) (items : List Spelled),
    eqIgnoreAsciiCase scheme authnScheme.toList ∧ (∀ item ∈ items, item.Spaced) ∧
      (items.map Spelled.param).Perm ps ∧
        s.toList = scheme ++ ' ' :: [','].intercalate (items.map Spelled.text)

/-- Parameters that can be written in a header: some, with plain names and values, no name twice. -/
structure Writable (ps : AuthnParams) : Prop where
  ne_nil : ps ≠ []
  nodup : (ps.map Prod.fst).Nodup
  name_plain : ∀ p ∈ ps, ∀ c ∈ p.1.toList, isPlain c
  value_plain : ∀ p ∈ ps, ∀ c ∈ p.2.toList, isPlain c

namespace Spelled

variable {p : Spelled}

theorem Spaced.whitespace (h : p.Spaced) :
    (∀ c ∈ p.beforeName, isWhitespace c) ∧ (∀ c ∈ p.afterName, isWhitespace c) ∧
      (∀ c ∈ p.beforeValue, isWhitespace c) ∧ ∀ c ∈ p.afterValue, isWhitespace c := by
  refine ⟨fun c hc => h c ?_, fun c hc => h c ?_, fun c hc => h c ?_, fun c hc => h c ?_⟩ <;>
    simp [hc]

theorem insertParam_text (hspaced : p.Spaced) (hname : ∀ c ∈ p.name, isPlain c)
    (hvalue : ∀ c ∈ p.value.toList, isPlain c) (params : AuthnParams) :
    params.insertParam p.text =
      if params.has p.param.1 then .error (.duplicateParam p.param.1) else .ok (params ++ [p.param]) := by
  obtain ⟨hbn, han, hbv, hav⟩ := hspaced.whitespace
  have hblank : ∀ c ∈ p.name, isWhitespace c = false := fun c hc => (isPlain_iff.1 (hname c hc)).1
  have hequals : '=' ∉ p.beforeName ++ p.name ++ p.afterName := by
    simp only [List.mem_append, not_or]
    refine ⟨⟨fun h => ?_, fun h => ?_⟩, fun h => ?_⟩
    · exact absurd (hbn _ h) (by decide)
    · exact absurd (hname _ h) (by decide)
    · exact absurd (han _ h) (by decide)
  unfold AuthnParams.insertParam
  rw [text, Lib.splitOnce_append hequals]
  dsimp only
  rw [trim, Lib.trim_around hbn hblank han, trim,
    Lib.trim_around hbv (fun c hc => (isPlain_iff.1 (hvalue c hc)).1) hav, String.ofList_toList]
  rfl

theorem comma_not_mem_text (hspaced : p.Spaced) (hname : ∀ c ∈ p.name, isPlain c)
    (hvalue : ∀ c ∈ p.value.toList, isPlain c) : ',' ∉ p.text := by
  obtain ⟨hbn, han, hbv, hav⟩ := hspaced.whitespace
  simp only [text, List.mem_append, List.mem_cons, not_or]
  refine ⟨⟨⟨?_, ?_⟩, ?_⟩, by decide, ⟨?_, ?_⟩, ?_⟩ <;> intro h
  · exact absurd (hbn _ h) (by decide)
  · exact absurd (hname _ h) (by decide)
  · exact absurd (han _ h) (by decide)
  · exact absurd (hbv _ h) (by decide)
  · exact absurd (hvalue _ h) (by decide)
  · exact absurd (hav _ h) (by decide)

end Spelled

namespace AuthnParams

theorem has_iff {params : AuthnParams} {param : String} :
    params.has param ↔ param ∈ params.map Prod.fst := by
  rw [has, List.any_eq_true, List.mem_map]
  simp only [decide_eq_true_eq]

/-- The loop collects the parameters in the order they are written in. -/
theorem foldlM_insertParam {items : List Spelled} {params : AuthnParams}
    (hspaced : ∀ item ∈ items, item.Spaced) (hname : ∀ item ∈ items, ∀ c ∈ item.name, isPlain c)
    (hvalue : ∀ item ∈ items, ∀ c ∈ item.value.toList, isPlain c)
    (hnodup : ((params ++ items.map Spelled.param).map Prod.fst).Nodup) :
    (items.map Spelled.text).foldlM insertParam params =
      .ok (params ++ items.map Spelled.param) := by
  induction items generalizing params with
  | nil => simp [pure, Except.pure]
  | cons item items ih =>
    have hnew : ¬params.has item.param.1 := by
      rw [has_iff]
      intro hmem
      rw [List.map_append, List.map_cons, List.map_cons] at hnodup
      exact (List.nodup_append.1 hnodup).2.2 _ hmem _ (List.mem_cons_self ..) rfl
    have hstep : params.insertParam item.text = .ok (params ++ [item.param]) := by
      rw [Spelled.insertParam_text (hspaced item (List.mem_cons_self ..))
        (hname item (List.mem_cons_self ..)) (hvalue item (List.mem_cons_self ..)), if_neg hnew]
    rw [List.map_cons, List.foldlM_cons, hstep]
    show (items.map Spelled.text).foldlM insertParam (params ++ [item.param]) = _
    rw [ih (fun i hi => hspaced i (List.mem_cons_of_mem _ hi))
      (fun i hi => hname i (List.mem_cons_of_mem _ hi))
      (fun i hi => hvalue i (List.mem_cons_of_mem _ hi)) (by simpa using hnodup)]
    simp

theorem fromStr_of_spells (hps : Writable ps) (h : Spells ps s) :
    ∃ params, fromStr s = .ok params ∧ params.Perm ps := by
  obtain ⟨scheme, items, hscheme, hspaced, hperm, hs⟩ := h
  have hmem : ∀ item ∈ items, item.param ∈ ps := fun item hitem =>
    hperm.mem_iff.1 (List.mem_map_of_mem hitem)
  have hname : ∀ item ∈ items, ∀ c ∈ item.name, isPlain c := by
    intro item hitem
    have hlower := hps.name_plain item.param (hmem item hitem)
    exact plain_of_lowercase String.toList_ofList.symm hlower
  have hvalue : ∀ item ∈ items, ∀ c ∈ item.value.toList, isPlain c := fun item hitem =>
    hps.value_plain _ (hmem item hitem)
  -- the scheme has no whitespace in it, so it ends at the first space and is trimmed to itself
  have hletters : ∀ c ∈ scheme, isPlain c :=
    plain_of_lowercase (of_decide_eq_true hscheme) plain_authnScheme
  have hspace : ' ' ∉ scheme := fun hc => absurd (hletters _ hc) (by decide)
  have htrim : trim scheme = scheme :=
    Lib.trim_eq_self fun c hc => (isPlain_iff.1 (hletters c hc)).1
  have hne : items.map Spelled.text ≠ [] := by
    intro hnil
    rw [List.map_eq_nil_iff] at hnil
    subst hnil
    exact hps.ne_nil hperm.symm.eq_nil
  have hcomma : ∀ l ∈ items.map Spelled.text, ',' ∉ l := by
    intro l hl
    obtain ⟨item, hitem, rfl⟩ := List.mem_map.1 hl
    exact Spelled.comma_not_mem_text (hspaced item hitem) (hname item hitem) (hvalue item hitem)
  refine ⟨items.map Spelled.param, ?_, hperm⟩
  unfold fromStr
  rw [hs, Lib.splitOnce_append hspace]
  dsimp only
  rw [htrim, hscheme, Bool.not_true, if_neg Bool.false_ne_true, List.splitOn_intercalate _ hcomma hne,
    foldlM_insertParam hspaced hname hvalue ((hperm.map Prod.fst).nodup_iff.2 hps.nodup), List.nil_append]

theorem parse_of_perm {α : Type} (read : String → Option α) {params rest : AuthnParams}
    {param value : String} (hperm : params.Perm ((param, value) :: rest))
    (hnodup : (((param, value) :: rest).map Prod.fst).Nodup) :
    ∃ params', params'.Perm rest ∧ (rest.map Prod.fst).Nodup ∧
      params.parse read param =
        (read value).elim (.error .invalidParam) fun x => .ok (x, params') := by
  rw [List.map_cons, List.nodup_cons] at hnodup
  have hother : ∀ p ∈ rest, p.1 ≠ param := fun p hp heq =>
    hnodup.1 (List.mem_map.2 ⟨p, hp, heq⟩)
  have hget : params.find? (·.1 = param) = some (param, value) := by
    cases hfind : params.find? (·.1 = param) with
    | none =>
      have hnone := List.find?_eq_none.1 hfind (param, value)
        (hperm.mem_iff.2 (List.mem_cons_self ..))
      exact absurd (decide_eq_true rfl) hnone
    | some p =>
      have hname : p.1 = param := of_decide_eq_true (List.find?_some hfind :)
      rcases List.mem_cons.1 (hperm.mem_iff.1 (List.mem_of_find?_eq_some hfind)) with rfl | hp
      · rfl
      · exact absurd hname (hother p hp)
  refine ⟨params.filter (·.1 ≠ param), ?_, hnodup.2, ?_⟩
  · have hfilter := hperm.filter (fun p => decide (p.1 ≠ param))
    rw [List.filter_cons_of_neg (by simp),
      List.filter_eq_self.2 fun p hp => decide_eq_true (hother p hp)] at hfilter
    exact hfilter
  · unfold parse get
    rw [hget]
    cases hread : read value with
    | none => simp only [hread, Option.elim_none]
    | some x => simp only [hread, Option.elim_some]

theorem finished_of_perm {params : AuthnParams} (h : params.Perm []) : params.finished = .ok () := by
  rw [h.eq_nil]
  rfl

theorem has_of_perm {params ps : AuthnParams} (h : params.Perm ps) (param : String) :
    params.has param = ps.has param := by
  rw [Bool.eq_iff_iff, has_iff, has_iff]
  exact (h.map Prod.fst).mem_iff

theorem exists_of_parse {α : Type} {read : String → Option α} {params params' : AuthnParams}
    {param : String} {x : α} (h : params.parse read param = .ok (x, params')) :
    ∃ value, read value = some x := by
  unfold parse at h
  cases hget : params.get param with
  | error e =>
    rw [hget] at h
    cases h
  | ok found =>
    obtain ⟨value, rest⟩ := found
    rw [hget] at h
    dsimp only at h
    cases hread : read value with
    | none =>
      rw [hread] at h
      cases h
    | some y =>
      rw [hread] at h
      cases h
      exact ⟨value, hread⟩

theorem canonical_of_parse {length : CodephraseLength} {x : Newtype length}
    {params params' : AuthnParams} {param : String}
    (h : params.parse Newtype.fromStr param = .ok (x, params')) : x.Canonical := by
  obtain ⟨value, hvalue⟩ := exists_of_parse h
  exact (Newtype.fromStr_eq_some_iff.1 hvalue).2

end AuthnParams

open AuthnParams (canonical_of_parse)

/-! ## Printed headers -/

def printed (ps : AuthnParams) : String :=
  authnScheme ++ " " ++ ", ".intercalate (ps.map fun p => p.1 ++ "=" ++ p.2)

theorem intercalate_concat (sep : String) {ss : List String} (hss : ss ≠ []) (s : String) :
    sep.intercalate (ss ++ [s]) = sep.intercalate ss ++ (sep ++ s) := by
  induction ss with
  | nil => exact absurd rfl hss
  | cons a ss ih =>
    cases ss with
    | nil => simp [String.append_assoc]
    | cons b ss =>
      have hrest := ih (List.cons_ne_nil b ss)
      simp only [List.cons_append, String.intercalate_cons_cons] at hrest ⊢
      rw [hrest]
      simp only [String.append_assoc]

theorem printed_singleton (name value : String) :
    printed [(name, value)] = authnScheme ++ (" " ++ name ++ "=") ++ value := by
  simp [printed, String.append_assoc]

theorem printed_concat (hps : ps ≠ []) (name value : String) :
    printed (ps ++ [(name, value)]) = printed ps ++ (", " ++ name ++ "=") ++ value := by
  have hmap : ps.map (fun p => p.1 ++ "=" ++ p.2) ≠ [] := by simpa using hps
  rw [printed, List.map_append, List.map_singleton, intercalate_concat _ hmap, printed]
  simp only [String.append_assoc]

/-- A parameter with only `before` before its name. -/
def spelled (before : List Char) (p : String × String) : Spelled where
  name := p.1.toList
  value := p.2
  beforeName := before
  afterName := []
  beforeValue := []
  afterValue := []

theorem intercalate_spelled (before : List Char) (p : String × String) (ps : AuthnParams) :
    [','].intercalate ((spelled before p :: ps.map (spelled [' '])).map Spelled.text) =
      before ++ (", ".intercalate ((p :: ps).map fun p => p.1 ++ "=" ++ p.2)).toList := by
  induction ps generalizing before p with
  | nil => simp [spelled, Spelled.text]
  | cons q ps ih =>
    have htail := ih [' '] q
    simp only [List.map_cons] at htail
    simp only [List.map_cons, List.intercalate_cons_cons, htail, String.intercalate_cons_cons]
    simp [spelled, Spelled.text]

theorem spells_printed (hps : ps ≠ [])
    (hlower : ∀ p ∈ ps, toAsciiLowercase p.1.toList = p.1.toList) : Spells ps (printed ps) := by
  cases ps with
  | nil => exact absurd rfl hps
  | cons p ps =>
    have hparam : ∀ (before : List Char) (q : String × String), q ∈ p :: ps →
        (spelled before q).param = q := by
      intro before q hq
      rw [Spelled.param, spelled, hlower q hq, String.ofList_toList]
    refine ⟨authnScheme.toList, spelled [] p :: ps.map (spelled [' ']), decide_eq_true rfl, ?_, ?_, ?_⟩
    · intro item hitem
      rcases List.mem_cons.1 hitem with rfl | hitem
      · intro c hc
        cases hc
      · obtain ⟨q, -, rfl⟩ := List.mem_map.1 hitem
        intro c hc
        have hspace : c = ' ' := by simpa [spelled] using hc
        rw [hspace]
        decide
    · rw [List.map_cons, hparam [] p (List.mem_cons_self ..), List.map_map]
      refine List.Perm.of_eq (congrArg _ ?_)
      refine (List.map_congr_left fun q hq => ?_).trans (List.map_id _)
      exact hparam [' '] q (List.mem_cons_of_mem _ hq)
    · rw [intercalate_spelled, printed]
      simp

def paramNames : List String :=
  ["nonce", "cnonce", "key-id", "epk", "r", "s", "flags", "counter", "seq"]

theorem paramNames_plain : ∀ name ∈ paramNames,
    toAsciiLowercase name.toList = name.toList ∧ ∀ c ∈ name.toList, isPlain c := by
  have hall : (paramNames.all fun name =>
      decide (toAsciiLowercase name.toList = name.toList) && name.toList.all isPlain) = true := by
    decide +kernel
  intro name hname
  obtain ⟨hlower, hplain⟩ := Bool.and_eq_true_iff.1 (List.all_eq_true.1 hall name hname)
  exact ⟨of_decide_eq_true hlower, List.all_eq_true.1 hplain⟩

theorem writable_of_names (hne : ps ≠ []) (hnodup : (ps.map Prod.fst).Nodup)
    (hnames : ps.map Prod.fst ⊆ paramNames) (hvalues : ∀ p ∈ ps, ∀ c ∈ p.2.toList, isPlain c) :
    Writable ps ∧ Spells ps (printed ps) := by
  have hknown : ∀ p ∈ ps, p.1 ∈ paramNames := fun p hp => hnames (List.mem_map_of_mem hp)
  exact ⟨⟨hne, hnodup, fun p hp => (paramNames_plain _ (hknown p hp)).2, hvalues⟩,
    spells_printed hne fun p hp => (paramNames_plain _ (hknown p hp)).1⟩

/-! ### Challenges -/

namespace Challenge

def params (challenge : Challenge) : AuthnParams := [("nonce", challenge.nonce.display)]

theorem writable (challenge : Challenge) :
    Writable challenge.params ∧ Spells challenge.params challenge.display := by
  have hdisplay : challenge.display = printed challenge.params := by
    rw [params, printed_singleton]
    rfl
  rw [hdisplay]
  refine writable_of_names (by simp [params]) (by simp [params]) (by simp [params, paramNames]) ?_
  simp only [params, List.forall_mem_singleton]
  exact plain_display _

theorem fromStr_of_spells {challenge : Challenge} (h : Spells challenge.params s) :
    fromStr s = .ok challenge := by
  have hwritable := challenge.writable.1
  obtain ⟨p₀, hp₀, hperm₀⟩ := AuthnParams.fromStr_of_spells hwritable h
  obtain ⟨p₁, hperm₁, -, h₁⟩ :=
    AuthnParams.parse_of_perm (Codephrase.fromStr wordlist) hperm₀ hwritable.nodup
  rw [Newtype.display, Codephrase.fromStr_display] at h₁
  simp only [fromStr, hp₀, h₁, Option.elim_some, AuthnParams.finished_of_perm hperm₁, bind,
    Except.bind, pure, Except.pure]

end Challenge

/-! ### Credentials -/

namespace Credentials

def params (c : Credentials) : AuthnParams :=
  [("nonce", c.nonce.display), ("cnonce", c.cnonce.display), ("key-id", c.keyId.display),
    ("epk", c.epk.display), ("r", displayScalar c.signature.r), ("s", displayScalar c.signature.s),
    ("flags", toString c.signature.flags.toNat), ("counter", toString c.signature.counter.toNat)]

/-- The nonces and the key are as narrow as their types say. -/
def Canonical (c : Credentials) : Prop :=
  c.nonce.Canonical ∧ c.cnonce.Canonical ∧ c.keyId.Canonical

instance decidableCanonical (c : Credentials) : Decidable c.Canonical :=
  inferInstanceAs (Decidable (_ ∧ _ ∧ _))

theorem writable (c : Credentials) : Writable c.params ∧ Spells c.params c.display := by
  have hdisplay : c.display = printed c.params := by
    have hparams : c.params = [("nonce", c.nonce.display)] ++ [("cnonce", c.cnonce.display)] ++
        [("key-id", c.keyId.display)] ++ [("epk", c.epk.display)] ++
        [("r", displayScalar c.signature.r)] ++ [("s", displayScalar c.signature.s)] ++
        [("flags", toString c.signature.flags.toNat)] ++
        [("counter", toString c.signature.counter.toNat)] := rfl
    rw [hparams]
    simp only [printed_concat, printed_singleton, ne_eq, List.append_eq_nil_iff, List.cons_ne_nil, and_false,
      not_false_eq_true]
    rfl
  have hnames : c.params.map Prod.fst =
      ["nonce", "cnonce", "key-id", "epk", "r", "s", "flags", "counter"] := rfl
  rw [hdisplay]
  refine writable_of_names (by simp [params]) (by rw [hnames]; decide)
    (by rw [hnames]; decide) ?_
  simp only [params, List.forall_mem_cons]
  exact ⟨plain_display _, plain_display _, plain_display _, plain_display _, plain_display _,
    plain_display _, plain_toString _, plain_toString _, by simp⟩

theorem fromStr_of_spells (h : Spells c.params s) :
    fromStr s = if c.Canonical then .ok c else .error .invalidParam := by
  have hwritable := c.writable.1
  obtain ⟨p₀, hp₀, hperm₀⟩ := AuthnParams.fromStr_of_spells hwritable h
  obtain ⟨p₁, hperm₁, hnodup₁, h₁⟩ :=
    AuthnParams.parse_of_perm Newtype.fromStr hperm₀ hwritable.nodup
  obtain ⟨p₂, hperm₂, hnodup₂, h₂⟩ := AuthnParams.parse_of_perm Newtype.fromStr hperm₁ hnodup₁
  obtain ⟨p₃, hperm₃, hnodup₃, h₃⟩ := AuthnParams.parse_of_perm Newtype.fromStr hperm₂ hnodup₂
  obtain ⟨p₄, hperm₄, hnodup₄, h₄⟩ := AuthnParams.parse_of_perm Newtype.fromStr hperm₃ hnodup₃
  obtain ⟨p₅, hperm₅, hnodup₅, h₅⟩ := AuthnParams.parse_of_perm parseScalar hperm₄ hnodup₄
  obtain ⟨p₆, hperm₆, hnodup₆, h₆⟩ := AuthnParams.parse_of_perm parseScalar hperm₅ hnodup₅
  obtain ⟨p₇, hperm₇, hnodup₇, h₇⟩ := AuthnParams.parse_of_perm parseU8 hperm₆ hnodup₆
  obtain ⟨p₈, hperm₈, -, h₈⟩ := AuthnParams.parse_of_perm parseU32 hperm₇ hnodup₇
  have hfull : c.epk.Canonical := c.epk.phrase.isLt
  rw [fromStr_display] at h₁ h₂ h₃
  rw [fromStr_display, if_pos hfull, Option.elim_some] at h₄
  rw [parseScalar_displayScalar, Option.elim_some] at h₅ h₆
  rw [parseU8_toString, Option.elim_some] at h₇
  rw [parseU32_toString, Option.elim_some] at h₈
  unfold fromStr
  simp only [hp₀, bind, Except.bind, pure, Except.pure]
  by_cases hnonce : c.nonce.Canonical
  case neg =>
    rw [if_neg hnonce, Option.elim_none] at h₁
    rw [if_neg fun h : c.Canonical => hnonce h.1]
    simp only [h₁]
  rw [if_pos hnonce, Option.elim_some] at h₁
  by_cases hcnonce : c.cnonce.Canonical
  case neg =>
    rw [if_neg hcnonce, Option.elim_none] at h₂
    rw [if_neg fun h : c.Canonical => hcnonce h.2.1]
    simp only [h₁, h₂]
  rw [if_pos hcnonce, Option.elim_some] at h₂
  by_cases hkey : c.keyId.Canonical
  case neg =>
    rw [if_neg hkey, Option.elim_none] at h₃
    rw [if_neg fun h : c.Canonical => hkey h.2.2]
    simp only [h₁, h₂, h₃]
  rw [if_pos hkey, Option.elim_some] at h₃
  rw [if_pos (show c.Canonical from ⟨hnonce, hcnonce, hkey⟩)]
  simp only [h₁, h₂, h₃, h₄, h₅, h₆, h₇, h₈, AuthnParams.finished_of_perm hperm₈]

theorem canonical_of_fromStr (h : fromStr s = .ok c) : c.Canonical := by
  unfold fromStr at h
  obtain ⟨p₀, -, h⟩ := Lib.bind_eq_ok_iff.1 h
  obtain ⟨⟨nonce, p₁⟩, hnonce, h⟩ := Lib.bind_eq_ok_iff.1 h
  obtain ⟨⟨cnonce, p₂⟩, hcnonce, h⟩ := Lib.bind_eq_ok_iff.1 h
  obtain ⟨⟨keyId, p₃⟩, hkey, h⟩ := Lib.bind_eq_ok_iff.1 h
  obtain ⟨⟨epk, p₄⟩, -, h⟩ := Lib.bind_eq_ok_iff.1 h
  obtain ⟨⟨r, p₅⟩, -, h⟩ := Lib.bind_eq_ok_iff.1 h
  obtain ⟨⟨s, p₆⟩, -, h⟩ := Lib.bind_eq_ok_iff.1 h
  obtain ⟨⟨flags, p₇⟩, -, h⟩ := Lib.bind_eq_ok_iff.1 h
  obtain ⟨⟨counter, p₈⟩, -, h⟩ := Lib.bind_eq_ok_iff.1 h
  obtain ⟨-, -, h⟩ := Lib.bind_eq_ok_iff.1 h
  cases h
  exact ⟨canonical_of_parse hnonce, canonical_of_parse hcnonce, canonical_of_parse hkey⟩

theorem fromStr_display_iff : fromStr c.display = .ok c ↔ c.Canonical := by
  refine ⟨canonical_of_fromStr, fun hc => ?_⟩
  rw [fromStr_of_spells c.writable.2, if_pos hc]

end Credentials

/-! ### Bound credentials -/

namespace RequestSignature

def params (proof : RequestSignature) : AuthnParams :=
  [("nonce", proof.nonce.display), ("seq", toString proof.seq.toNat),
    ("r", displayScalar proof.signature.r), ("s", displayScalar proof.signature.s)]

/-- The signature without what is not transmitted, the trailer of a security key. -/
def sent (proof : RequestSignature) : RequestSignature :=
  { proof with signature := ⟨proof.signature.r, proof.signature.s, 0, 0⟩ }

theorem sent_eq_iff {proof : RequestSignature} :
    proof.sent = proof ↔ proof.signature.flags = 0 ∧ proof.signature.counter = 0 := by
  obtain ⟨nonce, seq, r, s, flags, counter⟩ := proof
  simp [sent, eq_comm]

end RequestSignature

namespace BoundCredentials

def signatureParams : Option RequestSignature → AuthnParams
  | some proof => proof.params
  | none => []

def params (b : BoundCredentials) : AuthnParams :=
  ("key-id", b.keyId.display) :: signatureParams b.signature

/-- The key and the nonce are as narrow as their types say. -/
def Canonical (b : BoundCredentials) : Prop :=
  b.keyId.Canonical ∧ ∀ proof ∈ b.signature, proof.nonce.Canonical

instance decidableCanonical (b : BoundCredentials) : Decidable b.Canonical :=
  inferInstanceAs (Decidable (_ ∧ ∀ proof ∈ b.signature, proof.nonce.Canonical))

/-- There is no signature, or one without the trailer of a security key. -/
def Plain (b : BoundCredentials) : Prop :=
  ∀ proof ∈ b.signature, proof.signature.flags = 0 ∧ proof.signature.counter = 0

def sent (b : BoundCredentials) : BoundCredentials := ⟨b.keyId, b.signature.map RequestSignature.sent⟩

theorem sent_eq_iff : b.sent = b ↔ b.Plain := by
  obtain ⟨keyId, _ | proof⟩ := b
  · simp [sent, Plain]
  · simp only [sent, Plain, Option.map_some, BoundCredentials.mk.injEq, true_and, Option.some.injEq,
      Option.mem_def, forall_eq', RequestSignature.sent_eq_iff]

theorem writable (b : BoundCredentials) : Writable b.params ∧ Spells b.params b.display := by
  have hdisplay : b.display = printed b.params := by
    obtain ⟨keyId, _ | proof⟩ := b
    · have hdisplay : display ⟨keyId, none⟩ = authnScheme ++ " key-id=" ++ keyId.display := by
        simp [display]
      rw [hdisplay, params, signatureParams, printed_singleton]
      rfl
    · have hparams : params ⟨keyId, some proof⟩ = [("key-id", keyId.display)] ++
          [("nonce", proof.nonce.display)] ++ [("seq", toString proof.seq.toNat)] ++
          [("r", displayScalar proof.signature.r)] ++ [("s", displayScalar proof.signature.s)] := rfl
      rw [hparams]
      simp only [printed_concat, printed_singleton, ne_eq, List.append_eq_nil_iff, List.cons_ne_nil, and_false,
        not_false_eq_true, display, String.append_assoc]
      rfl
  rw [hdisplay]
  obtain ⟨keyId, _ | proof⟩ := b
  · refine writable_of_names (by simp [params]) (by simp [params, signatureParams])
      (by simp [params, signatureParams, paramNames]) ?_
    simp only [params, signatureParams, List.forall_mem_singleton]
    exact plain_display _
  · have hnames : (params ⟨keyId, some proof⟩).map Prod.fst = ["key-id", "nonce", "seq", "r", "s"] := rfl
    refine writable_of_names (by simp [params]) (by rw [hnames]; decide) (by rw [hnames]; decide) ?_
    simp only [params, signatureParams, RequestSignature.params, List.forall_mem_cons]
    exact ⟨plain_display _, plain_display _, plain_toString _, plain_display _, plain_display _, by simp⟩

theorem parseSignature_of_perm {proof : RequestSignature} {params : AuthnParams}
    (hperm : params.Perm proof.params) (hnodup : (proof.params.map Prod.fst).Nodup) :
    ∃ params', params'.Perm [] ∧ parseSignature params =
      if proof.nonce.Canonical then .ok (proof.sent, params') else .error .invalidParam := by
  obtain ⟨p₁, hperm₁, hnodup₁, h₁⟩ := AuthnParams.parse_of_perm Newtype.fromStr hperm hnodup
  obtain ⟨p₂, hperm₂, hnodup₂, h₂⟩ := AuthnParams.parse_of_perm parseU64 hperm₁ hnodup₁
  obtain ⟨p₃, hperm₃, hnodup₃, h₃⟩ := AuthnParams.parse_of_perm parseScalar hperm₂ hnodup₂
  obtain ⟨p₄, hperm₄, -, h₄⟩ := AuthnParams.parse_of_perm parseScalar hperm₃ hnodup₃
  rw [fromStr_display] at h₁
  rw [parseU64_toString, Option.elim_some] at h₂
  rw [parseScalar_displayScalar, Option.elim_some] at h₃ h₄
  refine ⟨p₄, hperm₄, ?_⟩
  unfold parseSignature
  simp only [bind, Except.bind, pure, Except.pure]
  by_cases hnonce : proof.nonce.Canonical
  · rw [if_pos hnonce, Option.elim_some] at h₁
    rw [if_pos hnonce]
    simp only [h₁, h₂, h₃, h₄, RequestSignature.sent]
  · rw [if_neg hnonce, Option.elim_none] at h₁
    rw [if_neg hnonce]
    simp only [h₁]

/-- Bound credentials are read back in every spelling as far as they are transmitted, unless a phrase
in them is too wide. -/
theorem fromStr_of_spells (h : Spells b.params s) :
    fromStr s = if b.Canonical then .ok b.sent else .error .invalidParam := by
  have hwritable := b.writable.1
  obtain ⟨p₀, hp₀, hperm₀⟩ := AuthnParams.fromStr_of_spells hwritable h
  obtain ⟨p₁, hperm₁, hnodup₁, h₁⟩ :=
    AuthnParams.parse_of_perm Newtype.fromStr hperm₀ hwritable.nodup
  rw [fromStr_display] at h₁
  unfold fromStr
  simp only [hp₀, bind, Except.bind, pure, Except.pure]
  by_cases hkey : b.keyId.Canonical
  case neg =>
    rw [if_neg hkey, Option.elim_none] at h₁
    rw [if_neg fun h : b.Canonical => hkey h.1]
    simp only [h₁]
  rw [if_pos hkey, Option.elim_some] at h₁
  simp only [h₁]
  obtain ⟨keyId, _ | proof⟩ := b
  · have hnone : (["nonce", "seq", "r", "s"].any p₁.has) = false := by
      rw [hperm₁.eq_nil]
      decide
    rw [hnone, if_neg Bool.false_ne_true, AuthnParams.finished_of_perm hperm₁,
      if_pos (show Canonical ⟨keyId, none⟩ from ⟨hkey, by simp⟩)]
    rfl
  · have hsome : (["nonce", "seq", "r", "s"].any p₁.has) = true := by
      rw [List.any_cons, AuthnParams.has_of_perm hperm₁]
      rfl
    obtain ⟨p₂, hperm₂, h₂⟩ := parseSignature_of_perm hperm₁ hnodup₁
    rw [hsome, if_pos rfl, h₂]
    by_cases hnonce : proof.nonce.Canonical
    · have hcanonical : Canonical ⟨keyId, some proof⟩ := ⟨hkey, by simpa using hnonce⟩
      rw [if_pos hnonce, if_pos hcanonical]
      simp only [AuthnParams.finished_of_perm hperm₂]
      rfl
    · have hwide : ¬Canonical ⟨keyId, some proof⟩ := fun hc => hnonce (hc.2 proof rfl)
      rw [if_neg hnonce, if_neg hwide]

theorem canonical_of_parseSignature {proof : RequestSignature} {params params' : AuthnParams}
    (h : parseSignature params = .ok (proof, params')) : proof.nonce.Canonical := by
  unfold parseSignature at h
  obtain ⟨⟨nonce, p₁⟩, hnonce, h⟩ := Lib.bind_eq_ok_iff.1 h
  obtain ⟨⟨seq, p₂⟩, -, h⟩ := Lib.bind_eq_ok_iff.1 h
  obtain ⟨⟨r, p₃⟩, -, h⟩ := Lib.bind_eq_ok_iff.1 h
  obtain ⟨⟨s, p₄⟩, -, h⟩ := Lib.bind_eq_ok_iff.1 h
  cases h
  exact canonical_of_parse hnonce

theorem canonical_of_fromStr (h : fromStr s = .ok b) : b.Canonical := by
  unfold fromStr at h
  obtain ⟨p₀, -, h⟩ := Lib.bind_eq_ok_iff.1 h
  obtain ⟨⟨keyId, p₁⟩, hkey, h⟩ := Lib.bind_eq_ok_iff.1 h
  dsimp only at h
  by_cases hany : (["nonce", "seq", "r", "s"].any p₁.has) = true
  · rw [if_pos hany] at h
    obtain ⟨⟨proof, p₂⟩, hproof, h⟩ := Lib.bind_eq_ok_iff.1 h
    obtain ⟨-, -, h⟩ := Lib.bind_eq_ok_iff.1 h
    cases h
    refine ⟨canonical_of_parse hkey, fun proof' hproof' => ?_⟩
    cases hproof'
    exact canonical_of_parseSignature hproof
  · rw [if_neg hany] at h
    obtain ⟨-, -, h⟩ := Lib.bind_eq_ok_iff.1 h
    cases h
    exact ⟨canonical_of_parse hkey, fun proof hproof => (by cases hproof)⟩

theorem fromStr_display_iff : fromStr b.display = .ok b ↔ b.Canonical ∧ b.Plain := by
  rw [fromStr_of_spells b.writable.2]
  by_cases hb : b.Canonical
  · rw [if_pos hb, Except.ok.injEq, sent_eq_iff, and_iff_right hb]
  · rw [if_neg hb]
    exact ⟨fun h => (by cases h), fun h => absurd h.1 hb⟩

end BoundCredentials

/-! ### Dispatch -/

namespace Authn

theorem fromStr_credentials (h : Spells c.params s) :
    fromStr s = if c.Canonical then .ok (.initial c) else .error .invalidParam := by
  obtain ⟨p₀, hp₀, hperm₀⟩ := AuthnParams.fromStr_of_spells c.writable.1 h
  have hcnonce : p₀.has "cnonce" = true := by
    rw [AuthnParams.has_of_perm hperm₀, AuthnParams.has_iff]
    simp [Credentials.params]
  unfold fromStr
  simp only [hp₀, bind, Except.bind, hcnonce, if_true, Credentials.fromStr_of_spells h]
  by_cases hc : c.Canonical
  · simp [hc, pure, Except.pure]
  · simp [hc]

theorem fromStr_bound (h : Spells b.params s) :
    fromStr s = if b.Canonical then .ok (.bound b.sent) else .error .invalidParam := by
  obtain ⟨p₀, hp₀, hperm₀⟩ := AuthnParams.fromStr_of_spells b.writable.1 h
  have hcnonce : ¬p₀.has "cnonce" = true := by
    rw [AuthnParams.has_of_perm hperm₀, AuthnParams.has_iff]
    obtain ⟨keyId, _ | proof⟩ := b <;>
      simp [BoundCredentials.params, BoundCredentials.signatureParams, RequestSignature.params]
  unfold fromStr
  simp only [hp₀, bind, Except.bind, hcnonce, BoundCredentials.fromStr_of_spells h]
  by_cases hb : b.Canonical
  · simp [hb, pure, Except.pure]
  · simp [hb]

end Authn

/-- Credentials are read back, as the header of a login and in every spelling of it, exactly if their
phrases are as narrow as their types say; so are bound credentials without the trailer of a security
key, as the header of a request. A challenge is read back in every case. What is printed is one of the
spellings, and all of them are read alike even where they are refused. -/
theorem headers_round_trip (c : Credentials) (b : BoundCredentials) (challenge : Challenge) :
    ((∀ s, Spells c.params s → Credentials.fromStr s = .ok c ∧ Authn.fromStr s = .ok (.initial c) ∧
      (Authn.fromStr s).map Authn.keyId = .ok c.keyId) ↔ c.Canonical) ∧
    ((∀ s, Spells b.params s → BoundCredentials.fromStr s = .ok b ∧ Authn.fromStr s = .ok (.bound b) ∧
      (Authn.fromStr s).map Authn.keyId = .ok b.keyId) ↔ b.Canonical ∧ b.Plain) ∧
    (∀ s, Spells challenge.params s → Challenge.fromStr s = .ok challenge) ∧
    (Spells c.params c.display ∧ ∀ s, Spells c.params s →
      Credentials.fromStr s = Credentials.fromStr c.display ∧
        Authn.fromStr s = Authn.fromStr c.display) ∧
    (Spells b.params b.display ∧ ∀ s, Spells b.params s →
      BoundCredentials.fromStr s = BoundCredentials.fromStr b.display ∧
        Authn.fromStr s = Authn.fromStr b.display) ∧
    Spells challenge.params challenge.display := by
  refine ⟨⟨fun h => ?_, fun hc s hs => ?_⟩, ⟨fun h => ?_, fun hb s hs => ?_⟩,
    fun s hs => Challenge.fromStr_of_spells hs, ⟨c.writable.2, fun s hs => ?_⟩,
    ⟨b.writable.2, fun s hs => ?_⟩, challenge.writable.2⟩
  · exact Credentials.fromStr_display_iff.1 (h _ c.writable.2).1
  · rw [Credentials.fromStr_of_spells hs, Authn.fromStr_credentials hs, if_pos hc, if_pos hc]
    exact ⟨rfl, rfl, rfl⟩
  · exact BoundCredentials.fromStr_display_iff.1 (h _ b.writable.2).1
  · rw [BoundCredentials.fromStr_of_spells hs, Authn.fromStr_bound hs, if_pos hb.1, if_pos hb.1,
      BoundCredentials.sent_eq_iff.2 hb.2]
    exact ⟨rfl, rfl, rfl⟩
  · rw [Credentials.fromStr_of_spells hs, Credentials.fromStr_of_spells c.writable.2,
      Authn.fromStr_credentials hs, Authn.fromStr_credentials c.writable.2]
    exact ⟨rfl, rfl⟩
  · rw [BoundCredentials.fromStr_of_spells hs, BoundCredentials.fromStr_of_spells b.writable.2,
      Authn.fromStr_bound hs, Authn.fromStr_bound b.writable.2]
    exact ⟨rfl, rfl⟩

/-! ### A nonce that is too wide -/

def wideChallenge : Challenge := ⟨⟨⟨2 ^ 88, by decide⟩⟩⟩

theorem display_wideChallenge : wideChallenge.display =
    "Sush nonce=ability-abandon-abandon-abandon-abandon-abandon-abandon-abandon-abandon" := by
  have hphrase : wordlist.phrase (2 ^ 88) = ["ability", "abandon", "abandon", "abandon", "abandon",
      "abandon", "abandon", "abandon", "abandon"] := by
    have hone : wordlist.word 1 = "ability" := rfl
    have hzero : wordlist.word 0 = "abandon" := rfl
    simp [Wordlist.phrase, hone, hzero]
  rw [Challenge.display, Newtype.display, Codephrase.display, wideChallenge, hphrase]
  decide +kernel

def wideCredentials : Credentials :=
  .new (.new wideChallenge ⟨.fromU64 0⟩ (.fromU64 0)) ⟨.fromU64 0⟩ ⟨0, 0, 0, 0⟩

/-- A client accepts the challenge, and the server refuses the header of the answer. -/
theorem wideCredentials_refused :
    Challenge.fromStr
        "Sush nonce=ability-abandon-abandon-abandon-abandon-abandon-abandon-abandon-abandon" =
      .ok wideChallenge ∧
    wideCredentials.nonce = wideChallenge.nonce ∧
    Credentials.fromStr wideCredentials.display = .error .invalidParam ∧
    Authn.fromStr wideCredentials.display = .error .invalidParam := by
  have hwide : ¬wideCredentials.Canonical := by
    rintro ⟨hnonce, -⟩
    exact absurd hnonce (by decide)
  rw [← display_wideChallenge, Credentials.fromStr_of_spells wideCredentials.writable.2,
    Authn.fromStr_credentials wideCredentials.writable.2, if_neg hwide, if_neg hwide]
  exact ⟨Challenge.fromStr_of_spells wideChallenge.writable.2, rfl, rfl, rfl⟩

/-! ### The proxy's headers -/

section Proxy

def toPhrase (x : Newtype .truncated) : Fin (2 ^ 88) := x.toFin

variable [World] [Phrases]

def toCredentials (c : Credentials) : Sush.Credentials where
  nonce := toPhrase c.nonce
  cnonce := toPhrase c.cnonce
  keyId := Phrases.keyId.symm (toPhrase c.keyId)
  epk := c.epk.phrase
  signature := c.signature

def toRequestSignature (proof : RequestSignature) : Sush.RequestSignature where
  nonce := toPhrase proof.nonce
  seq := proof.seq
  signature := proof.signature

def toBoundCredentials (b : BoundCredentials) : Sush.BoundCredentials where
  keyId := Phrases.keyId.symm (toPhrase b.keyId)
  signature := b.signature.map toRequestSignature

def toAuthn : Authn → Sush.Authn
  | .initial c => .initial (toCredentials c)
  | .bound b => .bound (toBoundCredentials b)

/-- `Authn::from_str`, for an `Authenticator`. -/
def parseAuthn (s : String) : Except AuthnError Sush.Authn := (Authn.fromStr s).map toAuthn

end Proxy

end Sush.Header
