import Sush.Common.Authn

/-!
# Identifiers as phrases

`Phrases` asks that identifiers are numbers of 88 bits and that baseboards are two texts, and the
results about text ask more of the parser of baseboards. This module builds such a world: a baseboard
is two texts without colons, commas or whitespace, with a colon between them. The digest in it is the
number that the last bytes write, a signature verifies when its first half is one, and the headers
that the proxy accepts are fixed texts.
-/

namespace Sush.Plain

/-- Identifiers are phrases, and baseboards pairs of texts. -/
abbrev world : World where
  BaseboardId := String ×ₗ String
  KeyId := Fin (2 ^ 88)
  SessionId := Fin (2 ^ 88)
  JobId := Fin (2 ^ 88)
  Network := ℕ
  Version := ℕ
  Rank := ℕ
  baseboardIdOrder := inferInstance
  keyIdOrder := inferInstance
  sessionIdOrder := inferInstance
  jobIdOrder := inferInstance
  networkDecEq := inferInstance
  versionOrder := inferInstance
  versionDecLE := inferInstance
  rankOrder := inferInstance
  rank := id

attribute [local instance] world

/-- Whether a character may stand in a part number or a serial number. -/
def isPlain (c : Char) : Bool := !isWhitespace c && c ≠ ',' && c ≠ ':'

/-- Two plain texts with a colon between them. -/
def parse (s : String) : Option (String ×ₗ String) :=
  match s.toList.splitOn ':' with
  | [part, serial] =>
    if part.all isPlain && serial.all isPlain then
      some (toLex (String.ofList part, String.ofList serial))
    else none
  | _ => none

abbrev phrases : Phrases where
  keyId := Equiv.refl _
  sessionId := Equiv.refl _
  jobId := Equiv.refl _
  baseboardId := ofLex
  parseBaseboardId := parse
  displayBaseboardId b := (ofLex b).1 ++ ":" ++ (ofLex b).2
  colon_mem b := by simp

attribute [local instance] phrases

theorem isPlain_of_parse {s : String} {b : String ×ₗ String} (h : parse s = some b) :
    ∀ c, c ∈ (ofLex b).1.toList ∨ c ∈ (ofLex b).2.toList → isPlain c := by
  unfold parse at h
  split at h
  case h_2 => cases h
  case h_1 part serial hsplit =>
    split at h
    case isFalse => cases h
    case isTrue hplain =>
      cases h
      obtain ⟨hpart, hserial⟩ := Bool.and_eq_true_iff.1 hplain
      rintro c (hc | hc)
      · exact List.all_eq_true.1 hpart c (by simpa using hc)
      · exact List.all_eq_true.1 hserial c (by simpa using hc)

theorem toList_display (b : String ×ₗ String) :
    (displayBaseboardId b).toList = [':'].intercalate [(ofLex b).1.toList, (ofLex b).2.toList] := by
  show ((ofLex b).1 ++ ":" ++ (ofLex b).2).toList = _
  rw [String.toList_append, String.toList_append, List.intercalate_cons_cons,
    List.intercalate_singleton]
  rfl

theorem plain_or_colon {s : String} {b : String ×ₗ String} (h : parse s = some b) :
    ∀ c ∈ (displayBaseboardId b).toList, isPlain c ∨ c = ':' := by
  intro c hc
  rw [toList_display] at hc
  simp only [List.intercalate_cons_cons, List.intercalate_singleton, List.mem_append,
    List.mem_singleton] at hc
  rcases hc with (hc | hc) | hc
  · exact .inl (isPlain_of_parse h c (.inl hc))
  · exact .inr hc
  · exact .inl (isPlain_of_parse h c (.inr hc))

theorem baseboardText : BaseboardText where
  comma_free s b h hmem := by
    rcases plain_or_colon h ',' hmem with hplain | heq
    · exact absurd hplain (by decide)
    · exact absurd heq (by decide)
  trimmed s b h := by
    refine Lib.trim_eq_self fun c hc => ?_
    rcases plain_or_colon h c hc with hplain | rfl
    · simp only [isPlain, Bool.and_eq_true, Bool.not_eq_true'] at hplain
      exact hplain.1.1
    · decide
  reparses s b h := by
    have hplain := isPlain_of_parse h
    have hcolon : ∀ text ∈ [(ofLex b).1.toList, (ofLex b).2.toList], ':' ∉ text := by
      intro text htext hmem
      have : isPlain ':' := hplain ':' (by
        rcases List.mem_pair.1 htext with rfl | rfl
        · exact .inl hmem
        · exact .inr hmem)
      exact absurd this (by decide)
    have hsplit : (displayBaseboardId b).toList.splitOn ':' =
        [(ofLex b).1.toList, (ofLex b).2.toList] := by
      rw [toList_display, List.splitOn_intercalate _ hcolon (by simp)]
    have hall : ((ofLex b).1.toList.all isPlain && (ofLex b).2.toList.all isPlain) = true := by
      rw [Bool.and_eq_true, List.all_eq_true, List.all_eq_true]
      exact ⟨fun c hc => hplain c (.inl hc), fun c hc => hplain c (.inr hc)⟩
    show parse (displayBaseboardId b) = some b
    simp [parse, hsplit, hall]

theorem display_injective (s t : String) (x y : BaseboardId) (hx : parseBaseboardId s = some x)
    (hy : parseBaseboardId t = some y) (h : displayBaseboardId x = displayBaseboardId y) : x = y := by
  have hx := baseboardText.reparses s x hx
  rw [h, baseboardText.reparses t y hy] at hx
  exact (Option.some.inj hx).symm

abbrev digest : Digest where
  hash bytes := canonical 256 (Lib.ofBigEndian bytes)

attribute [local instance] digest

/-- The signatures that verify. -/
def signature : EncodedSignature := ⟨1, 0, 0, 0⟩

/-- The header `iam` logs key 1 in under the nonce 7, and `bound` is its first request. Keys are their
own identifiers. -/
abbrev authenticator : Authenticator where
  parseAuthn header :=
    if header = "iam" then
      .ok (.initial ⟨canonical 88 7, canonical 88 0, canonical 88 1, canonical 256 5, signature⟩)
    else if header = "bound" then
      .ok (.bound ⟨canonical 88 1, some ⟨canonical 88 7, 1, signature⟩⟩)
    else .error .missingScheme
  PublicKey := Fin (2 ^ 88)
  publicKeyId := .ok
  verifySsh _ _ signature := if signature.r = 1 then .ok () else .error (.crypto "bad signature")
  VerifyingKey := RequestVerifier
  verifyingKey := some
  isWeak _ := false
  verifyStrict _ _ r _ := r = 1

end Sush.Plain
