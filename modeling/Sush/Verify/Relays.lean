import Sush.Server.TermCodecs

/-!
# Messages survive relays by older builds

A message that was read is of version 0, or it is kept as the bytes of a value that is read as this
very message. So it is written without a panic, and read again as what it was
(`deserialize_serialize`). A text, and a map of one text other than `V0`, is written again as it was,
however often.
-/

namespace Sush

namespace VersionedMessage

variable [World] [Ciborium] [MessageCodec]

variable {value : Cbor} {message : VersionedMessage}

/-- One relay: read a message, and write it again. -/
def hop (value : Cbor) : Option Cbor :=
  match deserialize value with
  | .ok message => message.serialize
  | .error _ => none

def hops : ℕ → Cbor → Option Cbor
  | 0, value => some value
  | n + 1, value => (hop value).bind (hops n)

theorem hop_of_deserialize (h : deserialize value = .ok message) :
    hop value = message.serialize := by
  rw [hop, h]

theorem deserialize_text (text : String) :
    deserialize (.text text) = .ok (unknown text (Ciborium.write (.text text))) := by
  simp [deserialize, visitStr]

theorem deserialize_newer {version : String} (h : version ≠ "V0") (value : Cbor) :
    deserialize (.map [(.text version, value)]) =
      .ok (unknown version (Ciborium.write (.map [(.text version, value)]))) := by
  simp [deserialize, visitMap, h]

theorem deserialize_v0 (message : Message) :
    deserialize (.map [(.text "V0", MessageCodec.serialize message)]) = .ok (v0 message) := by
  simp [deserialize, visitMap]

theorem visitMap_cases {entries : List (Cbor × Cbor)} (h : visitMap entries = .ok message) :
    (∃ body, message = v0 body) ∨ ∃ version value, version ≠ "V0" ∧
      message = unknown version (Ciborium.write (.map [(.text version, value)])) := by
  cases entries with
  | nil => cases h
  | cons entry rest =>
    obtain ⟨key, value⟩ := entry
    unfold visitMap at h
    dsimp only at h
    cases hkey : Ciborium.string key with
    | none =>
      rw [hkey] at h
      cases h
    | some version =>
      rw [hkey] at h
      dsimp only at h
      by_cases hversion : version = "V0"
      · rw [if_pos hversion] at h
        cases hbody : MessageCodec.deserialize value with
        | none =>
          rw [hbody] at h
          cases h
        | some body =>
          rw [hbody] at h
          cases h
          exact .inl ⟨body, rfl⟩
      · rw [if_neg hversion] at h
        cases h
        exact .inr ⟨version, value, hversion, rfl⟩

/-- **A message that was read is written without a panic, and read again as what it was.** -/
theorem deserialize_serialize (h : deserialize value = .ok message) :
    ∃ value', message.serialize = some value' ∧ deserialize value' = .ok message := by
  unfold deserialize at h
  cases hvisit : Ciborium.visit value with
  | str version =>
    rw [hvisit] at h
    cases h
    exact ⟨.text version, Ciborium.read_write _, deserialize_text version⟩
  | map entries =>
    rw [hvisit] at h
    rcases visitMap_cases h with ⟨body, rfl⟩ | ⟨version, rebuilt, hversion, rfl⟩
    · exact ⟨_, rfl, deserialize_v0 body⟩
    · exact ⟨_, Ciborium.read_write _, deserialize_newer hversion rebuilt⟩
  | other =>
    rw [hvisit] at h
    cases h

theorem deserialize_hops (n : ℕ) (h : deserialize value = .ok message) :
    ∃ value', hops n value = some value' ∧ deserialize value' = .ok message := by
  induction n generalizing value with
  | zero => exact ⟨value, rfl, h⟩
  | succ n ih =>
    obtain ⟨next, hnext, hread⟩ := deserialize_serialize h
    obtain ⟨value', hhops, hread'⟩ := ih hread
    have hhop : hop value = some next := (hop_of_deserialize h).trans hnext
    exact ⟨value', by rw [hops, hhop, Option.bind_some, hhops], hread'⟩

theorem hops_of_hop (h : hop value = some value) (n : ℕ) : hops n value = some value := by
  induction n with
  | zero => rfl
  | succ n ih => rw [hops, h, Option.bind_some, ih]

/-- **Messages survive relays.** Whatever was read is written without a panic and read again as what it
was, also after any number of relays. A text, or a map of one text other than `V0`, is read as a
message of that version and written as it was, and so it leaves any number of relays. -/
theorem messages_survive_relays :
    (∀ value message, deserialize value = .ok message →
      ∃ value', message.serialize = some value' ∧ deserialize value' = .ok message) ∧
    (∀ value version, value = .text version ∨
        version ≠ "V0" ∧ (∃ rest, value = .map [(.text version, rest)]) →
      ∃ bytes, deserialize value = .ok (unknown version bytes) ∧
        (unknown version bytes).serialize = some value ∧ ∀ n, hops n value = some value) ∧
    ∀ value message n, deserialize value = .ok message →
      ∃ value', hops n value = some value' ∧ deserialize value' = .ok message := by
  refine ⟨fun value message h => deserialize_serialize h, fun value version h => ?_,
    fun value message n h => deserialize_hops n h⟩
  have hread : deserialize value = .ok (unknown version (Ciborium.write value)) := by
    rcases h with rfl | ⟨hversion, rest, rfl⟩
    · exact deserialize_text version
    · exact deserialize_newer hversion rest
  have hwrite : (unknown version (Ciborium.write value)).serialize = some value :=
    Ciborium.read_write value
  have hhop : hop value = some value := (hop_of_deserialize hread).trans hwrite
  exact ⟨_, hread, hwrite, hops_of_hop hhop⟩

end VersionedMessage

end Sush

namespace Sush.Terms

open VersionedMessage

attribute [local instance] world messageCodec Plain.ciborium

/-- A key stops a session. -/
def stopSent : Message := .request (.session (7 : ℕ) (.stop (5 : ℕ)))

theorem messages_survive_relays_stop : ∃ value value', (v0 stopSent).serialize = some value ∧
    hops 3 value = some value' ∧ deserialize value' = .ok (v0 stopSent) := by
  obtain ⟨value', hhops, hread⟩ := messages_survive_relays.2.2 _ _ 3 (deserialize_v0 stopSent)
  exact ⟨_, value', rfl, hhops, hread⟩

end Sush.Terms
