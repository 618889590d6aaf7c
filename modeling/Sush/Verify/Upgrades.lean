import Sush.Server.Format

/-!
# Records of every shipped version are read

A format whose versions increase down its chain meets every version at most once, and the chain ends
after as many formats as there are versions below. So `walk` ends, finds the format of the stored
version if the chain has one, and converts what it parsed along the way back up (`Formats.walk_path`).
-/

namespace Sush

namespace Formats

variable (F : Formats)

/-- The versions of a chain increase. -/
def Increasing : Prop := ∀ r p, F.previous r = some p → F.version p < F.version r

/-- Bodies are parsed as what they were written from. -/
def RoundTrips : Prop := ∀ r (x : F.Carrier r), F.deserialize r (F.serialize r x) = .ok x

/-- `k` is a member of the chain of `r`. -/
inductive Path (k : F.Record) : F.Record → Type
  | here : Path k k
  | up {r p : F.Record} (h : F.previous r = some p) (path : Path k p) : Path k r

variable {F}

/-- The conversions from a member of the chain up, one after the other, until one fails. -/
def Path.upgrade {k r : F.Record} : F.Path k r → F.Carrier k → Except FormatError (F.Carrier r)
  | .here, x => .ok x
  | .up (p := p) h path, x =>
    (path.upgrade x).bind fun old => (F.tryInto h old).mapError (.convert (F.version p))

variable {r k : F.Record} {version : U16} {body : List UInt8} {depth : ℕ}

theorem Path.version_le (hincreasing : F.Increasing) (path : F.Path k r) :
    F.version k ≤ F.version r := by
  induction path with
  | here => exact le_rfl
  | up h path ih => exact ih.trans (hincreasing _ _ h).le

/-! ## The walk -/

theorem walk_of_eq (h : version = F.version r) :
    F.walk (depth + 1) r version body = some ((F.deserialize r body).mapError (.body version)) := by
  rw [walk, if_pos h]

theorem walk_of_none (hne : version ≠ F.version r) (h : F.previous r = none) :
    F.walk (depth + 1) r version body = some (.error (.unknown version)) := by
  rw [walk, if_neg hne]
  split
  · rfl
  · next p hp => cases h.symm.trans hp

theorem walk_of_some {p : F.Record} (hne : version ≠ F.version r) (h : F.previous r = some p) :
    F.walk (depth + 1) r version body = (F.walk depth p version body).map fun previous =>
      previous.bind fun old => (F.tryInto h old).mapError (.convert (F.version p)) := by
  rw [walk, if_neg hne]
  split
  · next hp => cases h.symm.trans hp
  · next q hq =>
    obtain rfl : p = q := Option.some.inj (h.symm.trans hq)
    rfl

/-- **The walk ends**, however deep it may go beyond the version it starts at. -/
theorem walk_returns (hincreasing : F.Increasing) (hdepth : (F.version r).val < depth) :
    ∃ result, F.walk depth r version body = some result := by
  induction depth generalizing r with
  | zero => exact absurd hdepth (Nat.not_lt_zero _)
  | succ depth ih =>
    by_cases hne : version = F.version r
    · exact ⟨_, walk_of_eq hne⟩
    · cases h : F.previous r with
      | none => exact ⟨_, walk_of_none hne h⟩
      | some p =>
        have hlt : (F.version p).val < (F.version r).val := hincreasing r p h
        obtain ⟨result, hresult⟩ := ih (r := p) (by omega)
        exact ⟨_, by rw [walk_of_some hne h, hresult]; rfl⟩

/-- **A stored version that the chain has** is parsed as the member that has it, and converted up. -/
theorem walk_path (hincreasing : F.Increasing) (path : F.Path k r)
    (hdepth : (F.version r).val < depth) :
    F.walk depth r (F.version k) body =
      some (((F.deserialize k body).mapError (.body (F.version k))).bind path.upgrade) := by
  induction path generalizing depth with
  | here =>
    obtain ⟨depth, rfl⟩ := Nat.exists_eq_succ_of_ne_zero (Nat.ne_zero_of_lt hdepth)
    rw [walk_of_eq rfl]
    cases F.deserialize k body <;> rfl
  | @up r p h path ih =>
    obtain ⟨depth, rfl⟩ := Nat.exists_eq_succ_of_ne_zero (Nat.ne_zero_of_lt hdepth)
    have hlt : (F.version p).val < (F.version r).val := hincreasing r p h
    have hne : F.version k ≠ F.version r := ((path.version_le hincreasing).trans_lt hlt).ne
    rw [walk_of_some hne h, ih (by omega)]
    cases F.deserialize k body <;> rfl

/-- **A stored version that the chain does not have** is unknown. -/
theorem walk_unknown (hincreasing : F.Increasing) (hdepth : (F.version r).val < depth)
    (hnone : ∀ k, Nonempty (F.Path k r) → F.version k ≠ version) :
    F.walk depth r version body = some (.error (.unknown version)) := by
  induction depth generalizing r with
  | zero => exact absurd hdepth (Nat.not_lt_zero _)
  | succ depth ih =>
    have hne : version ≠ F.version r := (hnone r ⟨.here⟩).symm
    cases h : F.previous r with
    | none => exact walk_of_none hne h
    | some p =>
      have hlt : (F.version p).val < (F.version r).val := hincreasing r p h
      have hrest := ih (r := p) (by omega) fun k hk => hnone k (hk.map (.up h))
      rw [walk_of_some hne h, hrest]
      rfl

def reparse (F : Formats) (parse : ∀ r, List UInt8 → Except String (F.Carrier r)) : Formats :=
  { F with deserialize := parse }

/-- **No body is parsed as a member of another version**: the walk is the same whatever those members
would parse. -/
theorem walk_reparse {parse : ∀ r, List UInt8 → Except String (F.Carrier r)}
    (hparse : ∀ r, F.version r = version → parse r = F.deserialize r) :
    (F.reparse parse).walk depth r version body = F.walk depth r version body := by
  induction depth generalizing r with
  | zero => rfl
  | succ depth ih =>
    by_cases hne : version = F.version r
    · rw [walk_of_eq (F := F) hne, walk_of_eq (F := F.reparse parse) hne, ← hparse r hne.symm]
      rfl
    · cases h : F.previous r with
      | none =>
        rw [walk_of_none (F := F) hne h, walk_of_none (F := F.reparse parse) hne h]
        rfl
      | some p =>
        rw [walk_of_some (F := F) hne h, walk_of_some (F := F.reparse parse) hne h, ih]
        rfl

/-! ## Decoding -/

variable [Ciborium] {bytes : List UInt8}

theorem readEnvelope_encode (x : F.Carrier k) :
    readEnvelope (F.encode k x) = some (F.version k, F.serialize k x) := by
  simp [readEnvelope, encode, versionEnvelope, visitSeq]

theorem decode_of_future (h : readEnvelope bytes = some (version, body))
    (hfuture : F.version r < version) :
    F.decode depth r bytes = some (.error (.future version)) := by
  rw [decode, h]
  exact if_pos hfuture

theorem decode_of_le (h : readEnvelope bytes = some (version, body))
    (hle : version ≤ F.version r) :
    F.decode depth r bytes = F.walk depth r version body := by
  rw [decode, h]
  exact if_neg (not_lt.2 hle)

/-- **Records of every shipped version are read.** What was encoded as a member of the chain is
decoded as the composition of the conversions from there, or as the error of the first one that
fails. A stored version above the latest is of the future, one below that the chain does not have is
unknown, and a body is parsed only as the member of its version. The walk ends. -/
theorem decode_upgrades (F : Formats) (hincreasing : F.Increasing) (hround : F.RoundTrips)
    (latest : F.Record) {depth : ℕ} (hdepth : (F.version latest).val < depth) :
    (∀ k (path : F.Path k latest) (x : F.Carrier k),
      F.decode depth latest (F.encode k x) = some (path.upgrade x)) ∧
    (∀ bytes version body, readEnvelope bytes = some (version, body) →
      (F.version latest < version →
        F.decode depth latest bytes = some (.error (.future version))) ∧
      (version ≤ F.version latest → (∀ k, Nonempty (F.Path k latest) → F.version k ≠ version) →
        F.decode depth latest bytes = some (.error (.unknown version))) ∧
      ∀ parse : ∀ r, List UInt8 → Except String (F.Carrier r),
        (∀ r, F.version r = version → parse r = F.deserialize r) →
        (F.reparse parse).decode depth latest bytes = F.decode depth latest bytes) ∧
    ∀ bytes, ∃ result, F.decode depth latest bytes = some result := by
  refine ⟨fun k path x => ?_, fun bytes version body h => ⟨?_, ?_, ?_⟩, fun bytes => ?_⟩
  · rw [decode_of_le (readEnvelope_encode x) (path.version_le hincreasing),
      walk_path hincreasing path hdepth, hround k x]
    rfl
  · exact decode_of_future h
  · intro hle hnone
    rw [decode_of_le h hle, walk_unknown hincreasing hdepth hnone]
  · intro parse hparse
    by_cases hle : version ≤ F.version latest
    · rw [decode_of_le (F := F) h hle, decode_of_le (F := F.reparse parse) h hle,
        walk_reparse hparse]
    · rw [decode_of_future (F := F) h (not_le.1 hle),
        decode_of_future (F := F.reparse parse) h (not_le.1 hle)]
      rfl
  · cases h : readEnvelope bytes with
    | none => exact ⟨.error .envelope, by rw [decode, h]⟩
    | some stored =>
      obtain ⟨version, body⟩ := stored
      by_cases hle : version ≤ F.version latest
      · rw [decode_of_le h hle]
        exact walk_returns hincreasing hdepth
      · exact ⟨_, decode_of_future h (not_le.1 hle)⟩

end Formats

end Sush

namespace Sush.Plain

attribute [local instance] ciborium

/-- Three formats of a counter. -/
inductive CounterFormat where
  | first
  | second
  | third
  deriving DecidableEq

/-- A counter in three formats. The conversions refuse a saturated one. -/
def counters : Formats where
  Record := CounterFormat
  Carrier _ := UInt8
  version
    | .first => 0
    | .second => 2
    | .third => 5
  serialize _ count := [count]
  deserialize _
    | [count] => .ok count
    | _ => .error "not a counter"
  previous
    | .first => none
    | .second => some .first
    | .third => some .second
  tryInto _ count := if count = 255 then .error "saturated count" else .ok count

theorem increasing_counters : counters.Increasing := by
  intro r p h
  cases r with
  | first => cases h
  | second | third =>
    cases h
    decide

def counterPath : counters.Path CounterFormat.first CounterFormat.third :=
  .up (p := CounterFormat.second) rfl (.up (p := CounterFormat.first) rfl .here)

theorem decode_upgrades_counters :
    counters.decode 6 CounterFormat.third (counters.encode CounterFormat.first (7 : UInt8)) =
        some (.ok (7 : UInt8)) ∧
      counters.decode 6 CounterFormat.third (counters.encode CounterFormat.first (255 : UInt8)) =
        some (.error (.convert 0 "saturated count")) := by
  have h := (Formats.decode_upgrades counters increasing_counters (fun _ _ => rfl)
    CounterFormat.third (show 5 < 6 by decide)).1 CounterFormat.first counterPath
  exact ⟨h (7 : UInt8), h (255 : UInt8)⟩

end Sush.Plain
