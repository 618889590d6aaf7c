import Sush.Common.Signing

/-!
# Job requests on the wire

How `serde` writes and reads a `JobStartRequest`. A format says whether people are to read it: code
phrases are then words, and 32 raw bytes otherwise (`common/src/codephrases.rs`, `common/src/wire.rs`).
Targets are text in both. A request is a map of named fields; the mode and the target are left out at
their defaults, and what is left out is read as the default (`common/src/jobs.rs`).
-/

namespace Sush

/-- Whether a format is for people, as JSON is, or for programs, as CBOR is. -/
inductive Format where
  | human
  | binary
  deriving DecidableEq

/-- What a field is written as. -/
inductive Value where
  | text (s : String)
  | bytes (bytes : List UInt8)
  deriving DecidableEq

/-- Why a value was not read. -/
inductive SerdeError where
  | custom (message : String)
  | invalidType
  | invalidLength (length : ℕ)
  | unknownVariant (name : String)
  | missingField (name : String)
  | duplicateField (name : String)
  deriving DecidableEq

/-! ## Values -/

def invalidCodephrase : SerdeError := .custom "invalid or non-canonical code phrase"

namespace Codephrase

/-- Phrases for people, raw bytes for programs. -/
def serialize (format : Format) (c : Codephrase) : Value :=
  match format with
  | .human => .text (c.display wordlist)
  | .binary => .bytes (toBeBytes c)

def deserialize : Format → Value → Except SerdeError Codephrase
  | .human, .text s =>
    match fromStr wordlist s with
    | some c => .ok c
    | none => .error invalidCodephrase
  | .binary, .bytes bytes =>
    if bytes.length = 32 then .ok (canonical 256 (Lib.ofBigEndian bytes))
    else .error (.invalidLength bytes.length)
  | _, _ => .error .invalidType

theorem deserialize_serialize (format : Format) (c : Codephrase) :
    deserialize format (c.serialize format) = .ok c := by
  cases format with
  | human => simp [serialize, deserialize, fromStr_display]
  | binary =>
    have hval : canonical 256 c.val = c := Fin.ext (Nat.mod_eq_of_lt c.isLt)
    simp only [serialize, deserialize, length_toBeBytes, if_true]
    rw [ofBigEndian_toBeBytes c (by decide), hval]

end Codephrase

/-- Read a phrase of `bits` bits; a wider one is refused. -/
def deserializePhrase (bits : ℕ) (format : Format) (value : Value) :
    Except SerdeError (Fin (2 ^ bits)) := do
  let c ← Codephrase.deserialize format value
  match tryFrom bits c with
  | some p => return p
  | none => throw invalidCodephrase

theorem deserializePhrase_serialize {bits : ℕ} (format : Format) (p : Fin (2 ^ bits))
    (h : bits ≤ 256) :
    deserializePhrase bits format ((widen p h).serialize format) = .ok p := by
  rw [deserializePhrase, Codephrase.deserialize_serialize]
  simp only [bind, Except.bind, tryFrom_widen]
  rfl

def deserializeString : Value → Except SerdeError String
  | .text s => .ok s
  | .bytes _ => .error .invalidType

def JobMode.deserialize : Value → Except SerdeError JobMode
  | .text s =>
    if s = batch.asStr then .ok batch
    else if s = interactive.asStr then .ok interactive
    else if s = streamInput.asStr then .ok streamInput
    else if s = streamOutput.asStr then .ok streamOutput
    else .error (.unknownVariant s)
  | .bytes _ => .error .invalidType

theorem JobMode.deserialize_asStr (mode : JobMode) : deserialize (.text mode.asStr) = .ok mode := by
  cases mode <;> rfl

variable [World] [Phrases]

def Target.deserialize : Value → Except SerdeError Target
  | .text s =>
    match fromStr s with
    | .ok target => .ok target
    | .error e => .error (.custom ("invalid target `" ++ e.text ++ "`"))
  | .bytes _ => .error .invalidType

theorem Target.deserialize_display {target : Target} (htarget : target.Parsed)
    (hbase : BaseboardText) : deserialize (.text target.display) = .ok target := by
  simp [deserialize, fromStr_display htarget hbase]

/-! ## Requests -/

/-- A request while its fields are read. -/
structure PartialRequest where
  jobId : Option JobId
  sessionId : Option SessionId
  command : Option String
  mode : Option JobMode
  target : Option Target

/-- Read a field, unless it was read before. -/
def readOnce {α : Type} (name : String) (field : Option α) (read : Except SerdeError α) :
    Except SerdeError (Option α) :=
  match field with
  | some _ => .error (.duplicateField name)
  | none => read.map some

/-- A field that has no default. -/
def required {α : Type} (name : String) (field : Option α) : Except SerdeError α :=
  match field with
  | some value => .ok value
  | none => .error (.missingField name)

namespace PartialRequest

def empty : PartialRequest := ⟨none, none, none, none, none⟩

/-- Read one entry of the map; unknown names are passed over. -/
def visit (format : Format) (partly : PartialRequest) (entry : String × Value) :
    Except SerdeError PartialRequest :=
  let (name, value) := entry
  match name with
  | "job_id" => do
    let read := (deserializePhrase 88 format value).map Phrases.jobId.symm
    return { partly with jobId := ← readOnce name partly.jobId read }
  | "session_id" => do
    let read := (deserializePhrase 88 format value).map Phrases.sessionId.symm
    return { partly with sessionId := ← readOnce name partly.sessionId read }
  | "command" => do
    return { partly with command := ← readOnce name partly.command (deserializeString value) }
  | "mode" => do
    return { partly with mode := ← readOnce name partly.mode (JobMode.deserialize value) }
  | "target" => do
    return { partly with target := ← readOnce name partly.target (Target.deserialize value) }
  | _ => return partly

/-- The request, with defaults for what was not there. -/
def finish (partly : PartialRequest) : Except SerdeError JobStartRequest := do
  let jobId ← required "job_id" partly.jobId
  let sessionId ← required "session_id" partly.sessionId
  let command ← required "command" partly.command
  return ⟨jobId, sessionId, command, partly.mode.getD .batch, partly.target.getD .all⟩

section Visit

variable {format : Format} {partly : PartialRequest}

theorem visit_jobId (h : partly.jobId = none) (j : JobId) :
    partly.visit format ("job_id", (widen (Phrases.jobId j) (by decide)).serialize format) =
      .ok { partly with jobId := some j } := by
  simp only [visit, deserializePhrase_serialize, h, readOnce]
  simp [Except.map, bind, Except.bind, pure, Except.pure]

theorem visit_sessionId (h : partly.sessionId = none) (s : SessionId) :
    partly.visit format ("session_id", (widen (Phrases.sessionId s) (by decide)).serialize format) =
      .ok { partly with sessionId := some s } := by
  simp only [visit, deserializePhrase_serialize, h, readOnce]
  simp [Except.map, bind, Except.bind, pure, Except.pure]

theorem visit_command (h : partly.command = none) (command : String) :
    partly.visit format ("command", .text command) =
      .ok { partly with command := some command } := by
  simp only [visit, h, readOnce]
  rfl

theorem visit_mode (h : partly.mode = none) (mode : JobMode) :
    partly.visit format ("mode", .text mode.asStr) = .ok { partly with mode := some mode } := by
  simp only [visit, h, readOnce, JobMode.deserialize_asStr]
  rfl

theorem visit_target (h : partly.target = none) {target : Target} (htarget : target.Parsed)
    (hbase : BaseboardText) :
    partly.visit format ("target", .text target.display) =
      .ok { partly with target := some target } := by
  simp only [visit, h, readOnce, Target.deserialize_display htarget hbase]
  rfl

end Visit

end PartialRequest

namespace JobStartRequest

/-- A request as a map of fields, without those at their defaults. -/
def serialize (format : Format) (request : JobStartRequest) : List (String × Value) :=
  [("job_id", (widen (Phrases.jobId request.jobId) (by decide)).serialize format),
    ("session_id", (widen (Phrases.sessionId request.sessionId) (by decide)).serialize format),
    ("command", .text request.command)] ++
  (if request.mode.isBatch then [] else [("mode", .text request.mode.asStr)]) ++
  (if request.target.isAll then [] else [("target", .text request.target.display)])

def deserialize (format : Format) (entries : List (String × Value)) :
    Except SerdeError JobStartRequest := do
  let partly ← entries.foldlM (PartialRequest.visit format) .empty
  partly.finish

/-- Reading the entries of the fields that are always there. -/
theorem foldlM_serialize (format : Format) (request : JobStartRequest)
    (rest : List (String × Value)) :
    ([("job_id", (widen (Phrases.jobId request.jobId) (by decide)).serialize format),
      ("session_id", (widen (Phrases.sessionId request.sessionId) (by decide)).serialize format),
      ("command", .text request.command)] ++ rest).foldlM (PartialRequest.visit format) .empty =
    rest.foldlM (PartialRequest.visit format)
      ⟨some request.jobId, some request.sessionId, some request.command, none, none⟩ := by
  simp only [List.cons_append, List.nil_append, List.foldlM_cons]
  rw [PartialRequest.visit_jobId rfl]
  simp only [bind, Except.bind]
  rw [PartialRequest.visit_sessionId rfl]
  dsimp only
  rw [PartialRequest.visit_command rfl]
  rfl

theorem deserialize_serialize (format : Format) {request : JobStartRequest}
    (htarget : request.target.Parsed) (hbase : BaseboardText) :
    deserialize format (request.serialize format) = .ok request := by
  rw [deserialize, serialize, List.append_assoc, foldlM_serialize]
  obtain ⟨jobId, sessionId, command, mode, target⟩ := request
  -- a field is there unless it is at its default, which is what is read when it is not there
  by_cases hmode : mode = .batch <;> by_cases hall : target = .all
  · subst hmode hall
    rfl
  · subst hmode
    simp only [JobMode.isBatch, decide_true, ↓reduceIte, Target.isAll, hall, decide_false, Bool.false_eq_true,
      List.nil_append, List.foldlM_cons, List.foldlM_nil, bind_pure]
    rw [PartialRequest.visit_target rfl htarget hbase]
    rfl
  · subst hall
    simp only [JobMode.isBatch, hmode, decide_false, Bool.false_eq_true, ↓reduceIte, Target.isAll, decide_true,
      List.append_nil, List.foldlM_cons, List.foldlM_nil, bind_pure]
    rw [PartialRequest.visit_mode rfl]
    rfl
  · simp only [JobMode.isBatch, hmode, decide_false, Bool.false_eq_true, ↓reduceIte, Target.isAll, hall,
      List.cons_append, List.nil_append, List.foldlM_cons, List.foldlM_nil, bind_pure]
    rw [PartialRequest.visit_mode rfl]
    simp only [bind, Except.bind]
    rw [PartialRequest.visit_target rfl htarget hbase]
    rfl

end JobStartRequest

end Sush
