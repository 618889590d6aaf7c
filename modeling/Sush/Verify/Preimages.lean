import Sush.Common.Plain

/-!
# What is hashed is read in one way only

Five kinds of values are hashed as sequences of length-prefixed fields: requests to start a job,
responses to a challenge, bound requests with their key and nonce, sessions and pairs of nonces.
`Hashed` is any one of them. Frames are read in one way only, each kind begins with a name of its own,
and a field that is left out at its default would have begun with a label that the next one does not
have; so equal bytes come from equal values of one kind (`Hashed.eq_of_preimage_eq`).

A place on the chain of jobs is hashed without prefixes. Its word and its length tell the three kinds
apart (`ChainLink.preimage_injective`). So an identifier that two different chains or sessions share is a
collision of the truncated digest (`collision_of_nextJobId`, `collision_of_sessionId`).
-/

namespace Sush

open Lib (utf8 utf8_inj)

/-! ## Optional fields -/

/-- The field under `label`, or nothing. -/
def labeled (label : String) : Option (List UInt8) → List (List UInt8)
  | none => []
  | some value => [utf8 label, value]

theorem labeled_append_inj {label label' : String} (hne : label ≠ label')
    {a b c d : Option (List UInt8)}
    (h : labeled label a ++ labeled label' b = labeled label c ++ labeled label' d) :
    a = c ∧ b = d := by
  have hbytes : utf8 label ≠ utf8 label' := fun heq => hne (utf8_inj.1 heq)
  cases a <;> cases b <;> cases c <;> cases d <;> simp_all [labeled]

variable [World] [Phrases]

/-! ## One kind at a time -/

namespace JobStartRequest

def modeField (request : JobStartRequest) : Option (List UInt8) :=
  if request.mode.isBatch then none else some (utf8 request.mode.asStr)

def targetField (request : JobStartRequest) : Option (List UInt8) :=
  if request.target.isAll then none else some (utf8 request.target.display)

theorem fields_eq (request : JobStartRequest) :
    request.fields =
      [utf8 "sush_common::jobs::JobStartRequest", utf8 "job_id", jobIdBytes request.jobId,
        utf8 "session_id", sessionIdBytes request.sessionId, utf8 "command",
        utf8 request.command] ++
      (labeled "mode" request.modeField ++ labeled "target" request.targetField) := by
  rw [fields, modeField, targetField, List.append_assoc]
  split <;> split <;> rfl

omit [Phrases] in
theorem mode_eq {a b : JobStartRequest} (h : a.modeField = b.modeField) : a.mode = b.mode := by
  unfold modeField at h
  split at h <;> split at h
  case isTrue.isTrue ha hb =>
    rw [of_decide_eq_true ha, of_decide_eq_true hb]
  case isFalse.isFalse => exact JobMode.asStr_inj.1 (utf8_inj.1 (Option.some.inj h))
  all_goals cases h

variable
  (hcomma : ∀ s (x : BaseboardId), parseBaseboardId s = some x →
    ',' ∉ (displayBaseboardId x).toList)
  (hinj : ∀ s t (x y : BaseboardId), parseBaseboardId s = some x → parseBaseboardId t = some y →
    displayBaseboardId x = displayBaseboardId y → x = y)

include hcomma hinj

theorem target_eq {a b : JobStartRequest} (ha : a.target.Parsed) (hb : b.target.Parsed)
    (h : a.targetField = b.targetField) : a.target = b.target := by
  unfold targetField at h
  split at h <;> split at h
  case isTrue.isTrue hall hall' =>
    rw [of_decide_eq_true hall, of_decide_eq_true hall']
  case isFalse.isFalse hall hall' =>
    have htext := utf8_inj.1 (Option.some.inj h)
    generalize a.target = t at *
    generalize b.target = t' at *
    cases t with
    | all => exact absurd (decide_eq_true rfl) hall
    | sleds ids =>
      cases t' with
      | all => exact absurd (decide_eq_true rfl) hall'
      | sleds ids' => rw [Target.display_sleds_inj ha hb hcomma hinj htext]
  all_goals cases h

theorem fields_inj {a b : JobStartRequest} (ha : a.target.Parsed) (hb : b.target.Parsed)
    (h : a.fields = b.fields) : a = b := by
  rw [fields_eq, fields_eq] at h
  simp only [List.cons_append, List.nil_append, List.cons.injEq, true_and, jobIdBytes_inj,
    sessionIdBytes_inj, utf8_inj] at h
  obtain ⟨hjob, hsession, hcommand, hrest⟩ := h
  obtain ⟨hmode, htarget⟩ := labeled_append_inj (by decide) hrest
  have hmode := mode_eq hmode
  have htarget := target_eq hcomma hinj ha hb htarget
  cases a
  cases b
  simp_all

end JobStartRequest

omit [World] [Phrases] in
theorem ChallengeResponse.fields_inj {a b : ChallengeResponse} (h : a.fields = b.fields) : a = b := by
  simp only [fields, List.cons.injEq, true_and, and_true,
    toBeBytes_inj (show 88 ≤ 256 by decide), toBeBytes_inj (show 256 ≤ 256 by decide)] at h
  cases a
  cases b
  simp_all

theorem BoundRequest.fields_inj {a b : BoundRequest} {j k : KeyId} {m n : Nonce}
    (h : a.fields j m = b.fields k n) : j = k ∧ m = n ∧ a = b := by
  simp only [fields, List.cons.injEq, true_and, and_true, keyIdBytes_inj, utf8_inj,
    toBeBytes_inj (show 88 ≤ 256 by decide),
    Lib.bigEndian_inj (k := 8) a.seq.toNat_lt b.seq.toNat_lt, UInt64.toNat_inj] at h
  obtain ⟨hkey, hnonce, hmethod, htarget, hseq⟩ := h
  cases a
  cases b
  simp_all

theorem SessionPreimage.fields_inj {a b : SessionPreimage} (h : a.fields = b.fields) : a = b := by
  simp only [fields, List.cons.injEq, true_and, and_true, utf8_inj,
    toBeBytes_inj (show 88 ≤ 256 by decide), toBeBytes_inj (show 44 ≤ 256 by decide)] at h
  obtain ⟨hpart, hserial, hsush, hsigner, hseq⟩ := h
  have hbaseboard : a.baseboard = b.baseboard :=
    Phrases.baseboardId.injective (Prod.ext hpart hserial)
  cases a
  cases b
  simp_all

omit [World] [Phrases] in
theorem SessionSushNonce.fields_inj {a b c d : Nonce} (h : fields a b = fields c d) :
    a = c ∧ b = d := by
  simpa [fields, toBeBytes_inj (show 88 ≤ 256 by decide)] using h

/-! ## All kinds -/

/-- A value that is hashed as length-prefixed fields. -/
inductive Hashed where
  | job (request : JobStartRequest)
  | response (response : ChallengeResponse)
  | bound (request : BoundRequest) (keyId : KeyId) (nonce : Nonce)
  | session (preimage : SessionPreimage)
  | nonces (client server : Nonce)

namespace Hashed

/-- The bytes the hasher is fed. -/
def preimage : Hashed → List UInt8
  | .job request => request.preimage
  | .response r => r.preimage
  | .bound request keyId nonce => request.preimage keyId nonce
  | .session p => p.preimage
  | .nonces client server => SessionSushNonce.preimage client server

/-- The fields that are framed in them. -/
def fields : Hashed → List (List UInt8)
  | .job request => request.fields
  | .response r => r.fields
  | .bound request keyId nonce => request.fields keyId nonce
  | .session p => p.fields
  | .nonces client server => SessionSushNonce.fields client server

/-- The name that a kind begins with. -/
def name : Hashed → String
  | job _ => "sush_common::jobs::JobStartRequest"
  | response _ => "sush_common::authn::ChallengeResponse"
  | bound _ _ _ => "sush_common::authn::BoundRequest"
  | session _ => "SUSH_SESSION_ID_V2"
  | nonces _ _ => "SUSH_SESSION_NONCE_V2"

/-- A value as the code can have it: no field is longer than its prefix can say, and a target was
obtained by parsing. -/
def Valid (value : Hashed) : Prop :=
  Lib.Framed value.fields ∧
    match value with
    | job request => request.target.Parsed
    | _ => True

theorem preimage_eq_frames (value : Hashed) : value.preimage = Lib.frames value.fields := by
  cases value with
  | job request => exact request.preimage_eq_frames
  | response r => exact r.preimage_eq_frames
  | bound request keyId nonce => exact request.preimage_eq_frames keyId nonce
  | session p => exact p.preimage_eq_frames
  | nonces client server => exact SessionSushNonce.preimage_eq_frames client server

theorem fields_eq_cons (value : Hashed) : ∃ rest, value.fields = utf8 value.name :: rest := by
  cases value <;> exact ⟨_, rfl⟩

theorem name_eq {a b : Hashed} (h : a.fields = b.fields) : a.name = b.name := by
  obtain ⟨rest, ha⟩ := a.fields_eq_cons
  obtain ⟨rest', hb⟩ := b.fields_eq_cons
  rw [ha, hb] at h
  exact utf8_inj.1 (List.cons.inj h).1

theorem eq_of_preimage_eq
    (hcomma : ∀ s (x : BaseboardId), parseBaseboardId s = some x →
      ',' ∉ (displayBaseboardId x).toList)
    (hinj : ∀ s t (x y : BaseboardId), parseBaseboardId s = some x → parseBaseboardId t = some y →
      displayBaseboardId x = displayBaseboardId y → x = y)
    {a b : Hashed} (ha : a.Valid) (hb : b.Valid) (h : a.preimage = b.preimage) : a = b := by
  rw [preimage_eq_frames, preimage_eq_frames] at h
  have hfields := Lib.frames_injective ha.1 hb.1 h
  have hname := name_eq hfields
  cases a with
  | job a =>
    cases b with
    | job b => rw [JobStartRequest.fields_inj hcomma hinj ha.2 hb.2 hfields]
    | _ => simp [name] at hname
  | response a =>
    cases b with
    | response b => rw [ChallengeResponse.fields_inj hfields]
    | _ => simp [name] at hname
  | bound a j m =>
    cases b with
    | bound b k n =>
      obtain ⟨rfl, rfl, rfl⟩ := BoundRequest.fields_inj hfields
      rfl
    | _ => simp [name] at hname
  | session a =>
    cases b with
    | session b => rw [SessionPreimage.fields_inj hfields]
    | _ => simp [name] at hname
  | nonces client server =>
    cases b with
    | nonces client' server' =>
      obtain ⟨rfl, rfl⟩ := SessionSushNonce.fields_inj hfields
      rfl
    | _ => simp [name] at hname

end Hashed

/-! ## The chain -/

namespace ChainLink

def word : ChainLink → String
  | none _ => "None"
  | some _ => "Some"
  | burned _ => "Burned"

def argument : ChainLink → List UInt8
  | none sessionId => sessionIdBytes sessionId
  | some request => toBeBytes request
  | burned jobId => jobIdBytes jobId

theorem preimage_eq (link : ChainLink) : link.preimage = utf8 link.word ++ link.argument := by
  cases link <;> rfl

theorem length_argument (link : ChainLink) : link.argument.length = 32 := by
  cases link <;> exact length_toBeBytes _

theorem preimage_injective : Function.Injective preimage := by
  intro a b h
  rw [preimage_eq, preimage_eq] at h
  obtain ⟨hword, hargument⟩ := List.append_inj' h (by rw [length_argument, length_argument])
  have hword := utf8_inj.1 hword
  cases a with
  | none s =>
    cases b with
    | none t => rw [sessionIdBytes_inj.1 hargument]
    | _ => simp [word] at hword
  | some s =>
    cases b with
    | some t => rw [(toBeBytes_inj (by decide)).1 hargument]
    | _ => simp [word] at hword
  | burned s =>
    cases b with
    | burned t => rw [jobIdBytes_inj.1 hargument]
    | _ => simp [word] at hword

end ChainLink

/-- **What is hashed is read in one way only.** Values that are hashed as length-prefixed fields and
have the same bytes are the same value of the same kind, and places on the chain with the same bytes
are the same place. -/
theorem preimages_separate
    (hcomma : ∀ s (x : BaseboardId), parseBaseboardId s = some x →
      ',' ∉ (displayBaseboardId x).toList)
    (hinj : ∀ s t (x y : BaseboardId), parseBaseboardId s = some x → parseBaseboardId t = some y →
      displayBaseboardId x = displayBaseboardId y → x = y) :
    (∀ a b : Hashed, a.Valid → b.Valid → a.preimage = b.preimage → a = b) ∧
      ∀ l m : ChainLink, l.preimage = m.preimage → l = m :=
  ⟨fun _ _ => Hashed.eq_of_preimage_eq hcomma hinj, fun _ _ h => ChainLink.preimage_injective h⟩

/-! ## Collisions -/

section Collisions

variable [Digest]

attribute [local instance] digestHashing

/-- Two byte strings with one truncated digest. -/
def Collision : Prop := ∃ x y : List UInt8, x ≠ y ∧ canonical 88 (hash x) = canonical 88 (hash y)

theorem nextJobId_eq_digest {s : SessionId} {last : LastJob} {link : ChainLink}
    (h : last.link s = some link) :
    nextJobId s last = Phrases.jobId.symm (canonical 88 (hash link.preimage)) := by
  cases last <;> cases h <;> rfl

theorem collision_of_nextJobId {s t : SessionId} {a b : LastJob} {l m : ChainLink}
    (ha : a.link s = some l) (hb : b.link t = some m) (hne : l ≠ m)
    (h : nextJobId s a = nextJobId t b) : Collision := by
  rw [nextJobId_eq_digest ha, nextJobId_eq_digest hb] at h
  exact ⟨_, _, fun hbytes => hne (ChainLink.preimage_injective hbytes),
    Phrases.jobId.symm.injective h⟩

theorem collision_of_sessionId {p q : SessionPreimage} (hp : Lib.Framed p.fields)
    (hq : Lib.Framed q.fields) (hne : p ≠ q) (h : p.sessionId = q.sessionId) : Collision := by
  refine ⟨p.preimage, q.preimage, fun hbytes => hne ?_, Phrases.sessionId.symm.injective h⟩
  rw [p.preimage_eq_frames, q.preimage_eq_frames] at hbytes
  exact SessionPreimage.fields_inj (Lib.frames_injective hp hq hbytes)

end Collisions

end Sush

namespace Sush.Plain

attribute [local instance] world phrases

def jobOn (cubby : Cubby) : JobStartRequest := 
  ⟨canonical 88 1, canonical 88 2, "uptime", .batch, .sleds [.cubby cubby]⟩

/-- The job on cubby 14 and the job on cubby 16 do not sign the same bytes. -/
theorem preimages_separate_cubbies :
    (Hashed.job (jobOn 14)).Valid ∧ (Hashed.job (jobOn 16)).Valid ∧
      (jobOn 14).preimage ≠ (jobOn 16).preimage := by
  have h14 : (Hashed.job (jobOn 14)).Valid := ⟨by decide +kernel, "14", by rfl⟩
  have h16 : (Hashed.job (jobOn 16)).Valid := ⟨by decide +kernel, "16", by rfl⟩
  refine ⟨h14, h16, fun h => ?_⟩
  have heq := (preimages_separate baseboardText.comma_free display_injective).1 _ _ h14 h16 h
  exact absurd heq (by simp [jobOn])

end Sush.Plain
