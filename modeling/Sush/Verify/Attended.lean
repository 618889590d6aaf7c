import Sush.Server.Attended
import Sush.Verify.Mux
import Sush.Verify.Recording

/-!
# A job and its clients agree

An attended job is a job: what happens to it is a run of `Job` (`refines_job`), and the clients `Job` has
are the clients of the mux (`Agrees`).

When the job's function has returned, every task of the mux has ended or was told to
(`no_task_outlives_job`). The task that streams output to a consumer is none of the mux's, and is told
nothing: it goes on until the channel is empty or its socket fails.
-/

namespace Sush

open Lib (Channel)

/-! ## The clients of a job -/

def LoopTurn.Leaves (P : Job → Prop) : LoopTurn → Prop
  | .pending => True
  | .next t _ => P t
  | .leave _ t => P t

namespace Job

/-- Nothing happened to the clients. -/
structure Aloof (s t : Job) : Prop where
  mode : t.mode = s.mode
  clients : t.clients = s.clients
  nextClientId : t.nextClientId = s.nextClientId
  eof : s.streaming = false → t.eof = s.eof

section

variable {s t : Job}

theorem Aloof.refl (s : Job) : Aloof s s := ⟨rfl, rfl, rfl, fun _ => rfl⟩

theorem Aloof.streaming (h : Aloof s t) : t.streaming = s.streaming := by
  rw [Job.streaming, Job.streaming, h.mode]

theorem Aloof.loopHead (h : Aloof s t) : Aloof s t.loopHead := by
  obtain ⟨exit, hhead, -⟩ := loopHead_eq t
  rw [hhead]
  exact ⟨h.mode, h.clients, h.nextClientId, h.eof⟩

theorem aloof_settle {turn : LoopTurn} (h : turn.Leaves (Aloof s)) : Aloof s (s.settle turn).1 := by
  cases turn with
  | pending => exact .refl s
  | next t outs => exact h.loopHead
  | leave exit t => exact ⟨h.mode, h.clients, h.nextClientId, h.eof⟩

theorem loopHead_of_not_eof (h : s.eof = false) : s.loopHead = s := by
  rw [loopHead, if_neg]
  rintro ⟨heof, -⟩
  rw [h] at heof
  cases heof

theorem aloof_record (s : Job) (stream : JobOutputStream) (recording : Recording) (write : Write) :
    Aloof s (((s.setRecording stream recording).cancelOn write).checkLimit stream) := by
  obtain ⟨stop, hcancel⟩ : ∃ stop, (s.setRecording stream recording).cancelOn write =
      { s.setRecording stream recording with stop } := by
    cases write with
    | done => exact ⟨_, rfl⟩
    | failed file => exact ⟨_, rfl⟩
  rw [hcancel]
  unfold checkLimit
  split
  · cases stream with
    | stdout => exact ⟨rfl, rfl, rfl, fun _ => rfl⟩
    | stderr => exact ⟨rfl, rfl, rfl, fun _ => rfl⟩
  · cases stream with
    | stdout => exact ⟨rfl, rfl, rfl, fun _ => rfl⟩
    | stderr => exact ⟨rfl, rfl, rfl, fun _ => rfl⟩

theorem aloof_deliver (s : Job) (io : JobIo) (buf : List UInt8) (stream : JobOutputStream)
    (write : Write) : ({ s with io }.deliver buf stream write).Leaves (Aloof s) := by
  unfold deliver
  split
  · exact ⟨rfl, rfl, rfl, fun _ => rfl⟩
  · cases ({ s with io }.recording stream).write buf write with
    | none => trivial
    | some recording =>
      have h := aloof_record { s with io } stream recording write
      exact ⟨h.mode, h.clients, h.nextClientId, h.eof⟩

theorem aloof_onRead (s : Job) (io : JobIo) (write : Write) (read : ReadOutput) :
    (onRead { s with io } write read).Leaves (Aloof s) := by
  have hended : ∀ exit, (if s.streaming = true then LoopTurn.next { s with io, eof := true } []
      else .leave exit { s with io }).Leaves (Aloof s) := by
    intro exit
    split
    · next hstreaming =>
      exact ⟨rfl, rfl, rfl, fun hnot => by rw [hstreaming] at hnot; cases hnot⟩
    · exact ⟨rfl, rfl, rfl, fun _ => rfl⟩
  cases read with
  | output buf stream =>
    simp only [onRead]
    split
    · exact hended .outputEnded
    · exact aloof_deliver s io buf stream write
  | error => exact hended .readError

theorem aloof_readOutput (s : Job) (raw : RawRead) (write : Write) :
    (s.readOutput raw write).Leaves (Aloof s) := by
  unfold readOutput
  split
  · rcases s.io.turn raw with _ | ⟨io, _ | read⟩
    · trivial
    · exact ⟨rfl, rfl, rfl, fun _ => rfl⟩
    · exact aloof_onRead s io write read
  · trivial

theorem aloof_permit (s : Job) : s.permit.Leaves (Aloof s) := by
  unfold permit
  cases s.pending with
  | none => trivial
  | some buf =>
    dsimp only
    split
    · exact ⟨rfl, rfl, rfl, fun _ => rfl⟩
    · cases s.output.trySend buf with
      | none => trivial
      | some output => exact ⟨rfl, rfl, rfl, fun _ => rfl⟩

theorem aloof_attachConsumer (s : Job) (client : ℕ) (access : Access) :
    (s.attachConsumer client access).Leaves (Aloof s) := by
  unfold attachConsumer
  split
  · exact .refl s
  · cases s.socket.trySend client with
    | none => exact .refl s
    | some socket => exact ⟨rfl, rfl, rfl, fun _ => rfl⟩

theorem aloof_playBack {playback : Playback} {initial : Option (List UInt8)}
    (h : s.playBack playback = some (initial, t)) : Aloof s t := by
  cases playback with
  | played len =>
    simp only [playBack] at h
    split at h
    · obtain ⟨_, -, heq⟩ := Option.map_eq_some_iff.1 h
      cases heq
      exact ⟨rfl, rfl, rfl, fun _ => rfl⟩
    · cases h
  | failed position restored =>
    cases restored with
    | true =>
      cases h
      exact ⟨rfl, rfl, rfl, fun _ => rfl⟩
    | false =>
      cases h
      exact ⟨rfl, rfl, rfl, fun _ => rfl⟩

theorem aloof_consume (s : Job) (act : ConsumerAct) : Aloof s (s.consume act) := by
  cases act with
  | takeSocket =>
    simp only [consume]
    split
    · exact ⟨rfl, rfl, rfl, fun _ => rfl⟩
    · exact .refl s
  | takeChunk =>
    simp only [consume]
    split
    · exact ⟨rfl, rfl, rfl, fun _ => rfl⟩
    · exact .refl s
  | sent ok =>
    simp only [consume]
    split
    · split
      · exact ⟨rfl, rfl, rfl, fun _ => rfl⟩
      · exact ⟨rfl, rfl, rfl, fun _ => rfl⟩
    · exact .refl s
  | channelEnded =>
    simp only [consume]
    split
    · split
      · exact ⟨rfl, rfl, rfl, fun _ => rfl⟩
      · exact .refl s
    · split
      · exact ⟨rfl, rfl, rfl, fun _ => rfl⟩
      · exact .refl s
    · exact .refl s

theorem aloof_handOver (s : Job) : Aloof s s.handOver := by
  unfold handOver
  cases s.pending with
  | none => exact .refl s
  | some buf =>
    dsimp only
    cases s.output.trySend buf with
    | none => exact ⟨rfl, rfl, rfl, fun _ => rfl⟩
    | some output => exact ⟨rfl, rfl, rfl, fun _ => rfl⟩

theorem leaves_ite {c : Prop} [Decidable c] {turn : LoopTurn} {P : Job → Prop} (h : turn.Leaves P) :
    (if c then turn else .pending).Leaves P := by
  split
  · exact h
  · trivial

variable [Digest]

theorem aloof_branch {b : Branch} (h : (s.branch b).Leaves (Aloof s)) : Aloof s (s.step (.branch b)).1 := by
  simp only [step]
  split
  · exact aloof_settle h
  · exact .refl s

theorem aloof_read (s : Job) (raw : RawRead) (write : Write) :
    Aloof s (s.step (.branch (.read raw write))).1 :=
  aloof_branch (aloof_readOutput s raw write)

/-- **Most steps leave the clients alone.** -/
theorem aloof_other {e : JobStep} (h : Attended.isOther e = true) : Aloof s (s.step e).1 := by
  have haside : ∀ {killed dead stop : Bool} {kills : ℕ}, Aloof s { s with killed, kills, dead, stop } :=
    ⟨rfl, rfl, rfl, fun _ => rfl⟩
  cases e with
  | branch b =>
    apply aloof_branch
    cases b with
    | read raw write => cases h
    | attach client access playback => cases h
    | client next => cases h
    | permit => exact aloof_permit s
    | cancelled => exact leaves_ite haside
    | killTimeout => exact leaves_ite haside
    | childDied => exact leaves_ite haside
    | drainLimit => exact leaves_ite (.refl s)
    | attachDeadline => exact leaves_ite haside
    | linger => exact leaves_ite haside
    | drainTimeout => exact leaves_ite (.refl s)
  | consumer act => exact aloof_consume s act
  | cancel => exact haside
  | clientGone id => cases h
  | handOver =>
    simp only [step]
    split
    · exact aloof_handOver s
    · exact .refl s
  | reaped exitStatus =>
    simp only [step]
    split
    · exact ⟨rfl, rfl, rfl, fun _ => rfl⟩
    · exact .refl s

theorem outs_of_other {e : JobStep} {outs : List JobOut} (h : StepEffect s e t outs)
    (hother : Attended.isOther e = true) : outs = [] := by
  cases h with
  | branch hexit heffect =>
    cases heffect with
    | pending => rfl
    | next hsame => rfl
    | leave hsame hexit => rfl
    | recorded _ _ _ _ _ _ => cases hother
    | kept _ _ _ => cases hother
    | handed _ _ => rfl
    | dropped _ _ => rfl
    | accepted _ _ => cases hother
    | played _ _ => cases hother
  | _ => rfl

theorem aloof_attach_of_streaming (h : s.streaming = true) (client : ℕ) (access : Access)
    (playback : Playback) : Aloof s (s.step (.branch (.attach client access playback))).1 := by
  apply aloof_branch
  simp only [branch, attach, h, or_true, if_true]
  exact aloof_attachConsumer s client access

theorem step_attach_of_refused (hstreaming : s.streaming = false) (h : s.exit ≠ none ∨ s.dead = true)
    (client : ℕ) (access : Access) (playback : Playback) :
    s.step (.branch (.attach client access playback)) = (s, []) := by
  simp only [step]
  split
  · next hexit =>
    have hdead : s.dead = true := h.resolve_left fun hne => hne (Option.isNone_iff_eq_none.1 hexit)
    simp only [branch, attach, hdead, hstreaming]
    rfl
  · rfl

theorem step_attach (hexit : s.exit = none) (hdead : s.dead = false) (hstreaming : s.streaming = false)
    (heof : s.eof = false) (client : ℕ) (access : Access) (playback : Playback) :
    s.step (.branch (.attach client access playback)) =
      ((s.playBack playback).elim s fun played => { played.2 with
        clients := s.clients ++ [⟨s.nextClientId, access, played.1⟩]
        nextClientId := s.nextClientId + 1 }, []) := by
  simp only [step, hexit, Option.isNone_none, if_true, branch, attach, hdead, hstreaming, true_or,
    attachClient]
  cases hplayed : s.playBack playback with
  | none => rfl
  | some played =>
    obtain ⟨initial, t⟩ := played
    have haloof := aloof_playBack hplayed
    have heof' : t.eof = false := (haloof.eof hstreaming).trans heof
    simp only [Option.elim_some, settle, Bool.false_eq_true, if_false]
    rw [loopHead_of_not_eof (by exact heof'), haloof.clients, haloof.nextClientId]

theorem step_client (hexit : s.exit = none) (hdead : s.dead = false) (heof : s.eof = false)
    (hne : s.clients ≠ []) (id : ℕ) :
    s.step (.branch (.client (.failed id))) = (s.removeClient id, []) ∧
      ∀ message, s.step (.branch (.client (.message id message))) =
        (if message = .malformed ∨ message = .close ∧ s.readOnly id = false then s.removeClient id
          else s, []) := by
  have hremove : (s.removeClient id).loopHead = s.removeClient id := loopHead_of_not_eof heof
  have hstay : s.loopHead = s := loopHead_of_not_eof heof
  refine ⟨?_, fun message => ?_⟩
  · simp only [step, hexit, Option.isNone_none, if_true, branch, nextClient, hne, hdead, ne_eq,
      not_false_eq_true, and_self, settle, hremove]
  · cases message with
    | close =>
      cases hread : s.readOnly id with
      | false =>
        simp [step, hexit, branch, nextClient, hne, hdead, hread, settle, hremove]
      | true =>
        simp [step, hexit, branch, nextClient, hne, hdead, hread, settle, hstay]
    | malformed => simp [step, hexit, branch, nextClient, hne, hdead, settle, hremove]
    | windowChange => simp [step, hexit, branch, nextClient, hne, hdead, settle, hstay]
    | data => simp [step, hexit, branch, nextClient, hne, hdead, settle, hstay]
    | ignore => simp [step, hexit, branch, nextClient, hne, hdead, settle, hstay]

theorem run_clientGone (ids : List ℕ) (s : Job) : Lib.run Job.step s (ids.map .clientGone) =
    ({ s with clients := s.clients.filter fun c => !ids.contains c.id }, []) := by
  induction ids generalizing s with
  | nil => simp
  | cons id ids ih =>
    rw [List.map_cons, Lib.run_cons, step, ih, removeClient]
    simp only [List.filter_filter, List.nil_append, Prod.mk.injEq, and_true]
    congr 1
    apply List.filter_congr
    intro c _
    have hne : decide (c.id ≠ id) = !(c.id == id) := by
      by_cases h : c.id = id <;> simp [h]
    rw [hne, List.contains_cons, Bool.not_or, Bool.and_comm]

theorem keeps_run {P : Job → Prop} (hstep : ∀ s e, P s → P (s.step e).1) (steps : List JobStep)
    (h : P s) : P (Lib.run Job.step s steps).1 :=
  Lib.run_invariant Job.step (P := fun s _ _ => P s) (fun s _ _ e hs => hstep s e hs) h steps

end

end Job

namespace Attended

/-- The clients of a job are those the mux reads from. -/
structure Listed (j : Job) (m : WebSocketMux) : Prop where
  ids : j.clients.map Client.id = m.recv
  access : ∀ c ∈ j.clients, m.access[c.id]? = some c.access
  nextClientId : j.nextClientId = m.nextClientId

section

variable {j j' : Job} {m m' : WebSocketMux}

theorem Listed.mem_recv (h : Listed j m) {c : Client} (hc : c ∈ j.clients) : c.id ∈ m.recv :=
  h.ids ▸ List.mem_map_of_mem hc

theorem Listed.aloof (h : Listed j m) (haloof : j.Aloof j') : Listed j' m where
  ids := haloof.clients ▸ h.ids
  access := haloof.clients ▸ h.access
  nextClientId := haloof.nextClientId.trans h.nextClientId

theorem Listed.cut (h : Listed j m) (hcut : m.Cut m') {left : Client → Bool}
    (hleft : ∀ c ∈ j.clients, left c = m'.recv.contains c.id) :
    Listed { j with clients := j.clients.filter left } m' where
  ids := by
    have hfilter : (j.clients.map Client.id).filter m'.recv.contains = m'.recv := by
      rw [h.ids]
      exact hcut.recv_eq.symm
    rw [List.filter_map] at hfilter
    rwa [List.filter_congr hleft]
  access c hc := by
    obtain ⟨hmem, hc'⟩ := List.mem_filter.1 hc
    rw [hleft c hmem, List.contains_iff_mem] at hc'
    rw [hcut.access c.id hc']
    exact h.access c hmem
  nextClientId := h.nextClientId.trans hcut.nextClientId.symm

theorem Listed.remove (h : Listed j m) (id : ClientId) : Listed (j.removeClient id) (m.remove id) := by
  have hrecv : (m.remove id).recv = m.recv.filter (· ≠ id) := by
    unfold WebSocketMux.remove WebSocketMux.cancel
    split <;> rfl
  refine h.cut (m.cut_remove id) fun c hc => ?_
  rw [Bool.eq_iff_iff, List.contains_iff_mem, hrecv, List.mem_filter]
  exact ⟨fun hne => ⟨h.mem_recv hc, hne⟩, fun hleft => hleft.2⟩

theorem Listed.add (h : Listed j m) (hbooks : m.Books) (access : Access)
    (initial : List WebSocketMessage) (playback : Option (List UInt8))
    (hclients : j'.clients = j.clients ++ [⟨j.nextClientId, access, playback⟩])
    (hnext : j'.nextClientId = j.nextClientId + 1) : Listed j' (m.add access initial) where
  ids := by
    rw [hclients, List.map_append, h.ids, h.nextClientId]
    rfl
  access c hc := by
    change (m.access.insert m.nextClientId access)[c.id]? = some c.access
    rw [hclients, h.nextClientId] at hc
    rw [BTreeMap.get_insert]
    rcases List.mem_append.1 hc with hold | hnew
    · rw [if_neg (Nat.ne_of_gt (hbooks.recv_lt c.id (h.mem_recv hold)))]
      exact h.access c hold
    · rw [List.mem_singleton.1 hnew, if_pos rfl]
  nextClientId := hnext.trans (congrArg (· + 1) h.nextClientId)

theorem Listed.readOnly_iff {id : ClientId} (h : Listed j m) (hid : id ∈ m.recv) :
    j.readOnly id = true ↔ m.access[id]? = some .readOnly := by
  rw [Job.readOnly, List.any_eq_true]
  constructor
  · rintro ⟨c, hc, hsame⟩
    obtain ⟨rfl, hread⟩ := of_decide_eq_true hsame
    rw [h.access c hc, hread]
  · intro hread
    rw [← h.ids] at hid
    obtain ⟨c, hc, rfl⟩ := List.mem_map.1 hid
    rw [h.access c hc] at hread
    exact ⟨c, hc, decide_eq_true ⟨rfl, Option.some.inj hread⟩⟩

end

variable [ControlJson] [Digest]

/-! ## What is sent, heard and relayed -/

/-- What is relayed of a chunk. -/
def relayed (streaming empty : Bool) : JobOut → List WebSocketMessage
  | .delivered stream buf =>
    if (stream = .stdout ∧ streaming = true) ∨ empty = true then [] else [.binary buf]
  | .accepted _ _ => []

omit [Digest] in
theorem sendAll_eq (s : Attended) (message : InteractiveJobMessage) : s.sendAll message =
    { s with clients := s.clients.spread (WebSocketMessage.tryFrom message).toList } := by
  unfold sendAll
  cases WebSocketMessage.tryFrom message with
  | none => rfl
  | some message => rfl

omit [Digest] in
theorem relayChunk_eq (s : Attended) (out : JobOut) : s.relayChunk out =
    { s with clients := s.clients.spread (relayed s.job.streaming s.clients.isEmpty out) } := by
  cases out with
  | accepted client access => rfl
  | delivered stream buf =>
    simp only [relayChunk, relayed]
    split
    · rfl
    · rw [sendAll_eq]
      rfl

omit [Digest] in
theorem foldl_relayChunk_eq (outs : List JobOut) (s : Attended) : outs.foldl relayChunk s =
    { s with clients :=
        s.clients.spread (outs.flatMap (relayed s.job.streaming s.clients.isEmpty)) } := by
  induction outs generalizing s with
  | nil => rfl
  | cons out outs ih =>
    have hempty : ∀ messages, (s.clients.spread messages).isEmpty = s.clients.isEmpty := by
      intro messages
      rw [WebSocketMux.spread_eq]
      rfl
    rw [List.foldl_cons, relayChunk_eq, ih, hempty, List.flatMap_cons]
    simp only [WebSocketMux.spread, List.foldl_append]

/-- A message that ends a client: one that cannot be read, or a close from somebody who may write. -/
def removes (s : Attended) (id : ClientId) (message : Option InteractiveJobMessage) : Bool :=
  message = none ∨ message = some .close ∧ s.readOnly id = false

/-- What is sent to all clients because of a message. -/
def passedOn (s : Attended) (id : ClientId) : Option InteractiveJobMessage → List WebSocketMessage
  | some (.control control) =>
    if s.readOnly id then [] else (WebSocketMessage.tryFrom (.control control)).toList
  | _ => []

/-- Input that is let through: somebody who may write typed it into a pseudoterminal. -/
def LetThrough (s : Attended) (id : ClientId) (message : Option InteractiveJobMessage)
    (input : Channel (List UInt8)) : Prop :=
  ∃ bytes, message = some (.data bytes) ∧ s.readOnly id = false ∧ s.input.trySend bytes = some input ∧
    (s.job.io.mark .stderr).isSome = false

omit [Digest] in
/-- **What is made of a message.** -/
theorem handle_eq (s : Attended) (id : ClientId) (resized : Bool)
    (message : Option InteractiveJobMessage) : ∃ window input,
      s.handle id resized message = { s with
        clients := if s.removes id message = true then s.clients.remove id
          else s.clients.spread (s.passedOn id message)
        window, input } ∧ (input = s.input ∨ s.LetThrough id message input) := by
  rcases message with _ | message
  · exact ⟨s.window, s.input, by simp [handle, removes, remove], .inl rfl⟩
  · cases hread : s.readOnly id with
    | true =>
      refine ⟨s.window, s.input, ?_, .inl rfl⟩
      rcases message with ⟨⟨size⟩⟩ | bytes | _ | _ <;>
        simp [handle, removes, passedOn, hread, WebSocketMux.spread]
    | false =>
      rcases message with ⟨⟨size⟩⟩ | bytes | _ | _
      · obtain ⟨window, hwindow⟩ : ∃ window, s.setWindowSize size resized = { s with window } := by
          unfold setWindowSize
          split
          · split <;> exact ⟨_, rfl⟩
          · exact ⟨_, rfl⟩
        refine ⟨window, s.input, ?_, .inl rfl⟩
        simp [handle, removes, passedOn, hread, sendAll_eq, hwindow]
      · refine ⟨s.window, (s.writeInput bytes).input, ?_, ?_⟩
        · simp only [handle, removes, passedOn, hread, writeInput, WebSocketMux.spread]
          cases s.job.io <;> simp
        · simp only [writeInput]
          cases hio : s.job.io with
          | batch stdout stderr => exact .inl rfl
          | interactive pty =>
            cases hsend : s.input.trySend bytes with
            | none => exact .inl rfl
            | some input => exact .inr ⟨bytes, rfl, hread, hsend, by rw [hio]; rfl⟩
      · exact ⟨s.window, s.input, by simp [handle, removes, passedOn, hread, WebSocketMux.spread], .inl rfl⟩
      · exact ⟨s.window, s.input, by simp [handle, removes, hread, remove], .inl rfl⟩

omit [ControlJson] [Digest] in
theorem relay_eq (s : Attended) (act : RelayAct) : ∃ input typed, s.relay act = { s with input, typed } := by
  cases act with
  | write failed =>
    simp only [relay]
    split
    · exact ⟨_, _, rfl⟩
    · split <;> exact ⟨_, _, rfl⟩
  | stopped =>
    simp only [relay]
    split <;> exact ⟨_, _, rfl⟩

/-! ## An attended job is a job -/

def jobOuts (outs : List AttendedOut) : List JobOut :=
  outs.filterMap fun
    | .job out => some out
    | _ => none

omit [ControlJson] [Digest] in
theorem jobOuts_append (outs new : List AttendedOut) : jobOuts (outs ++ new) = jobOuts outs ++ jobOuts new :=
  List.filterMap_append

omit [ControlJson] [Digest] in
@[simp] theorem jobOuts_map_job (outs : List JobOut) : jobOuts (outs.map .job) = outs := by
  rw [jobOuts, List.filterMap_map]
  exact List.filterMap_some

omit [Digest] in
theorem job_listen (s : Attended) (resized : Bool) (next : FromMux) :
    (s.listen resized next).1.job = s.job ∧ jobOuts (s.listen resized next).2 = [] := by
  cases next with
  | pending => exact ⟨rfl, rfl⟩
  | failed id =>
    simp only [listen]
    split <;> exact ⟨rfl, rfl⟩
  | message id message =>
    simp only [listen]
    split
    · obtain ⟨window, input, heq, -⟩ := s.handle_eq id resized (InteractiveJobMessage.tryFrom message)
      refine ⟨by rw [heq], ?_⟩
      cases InteractiveJobMessage.tryFrom message <;> rfl
    · exact ⟨rfl, rfl⟩

/-- What happens to the job is what `jobSteps` says. -/
theorem step_job (s : Attended) (e : AttendedStep) :
    (s.step e).1.job = (Lib.run Job.step s.job (s.jobSteps e)).1 ∧
      jobOuts (s.step e).2 = (Lib.run Job.step s.job (s.jobSteps e)).2 := by
  cases e with
  | read raw write =>
    simp only [step, read]
    refine ⟨?_, jobOuts_map_job _⟩
    rw [apply_ite Attended.job, sendAll_eq, foldl_relayChunk_eq, ite_self]
    rfl
  | attach client access playback sized =>
    simp only [step, attach]
    split
    · cases s.job.playBack playback with
      | none => exact ⟨rfl, jobOuts_map_job _⟩
      | some played =>
        refine ⟨rfl, ?_⟩
        rw [jobOuts_append, jobOuts_map_job]
        exact List.append_nil _
    · exact ⟨rfl, jobOuts_map_job _⟩
  | poll gone next resized =>
    simp only [step, poll]
    split
    · obtain ⟨hjob, houts⟩ := job_listen
        { (s.runJob (s.jobSteps (.poll gone next resized))).1 with
          clients := s.clients.pollNext gone } resized next
      refine ⟨hjob, ?_⟩
      rw [jobOuts_append, jobOuts_map_job, houts, List.append_nil]
      rfl
    · next hlistens => simp [jobSteps, hlistens, jobOuts]
  | writer id act => exact ⟨rfl, rfl⟩
  | relay act =>
    obtain ⟨input, typed, heq⟩ := s.relay_eq act
    simp only [step, heq]
    exact ⟨rfl, rfl⟩
  | other e =>
    simp only [step, other]
    refine ⟨?_, jobOuts_map_job _⟩
    rw [apply_ite Attended.job, ite_self]
    rfl

def filesSucceed : AttendedStep → Bool
  | .read _ (.failed _) => false
  | .attach _ _ (.failed _ _) _ => false
  | _ => true

omit [Digest] in
theorem filesSucceed_jobSteps {s : Attended} {e : AttendedStep} (h : filesSucceed e = true) :
    ∀ j ∈ s.jobSteps e, j.filesSucceed = true := by
  cases e with
  | read raw write =>
    cases write with
    | done => simp [jobSteps, JobStep.filesSucceed]
    | failed file => cases h
  | attach client access playback sized =>
    cases playback with
    | played len => simp [jobSteps, JobStep.filesSucceed]
    | failed position restored => cases h
  | poll gone next resized =>
    have hnext : ∀ left, ∀ j ∈ fromClients left next, j.filesSucceed = true := by
      intro left j hj
      cases next with
      | pending => cases hj
      | failed id =>
        simp only [fromClients] at hj
        split at hj
        · rw [List.mem_singleton.1 hj]
          rfl
        · cases hj
      | message id message =>
        simp only [fromClients] at hj
        split at hj
        · rw [List.mem_singleton.1 hj]
          rfl
        · cases hj
    intro j hj
    simp only [jobSteps] at hj
    split at hj
    · rcases List.mem_append.1 hj with hgone | hj
      · obtain ⟨id, -, rfl⟩ := List.mem_map.1 hgone
        rfl
      · exact hnext _ j hj
    · cases hj
  | writer id act => simp [jobSteps]
  | relay act => simp [jobSteps]
  | other e =>
    intro j hj
    simp only [jobSteps] at hj
    split at hj
    · next hother =>
      rw [List.mem_singleton.1 hj]
      cases e with
      | branch b =>
        cases b with
        | read raw write => cases hother
        | attach client access playback => cases hother
        | _ => rfl
      | _ => rfl
    · cases hj

/-- **An attended job is a job.** -/
theorem refines_job (mode : JobMode) (limits : JobLimits) (window : WindowSize)
    (steps : List AttendedStep) : ∃ jobSteps,
      (run mode limits window steps).1.job = (Job.run mode limits jobSteps).1 ∧
      jobOuts (run mode limits window steps).2 = (Job.run mode limits jobSteps).2 ∧
      ((∀ e ∈ steps, filesSucceed e = true) → ∀ j ∈ jobSteps, j.filesSucceed = true) := by
  refine Lib.run_invariant step (P := fun s pre outs => ∃ jobSteps,
    s.job = (Job.run mode limits jobSteps).1 ∧ jobOuts outs = (Job.run mode limits jobSteps).2 ∧
    ((∀ e ∈ pre, filesSucceed e = true) → ∀ j ∈ jobSteps, j.filesSucceed = true)) ?_ ?_ steps
  · rintro s pre outs e ⟨jobSteps, hjob, houts, hfiles⟩
    obtain ⟨hstep, hnew⟩ := step_job s e
    refine ⟨jobSteps ++ s.jobSteps e, ?_, ?_, ?_⟩
    · rw [hstep, hjob, Job.run_append]
    · rw [jobOuts_append, houts, hnew, hjob, Job.run_append]
    · intro hpre j hj
      rcases List.mem_append.1 hj with hold | hnew
      · exact hfiles (fun e he => hpre e (List.mem_append_left _ he)) j hold
      · exact filesSucceed_jobSteps (hpre e (List.mem_append_right _ (.head _))) j hnew
  · exact ⟨[], rfl, rfl, fun _ j hj => by cases hj⟩

/-! ## What a step does to the clients and the input -/

/-- What a read sends to the clients. -/
def readMessages (s : Attended) (raw : RawRead) (write : Write) : List WebSocketMessage :=
  let ran := s.job.step (.branch (.read raw write))
  ran.2.flatMap (relayed ran.1.streaming s.clients.isEmpty) ++
    if s.job.exit = none ∧ ran.1.exit = some .readError then [.close none] else []

theorem step_read_eq (s : Attended) (raw : RawRead) (write : Write) :
    s.step (.read raw write) = ({ s with
      job := (s.job.step (.branch (.read raw write))).1
      clients := s.clients.spread (s.readMessages raw write) },
      (s.job.step (.branch (.read raw write))).2.map .job) := by
  have hrun : s.runJob (s.jobSteps (.read raw write)) =
      ({ s with job := (s.job.step (.branch (.read raw write))).1 },
        (s.job.step (.branch (.read raw write))).2) := by
    simp only [runJob, jobSteps, Lib.run_cons, Lib.run_nil, List.append_nil]
  simp only [step, read, hrun, foldl_relayChunk_eq, readMessages]
  split
  · rw [sendAll_eq]
    simp only [WebSocketMux.spread, List.foldl_append]
    rfl
  · rw [List.append_nil]

def payload : WebSocketMessage → List UInt8
  | .binary bytes => bytes
  | _ => []

def delivered (outs : List AttendedOut) : List (List UInt8) :=
  (jobOuts outs).filterMap fun
    | .delivered _ buf => some buf
    | .accepted _ _ => none

/-- What a step makes of the clients: some are dropped and the others are sent messages, with all the
output that there is; or one is added, a task goes on, or the mux is dropped. -/
inductive Serves (s t : Attended) (outs : List AttendedOut) : Prop
  | sends {m : WebSocketMux} {messages : List WebSocketMessage} (hcut : s.clients.Cut m)
      (hclients : t.clients = m.spread messages) (hlisted : Listed t.job m)
      (hreport : t.job.report.isSome = true → s.job.report.isSome = true)
      (houtput : s.job.streaming = false → s.clients.isEmpty = false →
        messages.flatMap payload = (delivered outs).flatten) : Serves s t outs
  | adds {access : Access} {initial : List WebSocketMessage}
      (hclients : t.clients = s.clients.add access initial) (hlisted : Listed t.job t.clients)
      (hstreaming : s.job.streaming = false) (hreport : t.job.report = none)
      (houts : outs = [.attached s.clients.nextClientId access]) : Serves s t outs
  | turns {id : ClientId} {act : WriterAct} (hjob : t.job = s.job)
      (hclients : t.clients = s.clients.act id s.job.stop act) (houts : outs = []) : Serves s t outs
  | drops (hclients : t.clients = s.clients.drop) (hlisted : Listed t.job s.clients)
      (houts : delivered outs = []) : Serves s t outs

/-- What a step makes of the input: nothing, or somebody who may write typed something, or it is
relayed. -/
inductive Types (s t : Attended) (outs : List AttendedOut) : Prop
  | nothing (hinput : t.input = s.input) (htyped : t.typed = s.typed) : Types s t outs
  | something (id : ClientId) (bytes : List UInt8) (hid : id ∈ s.clients.recv)
      (hwrites : s.clients.access[id]? ≠ some .readOnly) (houts : outs = [.heard id (.data bytes)])
      (hsend : s.input.trySend bytes = some t.input) (htyped : t.typed = s.typed)
      (hmark : (s.job.io.mark .stderr).isSome = false) : Types s t outs
  | relayed (act : RelayAct) (ht : t = s.relay act) : Types s t outs

structure Does (s t : Attended) (outs : List AttendedOut) : Prop where
  mode : t.job.mode = s.job.mode
  eof : s.job.streaming = false → t.job.eof = s.job.eof
  clients : Serves s t outs
  input : Types s t outs

/-- The job and the mux agree about the clients, and once the job's function has returned no task runs
that was not told to end. -/
structure Agrees (s : Attended) : Prop where
  books : s.clients.Books
  listed : Listed s.job s.clients
  /-- A streaming job has no clients but its consumer. -/
  streaming : s.job.streaming = true → s.clients.recv = []
  eof : s.job.streaming = false → s.job.eof = false
  reported : s.job.Reported
  ended : s.job.report.isSome = true → ∀ w ∈ s.clients.tasks, w.Ending

variable {s t : Attended} {outs : List AttendedOut}

omit [ControlJson] in
theorem Agrees.report_eq_none (h : s.Agrees) (hexit : s.job.exit = none) : s.job.report = none := by
  cases hreport : s.job.report with
  | none => rfl
  | some report =>
    have hended := (h.reported report.1 report.2 hreport).1
    rw [hexit] at hended
    cases hended

omit [ControlJson] in
theorem Agrees.eof_of_mem (h : s.Agrees) {id : ClientId} (hid : id ∈ s.clients.recv) :
    s.job.eof = false := by
  cases hstreaming : s.job.streaming with
  | true =>
    rw [h.streaming hstreaming] at hid
    cases hid
  | false => exact h.eof hstreaming

omit [ControlJson] in
theorem Agrees.aside (h : s.Agrees) (haloof : s.job.Aloof t.job) (messages : List WebSocketMessage)
    (hclients : t.clients = s.clients.spread messages)
    (hreport : t.job.report.isSome = true → s.job.report.isSome = true)
    (houtput : s.job.streaming = false → s.clients.isEmpty = false →
      messages.flatMap payload = (delivered outs).flatten) (hinput : Types s t outs) : Does s t outs where
  mode := haloof.mode
  eof := haloof.eof
  clients := .sends (.refl _) hclients (h.listed.aloof haloof) hreport houtput
  input := hinput

omit [ControlJson] in
theorem Agrees.still (h : s.Agrees) : Does s s [] :=
  h.aside (.refl s.job) [] rfl id (fun _ _ => rfl) (.nothing rfl rfl)

omit [ControlJson] in
theorem report_branch (j : Job) (b : Job.Branch) : (j.step (.branch b)).1.report = j.report := by
  simp only [Job.step]
  split
  · exact Job.report_settle (Job.effect_branch j b)
  · rfl

omit [ControlJson] [Digest] in
theorem payload_relayed (outs : List JobOut) :
    (outs.flatMap (relayed false false)).flatMap payload = (delivered (outs.map .job)).flatten := by
  rw [delivered, jobOuts_map_job]
  induction outs with
  | nil => rfl
  | cons out outs ih =>
    cases out with
    | accepted client access => simpa [relayed] using ih
    | delivered stream buf => simpa [relayed, payload] using ih

theorem Agrees.does_read (h : s.Agrees) (raw : RawRead) (write : Write) :
    Does s (s.step (.read raw write)).1 (s.step (.read raw write)).2 := by
  have haloof := s.job.aloof_read raw write
  rw [step_read_eq]
  refine h.aside haloof _ rfl (fun hreport => report_branch s.job _ ▸ hreport)
    (fun hstreaming hempty => ?_) (.nothing rfl rfl)
  have hclose : (if s.job.exit = none ∧ (s.job.step (.branch (.read raw write))).1.exit =
      some .readError then [WebSocketMessage.close none] else []).flatMap payload = [] := by
    split <;> rfl
  rw [readMessages, haloof.streaming, hstreaming, hempty, List.flatMap_append, payload_relayed, hclose,
    List.append_nil]

theorem Agrees.does_other (h : s.Agrees) (e : JobStep) :
    Does s (s.step (.other e)).1 (s.step (.other e)).2 := by
  have haloof : s.job.Aloof (s.step (.other e)).1.job := by
    rw [(step_job s (.other e)).1, jobSteps]
    split
    · next hother => exact Job.aloof_other hother
    · exact .refl s.job
  have houts : delivered (s.step (.other e)).2 = [] := by
    rw [delivered, (step_job s (.other e)).2, jobSteps]
    split
    · next hother =>
      rw [Lib.run_cons, Lib.run_nil, List.append_nil, Job.outs_of_other (Job.effect_step s.job e) hother]
      rfl
    · rfl
  simp only [step, other] at haloof houts ⊢
  split
  · next hreport =>
    rw [if_pos hreport] at haloof
    exact ⟨haloof.mode, haloof.eof, .drops rfl (h.listed.aloof haloof) houts, .nothing rfl rfl⟩
  · next hreport =>
    rw [if_neg hreport] at haloof
    refine h.aside haloof [] rfl (fun hsome => ?_) (fun _ _ => by rw [houts]; rfl) (.nothing rfl rfl)
    cases hnone : s.job.report.isNone with
    | true => exact absurd ⟨hnone, hsome⟩ hreport
    | false => simpa using hnone

/-! ## Attaching -/

theorem step_attach_of_streaming (hstreaming : s.job.streaming = true) (client : ℕ) (access : Access)
    (playback : Playback) (sized : Bool) : s.step (.attach client access playback sized) =
      ({ s with job := (s.job.step (.branch (.attach client access playback))).1 },
        (s.job.step (.branch (.attach client access playback))).2.map .job) := by
  have hnot : ¬(s.accepts = true ∧ s.job.streaming = false) := by
    rintro ⟨-, hnot⟩
    rw [hstreaming] at hnot
    cases hnot
  simp only [step, attach, if_neg hnot, runJob, jobSteps, Lib.run_cons, Lib.run_nil, List.append_nil]

omit [ControlJson] [Digest] in
theorem accepts_iff (hstreaming : s.job.streaming = false) :
    s.accepts = true ↔ s.job.exit = none ∧ s.job.dead = false := by
  simp [accepts, hstreaming]

theorem step_attach_of_refused (hstreaming : s.job.streaming = false) (h : ¬s.accepts = true) (client : ℕ)
    (access : Access) (playback : Playback) (sized : Bool) :
    s.step (.attach client access playback sized) = (s, []) := by
  have hrefused : s.job.exit ≠ none ∨ s.job.dead = true := by
    rw [accepts_iff hstreaming, not_and_or, Bool.not_eq_false] at h
    exact h
  have hstep := Job.step_attach_of_refused hstreaming hrefused client access playback
  simp only [step, attach, if_neg fun hboth => h (And.left hboth), runJob, jobSteps, Lib.run_cons,
    Lib.run_nil, hstep, List.append_nil, List.map_nil]

theorem step_attach_of_accepted (h : s.Agrees) (hstreaming : s.job.streaming = false)
    (haccepts : s.accepts = true) (client : ℕ) (access : Access) (playback : Playback) (sized : Bool) :
    s.step (.attach client access playback sized) =
      (s.job.playBack playback).elim (s, []) fun played =>
        ({ s with
            job := { played.2 with
              clients := s.job.clients ++ [⟨s.job.nextClientId, access, played.1⟩]
              nextClientId := s.job.nextClientId + 1 }
            clients := s.clients.add access (s.initialMessages played.1 sized) },
          [.attached s.clients.nextClientId access]) := by
  obtain ⟨hexit, hdead⟩ := (accepts_iff hstreaming).1 haccepts
  have hstep := Job.step_attach hexit hdead hstreaming (h.eof hstreaming) client access playback
  simp only [step, attach, if_pos (And.intro haccepts hstreaming), runJob, jobSteps, Lib.run_cons,
    Lib.run_nil, hstep, List.append_nil, List.map_nil, List.nil_append]
  cases s.job.playBack playback with
  | none => rfl
  | some played => rfl

theorem Agrees.does_attach (h : s.Agrees) (client : ℕ) (access : Access) (playback : Playback)
    (sized : Bool) : Does s (s.step (.attach client access playback sized)).1
      (s.step (.attach client access playback sized)).2 := by
  cases hstreaming : s.job.streaming with
  | true =>
    rw [step_attach_of_streaming hstreaming]
    refine h.aside (Job.aloof_attach_of_streaming hstreaming client access playback) [] rfl
      (fun hreport => report_branch s.job _ ▸ hreport) (fun hnot => ?_) (.nothing rfl rfl)
    rw [hstreaming] at hnot
    cases hnot
  | false =>
    by_cases haccepts : s.accepts = true
    · rw [step_attach_of_accepted h hstreaming haccepts]
      cases hplayed : s.job.playBack playback with
      | none => exact h.still
      | some played =>
        obtain ⟨initial, j⟩ := played
        obtain ⟨hexit, -⟩ := (accepts_iff hstreaming).1 haccepts
        have haloof := Job.aloof_playBack hplayed
        have hreport := (Job.replayed_playBack hplayed).report.trans (h.report_eq_none hexit)
        refine ⟨haloof.mode, haloof.eof, .adds rfl ?_ hstreaming hreport rfl, .nothing rfl rfl⟩
        exact h.listed.add h.books access (s.initialMessages initial sized) initial rfl rfl
    · rw [step_attach_of_refused hstreaming haccepts]
      exact h.still

/-! ## Listening -/

/-- The clients that are left after some are gone. -/
def left (s : Attended) (gone : List ClientId) : Attended :=
  { s with
    job := { s.job with
      clients := s.job.clients.filter fun c => (s.clients.pollNext gone).recv.contains c.id }
    clients := s.clients.pollNext gone }

omit [ControlJson] in
theorem Agrees.listed_left (h : s.Agrees) (gone : List ClientId) :
    Listed (s.left gone).job (s.left gone).clients :=
  h.listed.cut (s.clients.cut_pollNext gone) fun _ _ => rfl

omit [ControlJson] in
theorem Agrees.run_gone (h : s.Agrees) (gone : List ClientId) :
    Lib.run Job.step s.job ((s.clients.recv.filter fun id =>
      !(s.clients.pollNext gone).recv.contains id).map .clientGone) = ((s.left gone).job, []) := by
  rw [Job.run_clientGone]
  simp only [left, Prod.mk.injEq, and_true]
  congr 1
  apply List.filter_congr
  intro c hc
  have hmem := h.listed.mem_recv hc
  rw [Bool.eq_iff_iff, Bool.not_eq_true', ← Bool.not_eq_true, List.contains_iff_mem, List.mem_filter]
  simp [hmem]

/-- What is left of the job when a client that is there was heard. -/
def jobAfter (s : Attended) : FromMux → Job
  | .pending => s.job
  | .failed id => if s.clients.recv.contains id = true then s.job.removeClient id else s.job
  | .message id message =>
    if s.clients.recv.contains id = true ∧ s.removes id (InteractiveJobMessage.tryFrom message) = true then
      s.job.removeClient id
    else s.job

omit [ControlJson] [Digest] in
theorem clientMessage_removes (s : Attended) (id : ClientId) (message : Option InteractiveJobMessage) :
    (clientMessage message = .malformed ∨ clientMessage message = .close ∧ s.readOnly id = false) ↔
      s.removes id message = true := by
  rcases message with _ | ⟨⟨size⟩⟩ | bytes | _ | _ <;> simp [clientMessage, removes]

theorem run_fromClients (hlisted : Listed s.job s.clients)
    (heof : ∀ id ∈ s.clients.recv, s.job.eof = false) (hexit : s.job.exit = none)
    (hdead : s.job.dead = false) (next : FromMux) :
    Lib.run Job.step s.job (fromClients s.clients.recv next) = (s.jobAfter next, []) := by
  have hclient : ∀ id, s.clients.recv.contains id = true → s.job.clients ≠ [] ∧ s.job.eof = false ∧
      (s.job.readOnly id = false ↔ s.readOnly id = false) := by
    intro id hid
    rw [List.contains_iff_mem] at hid
    have hread := hlisted.readOnly_iff hid
    refine ⟨?_, heof id hid, ?_⟩
    · rw [← hlisted.ids] at hid
      exact List.ne_nil_of_mem (List.mem_map.1 hid).choose_spec.1
    · rw [readOnly, ← Bool.not_eq_true, ← Bool.not_eq_true, hread, decide_eq_true_iff]
  cases next with
  | pending => rfl
  | failed id =>
    simp only [fromClients, jobAfter]
    split
    · next hid =>
      obtain ⟨hne, heof, -⟩ := hclient id hid
      simp only [Lib.run_cons, Lib.run_nil, (Job.step_client hexit hdead heof hne id).1, List.append_nil]
    · rfl
  | message id message =>
    simp only [fromClients, jobAfter]
    by_cases hid : s.clients.recv.contains id = true
    · obtain ⟨hne, heof, hread⟩ := hclient id hid
      have hstep := (Job.step_client hexit hdead heof hne id).2
      rw [if_pos hid]
      simp only [Lib.run_cons, Lib.run_nil, hstep, List.append_nil, hread, clientMessage_removes, hid, true_and]
    · rw [if_neg hid, if_neg fun h => hid h.1]
      rfl

theorem step_poll_of_not (h : ¬s.listens = true) (gone : List ClientId) (next : FromMux) (resized : Bool) :
    s.step (.poll gone next resized) = (s, []) := by
  simp only [step, poll, if_neg h]

theorem step_poll_eq (h : s.Agrees) (hlistens : s.listens = true) (gone : List ClientId) (next : FromMux)
    (resized : Bool) : s.step (.poll gone next resized) =
      ({ s.left gone with job := (s.left gone).jobAfter next }.listen resized next) := by
  obtain ⟨hexit, hempty, hdead⟩ : s.job.exit = none ∧ s.clients.isEmpty = false ∧ s.job.dead = false := by
    simpa [listens] using hlistens
  have heof : ∀ id ∈ (s.left gone).clients.recv, (s.left gone).job.eof = false :=
    fun id hid => h.eof_of_mem ((s.clients.cut_pollNext gone).mem_recv hid)
  have hrun : s.runJob (s.jobSteps (.poll gone next resized)) =
      ({ s with job := (s.left gone).jobAfter next }, []) := by
    have hnext := run_fromClients (h.listed_left gone) heof hexit hdead next
    simp only [runJob, jobSteps, hlistens, if_true, Lib.run_append, h.run_gone]
    rw [show (s.clients.pollNext gone).recv = (s.left gone).clients.recv from rfl, hnext]
    rfl
  simp only [step, poll, hlistens, if_true, hrun, List.map_nil, List.nil_append]
  rfl

omit [ControlJson] [Digest] in
theorem does_cut {m : WebSocketMux} {clients : List Client} (messages : List WebSocketMessage)
    (hcut : s.clients.Cut m) (hclients : t.clients = m.spread messages) (hlisted : Listed t.job m)
    (hjob : t.job = { s.job with clients }) (houtput : messages.flatMap payload = (delivered outs).flatten)
    (hinput : Types s t outs) : Does s t outs where
  mode := by rw [hjob]
  eof _ := by rw [hjob]
  clients := .sends hcut hclients hlisted (by rw [hjob]; exact id) fun _ _ => houtput
  input := hinput

omit [Digest] in
theorem payload_passedOn (s : Attended) (id : ClientId) (message : Option InteractiveJobMessage) :
    (s.passedOn id message).flatMap payload = [] := by
  unfold passedOn
  split
  · split <;> rfl
  · rfl

omit [ControlJson] [Digest] in
theorem types_left {gone : List ClientId} {id : ClientId} {message : Option InteractiveJobMessage}
    {u : Attended} (hid : id ∈ (s.left gone).clients.recv) (hu : u.clients = (s.left gone).clients)
    (hsame : u.input = s.input) (hio : u.job.io = s.job.io) (htyped : t.typed = s.typed)
    (hinput : t.input = u.input ∨ u.LetThrough id message t.input) :
    Types s t (message.toList.map (.heard id)) := by
  have hcut := s.clients.cut_pollNext gone
  rcases hinput with hinput | ⟨bytes, rfl, hread, hsend, hmark⟩
  · exact .nothing (hinput.trans hsame) htyped
  · refine .something id bytes (hcut.mem_recv hid) ?_ rfl (hsame ▸ hsend) htyped (hio ▸ hmark)
    rw [readOnly, hu] at hread
    rw [← hcut.access id hid]
    exact of_decide_eq_false hread

theorem Agrees.does_poll (h : s.Agrees) (gone : List ClientId) (next : FromMux) (resized : Bool) :
    Does s (s.step (.poll gone next resized)).1 (s.step (.poll gone next resized)).2 := by
  by_cases hlistens : s.listens = true
  · have hcut := s.clients.cut_pollNext gone
    have hlisted := h.listed_left gone
    have hleft : Does s (s.left gone) [] := does_cut [] hcut rfl hlisted rfl rfl (.nothing rfl rfl)
    rw [step_poll_eq h hlistens]
    cases next with
    | pending => exact hleft
    | failed id =>
      simp only [listen, jobAfter]
      split
      · exact does_cut [] (hcut.trans (WebSocketMux.cut_remove _ id)) rfl (hlisted.remove id)
          rfl rfl (.nothing rfl rfl)
      · exact hleft
    | message id message =>
      simp only [listen, jobAfter]
      by_cases hid : (s.left gone).clients.recv.contains id = true
      · have houts : delivered ((InteractiveJobMessage.tryFrom message).toList.map (.heard id)) = [] := by
          cases InteractiveJobMessage.tryFrom message <;> rfl
        have hid' := List.contains_iff_mem.1 hid
        rw [if_pos hid]
        by_cases hremoves : (s.left gone).removes id (InteractiveJobMessage.tryFrom message) = true
        · rw [if_pos ⟨hid, hremoves⟩]
          obtain ⟨window, input, heq, hinput⟩ := handle_eq
            { s.left gone with job := (s.left gone).job.removeClient id } id resized
            (InteractiveJobMessage.tryFrom message)
          rw [heq]
          exact does_cut [] (hcut.trans (WebSocketMux.cut_remove _ id)) (if_pos hremoves)
            (hlisted.remove id) rfl (by rw [houts]; rfl) (types_left hid' rfl rfl rfl rfl hinput)
        · rw [if_neg fun hboth => hremoves hboth.2]
          obtain ⟨window, input, heq, hinput⟩ := (s.left gone).handle_eq id resized
            (InteractiveJobMessage.tryFrom message)
          rw [heq]
          exact does_cut _ hcut (if_neg hremoves) hlisted rfl (by rw [houts]; exact payload_passedOn ..)
            (types_left hid' rfl rfl rfl rfl hinput)
      · rw [if_neg hid, if_neg fun hboth => hid hboth.1]
        exact hleft
  · rw [step_poll_of_not hlistens]
    exact h.still

/-- **What a step does.** -/
theorem Agrees.does_step (h : s.Agrees) (e : AttendedStep) : Does s (s.step e).1 (s.step e).2 := by
  cases e with
  | read raw write => exact h.does_read raw write
  | attach client access playback sized => exact h.does_attach client access playback sized
  | poll gone next resized => exact h.does_poll gone next resized
  | writer id act => exact ⟨rfl, fun _ => rfl, .turns rfl rfl rfl, .nothing rfl rfl⟩
  | relay act =>
    obtain ⟨input, typed, heq⟩ := s.relay_eq act
    have haloof : s.job.Aloof (s.relay act).job := by
      rw [heq]
      exact .refl s.job
    refine h.aside haloof [] ?_ ?_ (fun _ _ => rfl) (.relayed act rfl)
    · simp only [step, heq]
      rfl
    · simp only [step, heq]
      exact id
  | other e => exact h.does_other e

/-! ## Agreement -/

omit [ControlJson] [Digest] in
theorem Does.streaming (h : Does s t outs) : t.job.streaming = s.job.streaming := by
  rw [Job.streaming, Job.streaming, h.mode]

omit [ControlJson] in
/-- **The job and the mux agree after every step.** -/
theorem Agrees.does (h : s.Agrees) (hdoes : Does s t outs) (hreported : t.job.Reported) : t.Agrees := by
  have heof : t.job.streaming = false → t.job.eof = false := by
    intro hstreaming
    rw [hdoes.streaming] at hstreaming
    exact (hdoes.eof hstreaming).trans (h.eof hstreaming)
  have hrecv : t.clients.recv ⊆ s.clients.recv → t.job.streaming = true → t.clients.recv = [] := by
    intro hsub hstreaming
    rw [hdoes.streaming] at hstreaming
    exact List.subset_nil.1 (h.streaming hstreaming ▸ hsub)
  cases hdoes.clients with
  | @sends m messages hcut hclients hlisted hreport houtput =>
    rw [WebSocketMux.spread_eq] at hclients
    refine ⟨?_, ?_, hrecv ?_, heof, hreported, fun hsome => ?_⟩
    · rw [hclients, ← WebSocketMux.spread_eq]
      exact (hcut.books h.books).spread messages
    · rw [hclients]
      exact ⟨hlisted.ids, hlisted.access, hlisted.nextClientId⟩
    · rw [hclients]
      exact fun id hid => hcut.mem_recv hid
    · rw [hclients]
      exact hcut.ending (h.ended (hreport hsome))
  | adds hclients hlisted hstreaming hreport houts =>
    refine ⟨hclients ▸ h.books.add .., hlisted, fun hnot => ?_, heof, hreported, fun hsome => ?_⟩
    · rw [hdoes.streaming, hstreaming] at hnot
      cases hnot
    · rw [hreport] at hsome
      cases hsome
  | @turns id act hjob hclients houts =>
    have hbooks := h.books.act id s.job.stop act
    refine ⟨hclients ▸ hbooks, ?_, hrecv ?_, heof, hreported, fun hsome w hw => ?_⟩
    · rw [hjob, hclients]
      exact ⟨h.listed.ids, h.listed.access, h.listed.nextClientId⟩
    · rw [hclients]
      exact List.Subset.refl _
    · rw [hclients] at hw
      exact WebSocketMux.ending_act (h.ended (hjob ▸ hsome)) hw
  | drops hclients hlisted houts =>
    refine ⟨hclients ▸ h.books.drop, ?_, hrecv ?_, heof, hreported, fun _ w hw => ?_⟩
    · rw [hclients]
      exact ⟨hlisted.ids, hlisted.access, hlisted.nextClientId⟩
    · rw [hclients]
      exact List.Subset.refl _
    · rw [hclients] at hw
      exact WebSocketMux.ending_of_drop h.books hw

theorem Agrees.step (h : s.Agrees) (e : AttendedStep) : (s.step e).1.Agrees := by
  refine h.does (h.does_step e) ?_
  rw [(step_job s e).1]
  exact Job.keeps_run (fun j e hj => hj.step (Job.effect_step j e)) _ h.reported

omit [ControlJson] in
theorem agrees_start (mode : JobMode) (limits : JobLimits) (window : WindowSize) :
    (start mode limits window).Agrees where
  books := WebSocketMux.books_new
  listed := ⟨rfl, fun _ hc => absurd hc List.not_mem_nil, rfl⟩
  streaming _ := rfl
  eof _ := rfl
  reported _ _ hreport := by cases hreport
  ended hreport := by cases hreport

omit [ControlJson] [Digest] in
theorem Serves.nextClientId_le (h : Serves s t outs) :
    t.clients.nextClientId ≤ s.clients.nextClientId + 1 := by
  cases h with
  | sends hcut hclients =>
    rw [hclients, WebSocketMux.spread_eq]
    exact hcut.nextClientId.le.trans (Nat.le_succ _)
  | adds hclients => exact hclients ▸ le_rfl
  | turns _ hclients => exact hclients ▸ Nat.le_succ _
  | drops hclients => exact hclients ▸ Nat.le_succ _

theorem agrees_run (mode : JobMode) (limits : JobLimits) (window : WindowSize) (steps : List AttendedStep) :
    (run mode limits window steps).1.Agrees ∧
      (run mode limits window steps).1.clients.nextClientId ≤ steps.length := by
  refine Lib.run_invariant Attended.step
    (P := fun s steps _ => s.Agrees ∧ s.clients.nextClientId ≤ steps.length) (fun s steps _ e hs => ?_)
    ⟨agrees_start mode limits window, le_rfl⟩ steps
  refine ⟨hs.1.step e, (hs.1.does_step e).clients.nextClientId_le.trans ?_⟩
  rw [List.length_append]
  exact Nat.succ_le_succ hs.2

/-- **No writer outlives its job.** In every run, once the job's function has returned, every task by which
the mux writes to a client has ended, or its token is cancelled and two turns of its own end it; while the
job is polled nobody is listened to whose task has ended; and the mux has numbered its tasks in order, at
most one in a step, so that no number comes round in fewer than `2 ^ 64` steps. -/
theorem no_task_outlives_job (mode : JobMode) (limits : JobLimits) (window : WindowSize)
    (steps : List AttendedStep) :
    ((run mode limits window steps).1.job.report.isSome → ∀ w ∈ (run mode limits window steps).1.clients.tasks,
      w.phase = .finished ∨ w.stopped = true ∧ ∀ channel stop out,
        ((w.act channel stop (.stopped out)).act channel stop .closed).phase = .finished) ∧
    (∀ gone, ∀ id ∈ ((run mode limits window steps).1.clients.pollNext gone).recv,
      (run mode limits window steps).1.clients.finished id = false) ∧
    (run mode limits window steps).1.clients.tasks.length =
      (run mode limits window steps).1.clients.nextClientId ∧
    (run mode limits window steps).1.clients.nextClientId ≤ steps.length := by
  obtain ⟨hagrees, hle⟩ := agrees_run mode limits window steps
  refine ⟨fun hreport w hw => ?_, fun gone id hid => ?_, hagrees.books.tasks, hle⟩
  · cases hphase : w.phase with
    | finished => exact .inl rfl
    | writing =>
      have hstopped := (hagrees.ended hreport w hw).resolve_right (by rw [hphase]; decide)
      exact .inr ⟨hstopped, fun channel stop out => by simp [Writer.act, hphase, hstopped]⟩
    | closing =>
      have hstopped := (hagrees.ended hreport w hw).resolve_right (by rw [hphase]; decide)
      exact .inr ⟨hstopped, fun channel stop out => by simp [Writer.act, hphase]⟩
  · exact WebSocketMux.not_finished_of_mem_pollNext hagrees.books gone hid

end Attended

end Sush
