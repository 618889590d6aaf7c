import Sush.Verify.Attended

/-!
# What the clients of a job see, and what they can do

A client that is attached has been sent the end of the output recorded by then, and after it all output
since, up to some point: nothing is left out, and nothing comes twice (`attached_client_sees`). What
reaches the pseudoterminal was sent by clients that may write, in order (`input_from_writers`), and what
clients send that may only read makes no difference (`read_only_inert`).
-/

namespace Sush

open Lib (Channel)

def Writer.output (w : Writer) : List UInt8 := w.sent.flatMap Attended.payload

/-! ## Steps of a job -/

namespace Job

variable [Digest] {s t : Job} {e : JobStep} {outs : List JobOut}

theorem mark_stderr (h : StepEffect s e t outs) :
    (t.io.mark .stderr).isSome = (s.io.mark .stderr).isSome := by
  have hhead : ∀ t : Job, t.loopHead.io = t.io := by
    intro t
    obtain ⟨exit, heq, -⟩ := loopHead_eq t
    rw [heq]
  cases h with
  | same hsame => rw [hsame.mark]
  | branch hexit heffect =>
    cases heffect with
    | pending => rfl
    | next hsame => rw [settle, hhead, hsame.mark]
    | leave hsame hexit => exact congrArg (fun mark => (mark JobOutputStream.stderr).isSome) hsame.mark
    | @recorded _ _ stream _ size _ t _ _ hmark _ hwrote _ =>
      rw [settle, hhead]
      obtain ⟨-, -, hmark'⟩ | ⟨-, -, hmark'⟩ := hwrote.limit
      · rw [hmark']
        cases stream with
        | stdout => rfl
        | stderr =>
          rw [Function.update_self, hmark]
          rfl
      · rw [hmark']
    | kept _ hio _ => rw [settle, hhead, hio]
    | handed _ _ => rw [settle, hhead]
    | dropped _ _ => rw [settle, hhead]
    | accepted _ _ => rw [settle, hhead]
    | played _ hplayed => rw [settle, hhead, hplayed.mark]
  | served hserved => rw [hserved.io]
  | handedOver _ _ _ => rfl
  | lost _ _ => rfl
  | reported _ _ _ => rfl

theorem delivered_stdout (h : StepEffect s e t outs) (hstderr : (s.io.mark .stderr).isSome = false)
    {stream : JobOutputStream} {buf : List UInt8} (hout : .delivered stream buf ∈ outs) :
    stream = .stdout := by
  cases h with
  | branch hexit heffect =>
    cases heffect with
    | @recorded _ _ other buf' size _ t _ _ hmark _ hwrote _ =>
      have hout' : JobOut.delivered stream buf ∈ [JobOut.delivered other buf'] := hout
      cases List.mem_singleton.1 hout'
      cases stream with
      | stdout => rfl
      | stderr =>
        rw [hmark] at hstderr
        cases hstderr
    | @kept _ _ buf' _ _ _ _ =>
      have hout' : JobOut.delivered stream buf ∈ [JobOut.delivered .stdout buf'] := hout
      cases List.mem_singleton.1 hout'
      rfl
    | @accepted client _ _ _ _ =>
      have hout' : JobOut.delivered stream buf ∈ [JobOut.accepted client .readWrite] := hout
      cases List.mem_singleton.1 hout'
    | pending => cases hout
    | next _ => cases hout
    | leave _ _ => cases hout
    | handed _ _ => cases hout
    | dropped _ _ => cases hout
    | played _ _ => cases hout
  | same _ => cases hout
  | served _ => cases hout
  | handedOver _ _ _ => cases hout
  | lost _ _ => cases hout
  | reported _ _ _ => cases hout

omit [Digest] in
theorem playBack_suffix {playback : Playback} {played : List UInt8}
    (h : s.playBack playback = some (some played, t)) :
    played <:+ s.recorded .stdout ∧ played.length ≤ interactiveJobBufferSize := by
  cases playback with
  | played len =>
    simp only [playBack] at h
    split at h
    · next hlen =>
      obtain ⟨⟨buffer, file⟩, hbuffer, heq⟩ := Option.map_eq_some_iff.1 h
      cases heq
      unfold playbackBuffer at hbuffer
      dsimp only at hbuffer
      split at hbuffer
      · cases hbuffer
      · have hle : min len interactiveJobBufferSize ≤ s.stdout.file.contents.length :=
          le_trans (Nat.min_le_left _ _) hlen
        rw [Lib.File.readExact_seekEnd hle] at hbuffer
        cases hbuffer
        refine ⟨List.drop_suffix _ _, ?_⟩
        rw [List.length_drop]
        omega
    · cases h
  | failed position restored =>
    cases restored with
    | true => cases h
    | false => cases h

end Job

namespace Attended

variable [ControlJson] [Digest] {s : Attended}

variable {mode : JobMode}

/-! ## What is sent -/

/-- The task of a client follows a script. -/
def Followed (s : Attended) (id : ClientId) (script : List WebSocketMessage) : Prop :=
  ∃ w, s.clients.tasks[id]? = some w ∧ w.Follows s.clients.send script

omit [ControlJson] [Digest] in
theorem delivered_append (outs new : List AttendedOut) :
    delivered (outs ++ new) = delivered outs ++ delivered new := by
  rw [delivered, jobOuts_append, List.filterMap_append]
  rfl

variable {t : Attended} {outs : List AttendedOut}

omit [ControlJson] [Digest] in
/-- **What a step adds to the scripts** of all clients: the output that was put out. -/
theorem Serves.script (h : Serves s t outs) : ∃ messages,
    (∀ id script, s.Followed id script → t.Followed id (script ++ messages)) ∧
    (s.job.streaming = false → s.clients.isEmpty = false →
      messages.flatMap payload = (delivered outs).flatten) := by
  cases h with
  | @sends m messages hcut hclients hlisted hreport houtput =>
    refine ⟨messages, fun id script hfollowed => ?_, houtput⟩
    obtain ⟨w, hw, hfollows⟩ := hfollowed
    obtain ⟨w', hw', hfollows'⟩ := hcut.followed hw hfollows
    rw [Followed, hclients, WebSocketMux.spread_eq]
    exact ⟨w', hw', hfollows'.spread messages⟩
  | adds hclients hlisted hstreaming hreport houts =>
    refine ⟨[], fun id script hfollowed => ?_, fun _ _ => by rw [houts]; rfl⟩
    obtain ⟨w, hw, hfollows⟩ := hfollowed
    have hlt := (List.getElem?_eq_some_iff.1 hw).1
    rw [List.append_nil, Followed, hclients]
    exact ⟨w, (List.getElem?_append_left hlt).trans hw, hfollows⟩
  | @turns id act hjob hclients houts =>
    refine ⟨[], fun other script hfollowed => ?_, fun _ _ => by rw [houts]; rfl⟩
    obtain ⟨w, hw, hfollows⟩ := hfollowed
    rw [List.append_nil, Followed, hclients]
    rcases s.clients.getElem?_act id other s.job.stop act with hsame | hact
    · exact ⟨w, hsame.trans hw, hfollows⟩
    · exact ⟨w.act s.clients.send s.job.stop act, by rw [hact, hw, Option.map_some], hfollows.act ..⟩
  | drops hclients hlisted houts =>
    refine ⟨[], fun id script hfollowed => ?_, fun _ _ => by rw [houts]; rfl⟩
    obtain ⟨w, hw, hfollows⟩ := hfollowed
    rw [List.append_nil, Followed, hclients]
    refine ⟨_, (s.clients.getElem?_drop id).trans (by rw [hw, Option.map_some]), ?_⟩
    split
    · exact hfollows.close.cancel
    · exact hfollows.close

/-- A client that is there was there before with the same access, or has just been attached. -/
structure Onward (s t : Attended) (outs : List AttendedOut) : Prop where
  nextClientId : s.clients.nextClientId ≤ t.clients.nextClientId
  recv : ∀ id ∈ t.clients.recv, id ∈ s.clients.recv ∧ t.clients.access[id]? = s.clients.access[id]? ∨
    s.clients.nextClientId ≤ id ∧ ∃ access, .attached id access ∈ outs ∧ t.clients.access[id]? = some access

omit [ControlJson] [Digest] in
/-- **No client comes back.** -/
theorem Serves.onward (h : Serves s t outs) (hbooks : s.clients.Books) : Onward s t outs := by
  have hsame : ∀ {send : Lib.Broadcast WebSocketMessage} {tasks : List Writer},
      t.clients = { s.clients with send, tasks } → Onward s t outs := by
    intro send tasks hclients
    refine ⟨?_, ?_⟩ <;> rw [hclients]
    exact fun _ hid => .inl ⟨hid, rfl⟩
  cases h with
  | @sends m messages hcut hclients hlisted hreport houtput =>
    rw [WebSocketMux.spread_eq] at hclients
    refine ⟨?_, ?_⟩ <;> rw [hclients]
    · exact hcut.nextClientId.ge
    · exact fun id hid => .inl ⟨hcut.mem_recv hid, hcut.access id hid⟩
  | @adds access initial hclients hlisted hstreaming hreport houts =>
    have haccess : ∀ id, t.clients.access[id]? =
        if s.clients.nextClientId = id then some access else s.clients.access[id]? := by
      intro id
      rw [hclients]
      exact BTreeMap.get_insert
    refine ⟨hclients ▸ Nat.le_succ _, fun id hid => ?_⟩
    rw [hclients] at hid
    rcases List.mem_append.1 hid with hold | hnew
    · have hlt := hbooks.recv_lt id hold
      exact .inl ⟨hold, (haccess id).trans (if_neg (Nat.ne_of_gt hlt))⟩
    · obtain rfl := List.mem_singleton.1 hnew
      exact .inr ⟨Nat.le_refl _, access, houts ▸ .head _, (haccess _).trans (if_pos rfl)⟩
  | turns hjob hclients houts => exact hsame hclients
  | drops hclients hlisted houts => exact hsame hclients

/-! ## What a client sees -/

/-- What a client was sent and will be sent, after it was sent `played`. -/
structure Sees (mode : JobMode) (id : ClientId) (played : List UInt8) (s : Attended)
    (outs : List AttendedOut) : Prop where
  agrees : s.Agrees
  mode_eq : s.job.mode = mode
  lt : id < s.clients.nextClientId
  script : ∃ script, s.Followed id script ∧ (id ∈ s.clients.recv →
    script.flatMap payload = played ++ (delivered outs).flatten)

theorem Sees.step {id : ClientId} {played : List UInt8} {outs : List AttendedOut}
    (hmode : mode ≠ .streamOutput) (h : Sees mode id played s outs) (e : AttendedStep) :
    Sees mode id played (s.step e).1 (outs ++ (s.step e).2) := by
  obtain ⟨script, hfollowed, hsees⟩ := h.script
  have hdoes := h.agrees.does_step e
  obtain ⟨messages, hscript, houtput⟩ := hdoes.clients.script
  have honward := hdoes.clients.onward h.agrees.books
  refine ⟨h.agrees.step e, hdoes.mode.trans h.mode_eq, lt_of_lt_of_le h.lt honward.nextClientId,
    script ++ messages, hscript id script hfollowed, fun hid => ?_⟩
  have hbefore : id ∈ s.clients.recv := by
    obtain ⟨hbefore, -⟩ | ⟨hnew, -⟩ := honward.recv id hid
    · exact hbefore
    · exact absurd h.lt (Nat.not_lt.2 hnew)
  have hstreaming : s.job.streaming = false := by
    rw [Job.streaming, h.mode_eq]
    exact decide_eq_false hmode
  have hempty : s.clients.isEmpty = false := by
    rw [WebSocketMux.isEmpty, List.isEmpty_eq_false_iff]
    exact List.ne_nil_of_mem hbefore
  rw [List.flatMap_append, hsees hbefore, houtput hstreaming hempty, delivered_append,
    List.flatten_append, List.append_assoc]

omit [Digest] in
theorem payload_initialMessages (s : Attended) (playback : Option (List UInt8)) (sized : Bool) :
    (s.initialMessages playback sized).flatMap payload = playback.getD [] := by
  have hplayed : ((playback.map InteractiveJobMessage.data).toList.filterMap
      WebSocketMessage.tryFrom).flatMap payload = playback.getD [] := by
    cases playback with
    | none => rfl
    | some bytes => simp [WebSocketMessage.tryFrom, payload]
  unfold initialMessages
  dsimp only
  rw [List.filterMap_append, List.flatMap_append, hplayed]
  cases s.job.io with
  | interactive pty => cases sized <;> rfl
  | batch stdout stderr => rfl

section

variable {mode : JobMode} {limits : JobLimits} {window : WindowSize}

theorem mode_run (steps : List AttendedStep) : (run mode limits window steps).1.job.mode = mode := by
  have hrun := Lib.run_invariant step (P := fun s _ _ => s.Agrees ∧ s.job.mode = mode)
    (fun s _ _ e hs => ⟨hs.1.step e, (hs.1.does_step e).mode.trans hs.2⟩)
    ⟨agrees_start mode limits window, rfl⟩ steps
  exact hrun.2

/-- A client that was attached is sent the playback first. -/
theorem sees_attach {id : ClientId} {client : ℕ}
    {access : Access} {playback : Playback} {sized : Bool} (h : s.Agrees)
    (hmode : s.job.mode ≠ .streamOutput) (hstep : s.step (.attach client access playback sized) = (t, outs))
    (hattached : .attached id access ∈ outs) :
    ∃ played j, s.job.playBack playback = some (played, j) ∧ played.getD [] <:+ s.job.recorded .stdout ∧
      (played.getD []).length ≤ interactiveJobBufferSize ∧ delivered outs = [] ∧
      Sees s.job.mode id (played.getD []) t [] := by
  have hagrees := h.step (.attach client access playback sized)
  have honward := (h.does_step (.attach client access playback sized)).mode
  have hstreaming : s.job.streaming = false := decide_eq_false hmode
  by_cases haccepts : s.accepts = true
  · rw [step_attach_of_accepted h hstreaming haccepts] at hstep hagrees honward
    cases hplayed : s.job.playBack playback with
    | none =>
      rw [hplayed] at hstep
      cases hstep
      cases hattached
    | some result =>
      obtain ⟨played, j⟩ := result
      rw [hplayed] at hstep hagrees honward
      cases hstep
      cases List.mem_singleton.1 hattached
      have hsuffix : played.getD [] <:+ s.job.recorded .stdout ∧
          (played.getD []).length ≤ interactiveJobBufferSize := by
        cases played with
        | none => exact ⟨List.nil_suffix, Nat.zero_le _⟩
        | some bytes => exact Job.playBack_suffix hplayed
      have hlast : (s.clients.add access (s.initialMessages played sized)).tasks[s.clients.nextClientId]? =
          some (.start ⟨s.initialMessages played sized, s.clients.send.subscribe⟩) := by
        rw [← h.books.tasks]
        exact List.getElem?_concat_length
      refine ⟨played, j, rfl, hsuffix.1, hsuffix.2, rfl, hagrees, honward, Nat.lt_succ_self _,
        s.initialMessages played sized, ⟨_, hlast, Writer.follows_start _ _⟩, fun _ => ?_⟩
      rw [payload_initialMessages]
      exact (List.append_nil _).symm
  · rw [step_attach_of_refused hstreaming haccepts] at hstep
    cases hstep
    cases hattached

theorem delivered_eq_chunks (steps : List AttendedStep) :
    delivered (run .interactive limits window steps).2 =
      Job.chunks .stdout (jobOuts (run .interactive limits window steps).2) := by
  obtain ⟨jobSteps, -, houts, -⟩ := refines_job .interactive limits window steps
  have hrun := Lib.run_invariant Job.step (P := fun s _ outs => (s.io.mark .stderr).isSome = false ∧
      ∀ stream buf, JobOut.delivered stream buf ∈ outs → stream = .stdout)
    (fun s _ outs e hs => by
      refine ⟨(Job.mark_stderr (Job.effect_step s e)).trans hs.1, fun stream buf hout => ?_⟩
      rcases List.mem_append.1 hout with hold | hnew
      · exact hs.2 stream buf hold
      · exact Job.delivered_stdout (Job.effect_step s e) hs.1 hnew)
    (s := Job.start .interactive limits) ⟨rfl, fun _ _ hout => by cases hout⟩ jobSteps
  rw [delivered, Job.chunks, houts]
  refine List.filterMap_congr fun out hout => ?_
  cases out with
  | accepted client access => rfl
  | delivered stream buf =>
    have hstdout := hrun.2 stream buf hout
    simp [JobOut.chunk, hstdout]

theorem recorded_eq (limits : JobLimits) (window : WindowSize) {steps : List AttendedStep}
    (hfiles : ∀ e ∈ steps, filesSucceed e = true) :
    (run .interactive limits window steps).1.job.recorded .stdout =
      (delivered (run .interactive limits window steps).2).flatten := by
  obtain ⟨jobSteps, hjob, houts, hjobFiles⟩ := refines_job .interactive limits window steps
  have hrecorder : Job.Recorder .interactive limits _ _ := Job.recorder_run (hjobFiles hfiles)
  have hrecords : JobMode.Records .interactive .stdout := by
    rintro ⟨-, h⟩
    cases h
  have htaped := hrecorder.intact.taped .stdout (hrecorder.mode_eq.symm ▸ hrecords)
  rw [delivered_eq_chunks, houts, hjob]
  exact htaped.contents

/-- **What an attached client sees.** In a run in which no file operation fails, let a client attach to a
job that does not stream. As long as it is attached, what its socket took is an initial part of: what was
played back to it, which is the end of the output recorded when it attached and no more than the size of the
buffer, and after it all chunks put out since, of either stream. For an interactive job that is a piece of
the recorded output without a gap, and it begins at most the size of the buffer before the point where the
client attached. -/
theorem attached_client_sees {pre post : List AttendedStep} {client : ℕ} {access : Access}
    {playback : Playback} {sized : Bool} {before attached after : Attended} {id : ClientId}
    {new since : List AttendedOut} (hmode : mode ≠ .streamOutput)
    (hfiles : ∀ e ∈ pre ++ .attach client access playback sized :: post, filesSucceed e = true)
    (hbefore : run mode limits window pre = (before, outs))
    (hattach : before.step (.attach client access playback sized) = (attached, new))
    (hattached : .attached id access ∈ new) (hafter : Lib.run step attached post = (after, since)) :
    ∃ played j w, before.job.playBack playback = some (played, j) ∧
      played.getD [] <:+ before.job.recorded .stdout ∧
      (played.getD []).length ≤ interactiveJobBufferSize ∧
      after.clients.tasks[id]? = some w ∧ (id ∈ after.clients.recv →
        w.output <+: played.getD [] ++ (delivered since).flatten ∧
        (mode = .interactive → w.output <+: (after.job.recorded .stdout).drop
          ((before.job.recorded .stdout).length - (played.getD []).length))) := by
  have hagrees := (agrees_run mode limits window pre).1
  have hmodePre : (run mode limits window pre).1.job.mode = mode := mode_run pre
  rw [hbefore] at hagrees hmodePre
  obtain ⟨played, j, hplayed, hsuffix, hlength, hnew, hsees⟩ :=
    sees_attach hagrees (hmodePre.symm ▸ hmode) hattach hattached
  rw [hmodePre] at hsees
  have hrun := Lib.run_invariant step (P := fun s _ outs => Sees mode id (played.getD []) s outs)
    (fun s _ outs e hs => hs.step hmode e) hsees post
  rw [hafter] at hrun
  obtain ⟨script, ⟨w, hw, hfollows⟩, hscript⟩ := hrun.script
  refine ⟨played, j, w, hplayed, hsuffix, hlength, hw, fun hid => ?_⟩
  have houtput : w.output <+: played.getD [] ++ (delivered since).flatten := by
    rw [← hscript hid]
    exact hfollows.sent.flatMap _
  refine ⟨houtput, ?_⟩
  rintro rfl
  -- what is recorded in the end is what was recorded before and what was put out since
  have hall : run .interactive limits window (pre ++ .attach client access playback sized :: post) =
      (after, outs ++ (new ++ since)) := by
    rw [run] at hbefore ⊢
    rw [Lib.run_append, Lib.run_cons, hbefore, hattach, hafter]
  have hrecorded := recorded_eq limits window hfiles
  have hrecordedPre := recorded_eq limits window fun e he => hfiles e (List.mem_append_left _ he)
  rw [hall, delivered_append, delivered_append, hnew, List.nil_append, List.flatten_append] at hrecorded
  rw [hbefore] at hrecordedPre
  obtain ⟨rest, hrest⟩ := hsuffix
  have hdrop : (before.job.recorded .stdout).length - (played.getD []).length = rest.length := by
    rw [← hrest, List.length_append, Nat.add_sub_cancel]
  rw [hrecorded, ← hrecordedPre, hdrop, ← hrest, List.append_assoc, List.drop_left]
  exact houtput

end

/-! ## What reaches the pseudoterminal -/

/-- What a client typed that may write, according to what was seen. -/
def typedBy (seen : List AttendedOut) : AttendedOut → Option (List UInt8)
  | .heard id (.data bytes) => if .attached id .readWrite ∈ seen then some bytes else none
  | _ => none

def keystrokes (outs : List AttendedOut) : List (List UInt8) := outs.filterMap (typedBy outs)

/-- What was typed so far. -/
structure Typing (mode : JobMode) (s : Attended) (outs : List AttendedOut) : Prop where
  agrees : s.Agrees
  /-- The clients have the access that they were attached with. -/
  granted : ∀ id ∈ s.clients.recv,
    ∃ access, .attached id access ∈ outs ∧ s.clients.access[id]? = some access
  mark : (s.job.io.mark .stderr).isSome = true ↔ mode ≠ .interactive
  sent : ∀ seen, outs ⊆ seen → s.input.sent.Sublist (outs.filterMap (typedBy seen))
  batch : mode ≠ .interactive → s.input.sent = []
  typed : s.typed <+: s.input.received.flatten
  closed : s.input.closed = false → s.typed = s.input.received.flatten

theorem Typing.granted_step (h : Typing mode s outs) (e : AttendedStep) :
    ∀ id ∈ (s.step e).1.clients.recv, ∃ access, .attached id access ∈ outs ++ (s.step e).2 ∧
      (s.step e).1.clients.access[id]? = some access := by
  intro id hid
  have honward := (h.agrees.does_step e).clients.onward h.agrees.books
  obtain ⟨hold, haccess⟩ | ⟨-, access, hnew, haccess⟩ := honward.recv id hid
  · obtain ⟨access, hattached, hgranted⟩ := h.granted id hold
    exact ⟨access, List.mem_append_left _ hattached, haccess.trans hgranted⟩
  · exact ⟨access, List.mem_append_right _ hnew, haccess⟩

theorem mark_step (s : Attended) (e : AttendedStep) :
    ((s.step e).1.job.io.mark .stderr).isSome = (s.job.io.mark .stderr).isSome := by
  rw [(step_job s e).1]
  exact Job.keeps_run (P := fun j => (j.io.mark .stderr).isSome = (s.job.io.mark .stderr).isSome)
    (fun j e hj => (Job.mark_stderr (Job.effect_step j e)).trans hj) _ rfl

omit [ControlJson] in
/-- A turn of `relay_input` takes what was sent, and writes it. -/
theorem Typing.relay (h : Typing mode s outs) (act : RelayAct) :
    (s.relay act).input.sent = s.input.sent ∧ (s.relay act).typed <+: (s.relay act).input.received.flatten ∧
      ((s.relay act).input.closed = false → (s.relay act).typed = (s.relay act).input.received.flatten) := by
  cases act with
  | stopped =>
    simp only [Attended.relay]
    split
    · exact ⟨rfl, h.typed, fun hopen => by cases hopen⟩
    · exact ⟨rfl, h.typed, h.closed⟩
  | write failed =>
    simp only [Attended.relay]
    split
    · exact ⟨rfl, h.typed, h.closed⟩
    · next hopen =>
      have htyped := h.closed (by simpa using hopen)
      cases hrecv : s.input.recv with
      | none => exact ⟨rfl, h.typed, h.closed⟩
      | some taken =>
        obtain ⟨bytes, input⟩ := taken
        obtain ⟨hreceived, hsent, -⟩ := Channel.recv_eq_some hrecv
        have hall : s.typed ++ bytes = input.received.flatten := by simp [hreceived, htyped]
        cases failed with
        | none => exact ⟨hsent, hall ▸ List.prefix_refl _, fun _ => hall⟩
        | some n =>
          refine ⟨hsent, ?_, fun hopen => by cases hopen⟩
          change s.typed ++ bytes.take n <+: input.received.flatten
          rw [← hall, List.prefix_append_right_inj]
          exact List.take_prefix _ _

theorem Typing.step (h : Typing mode s outs) (e : AttendedStep) :
    Typing mode (s.step e).1 (outs ++ (s.step e).2) := by
  have hsent : ∀ seen, outs ++ (s.step e).2 ⊆ seen →
      s.input.sent.Sublist ((outs ++ (s.step e).2).filterMap (typedBy seen)) := by
    intro seen hseen
    rw [List.filterMap_append]
    exact (h.sent seen fun out hout => hseen (List.mem_append_left _ hout)).trans
      (List.sublist_append_left _ _)
  have hmark : ((s.step e).1.job.io.mark .stderr).isSome = true ↔ mode ≠ .interactive := by
    rw [mark_step]
    exact h.mark
  cases (h.agrees.does_step e).input with
  | nothing hinput htyped =>
    refine ⟨h.agrees.step e, h.granted_step e, hmark, ?_, ?_, ?_, ?_⟩
    · rwa [hinput]
    · rw [hinput]
      exact h.batch
    · rw [hinput, htyped]
      exact h.typed
    · rw [hinput, htyped]
      exact h.closed
  | something id bytes hid hwrites houts hsend htyped hinteractive =>
    obtain ⟨-, hinput⟩ := Channel.trySend_eq_some hsend
    refine ⟨h.agrees.step e, h.granted_step e, hmark, ?_, ?_, ?_, ?_⟩
    · intro seen hseen
      obtain ⟨access, hattached, hgranted⟩ := h.granted id hid
      have haccess : access = .readWrite := by
        cases access with
        | readWrite => rfl
        | readOnly => exact absurd hgranted hwrites
      subst haccess
      have htypedBy : typedBy seen (.heard id (.data bytes)) = some bytes :=
        if_pos (hseen (List.mem_append_left _ hattached))
      rw [Channel.sent_trySend hsend, houts, List.filterMap_append, List.filterMap_cons_some htypedBy,
        List.filterMap_nil]
      exact (h.sent seen fun out hout => hseen (List.mem_append_left _ hout)).append (.refl _)
    · intro hmode
      rw [h.mark.2 hmode] at hinteractive
      cases hinteractive
    · rw [hinput, htyped]
      exact h.typed
    · rw [hinput, htyped]
      exact h.closed
  | relayed act ht =>
    obtain ⟨hsame, htyped, hclosed⟩ := h.relay act
    rw [← ht] at hsame htyped hclosed
    refine ⟨h.agrees.step e, h.granted_step e, hmark, ?_, ?_, htyped, hclosed⟩
    · rwa [hsame]
    · rw [hsame]
      exact h.batch

omit [ControlJson] in
theorem typing_start (mode : JobMode) (limits : JobLimits) (window : WindowSize) :
    Typing mode (start mode limits window) [] where
  agrees := agrees_start mode limits window
  granted _ hid := by cases hid
  mark := by
    change ((JobIo.open mode).mark .stderr).isSome = true ↔ mode ≠ .interactive
    unfold JobIo.open
    split
    · next hmode => exact ⟨fun h => Bool.noConfusion h, fun h => absurd hmode h⟩
    · next hmode => exact ⟨fun _ => hmode, fun _ => rfl⟩
  sent _ _ := List.Sublist.refl _
  batch _ := rfl
  typed := List.prefix_refl _
  closed _ := rfl

/-- **Only clients that may write type.** In every run, the bytes that were written to the pseudoterminal are
an initial part of the input that was let through, and that is a selection, in order, of what clients sent
that were attached with write access. Nothing is typed into a job that is not interactive. -/
theorem input_from_writers (mode : JobMode) (limits : JobLimits) (window : WindowSize)
    (steps : List AttendedStep) :
    (run mode limits window steps).1.typed <+: (run mode limits window steps).1.input.sent.flatten ∧
    (run mode limits window steps).1.input.sent.Sublist (keystrokes (run mode limits window steps).2) ∧
    (mode ≠ .interactive → (run mode limits window steps).1.input.sent = []) := by
  have hrun := Lib.run_invariant step (P := fun s _ outs => Typing mode s outs)
    (fun s _ outs e hs => hs.step e) (typing_start mode limits window) steps
  refine ⟨hrun.typed.trans (List.IsPrefix.flatten (List.prefix_append _ _)), ?_, hrun.batch⟩
  exact hrun.sent _ (List.Subset.refl _)

/-! ## Clients that may only read -/

/-- The step without what somebody sent who may only read. -/
def hush (s : Attended) : AttendedStep → AttendedStep
  | .poll gone (.message id message) resized =>
    if s.readOnly id = true ∧ (InteractiveJobMessage.tryFrom message).isSome then .poll gone .pending resized
    else .poll gone (.message id message) resized
  | e => e

/-- The steps without what was sent by clients that may only read. -/
def hushed : Attended → List AttendedStep → List AttendedStep
  | _, [] => []
  | s, e :: steps => s.hush e :: hushed (s.step e).1 steps

theorem step_hush (h : s.Agrees) (e : AttendedStep) : (s.step (s.hush e)).1 = (s.step e).1 := by
  unfold hush
  split
  · next gone id message resized =>
    split
    · next hsilent =>
      obtain ⟨hread, hmessage⟩ := hsilent
      obtain ⟨decoded, hdecoded⟩ := Option.isSome_iff_exists.1 hmessage
      by_cases hlistens : s.listens = true
      · rw [step_poll_eq h hlistens, step_poll_eq h hlistens]
        simp only [listen]
        by_cases hid : (s.left gone).clients.recv.contains id = true
        · have hread' : (s.left gone).readOnly id = true := by
            have haccess := (s.clients.cut_pollNext gone).access id (List.contains_iff_mem.1 hid)
            rw [readOnly] at hread ⊢
            exact decide_eq_true (haccess.trans (of_decide_eq_true hread))
          have hstays : ¬((s.left gone).removes id (InteractiveJobMessage.tryFrom message) = true) := by
            rw [hdecoded, removes, hread']
            simp
          have hafter : (s.left gone).jobAfter (.message id message) = (s.left gone).job := by
            simp only [jobAfter]
            exact if_neg fun h => hstays h.2
          rw [hafter, if_pos hid, hdecoded]
          simp only [handle]
          exact (if_pos hread').symm
        · have hafter : (s.left gone).jobAfter (.message id message) = (s.left gone).job := by
            simp only [jobAfter]
            exact if_neg fun h => hid h.1
          rw [hafter, if_neg hid]
          rfl
      · rw [step_poll_of_not hlistens, step_poll_of_not hlistens]
    · rfl
  · rfl

/-- **Clients that may only read make no difference.** A run without the messages of clients that may only
read, those that cannot be decoded apart, comes to the same state. -/
theorem read_only_inert (mode : JobMode) (limits : JobLimits) (window : WindowSize)
    (steps : List AttendedStep) :
    (run mode limits window (hushed (start mode limits window) steps)).1 =
      (run mode limits window steps).1 := by
  suffices hgen : ∀ (steps : List AttendedStep) (s : Attended), s.Agrees →
      (Lib.run step s (hushed s steps)).1 = (Lib.run step s steps).1 by
    exact hgen steps _ (agrees_start mode limits window)
  intro steps
  induction steps with
  | nil => exact fun _ _ => rfl
  | cons e steps ih =>
    intro s hs
    rw [hushed, Lib.run_cons, Lib.run_cons, step_hush hs]
    exact ih _ (hs.step e)

end Attended

end Sush

namespace Sush.Plain

open Attended

attribute [local instance] digest

/-- Sizes in unary. -/
@[reducible] def controlJson : ControlJson where
  toJson control := match control with
    | .windowChange size =>
      String.ofList (List.replicate size.rows.toNat 'r' ++ List.replicate size.cols.toNat 'c')
  fromJson message :=
    some (.windowChange ⟨.ofNat (message.toList.count 'r'), .ofNat (message.toList.count 'c')⟩)
  fromJson_toJson control := by
    obtain ⟨rows, cols⟩ := control
    simp [List.count_replicate]

attribute [local instance] controlJson

def spoke : Attended :=
  (run .interactive ⟨0, 0, 100⟩ ⟨1, 2⟩ [.read (.bytes .stdout [7, 8]) .done]).1

/-- A client has attached to it, and will take everything it is sent. -/
def watched : Attended := (spoke.step (.attach 0 .readOnly (.played 2) true)).1

def watching : List AttendedStep :=
  [.read (.bytes .stdout [9]) .done, .writer 0 .take, .writer 0 (.sent true), .writer 0 .take,
    .writer 0 (.sent true), .writer 0 .take, .writer 0 (.sent true)]

theorem attached_client_sees_all :
    ((Lib.run step watched watching).1.clients.tasks[0]?).map Writer.output = some [7, 8, 9] ∧
    ∃ w : Writer, (Lib.run step watched watching).1.clients.tasks[0]? = some w ∧
      w.output <+: [7, 8] ++ [9] ∧ w.output <+: (Lib.run step watched watching).1.job.recorded .stdout := by
  have hfiles : ∀ e ∈ [AttendedStep.read (.bytes .stdout [7, 8]) .done] ++
      .attach 0 .readOnly (.played 2) true :: watching, filesSucceed e = true := by decide
  have hattached : .attached 0 .readOnly ∈ (spoke.step (.attach 0 .readOnly (.played 2) true)).2 := .head _
  obtain ⟨played, j, w, hplayed, -, -, hw, hsees⟩ := attached_client_sees (by decide) hfiles
    (Prod.mk.eta (p := run .interactive ⟨0, 0, 100⟩ ⟨1, 2⟩ _)).symm
    (Prod.mk.eta (p := spoke.step (.attach 0 .readOnly (.played 2) true))).symm hattached
    (Prod.mk.eta (p := Lib.run step watched watching)).symm
  have hrecv : 0 ∈ (Lib.run step watched watching).1.clients.recv := .head _
  have hback : (spoke.job.playBack (.played 2)).map Prod.fst = some (some [7, 8]) := by rfl
  obtain rfl : some [7, 8] = played :=
    Option.some.inj (hback.symm.trans (congrArg (Option.map Prod.fst) hplayed))
  exact ⟨by rfl, w, hw, (hsees hrecv).1, (hsees hrecv).2 rfl⟩

end Sush.Plain
