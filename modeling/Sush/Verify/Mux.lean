import Sush.Server.Mux

/-!
# What the clients of a job are sent

A task that writes to a socket follows a script: the messages its client was added with, and after them
everything that was broadcast since (`Writer.Follows`). A message joins the script when it is broadcast;
no turn of the task changes the script, so that nothing is left out, sent twice or sent out of order.

The mux keeps its books about clients in four places. `Cut` says what it means that clients are dropped or
their tokens cancelled and nothing else happens; removing a client, the end of a stream, reaping and
polling are all of this kind. `Books` is what holds of the four places in every state: in particular the
token of a task that runs is at hand until it is cancelled.
-/

namespace Sush

open Lib (Broadcast Reader)

/-! ## Writers -/

namespace Writer

/-- A task sends what the script says, in order. -/
structure Follows (w : Writer) (channel : Broadcast WebSocketMessage) (script : List WebSocketMessage) :
    Prop where
  within : w.reader.Within channel
  /-- What was sent, what is being sent and what is still to be sent. -/
  all : w.phase = .writing → w.sent ++ (w.sending.toList ++ w.reader.owed channel) = script
  sent : w.sent <+: script

variable {w : Writer} {channel : Broadcast WebSocketMessage} {script : List WebSocketMessage}

theorem follows_start (channel : Broadcast WebSocketMessage) (initial : List WebSocketMessage) :
    (start ⟨initial, channel.subscribe⟩).Follows channel initial where
  within := Nat.le_refl _
  all _ := by simp [start, Reader.owed_subscribe]
  sent := List.nil_prefix

theorem Follows.cancel (h : w.Follows channel script) : w.cancel.Follows channel script :=
  ⟨h.within, h.all, h.sent⟩

theorem Follows.close (h : w.Follows channel script) : w.Follows channel.close script :=
  ⟨h.within, h.all, h.sent⟩

theorem Follows.send (h : w.Follows channel script) (message : WebSocketMessage) :
    w.Follows (channel.send message) (script ++ [message]) where
  within := h.within.send message
  all hphase := by
    rw [Reader.owed_send h.within, ← h.all hphase]
    simp only [List.append_assoc]
  sent := h.sent.trans (List.prefix_append _ _)

theorem Follows.spread (h : w.Follows channel script) (messages : List WebSocketMessage) :
    w.Follows (messages.foldl Broadcast.send channel) (script ++ messages) := by
  induction messages generalizing channel script with
  | nil => rwa [List.append_nil]
  | cons message messages ih =>
    have hrest := ih (h.send message)
    rwa [List.append_assoc] at hrest

theorem Follows.of_not_writing {w' : Writer} (h : w.Follows channel script)
    (hreader : w'.reader = w.reader) (hphase : w'.phase ≠ .writing) (hsent : w'.sent <+: script) :
    w'.Follows channel script :=
  ⟨hreader ▸ h.within, fun hwriting => absurd hwriting hphase, hsent⟩

theorem Follows.sending (h : w.Follows channel script) (hphase : w.phase = .writing) :
    w.sent ++ w.sending.toList <+: script := by
  rw [← h.all hphase, ← List.append_assoc]
  exact List.prefix_append _ _

theorem Follows.take (h : w.Follows channel script) (stop : Bool) :
    (w.act channel stop .take).Follows channel script := by
  simp only [act]
  split
  · next hidle =>
    obtain ⟨hphase, hsending⟩ := hidle
    rcases htake : w.reader.take channel with ⟨received, reader⟩
    cases received with
    | message message =>
      obtain ⟨howed, hwithin⟩ := Reader.owed_take h.within htake
      refine ⟨hwithin, fun _ => ?_, h.sent⟩
      have hall := h.all hphase
      rw [hsending, howed] at hall
      simpa using hall
    | empty => exact h
    | lagged => exact h.of_not_writing rfl (by simp) h.sent
    | closed => exact h.of_not_writing rfl (by simp) h.sent
  · exact h

theorem Follows.sentAct (h : w.Follows channel script) (stop ok : Bool) :
    (w.act channel stop (.sent ok)).Follows channel script := by
  simp only [act]
  split
  · next message hphase hsending =>
    have hout := h.sending hphase
    rw [hsending] at hout
    split
    · refine ⟨h.within, fun _ => ?_, hout⟩
      have hall := h.all hphase
      rw [hsending] at hall
      simpa using hall
    · exact h.of_not_writing rfl (by simp) h.sent
  · exact h

/-- **No turn of a task changes its script.** -/
theorem Follows.act (h : w.Follows channel script) (stop : Bool) (act : WriterAct) :
    (w.act channel stop act).Follows channel script := by
  cases act with
  | take => exact h.take stop
  | sent ok => exact h.sentAct stop ok
  | stopped out =>
    simp only [Writer.act]
    split
    · next hstopped =>
      refine h.of_not_writing rfl (by simp) ?_
      dsimp only
      split
      · exact h.sending hstopped.1
      · exact h.sent
    · exact h
  | closed =>
    simp only [Writer.act]
    split
    · exact h.of_not_writing rfl (by simp) h.sent
    · exact h

/-- A task was told to end, or has ended. -/
def Ending (w : Writer) : Prop := w.stopped = true ∨ w.phase = .finished

theorem Ending.act (h : w.Ending) (channel : Broadcast WebSocketMessage) (stop : Bool) (act : WriterAct) :
    (w.act channel stop act).Ending := by
  cases act with
  | take =>
    simp only [Writer.act]
    split
    · next hidle =>
      have hstopped : w.stopped = true := h.resolve_right (by rw [hidle.1]; decide)
      rcases w.reader.take channel with ⟨received, reader⟩
      cases received with
      | message message => exact .inl hstopped
      | empty => exact .inl hstopped
      | lagged => exact .inl hstopped
      | closed => exact .inl hstopped
    · exact h
  | sent ok =>
    simp only [Writer.act]
    split
    · next message hphase hsending =>
      have hstopped : w.stopped = true := h.resolve_right (by rw [hphase]; decide)
      split
      · exact .inl hstopped
      · exact .inl hstopped
    · exact h
  | stopped out =>
    simp only [Writer.act]
    split
    · next hstopped => exact .inl (h.resolve_right (by rw [hstopped.1]; decide))
    · exact h
  | closed =>
    simp only [Writer.act]
    split
    · exact .inl rfl
    · exact h

end Writer

/-! ## Books -/

namespace WebSocketMux

/-- What the mux knows of its clients. -/
structure Books (m : WebSocketMux) : Prop where
  tasks : m.tasks.length = m.nextClientId
  recv_lt : ∀ id ∈ m.recv, id < m.nextClientId
  recv_done : ∀ id ∈ m.recv, id ∈ m.done
  recv_access : ∀ id ∈ m.recv, (m.access[id]?).isSome
  /-- The token of a task that runs is at hand until it is cancelled. -/
  running : ∀ (id : ClientId) (w : Writer), m.tasks[id]? = some w → ¬w.Ending → m.stop.contains id = true

/-- Some clients were dropped or their tokens cancelled, and nothing else happened. -/
structure Cut (m m' : WebSocketMux) : Prop where
  nextClientId : m'.nextClientId = m.nextClientId
  send : m'.send = m.send
  recv : ∃ left : ClientId → Bool, m'.recv = m.recv.filter left
  access : ∀ id ∈ m'.recv, m'.access[id]? = m.access[id]?
  tasks : ∀ id : ClientId, m'.tasks[id]? = m.tasks[id]? ∨ m'.tasks[id]? = (m.tasks[id]?).map Writer.cancel
  books : m.Books → m'.Books

variable {m m' m'' : WebSocketMux} {id : ClientId}

namespace Cut

theorem refl (m : WebSocketMux) : Cut m m where
  nextClientId := rfl
  send := rfl
  recv := ⟨fun _ => true, (List.filter_true _).symm⟩
  access _ _ := rfl
  tasks _ := .inl rfl
  books := id

theorem mem_recv (h : Cut m m') (hid : id ∈ m'.recv) : id ∈ m.recv := by
  obtain ⟨left, hleft⟩ := h.recv
  rw [hleft] at hid
  exact List.mem_of_mem_filter hid

theorem trans (h : Cut m m') (h' : Cut m' m'') : Cut m m'' where
  nextClientId := h'.nextClientId.trans h.nextClientId
  send := h'.send.trans h.send
  recv := by
    obtain ⟨left, hleft⟩ := h.recv
    obtain ⟨left', hleft'⟩ := h'.recv
    exact ⟨fun id => left id && left' id, by rw [hleft', hleft, List.filter_filter]; simp [Bool.and_comm]⟩
  access id hid := (h'.access id hid).trans (h.access id (h'.mem_recv hid))
  tasks id := by
    have hcancel : ∀ w : Option Writer, (w.map Writer.cancel).map Writer.cancel = w.map Writer.cancel := by
      intro w
      cases w with
      | none => rfl
      | some w => rfl
    rcases h.tasks id with hid | hid <;> rcases h'.tasks id with hid' | hid' <;> rw [hid', hid]
    · exact .inl rfl
    · exact .inr rfl
    · exact .inr rfl
    · exact .inr (hcancel _)
  books := h'.books ∘ h.books

theorem foldl {f : WebSocketMux → ClientId → WebSocketMux} (hf : ∀ m id, Cut m (f m id)) :
    ∀ (ids : List ClientId) (m : WebSocketMux), Cut m (ids.foldl f m)
  | [], m => .refl m
  | id :: ids, m => (hf m id).trans (foldl hf ids (f m id))

/-- Who is left is left in the same order. -/
theorem recv_eq (h : Cut m m') : m'.recv = m.recv.filter m'.recv.contains := by
  obtain ⟨left, hleft⟩ := h.recv
  rw [hleft]
  apply List.filter_congr
  intro id hid
  rw [Bool.eq_iff_iff, List.contains_iff_mem, List.mem_filter]
  exact ⟨fun hl => ⟨hid, hl⟩, fun hl => hl.2⟩

theorem followed {script : List WebSocketMessage} {w : Writer} (h : Cut m m')
    (hw : m.tasks[id]? = some w) (hfollows : w.Follows m.send script) :
    ∃ w', m'.tasks[id]? = some w' ∧ w'.Follows m'.send script := by
  rw [h.send]
  rcases h.tasks id with hid | hid
  · exact ⟨w, hid.trans hw, hfollows⟩
  · exact ⟨w.cancel, by rw [hid, hw, Option.map_some], hfollows.cancel⟩

theorem ending (h : Cut m m') (hending : ∀ w ∈ m.tasks, w.Ending) : ∀ w ∈ m'.tasks, w.Ending := by
  intro w hw
  obtain ⟨id, hid⟩ := List.mem_iff_getElem?.1 hw
  rcases h.tasks id with hsame | hcancelled
  · exact hending w (List.mem_of_getElem? (hsame ▸ hid))
  · obtain ⟨w', -, rfl⟩ := Option.map_eq_some_iff.1 (hcancelled ▸ hid)
    exact .inl rfl

end Cut

theorem getElem?_modify_cancel (tasks : List Writer) (id other : ClientId) :
    (tasks.modify id Writer.cancel)[other]? = tasks[other]? ∨
      (tasks.modify id Writer.cancel)[other]? = (tasks[other]?).map Writer.cancel := by
  by_cases h : id = other
  · exact .inr (h ▸ List.getElem?_modify_eq Writer.cancel id tasks)
  · exact .inl (List.getElem?_modify_ne Writer.cancel tasks h)

theorem Books.cancel (h : m.Books) (id : ClientId) : (m.cancel id).Books := by
  unfold WebSocketMux.cancel
  split
  · refine ⟨(List.length_modify ..).trans h.tasks, h.recv_lt, h.recv_done, h.recv_access, ?_⟩
    intro other w hw hrunning
    rw [BTreeSet.contains_erase_iff]
    by_cases hother : id = other
    · subst hother
      rw [List.getElem?_modify_eq] at hw
      obtain ⟨w', -, rfl⟩ := Option.map_eq_some_iff.1 hw
      exact absurd (.inl rfl) hrunning
    · rw [List.getElem?_modify_ne _ _ hother] at hw
      exact ⟨hother, h.running other w hw hrunning⟩
  · exact h

theorem cut_cancel (m : WebSocketMux) (id : ClientId) : Cut m (m.cancel id) where
  nextClientId := by unfold cancel; split <;> rfl
  send := by unfold cancel; split <;> rfl
  recv := ⟨fun _ => true, by unfold cancel; split <;> exact (List.filter_true _).symm⟩
  access _ _ := by unfold cancel; split <;> rfl
  tasks other := by
    unfold cancel
    split
    · exact getElem?_modify_cancel m.tasks id other
    · exact .inl rfl
  books h := h.cancel id

theorem cut_recv (m : WebSocketMux) (id : ClientId) (access : BTreeMap ClientId Access)
    (haccess : ∀ other, other ≠ id → access[other]? = m.access[other]?) :
    Cut m { m with recv := m.recv.filter (· ≠ id), access } where
  nextClientId := rfl
  send := rfl
  recv := ⟨_, rfl⟩
  access other hother := haccess other (by simpa using (List.mem_filter.1 hother).2)
  tasks _ := .inl rfl
  books h := by
    refine ⟨h.tasks, ?_, ?_, ?_, h.running⟩
    · exact fun other hother => h.recv_lt other (List.mem_of_mem_filter hother)
    · exact fun other hother => h.recv_done other (List.mem_of_mem_filter hother)
    · intro other hother
      obtain ⟨hmem, hne⟩ := List.mem_filter.1 hother
      rw [haccess other (by simpa using hne)]
      exact h.recv_access other hmem

theorem get_access_erase (m : WebSocketMux) {id other : ClientId} (h : other ≠ id) :
    (m.access.erase id)[other]? = m.access[other]? := by
  rw [BTreeMap.get_erase, if_neg h.symm]

theorem cut_remove (m : WebSocketMux) (id : ClientId) : Cut m (m.remove id) :=
  (cut_recv m id (m.access.erase id) fun _ hother => get_access_erase m hother).trans (cut_cancel _ id)

theorem cut_ended (m : WebSocketMux) (id : ClientId) : Cut m (m.ended id) :=
  (cut_recv m id m.access fun _ _ => rfl).trans (cut_cancel _ id)

/-! ## Reaping -/

theorem cut_forget (m : WebSocketMux) (h : m.finished id = true) : Cut m (m.forget id) := by
  have hrecv := cut_recv m id (m.access.erase id) fun _ hother => get_access_erase m hother
  refine ⟨rfl, rfl, hrecv.recv, hrecv.access, fun _ => .inl rfl, fun hbooks => ?_⟩
  have hcut := hrecv.books hbooks
  refine ⟨hcut.tasks, hcut.recv_lt, hcut.recv_done, hcut.recv_access, ?_⟩
  intro other w hw hrunning
  change (m.stop.erase id).contains other = true
  rw [BTreeSet.contains_erase_iff]
  refine ⟨?_, hbooks.running other w hw hrunning⟩
  rintro rfl
  have hw' : m.tasks[id]? = some w := hw
  rw [finished, hw', Option.any_some, decide_eq_true_iff] at h
  exact hrunning (.inr h)

theorem cut_foldl_forget (ids : List ClientId) (m : WebSocketMux)
    (h : ∀ id ∈ ids, m.finished id = true) : Cut m (ids.foldl forget m) := by
  induction ids generalizing m with
  | nil => exact .refl m
  | cons id ids ih =>
    have hid := cut_forget m (h id (.head _))
    exact hid.trans (ih (m.forget id) fun other hother => h other (.tail _ hother))

theorem recv_foldl_forget (ids : List ClientId) (m : WebSocketMux) :
    (ids.foldl forget m).recv = m.recv.filter fun id => !ids.contains id := by
  induction ids generalizing m with
  | nil => exact (List.filter_true _).symm
  | cons id ids ih =>
    rw [List.foldl_cons, ih, forget, List.filter_filter]
    apply List.filter_congr
    intro other _
    have hne : decide (other ≠ id) = !(other == id) := by
      by_cases h : other = id <;> simp [h]
    rw [List.contains_cons, Bool.not_or, hne, Bool.and_comm]

theorem cut_reap (m : WebSocketMux) : Cut m m.reap := by
  have hcut := cut_foldl_forget (m.done.filter m.finished) m fun id hid => (List.mem_filter.1 hid).2
  refine ⟨hcut.nextClientId, hcut.send, hcut.recv, hcut.access, hcut.tasks, fun hbooks => ?_⟩
  have hbooks' := hcut.books hbooks
  refine ⟨hbooks'.tasks, hbooks'.recv_lt, ?_, hbooks'.recv_access, hbooks'.running⟩
  intro id hid
  have hdone := hbooks.recv_done id (hcut.mem_recv hid)
  have hid' : id ∈ ((m.done.filter m.finished).foldl forget m).recv := hid
  rw [recv_foldl_forget] at hid'
  have hnot := (List.mem_filter.1 hid').2
  refine List.mem_filter.2 ⟨hdone, ?_⟩
  simp_all

theorem cut_pollNext (m : WebSocketMux) (gone : List ClientId) : Cut m (m.pollNext gone) :=
  (cut_reap m).trans (.foldl cut_ended _ _)

/-- **Nobody whose task has returned is listened to.** -/
theorem not_finished_of_mem_pollNext (hbooks : m.Books) (gone : List ClientId)
    (h : id ∈ (m.pollNext gone).recv) : m.finished id = false := by
  have hreap : id ∈ m.reap.recv := (Cut.foldl cut_ended _ m.reap).mem_recv h
  have hdone := hbooks.recv_done id ((cut_reap m).mem_recv hreap)
  have hid : id ∈ ((m.done.filter m.finished).foldl forget m).recv := hreap
  rw [recv_foldl_forget] at hid
  have hnot := (List.mem_filter.1 hid).2
  simp_all

/-! ## Other operations -/

theorem books_new : new.Books := by
  refine ⟨rfl, ?_, ?_, ?_, ?_⟩
  · exact fun _ h => absurd h List.not_mem_nil
  · exact fun _ h => absurd h List.not_mem_nil
  · exact fun _ h => absurd h List.not_mem_nil
  · exact fun _ _ h => absurd h (by simp [new])

def spread (m : WebSocketMux) (messages : List WebSocketMessage) : WebSocketMux :=
  messages.foldl broadcast m

theorem spread_eq (m : WebSocketMux) (messages : List WebSocketMessage) :
    m.spread messages = { m with send := messages.foldl Broadcast.send m.send } := by
  induction messages generalizing m with
  | nil => rfl
  | cons message messages ih => exact ih (m.broadcast message)

theorem Books.spread (h : m.Books) (messages : List WebSocketMessage) : (m.spread messages).Books := by
  rw [spread_eq]
  exact ⟨h.tasks, h.recv_lt, h.recv_done, h.recv_access, h.running⟩

theorem Books.add (h : m.Books) (access : Access) (initial : List WebSocketMessage) :
    (m.add access initial).Books where
  tasks := by simp [WebSocketMux.add, h.tasks]
  recv_lt id hid := by
    rcases List.mem_append.1 hid with hold | hnew
    · exact Nat.lt_succ_of_lt (h.recv_lt id hold)
    · rw [List.mem_singleton.1 hnew]
      exact Nat.lt_succ_self _
  recv_done id hid := by
    rcases List.mem_append.1 hid with hold | hnew
    · exact List.mem_append_left _ (h.recv_done id hold)
    · exact List.mem_append_right _ hnew
  recv_access id hid := by
    change ((m.access.insert m.nextClientId access)[id]?).isSome
    rw [BTreeMap.get_insert]
    split
    · rfl
    · next hne =>
      rcases List.mem_append.1 hid with hold | hnew
      · exact h.recv_access id hold
      · exact absurd (List.mem_singleton.1 hnew).symm hne
  running id w hw hrunning := by
    change (m.stop.insert m.nextClientId).contains id = true
    rw [BTreeSet.contains_insert_iff]
    have hw' : (m.tasks ++ [Writer.start ⟨initial, m.send.subscribe⟩])[id]? = some w := hw
    rcases Nat.lt_or_ge id m.tasks.length with hid | hid
    · rw [List.getElem?_append_left hid] at hw'
      exact .inr (h.running id w hw' hrunning)
    · rw [List.getElem?_append_right hid] at hw'
      have hzero := (List.getElem?_eq_some_iff.1 hw').1
      rw [List.length_singleton] at hzero
      have hlast : m.tasks.length = id := by omega
      exact .inl (h.tasks ▸ hlast)

theorem getElem?_act (m : WebSocketMux) (id other : ClientId) (stop : Bool) (act : WriterAct) :
    (m.act id stop act).tasks[other]? = m.tasks[other]? ∨
      (m.act id stop act).tasks[other]? = (m.tasks[other]?).map fun w => w.act m.send stop act := by
  by_cases h : id = other
  · subst h
    exact .inr (List.getElem?_modify_eq _ id m.tasks)
  · exact .inl (List.getElem?_modify_ne _ m.tasks h)

theorem ending_act (h : ∀ w ∈ m.tasks, w.Ending) {stop : Bool} {act : WriterAct} {w : Writer}
    (hw : w ∈ (m.act id stop act).tasks) : w.Ending := by
  obtain ⟨other, hother⟩ := List.mem_iff_getElem?.1 hw
  rcases m.getElem?_act id other stop act with hsame | hact
  · exact h w (List.mem_of_getElem? (hsame ▸ hother))
  · obtain ⟨w', hw', rfl⟩ := Option.map_eq_some_iff.1 (hact ▸ hother)
    exact (h w' (List.mem_of_getElem? hw')).act ..

theorem Books.act (h : m.Books) (id : ClientId) (stop : Bool) (act : WriterAct) :
    (m.act id stop act).Books where
  tasks := (List.length_modify ..).trans h.tasks
  recv_lt := h.recv_lt
  recv_done := h.recv_done
  recv_access := h.recv_access
  running other w hw hrunning := by
    rcases m.getElem?_act id other stop act with hsame | hact
    · exact h.running other w (hsame ▸ hw) hrunning
    · rw [hact] at hw
      obtain ⟨w', hw', rfl⟩ := Option.map_eq_some_iff.1 hw
      exact h.running other w' hw' fun hending => hrunning (hending.act ..)

theorem getElem?_drop (m : WebSocketMux) (id : ClientId) : m.drop.tasks[id]? =
    (m.tasks[id]?).map fun w => if m.stop.contains id = true then w.cancel else w :=
  List.getElem?_mapIdx

theorem Books.drop (h : m.Books) : m.drop.Books where
  tasks := (List.length_mapIdx).trans h.tasks
  recv_lt := h.recv_lt
  recv_done := h.recv_done
  recv_access := h.recv_access
  running id w hw hrunning := by
    rw [getElem?_drop] at hw
    obtain ⟨w', hw', rfl⟩ := Option.map_eq_some_iff.1 hw
    by_cases hstop : m.stop.contains id = true
    · exact hstop
    · rw [if_neg hstop] at hrunning
      exact h.running id w' hw' hrunning

/-- **Dropping the mux leaves no task that was not told to end.** -/
theorem ending_of_drop (h : m.Books) {w : Writer} (hw : w ∈ m.drop.tasks) : w.Ending := by
  obtain ⟨id, hid⟩ := List.mem_iff_getElem?.1 hw
  rw [getElem?_drop] at hid
  obtain ⟨w', hw', rfl⟩ := Option.map_eq_some_iff.1 hid
  by_cases hstop : m.stop.contains id = true
  · rw [if_pos hstop]
    exact .inl rfl
  · rw [if_neg hstop]
    by_contra hrunning
    exact hstop (h.running id w' hw' hrunning)

end WebSocketMux

end Sush
