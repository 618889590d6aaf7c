import Sush.Server.Locker
import Sush.Common.Terms

/-!
# The locker is never stale

A slot's file was written by the last acknowledged store or by a store attempted after it: an
acknowledged store has written every slot, and a blocking half that was overtaken refuses to write.
`Drives.Sound` says so together with what the tenant needs to keep it true, every action keeps it, and
a load returns what it found in some slot. No sequence number exceeds the number of stores attempted, so
none wraps around before there were `2 ^ 64`.
-/

namespace Sush

open Lib (AckLog)

variable [World]
variable {found : List Envelope} {slot : ℕ} {record : List UInt8} {log : AckLog (List UInt8)}
  {e : Envelope}

/-! ## The pair rules -/

theorem newestOf_mem (first : Envelope) (rest : List Envelope) :
    newestOf first rest ∈ first :: rest := by
  unfold newestOf
  induction rest generalizing first with
  | nil => exact List.mem_singleton.2 rfl
  | cons e rest ih =>
    rw [List.foldl_cons]
    split
    · exact List.mem_cons_of_mem _ (ih e)
    · rcases List.mem_cons.1 (ih first) with h | h
      · exact List.mem_cons.2 (.inl h)
      · exact List.mem_cons_of_mem _ (List.mem_cons_of_mem _ h)

theorem judge_record {slots : ℕ} (h : (judge slots found).verdict.record = some record) :
    ∃ e ∈ found, e.record = record := by
  cases found with
  | nil => cases h
  | cons first rest =>
    unfold judge at h
    dsimp only at h
    split at h
    · split at h <;> exact ⟨first, List.mem_cons_self, Option.some.inj h⟩
    · split at h
      · exact ⟨_, newestOf_mem first rest, Option.some.inj h⟩
      · cases h

theorem judge_repair {slots : ℕ} (h : (judge slots found).repair = some record) :
    (judge slots found).verdict.record = some record := by
  cases found with
  | nil => cases h
  | cons first rest =>
    unfold judge at h ⊢
    dsimp only at h ⊢
    split at h
    · rw [if_pos (by assumption)]
      split at h
      · rw [if_pos (by assumption)]
        exact h
      · cases h
    · rw [if_neg (by assumption)]
      split at h
      · rw [if_pos (by assumption)]
        exact h
      · cases h

theorem judge_newest_le {slots bound : ℕ} (h : ∀ e ∈ found, e.seq ≤ bound) :
    (judge slots found).newest ≤ bound := by
  cases found with
  | nil => exact Nat.zero_le _
  | cons first rest =>
    have hmax : rest.foldl (fun seq e => max seq e.seq) first.seq ≤ bound := by
      refine List.foldlRecOn rest _ (motive := (· ≤ bound)) (h first List.mem_cons_self) ?_
      exact fun seq hseq e he => max_le hseq (h e (List.mem_cons_of_mem _ he))
    unfold judge
    dsimp only
    split
    · split <;> exact hmax
    · split
      · exact h _ (newestOf_mem first rest)
      · exact Nat.zero_le _

/-! ## The invariant -/

/-- The record of an envelope is current, and its number is that of an attempt. -/
def Envelope.Fits (log : AckLog (List UInt8)) (e : Envelope) : Prop :=
  log.Current e.record ∧ e.seq ≤ log.attempts.length

theorem Envelope.Fits.attempt (h : e.Fits log) : e.Fits (log.attempt record) :=
  ⟨h.1.attempt, h.2.trans (by simp [AckLog.attempt])⟩

/-- The sequence number of the store that the holder of the guard waits for. -/
def Holder.awaits : Holder → Option ℕ
  | .load .. => none
  | .store seq | .repair seq _ => some seq

/-- What a load that has not returned yet may return is current. -/
def Holder.Current (log : AckLog (List UInt8)) (commits : List Commit) : Holder → Prop
  | .load _ found => ∀ e ∈ found, e.Fits log
  | .store _ => True
  | .repair seq verdict => ∀ record, verdict.record = some record →
      log.Current record ∧ ∀ c ∈ commits, c.seq = seq → c.envelope.record = record

/-- What keeps the files of a running process current. -/
structure Tenant.Sound (slots : List (Option Envelope)) (log : AckLog (List UInt8)) (t : Tenant) :
    Prop where
  reserved : ∀ c ∈ t.commits, c.seq ≤ t.reserved ∧ c.envelope.seq = c.seq
  bound : t.reserved ≤ log.attempts.length
  nodup : (t.commits.map Commit.seq).Nodup
  attempted : ∀ c ∈ t.commits, log.attempts[c.id]? = some c.envelope.record
  since : ∀ c ∈ t.commits, t.committed < c.seq → log.Since c.id
  /-- The slots written so far hold what is being written, or were removed since. -/
  writing : ∀ c k, t.writing = some (c, k) →
    t.committed < c.seq ∧ ∀ i < k, ∀ e, slots[i]? = some (some e) → e = c.envelope
  awaits : ∀ h seq, t.holder = some h → h.awaits = some seq → seq = t.reserved
  holder : ∀ h, t.holder = some h → h.Current log t.commits

theorem Tenant.Sound.release {slots : List (Option Envelope)} {t : Tenant} (h : t.Sound slots log) :
    ({ t with holder := none } : Tenant).Sound slots log where
  reserved := h.reserved
  bound := h.bound
  nodup := h.nodup
  attempted := h.attempted
  since := h.since
  writing := h.writing
  awaits _ _ hh := by cases hh
  holder _ hh := by cases hh

/-- No file is older than the last acknowledged store. -/
structure Drives.Sound (d : Drives) : Prop where
  slots : ∀ e, some e ∈ d.slots → e.Fits d.log
  tenant : ∀ t, d.tenant = some t → t.Sound d.slots d.log

/-- Every record that a load returns among `outs` is current. -/
def Drives.Answers (d : Drives) (outs : List LockerOut) : Prop :=
  ∀ verdict record, .loaded verdict ∈ outs → verdict.record = some record → d.log.Current record

namespace Drives

variable {own : BaseboardId} {d : Drives} {t : Tenant}

theorem answers_nil : d.Answers [] := fun _ _ h => by cases h

theorem sound_new (slots : ℕ) : (new slots).Sound where
  slots e h := by cases List.eq_of_mem_replicate h
  tenant t h := by cases h

theorem sound_tenant_new (nonce : Nonce) : (Tenant.new nonce).Sound d.slots d.log where
  reserved c h := by cases h
  bound := Nat.zero_le _
  nodup := List.nodup_nil
  attempted c h := by cases h
  since c h := by cases h
  writing c k h := by cases h
  awaits _ _ h := by cases h
  holder h hh := by cases hh

theorem commits_reserve {t : Tenant} {seq : ℕ} {holder : Option Holder} {c : Commit} :
    ({ t with reserved := seq, holder := holder, detached := t.detached ++ [c] } : Tenant).commits =
      t.commits ++ [c] :=
  (List.append_assoc _ _ _).symm

/-- **A new store** is attempted after everything, so it is current whenever it is written. -/
theorem sound_reserve {holder : ℕ → Holder} (hslots : ∀ e, some e ∈ d.slots → e.Fits d.log)
    (ht : t.Sound d.slots d.log) (hwaits : ∀ seq, (holder seq).awaits = some seq)
    (hholder : ∀ commits, (∀ c ∈ commits, c.seq = t.reserved + 1 → c.envelope.record = record) →
      (holder (t.reserved + 1)).Current (d.log.attempt record) commits) :
    (d.reserve own t record holder).Sound where
  slots e he := (hslots e he).attempt
  tenant t' h' := by
    cases h'
    refine ⟨?_, ?_, ?_, ?_, ?_, ht.writing, ?_, ?_⟩
    · intro c hc
      rw [commits_reserve, List.mem_append, List.mem_singleton] at hc
      rcases hc with hc | rfl
      · exact ⟨(ht.reserved c hc).1.trans (Nat.le_succ _), (ht.reserved c hc).2⟩
      · exact ⟨le_rfl, rfl⟩
    · exact (Nat.succ_le_succ ht.bound).trans (by simp [reserve, AckLog.attempt])
    · rw [commits_reserve, List.map_append, List.nodup_append]
      refine ⟨ht.nodup, List.nodup_singleton _, ?_⟩
      intro seq hseq seq' hseq'
      obtain ⟨c, hc, rfl⟩ := List.mem_map.1 hseq
      rw [List.mem_singleton.1 hseq']
      exact (Nat.lt_succ_of_le (ht.reserved c hc).1).ne
    · intro c hc
      rw [commits_reserve, List.mem_append, List.mem_singleton] at hc
      rcases hc with hc | rfl
      · exact AckLog.getElem?_attempt (ht.attempted c hc)
      · exact AckLog.getElem?_attempt_self
    · intro c hc hseq
      rw [commits_reserve, List.mem_append, List.mem_singleton] at hc
      rcases hc with hc | rfl
      · exact ht.since c hc hseq
      · exact AckLog.since_attempt_self
    · intro h seq hh hseq
      cases hh
      exact Option.some.inj (hseq.symm.trans (hwaits _))
    · intro h hh
      cases hh
      refine hholder _ fun c hc hseq => ?_
      rw [commits_reserve, List.mem_append, List.mem_singleton] at hc
      rcases hc with hc | rfl
      · exact absurd (ht.reserved c hc).1 (by omega)
      · rfl

/-- **A load that has seen every slot** returns a record it found, and repairs with it. -/
theorem sound_conclude {slots : ℕ} (hslots : ∀ e, some e ∈ d.slots → e.Fits d.log)
    (ht : t.Sound d.slots d.log) (hfound : ∀ e ∈ found, e.Fits d.log) :
    (d.conclude own t (judge slots found)).1.Sound ∧
      (d.conclude own t (judge slots found)).1.Answers (d.conclude own t (judge slots found)).2 := by
  have hcurrent : ∀ record, (judge slots found).verdict.record = some record →
      d.log.Current record := by
    intro record h
    obtain ⟨e, he, rfl⟩ := judge_record h
    exact (hfound e he).1
  have hraised : ({ t with reserved := max (judge slots found).newest t.reserved, holder := none } :
      Tenant).Sound d.slots d.log :=
    { ht.release with
      reserved := fun c hc => ⟨(ht.reserved c hc).1.trans (le_max_right _ _), (ht.reserved c hc).2⟩
      bound := max_le (judge_newest_le fun e he => (hfound e he).2) ht.bound
      awaits := fun _ _ hh => by cases hh }
  unfold conclude
  dsimp only
  cases hrepair : (judge slots found).repair with
  | none =>
    refine ⟨⟨hslots, fun t' h' => Option.some.inj h' ▸ hraised⟩, ?_⟩
    intro verdict record hmem hrecord
    cases List.mem_singleton.1 hmem
    exact hcurrent record hrecord
  | some record =>
    dsimp only
    refine ⟨sound_reserve hslots hraised (fun _ => rfl) ?_, answers_nil⟩
    intro commits hcommits record' hrecord'
    rw [judge_repair hrepair] at hrecord'
    cases hrecord'
    exact ⟨(hcurrent record (judge_repair hrepair)).attempt, hcommits⟩

theorem collect_current {found found' : List Envelope} {file : SlotRead} {P : Envelope → Prop}
    (hcollect : collect own slot found file = .ok found') (hfound : ∀ e ∈ found, P e)
    (hfile : ∀ e, file = .holds e → P e) : ∀ e ∈ found', P e := by
  cases file with
  | missing => cases hcollect; exact hfound
  | failed error => cases hcollect
  | corrupt => cases hcollect
  | holds e =>
    simp only [collect] at hcollect
    split at hcollect
    · cases hcollect
      intro e' he'
      rcases List.mem_append.1 he' with h | h
      · exact hfound e' h
      · exact List.mem_singleton.1 h ▸ hfile e rfl
    · cases hcollect

theorem mem_of_join_eq_some (h : (d.slots[slot]?).join = some e) : some e ∈ d.slots :=
  List.mem_of_getElem? (Option.join_eq_some_iff.1 h)

/-- **A load that reads a slot** finds a current record. -/
theorem sound_readSlot {error : Option String} (hslots : ∀ e, some e ∈ d.slots → e.Fits d.log)
    (ht : t.Sound d.slots d.log) (hholder : t.holder = some (.load slot found)) :
    (d.readSlot own t slot found error).1.Sound ∧
      (d.readSlot own t slot found error).1.Answers (d.readSlot own t slot found error).2 := by
  have hfound : ∀ e ∈ found, e.Fits d.log := ht.holder _ hholder
  unfold readSlot
  dsimp only
  split
  · refine ⟨⟨hslots, fun t' h' => Option.some.inj h' ▸ ht.release⟩, ?_⟩
    intro verdict record hmem hrecord
    cases List.mem_singleton.1 hmem
    cases hrecord
  · next found' hcollect =>
    have hfound' : ∀ e ∈ found', e.Fits d.log := by
      refine collect_current hcollect hfound fun e he => hslots e ?_
      split at he
      · cases he
      · next hread => cases he; exact mem_of_join_eq_some hread
      · cases he
    split
    · refine ⟨⟨hslots, fun t' h' => Option.some.inj h' ▸ ?_⟩, answers_nil⟩
      exact { ht.release with
        awaits := fun h seq hh hseq => by cases hh; cases hseq
        holder := fun h hh => by cases hh; exact hfound' }
    · exact sound_conclude hslots ht hfound'

end Drives

/-! ## The blocking half -/

theorem Holder.Current.mono {commits commits' : List Commit} {h : Holder}
    (hh : h.Current log commits) (hsub : ∀ c ∈ commits', c ∈ commits) : h.Current log commits' := by
  cases h with
  | load slot found => exact hh
  | store seq => trivial
  | repair seq verdict =>
    intro record hrecord
    obtain ⟨hcurrent, heq⟩ := hh record hrecord
    exact ⟨hcurrent, fun c hc => heq c (hsub c hc)⟩

/-- **A blocking half that ends** leaves the others as they were. -/
theorem Tenant.Sound.ended {slots : List (Option Envelope)} {t t' : Tenant} {c : Commit}
    (ht : t.Sound slots log) (hperm : t.commits.Perm (c :: t'.commits))
    (hreserved : t'.reserved = t.reserved) (hcommitted : t.committed ≤ t'.committed)
    (hwriting : t'.writing = none) (hholder : t'.holder = t.holder) : t'.Sound slots log := by
  have hsub : ∀ c' ∈ t'.commits, c' ∈ t.commits :=
    fun c' hc' => hperm.mem_iff.2 (List.mem_cons_of_mem _ hc')
  refine ⟨?_, hreserved ▸ ht.bound, ?_, ?_, ?_, ?_, ?_, ?_⟩
  · exact fun c' hc' => hreserved ▸ ht.reserved c' (hsub c' hc')
  · exact (List.nodup_cons.1 ((hperm.map Commit.seq).nodup_iff.1 ht.nodup)).2
  · exact fun c' hc' => ht.attempted c' (hsub c' hc')
  · exact fun c' hc' hseq => ht.since c' (hsub c' hc') (hcommitted.trans_lt hseq)
  · intro c' k h
    rw [hwriting] at h
    cases h
  · exact fun h seq hh hseq => hreserved ▸ ht.awaits h seq (hholder ▸ hh) hseq
  · exact fun h hh => (ht.holder h (hholder ▸ hh)).mono hsub

namespace Drives

variable {own : BaseboardId} {d : Drives} {t : Tenant} {c : Commit}

/-- **A store that failed** is told to whoever waits for it, and leaves the log alone. -/
theorem sound_report_error {error : StoreError}
    (hslots : ∀ e, some e ∈ d.slots → e.Fits d.log) (ht : t.Sound d.slots d.log) :
    (d.report t c (.error error)).1.Sound ∧
      (d.report t c (.error error)).1.Answers (d.report t c (.error error)).2 := by
  have hkept : ({ d with tenant := some t } : Drives).Sound :=
    ⟨hslots, fun t' h' => Option.some.inj h' ▸ ht⟩
  have hreleased : ({ d with tenant := some { t with holder := none } } : Drives).Sound :=
    ⟨hslots, fun t' h' => Option.some.inj h' ▸ ht.release⟩
  unfold report
  dsimp only
  split
  · split
    · refine ⟨hreleased, ?_⟩
      intro verdict record hmem _
      cases List.mem_singleton.1 hmem
    · exact ⟨hkept, answers_nil⟩
  · next seq verdict hholder =>
    split
    · refine ⟨hreleased, ?_⟩
      intro verdict' record hmem hrecord
      cases List.mem_singleton.1 hmem
      exact (ht.holder _ hholder record hrecord).1
    · exact ⟨hkept, answers_nil⟩
  · exact ⟨hkept, answers_nil⟩

/-- **A store that wrote every slot** is acknowledged if somebody waits for it. Every file is then
its own, and every store that has not ended was attempted before it and is refused from now on. -/
theorem sound_report_ok (hall : ∀ e, some e ∈ d.slots → e = c.envelope)
    (ht : t.Sound d.slots d.log) (hslots : ∀ e, some e ∈ d.slots → e.Fits d.log)
    (hattempted : d.log.attempts[c.id]? = some c.envelope.record) (hcommitted : t.committed = c.seq)
    (hholder : ∀ h, t.holder = some h → h.Current d.log [c]) :
    (d.report t c (.ok ())).1.Sound ∧
      (d.report t c (.ok ())).1.Answers (d.report t c (.ok ())).2 := by
  have hkept : ({ d with tenant := some t } : Drives).Sound :=
    ⟨hslots, fun t' h' => Option.some.inj h' ▸ ht⟩
  have hacked : (d.log.ack c.id).Current c.envelope.record := AckLog.current_ack hattempted
  have hreleased : ∀ h seq, t.holder = some h → h.awaits = some seq → seq = c.seq →
      ({ d with tenant := some { t with holder := none }, log := d.log.ack c.id } :
        Drives).Sound := by
    intro h seq hh hseq heq
    refine ⟨fun e he => ⟨hall e he ▸ hacked, ?_⟩, fun t' h' => Option.some.inj h' ▸ ?_⟩
    · rw [AckLog.attempts_ack]
      exact (hslots e he).2
    refine { ht.release with bound := ?_, attempted := ?_, since := ?_, holder := ?_ }
    · rw [AckLog.attempts_ack]
      exact ht.bound
    · intro c' hc'
      rw [AckLog.attempts_ack]
      exact ht.attempted c' hc'
    · intro c' hc' hlt
      have hle := (ht.reserved c' hc').1
      rw [← ht.awaits h seq hh hseq, heq, ← hcommitted] at hle
      exact absurd hle (not_le.2 hlt)
    · intro _ hh'
      cases hh'
  unfold report
  dsimp only
  split
  · next seq hh =>
    split
    · next heq =>
      refine ⟨hreleased _ seq hh rfl heq, ?_⟩
      intro verdict record hmem _
      cases List.mem_singleton.1 hmem
    · exact ⟨hkept, answers_nil⟩
  · next seq verdict hh =>
    split
    · next heq =>
      refine ⟨hreleased _ seq hh rfl heq, ?_⟩
      intro verdict' record hmem hrecord
      cases List.mem_singleton.1 hmem
      rw [← (hholder _ hh record hrecord).2 c (List.mem_singleton.2 rfl) heq.symm]
      exact hacked
    · exact ⟨hkept, answers_nil⟩
  · exact ⟨hkept, answers_nil⟩

theorem sound_beginCommit (h : d.Sound) (ht : d.tenant = some t) (place : ℕ) :
    (d.beginCommit t place).1.Sound ∧
      (d.beginCommit t place).1.Answers (d.beginCommit t place).2 := by
  have hsound := h.tenant t ht
  unfold beginCommit
  split
  · next c hc hw =>
    have hperm : t.commits.Perm
        (c :: ({ t with detached := t.detached.eraseIdx place } : Tenant).commits) := by
      unfold Tenant.commits
      rw [hw]
      obtain ⟨hlt, rfl⟩ := List.getElem?_eq_some_iff.1 hc
      exact (List.getElem_cons_eraseIdx_perm hlt).symm
    have hended := hsound.ended hperm rfl le_rfl hw rfl
    dsimp only
    split
    · exact sound_report_error h.slots hended
    · next hlt =>
      refine ⟨⟨h.slots, fun t' h' => Option.some.inj h' ▸ ?_⟩, answers_nil⟩
      have hcommits : ({ t with
          detached := t.detached.eraseIdx place, writing := some (c, 0) } : Tenant).commits =
          c :: ({ t with detached := t.detached.eraseIdx place } : Tenant).commits := by
        unfold Tenant.commits
        rw [hw]
        rfl
      have hmem : ∀ c' ∈ ({ t with
          detached := t.detached.eraseIdx place, writing := some (c, 0) } : Tenant).commits,
          c' ∈ t.commits := fun c' hc' => hperm.mem_iff.2 (hcommits ▸ hc')
      refine ⟨fun c' hc' => hsound.reserved c' (hmem c' hc'), hsound.bound, ?_,
        fun c' hc' => hsound.attempted c' (hmem c' hc'),
        fun c' hc' => hsound.since c' (hmem c' hc'), ?_, hsound.awaits,
        fun h' hh' => (hsound.holder h' hh').mono hmem⟩
      · rw [hcommits]
        exact (hperm.map Commit.seq).nodup_iff.1 hsound.nodup
      · intro c' k hck
        cases hck
        exact ⟨not_le.1 hlt, fun i hi => absurd hi (Nat.not_lt_zero i)⟩
  · exact ⟨h, answers_nil⟩

theorem mem_of_mem_set {slots : List (Option Envelope)} {k : ℕ} {file : Option Envelope}
    (h : some e ∈ slots.set k file) : file = some e ∨ some e ∈ slots := by
  rcases List.mem_or_eq_of_mem_set h with h | h
  · exact .inr h
  · exact .inl h.symm

/-- **A slot is written** by a store that no acknowledged store has overtaken. -/
theorem sound_write (h : d.Sound) (ht : d.tenant = some t) (hw : t.writing = some (c, slot)) :
    ({ d with
      slots := d.slots.set slot (some c.envelope)
      tenant := some { t with writing := some (c, slot + 1) } } : Drives).Sound := by
  have hsound := h.tenant t ht
  have hcommits : ({ t with writing := some (c, slot + 1) } : Tenant).commits = t.commits := by
    unfold Tenant.commits
    rw [hw]
    rfl
  have hc : c ∈ t.commits := by
    unfold Tenant.commits
    rw [hw]
    exact List.mem_cons_self
  obtain ⟨hlt, hwritten⟩ := hsound.writing c slot hw
  refine ⟨fun e he => ?_, fun t' h' => Option.some.inj h' ▸ ?_⟩
  · rcases mem_of_mem_set he with he | he
    · cases he
      obtain ⟨hseq, hstamp⟩ := hsound.reserved c hc
      exact ⟨⟨c.id, hsound.attempted c hc, hsound.since c hc hlt⟩, hstamp ▸ hseq.trans hsound.bound⟩
    · exact h.slots e he
  · refine ⟨hcommits ▸ hsound.reserved, hsound.bound, hcommits ▸ hsound.nodup, hcommits ▸ hsound.attempted,
      hcommits ▸ hsound.since, ?_, hsound.awaits, hcommits ▸ hsound.holder⟩
    intro c' k hck
    cases hck
    refine ⟨hlt, fun i hi e he => ?_⟩
    rw [List.getElem?_set] at he
    split at he
    · split at he
      · exact (Option.some.inj (Option.some.inj he)).symm
      · cases he
    · exact hwritten i (by omega) e he

/-- **A file is removed.** -/
theorem sound_remove (h : d.Sound) (slot : ℕ) :
    ({ d with slots := d.slots.set slot none } : Drives).Sound := by
  refine ⟨fun e he => ?_, fun t ht => ?_⟩
  · rcases mem_of_mem_set he with he | he
    · cases he
    · exact h.slots e he
  · have hsound := h.tenant t ht
    refine { hsound with writing := fun c k hw => ?_ }
    obtain ⟨hlt, hwritten⟩ := hsound.writing c k hw
    refine ⟨hlt, fun i hi e he => hwritten i hi e ?_⟩
    rw [List.getElem?_set] at he
    split at he
    · split at he <;> cases he
    · exact he

theorem commits_perm_writing (hw : t.writing = some (c, slot)) (committed : ℕ) :
    t.commits.Perm
      (c :: ({ t with writing := none, committed := committed } : Tenant).commits) := by
  unfold Tenant.commits
  rw [hw]
  rfl

theorem sound_act (h : d.Sound) (ht : d.tenant = some t) (action : LockerAct) :
    (d.act own t action).1.Sound ∧ (d.act own t action).1.Answers (d.act own t action).2 := by
  have hsound := h.tenant t ht
  have hsame : d.Sound ∧ d.Answers [] := ⟨h, answers_nil⟩
  cases action with
  | start nonce => exact hsame
  | crash => exact hsame
  | remove slot => exact hsame
  | store record =>
    unfold act
    dsimp only
    split
    · exact hsame
    · split
      · refine ⟨h, fun verdict record hmem => ?_⟩
        cases List.mem_singleton.1 hmem
      · exact ⟨sound_reserve h.slots hsound (fun _ => rfl) fun _ _ => trivial, answers_nil⟩
  | load =>
    unfold act
    dsimp only
    split
    · exact hsame
    · split
      · refine ⟨h, fun verdict record hmem hrecord => ?_⟩
        cases List.mem_singleton.1 hmem
        cases hrecord
      · refine ⟨⟨h.slots, fun t' h' => Option.some.inj h' ▸ ?_⟩, answers_nil⟩
        exact { hsound.release with
          awaits := fun _ _ hh hseq => by cases hh; cases hseq
          holder := fun _ hh => by cases hh; exact fun e he => by cases he }
  | cancel =>
    exact ⟨⟨h.slots, fun t' h' => Option.some.inj h' ▸ hsound.release⟩, answers_nil⟩
  | begin place => exact sound_beginCommit h ht place
  | write =>
    unfold act
    dsimp only
    split
    · next c slot hw =>
      split
      · exact ⟨sound_write h ht hw, answers_nil⟩
      · exact hsame
    · exact hsame
  | fail error =>
    unfold act
    dsimp only
    split
    · next c slot hw =>
      split
      · exact sound_report_error h.slots
          (hsound.ended (commits_perm_writing hw t.committed) rfl le_rfl rfl rfl)
      · exact hsame
    · exact hsame
  | finish =>
    unfold act
    dsimp only
    split
    · next c slot hw =>
      split
      · exact hsame
      · next hslot =>
        have hperm := commits_perm_writing hw c.seq
        have hc : c ∈ t.commits := hperm.mem_iff.2 List.mem_cons_self
        obtain ⟨hlt, hwritten⟩ := hsound.writing c slot hw
        refine sound_report_ok ?_ (hsound.ended hperm rfl hlt.le rfl rfl) h.slots
          (hsound.attempted c hc) rfl ?_
        · intro e he
          obtain ⟨i, hi, hie⟩ := List.getElem_of_mem he
          exact hwritten i (by omega) e (by rw [List.getElem?_eq_getElem hi, hie])
        · intro h' hh'
          refine (hsound.holder h' hh').mono fun c' hc' => ?_
          rw [List.mem_singleton.1 hc']
          exact hc
    · exact hsame
  | read error =>
    unfold act
    dsimp only
    split
    · next slot found hholder => exact sound_readSlot h.slots hsound hholder
    · exact hsame

/-- **Every action** keeps the files current, and what a load returns is current. -/
theorem sound_step (h : d.Sound) (action : LockerAct) :
    (d.step own action).1.Sound ∧ (d.step own action).1.Answers (d.step own action).2 := by
  cases action with
  | remove slot => exact ⟨sound_remove h slot, answers_nil⟩
  | crash => exact ⟨⟨h.slots, fun t ht => by cases ht⟩, answers_nil⟩
  | start nonce =>
    unfold step
    dsimp only
    split
    · refine ⟨⟨h.slots, fun t' h' => Option.some.inj h' ▸ ?_⟩, answers_nil⟩
      exact sound_tenant_new nonce
    · exact ⟨h, answers_nil⟩
  | _ =>
    unfold step
    dsimp only
    cases ht : d.tenant with
    | none => exact ⟨h, answers_nil⟩
    | some t => exact sound_act h ht _

theorem sound_run (h : d.Sound) (acts : List LockerAct) : (d.run own acts).1.Sound :=
  Lib.run_invariant (step own) (P := fun d _ _ => d.Sound)
    (fun _ _ _ action hd => (sound_step hd action).1) h acts

end Drives

end Sush

namespace Sush.Terms

attribute [local instance] world

/-- A store is acknowledged, the next one fails at the second slot, and a load finds the slots torn
and repairs them. -/
def tornRepaired : List LockerAct :=
  [.start 1, .store [1], .begin 0, .write, .write, .finish, .store [2], .begin 0, .write,
    .fail "no space", .load, .read none, .read none, .begin 0, .write, .write]

end Sush.Terms
