import Sush.Verify.Locker

/-!
# A torn write

A store that is interrupted between two slots leaves its record in the first one. The next load finds
it there, and returns it if the other slot is empty, holds the same record, or was last written by
the same process, which gave it a smaller sequence number. A record that another process wrote to the
other slot is a disagreement, and the load discards both.

`Drives.Origin` says which process wrote a file: files carry the nonce of a life that has started, and
the last slot is written only by a store that has written all the others.
-/

namespace Sush

variable [World]

def LockerAct.nonce? : LockerAct → Option Nonce
  | .start nonce => some nonce
  | _ => none

/-- The envelope of a store of the tenant `t` on the sled `own`. -/
structure Commit.Stamped (own : BaseboardId) (t : Tenant) (c : Commit) : Prop where
  nonce : c.envelope.nonce = t.nonce
  seq : c.envelope.seq = c.seq
  baseboard : c.envelope.baseboard = own

theorem Commit.Stamped.of_nonce {own : BaseboardId} {t t' : Tenant} {c : Commit}
    (h : c.Stamped own t) (hnonce : t'.nonce = t.nonce) : c.Stamped own t' :=
  ⟨h.nonce.trans hnonce.symm, h.seq, h.baseboard⟩

/-- What the files and the stores of a running process have to do with each other. -/
structure Tenant.Origin (own : BaseboardId) (slots : List (Option Envelope)) (t : Tenant) : Prop where
  stamped : ∀ c ∈ t.commits, c.Stamped own t
  writing : ∀ c k, t.writing = some (c, k) →
    t.committed < c.seq ∧ ∀ i < k, i < slots.length → slots[i]? = some (some c.envelope)
  /-- The last slot holds what this process committed, or is just being written. -/
  last : ∀ k e, slots.length = k + 1 → slots[k]? = some (some e) → e.nonce = t.nonce →
    e.seq ≤ t.committed ∨ ∃ c, t.writing = some (c, k + 1)

/-- Every file was written by a life that has started, on this sled. -/
structure Drives.Origin (own : BaseboardId) (n : ℕ) (nonces : List Nonce) (d : Drives) : Prop where
  length : d.slots.length = n
  slots : ∀ e, some e ∈ d.slots → e.nonce ∈ nonces ∧ e.baseboard = own
  tenant : ∀ t, d.tenant = some t → t.nonce ∈ nonces ∧ t.Origin own d.slots

/-- `t'` is `t` but for its guard, its reservations, and new stores of its own. -/
def Tenant.Grows (own : BaseboardId) (t t' : Tenant) : Prop :=
  ∃ reserved holder more, (∀ c ∈ more, c.Stamped own t) ∧
    t' = { t with reserved := reserved, holder := holder, detached := t.detached ++ more }

theorem Tenant.Grows.guard {own : BaseboardId} (t : Tenant) (reserved : ℕ)
    (holder : Option Holder) :
    t.Grows own { t with reserved := reserved, holder := holder } :=
  ⟨reserved, holder, [], by simp, by simp⟩

theorem Tenant.Origin.grow {own : BaseboardId} {slots : List (Option Envelope)} {t t' : Tenant}
    (h : t.Origin own slots) (hgrow : t.Grows own t') : t'.Origin own slots := by
  obtain ⟨reserved, holder, more, hmore, rfl⟩ := hgrow
  refine ⟨fun c hc => ?_, h.writing, h.last⟩
  have hc' : c ∈ t.commits ++ more := by
    unfold Tenant.commits at hc ⊢
    rwa [List.append_assoc]
  rcases List.mem_append.1 hc' with hc | hc
  · exact (h.stamped c hc).of_nonce rfl
  · exact (hmore c hc).of_nonce rfl

namespace Drives

variable {own : BaseboardId} {n : ℕ} {nonces : List Nonce} {d : Drives} {t : Tenant} {c : Commit}

theorem reserve_grows (d : Drives) (t : Tenant) (record : List UInt8) (holder : ℕ → Holder) :
    ∃ t', (d.reserve own t record holder).tenant = some t' ∧ t.Grows own t' := by
  refine ⟨_, rfl, _, _, [_], fun c hc => ?_, rfl⟩
  rw [List.mem_singleton.1 hc]
  exact ⟨rfl, rfl, rfl⟩

theorem conclude_grows (judgement : Judgement) :
    (d.conclude own t judgement).1.slots = d.slots ∧
      ∃ t', (d.conclude own t judgement).1.tenant = some t' ∧ t.Grows own t' := by
  unfold conclude
  dsimp only
  split
  · next record _ =>
    obtain ⟨t', ht', reserved, holder, more, hmore, rfl⟩ := reserve_grows d
      { t with reserved := max judgement.newest t.reserved, holder := none } record
      (.repair · judgement.verdict)
    exact ⟨rfl, _, ht', reserved, holder, more, fun c hc => (hmore c hc).of_nonce rfl, rfl⟩
  · exact ⟨rfl, _, rfl, .guard t _ _⟩

theorem readSlot_grows (slot : ℕ) (found : List Envelope) (error : Option String) :
    (d.readSlot own t slot found error).1.slots = d.slots ∧
      ∃ t', (d.readSlot own t slot found error).1.tenant = some t' ∧ t.Grows own t' := by
  unfold readSlot
  dsimp only
  split
  · exact ⟨rfl, _, rfl, .guard t _ _⟩
  · split
    · exact ⟨rfl, _, rfl, .guard t _ _⟩
    · exact conclude_grows _

theorem report_grows (own : BaseboardId) (d : Drives) (t : Tenant) (c : Commit)
    (result : Except StoreError Unit) :
    (d.report t c result).1.slots = d.slots ∧
      ∃ t', (d.report t c result).1.tenant = some t' ∧ t.Grows own t' := by
  unfold report
  dsimp only
  split
  · split
    · exact ⟨rfl, _, rfl, .guard t _ _⟩
    · exact ⟨rfl, _, rfl, .guard t _ _⟩
  · split
    · exact ⟨rfl, _, rfl, .guard t _ _⟩
    · exact ⟨rfl, _, rfl, .guard t _ _⟩
  · exact ⟨rfl, _, rfl, .guard t _ _⟩

theorem Origin.mono {nonces' : List Nonce} (h : d.Origin own n nonces) (hsub : nonces ⊆ nonces') :
    d.Origin own n nonces' :=
  ⟨h.length, fun e he => ⟨hsub (h.slots e he).1, (h.slots e he).2⟩,
    fun t ht => ⟨hsub (h.tenant t ht).1, (h.tenant t ht).2⟩⟩

theorem Origin.grow {d' : Drives} {t₁ : Tenant} (h : d.Origin own n nonces)
    (ht₁ : t₁.Origin own d.slots) (hnonce : t₁.nonce ∈ nonces)
    (hgrow : d'.slots = d.slots ∧ ∃ t', d'.tenant = some t' ∧ t₁.Grows own t') :
    d'.Origin own n nonces := by
  obtain ⟨hslots, t', ht', hgrow⟩ := hgrow
  refine ⟨hslots ▸ h.length, hslots ▸ h.slots, fun t'' h'' => ?_⟩
  rw [ht'] at h''
  cases h''
  refine ⟨?_, hslots ▸ ht₁.grow hgrow⟩
  obtain ⟨_, _, _, _, rfl⟩ := hgrow
  exact hnonce

theorem mem_commits_eraseIdx {place : ℕ} {c' : Commit}
    (hc' : c' ∈ ({ t with detached := t.detached.eraseIdx place } : Tenant).commits) :
    c' ∈ t.commits := by
  unfold Tenant.commits at hc' ⊢
  rcases List.mem_append.1 hc' with h | h
  · exact List.mem_append_left _ h
  · exact List.mem_append_right _ (List.mem_of_mem_eraseIdx h)

theorem origin_beginCommit (h : d.Origin own n nonces) (ht : d.tenant = some t) (place : ℕ) :
    (d.beginCommit t place).1.Origin own n nonces := by
  obtain ⟨hnonce, horigin⟩ := h.tenant t ht
  unfold beginCommit
  split
  · next c hc hw =>
    have herased : ({ t with detached := t.detached.eraseIdx place } : Tenant).Origin own d.slots :=
      ⟨fun c' hc' => (horigin.stamped c' (mem_commits_eraseIdx hc')).of_nonce rfl,
        horigin.writing, horigin.last⟩
    dsimp only
    split
    · exact h.grow herased hnonce (report_grows own d _ _ _)
    · next hlt =>
      refine ⟨h.length, h.slots, fun t' h' => ?_⟩
      cases h'
      refine ⟨hnonce, ?_, ?_, ?_⟩
      · intro c' hc'
        have hc'' : c' ∈ t.commits := by
          unfold Tenant.commits at hc' ⊢
          rw [hw]
          rcases List.mem_append.1 hc' with h | h
          · exact List.mem_append_right _ (List.mem_singleton.1 h ▸ List.mem_of_getElem? hc)
          · exact List.mem_append_right _ (List.mem_of_mem_eraseIdx h)
        exact (horigin.stamped c' hc'').of_nonce rfl
      · intro c' k hck
        cases hck
        exact ⟨not_le.1 hlt, fun i hi => absurd hi (Nat.not_lt_zero i)⟩
      · intro k e hk he hn
        rcases horigin.last k e hk he hn with hle | ⟨c', hc'⟩
        · exact .inl hle
        · rw [hw] at hc'
          cases hc'
  · exact h

/-- **A slot is written**: the last one only after all the others. -/
theorem origin_write {slot : ℕ} (h : d.Origin own n nonces) (ht : d.tenant = some t)
    (hw : t.writing = some (c, slot)) (hslot : slot < d.slots.length) :
    ({ d with
      slots := d.slots.set slot (some c.envelope)
      tenant := some { t with writing := some (c, slot + 1) } } : Drives).Origin own n nonces := by
  obtain ⟨hnonce, horigin⟩ := h.tenant t ht
  have hc : c ∈ t.commits := (commits_perm_writing hw 0).mem_iff.2 List.mem_cons_self
  have hstamped := horigin.stamped c hc
  obtain ⟨hlt, hwritten⟩ := horigin.writing c slot hw
  refine ⟨List.length_set.trans h.length, fun e he => ?_, fun t' h' => ?_⟩
  · rcases mem_of_mem_set he with he | he
    · cases he
      exact ⟨hstamped.nonce ▸ hnonce, hstamped.baseboard⟩
    · exact h.slots e he
  · cases h'
    refine ⟨hnonce, ?_, ?_, ?_⟩
    · intro c' hc'
      have hc'' : c' ∈ t.commits := by
        unfold Tenant.commits at hc' ⊢
        rw [hw]
        exact hc'
      exact (horigin.stamped c' hc'').of_nonce rfl
    · intro c' k hck
      cases hck
      refine ⟨hlt, fun i hi hlen => ?_⟩
      rw [List.length_set] at hlen
      rw [List.getElem?_set]
      by_cases heq : slot = i
      · rw [if_pos heq, if_pos hslot]
      · rw [if_neg heq]
        exact hwritten i (by omega) hlen
    · intro k e hk he hn
      rw [List.length_set] at hk
      rw [List.getElem?_set] at he
      split at he
      · next hkslot => exact .inr ⟨c, by rw [hkslot]⟩
      · rcases horigin.last k e hk he hn with hle | ⟨c', hc'⟩
        · exact .inl hle
        · rw [hw] at hc'
          cases hc'
          exact absurd hslot (by omega)

/-- **A blocking half ends** before the last slot, or with every slot written. -/
theorem origin_ended {slot committed : ℕ} (horigin : t.Origin own d.slots)
    (hw : t.writing = some (c, slot))
    (hcommitted : slot < d.slots.length ∧ committed = t.committed ∨
      d.slots.length ≤ slot ∧ committed = c.seq) :
    ({ t with writing := none, committed := committed } : Tenant).Origin own d.slots := by
  obtain ⟨hlt, hwritten⟩ := horigin.writing c slot hw
  have hperm := commits_perm_writing hw committed
  refine ⟨fun c' hc' => ?_, fun _ _ hck => ?_, ?_⟩
  · exact (horigin.stamped c' (hperm.mem_iff.2 (List.mem_cons_of_mem _ hc'))).of_nonce rfl
  · cases hck
  · intro k e hk he hn
    left
    rcases hcommitted with ⟨hslot, rfl⟩ | ⟨hslot, rfl⟩
    · rcases horigin.last k e hk he hn with hle | ⟨c', hc'⟩
      · exact hle
      · rw [hw] at hc'
        cases hc'
        omega
    · rw [hwritten k (by omega) (by omega)] at he
      cases he
      exact (horigin.stamped c (hperm.mem_iff.2 List.mem_cons_self)).seq.le

theorem origin_act (h : d.Origin own n nonces) (ht : d.tenant = some t) (action : LockerAct) :
    (d.act own t action).1.Origin own n nonces := by
  obtain ⟨hnonce, horigin⟩ := h.tenant t ht
  cases action with
  | start nonce => exact h
  | crash => exact h
  | remove slot => exact h
  | store record =>
    unfold act
    dsimp only
    split
    · exact h
    · split
      · exact h
      · exact h.grow horigin hnonce ⟨rfl, reserve_grows d t record .store⟩
  | load =>
    unfold act
    dsimp only
    split
    · exact h
    · split
      · exact h
      · exact h.grow horigin hnonce ⟨rfl, _, rfl, .guard t _ _⟩
  | cancel => exact h.grow horigin hnonce ⟨rfl, _, rfl, .guard t _ _⟩
  | begin place => exact origin_beginCommit h ht place
  | write =>
    unfold act
    dsimp only
    split
    · next c slot hw =>
      split
      · next hslot => exact origin_write h ht hw hslot
      · exact h
    · exact h
  | fail error =>
    unfold act
    dsimp only
    split
    · next c slot hw =>
      split
      · next hslot =>
        exact h.grow (origin_ended horigin hw (.inl ⟨hslot, rfl⟩)) hnonce (report_grows own d _ _ _)
      · exact h
    · exact h
  | finish =>
    unfold act
    dsimp only
    split
    · next c slot hw =>
      split
      · exact h
      · next hslot =>
        exact h.grow (origin_ended horigin hw (.inr ⟨not_lt.1 hslot, rfl⟩)) hnonce (report_grows own d _ _ _)
    · exact h
  | read error =>
    unfold act
    dsimp only
    split
    · exact h.grow horigin hnonce (readSlot_grows _ _ _)
    · exact h

/-- **Every action but a removal** keeps the files accounted for, if a process starts with a nonce
no process had before. -/
theorem origin_step (h : d.Origin own n nonces) (action : LockerAct)
    (hfresh : ∀ nonce, action.nonce? = some nonce → nonce ∉ nonces)
    (hremove : ∀ slot, action ≠ .remove slot) :
    (d.step own action).1.Origin own n (nonces ++ action.nonce?.toList) := by
  have hsub : nonces ⊆ nonces ++ action.nonce?.toList := List.subset_append_left _ _
  cases action with
  | remove slot => exact absurd rfl (hremove slot)
  | crash =>
    refine Origin.mono ⟨h.length, h.slots, fun t ht => ?_⟩ hsub
    cases ht
  | start nonce =>
    unfold step
    dsimp only
    split
    · refine ⟨h.length, (h.mono hsub).slots, fun t' h' => ?_⟩
      cases h'
      refine ⟨List.mem_append_right _ (List.mem_singleton.2 rfl), ?_, ?_, ?_⟩
      · exact fun c hc => by cases hc
      · exact fun c k hw => by cases hw
      · intro k e hk he hn
        have hold := (h.slots e (List.mem_of_getElem? he)).1
        rw [hn] at hold
        exact absurd hold (hfresh nonce rfl)
    · exact h.mono hsub
  | _ =>
    unfold step
    dsimp only
    cases ht : d.tenant with
    | none => exact h.mono hsub
    | some t => exact (origin_act h ht _).mono hsub

theorem origin_run {acts : List LockerAct}
    (hnonces : (acts.filterMap LockerAct.nonce?).Nodup)
    (hremove : ∀ slot, LockerAct.remove slot ∉ acts) :
    ((new n).run own acts).1.Origin own n (acts.filterMap LockerAct.nonce?) := by
  refine Lib.run_invariant_of_splits (step own)
    (P := fun d pre _ => d.Origin own n (pre.filterMap LockerAct.nonce?)) ?_ ?_
  · intro pre action post hsplit h
    have haction : [action].filterMap LockerAct.nonce? = action.nonce?.toList := by
      rw [List.filterMap_cons]
      cases action.nonce? <;> rfl
    rw [Lib.run_concat, List.filterMap_append, haction]
    refine origin_step h action (fun nonce hnonce hmem => ?_) fun slot hslot => ?_
    · rw [hsplit, List.filterMap_append, List.filterMap_cons, hnonce] at hnonces
      exact (List.nodup_append.1 hnonces).2.2 nonce hmem nonce List.mem_cons_self rfl
    · rw [hslot] at hsplit
      exact hremove slot (hsplit ▸ List.mem_append_right _ List.mem_cons_self)
  · refine ⟨List.length_replicate, fun e he => ?_, fun t ht => ?_⟩
    · cases List.eq_of_mem_replicate he
    · cases ht

end Drives

/-! ## The next load -/

/-- How a store is interrupted between two slots. -/
inductive Interruption where
  /-- The write of the next slot fails. -/
  | fail (error : String)
  /-- The process dies, and the next one starts. -/
  | crash (nonce : Nonce)

def Interruption.acts : Interruption → List LockerAct
  | fail error => [.fail error]
  | crash nonce => [.crash, .start nonce]

/-- A load of `slots` slots that nothing disturbs. -/
def loadActs (slots : ℕ) : List LockerAct := .load :: List.replicate slots (.read none)

/-- The verdict of a load that has read every slot. It has returned, or it waits for its repair
store, however that ends. -/
def Drives.answer (r : Drives × List LockerOut) : Option Verdict :=
  match r.2, r.1.tenant.bind Tenant.holder with
  | [.loaded verdict], _ => some verdict
  | _, some (.repair _ verdict) => some verdict
  | _, _ => none

namespace Drives

variable {own : BaseboardId} {d : Drives} {t : Tenant}

theorem answer_load {a : Envelope} {other : Option Envelope} (hslots : d.slots = [some a, other])
    (ht : d.tenant = some t) (hfree : t.holder = none) (ha : a.baseboard = own)
    (hother : ∀ e, other = some e → e.baseboard = own) :
    answer (d.run own (loadActs 2)) = some (judge 2 (a :: other.toList)).verdict := by
  obtain ⟨slots, tenant, log⟩ := d
  cases hslots
  cases ht
  cases other with
  | none =>
    cases hrepair : (judge 2 [a]).repair <;>
      simp [loadActs, run, step, act, readSlot, collect, conclude, reserve, answer, *]
  | some e =>
    cases hrepair : (judge 2 [a, e]).repair <;>
      simp [loadActs, run, step, act, readSlot, collect, conclude, reserve, answer, *]

theorem run_interruption (own : BaseboardId) {c : Commit} (ht : d.tenant = some t)
    (hw : t.writing = some (c, 1)) (hlength : d.slots.length = 2) (i : Interruption) :
    (d.run own i.acts).1.slots = d.slots ∧ ∃ t', (d.run own i.acts).1.tenant = some t' := by
  cases i with
  | fail error =>
    have hstep : (d.run own (Interruption.fail error).acts).1 =
        (d.report { t with writing := none } c (.error (.io 1 error))).1 := by
      simp [run, Interruption.acts, step, act, ht, hw, hlength]
    obtain ⟨hslots, t', ht', -⟩ :=
      report_grows own d { t with writing := none } c (.error (.io 1 error))
    exact ⟨hstep ▸ hslots, t', hstep ▸ ht'⟩
  | crash nonce => exact ⟨rfl, _, rfl⟩

end Drives

/-! ## Two slots -/

theorem judge_lone (a : Envelope) : (judge 2 [a]).verdict = .restore a.record := by
  simp [judge]

theorem judge_same {a e : Envelope} (hrecord : e.record = a.record) :
    (judge 2 [a, e]).verdict = .adopt a.record := by
  simp [judge, hrecord]

theorem judge_torn {a e : Envelope} (hrecord : e.record ≠ a.record) (hnonce : e.nonce = a.nonce)
    (hseq : e.seq < a.seq) : (judge 2 [a, e]).verdict = .adopt a.record := by
  simp [judge, newestOf, hrecord, hnonce, not_le.2 hseq, hseq.ne]

theorem judge_disagree {a e : Envelope} (hrecord : e.record ≠ a.record)
    (hnonce : e.nonce ≠ a.nonce) : (judge 2 [a, e]).verdict = .discard .disagree := by
  unfold judge newestOf
  by_cases hseq : a.seq ≤ e.seq
  · simp [hrecord, hnonce.symm, hseq]
  · simp [hrecord, hnonce, hseq]

namespace Drives

variable {own : BaseboardId} {nonces : List Nonce} {d : Drives} {t : Tenant} {c : Commit}

theorem Origin.slots_torn (h : d.Origin own 2 nonces) (ht : d.tenant = some t)
    (hw : t.writing = some (c, 1)) :
    ∃ other, d.slots = [some c.envelope, other] ∧
      ∀ e, other = some e → e.baseboard = own ∧
        (e.nonce = c.envelope.nonce → e.seq < c.envelope.seq) := by
  obtain ⟨hlt, hwritten⟩ := (h.tenant t ht).2.writing c 1 hw
  have hc : c ∈ t.commits := (commits_perm_writing hw 0).mem_iff.2 List.mem_cons_self
  have hstamped := (h.tenant t ht).2.stamped c hc
  obtain ⟨first, other, hslots⟩ := List.length_eq_two.1 h.length
  have hfirst := hwritten 0 one_pos (by rw [h.length]; exact two_pos)
  rw [hslots] at hfirst
  cases hfirst
  refine ⟨other, hslots, ?_⟩
  rintro e rfl
  have he : d.slots[1]? = some (some e) := by rw [hslots]; rfl
  refine ⟨(h.slots e (List.mem_of_getElem? he)).2, fun hnonce => ?_⟩
  rcases (h.tenant t ht).2.last 1 e h.length he (hnonce.trans hstamped.nonce) with hle | ⟨c', hc'⟩
  · exact hstamped.seq ▸ hle.trans_lt hlt
  · rw [hw] at hc'
    cases hc'

/-- The slot that the interrupted store did not reach is empty, holds the record being stored, or was
last written by the same process. -/
def Spares (d : Drives) (c : Commit) : Prop :=
  d.slots[1]? = some none ∨ ∃ e, d.slots[1]? = some (some e) ∧
    (e.record = c.envelope.record ∨ e.nonce = c.envelope.nonce)

/-- **A single torn write never loses the record**, as long as the slot it did not reach was not
written by another process with another record. A store or a repair store of any life is interrupted
after the first of two slots; the next load, in the same process or in the next, returns its record
or the last acknowledged one exactly in that case. -/
theorem torn_write_kept_iff (own : BaseboardId) (acts : List LockerAct)
    (hnonces : (acts.filterMap LockerAct.nonce?).Nodup)
    (hremove : ∀ slot, LockerAct.remove slot ∉ acts) (t : Tenant) (c : Commit)
    (ht : ((new 2).run own acts).1.tenant = some t) (hw : t.writing = some (c, 1))
    (i : Interruption)
    (hfree : ∀ t', (((new 2).run own acts).1.run own i.acts).1.tenant = some t' →
      t'.holder = none) :
    (∃ verdict record, answer ((((new 2).run own acts).1.run own i.acts).1.run own (loadActs 2)) =
        some verdict ∧ verdict.record = some record ∧
        (((new 2).run own acts).1.log.last = some record ∨ record = c.envelope.record)) ↔
      ((new 2).run own acts).1.Spares c := by
  have horigin : ((new 2).run own acts).1.Origin own 2 _ := origin_run hnonces hremove
  generalize ((new 2).run own acts).1 = d at horigin ht hfree ⊢
  obtain ⟨other, hslots, hother⟩ := horigin.slots_torn ht hw
  obtain ⟨hkept, t', ht'⟩ := run_interruption own ht hw horigin.length i
  have hanswer := answer_load (hkept.trans hslots) ht' (hfree t' ht')
    ((horigin.slots c.envelope (hslots ▸ List.mem_cons_self)).2) fun e he => (hother e he).1
  rw [hanswer]
  unfold Spares
  rw [hslots]
  cases other with
  | none =>
    refine iff_of_true ?_ (.inl rfl)
    exact ⟨_, _, rfl, congrArg Verdict.record (judge_lone c.envelope), .inr rfl⟩
  | some e =>
    obtain ⟨-, hseq⟩ := hother e rfl
    by_cases hrecord : e.record = c.envelope.record
    · refine iff_of_true ?_ (.inr ⟨e, rfl, .inl hrecord⟩)
      exact ⟨_, _, rfl, congrArg Verdict.record (judge_same hrecord), .inr rfl⟩
    · by_cases hnonce : e.nonce = c.envelope.nonce
      · refine iff_of_true ?_ (.inr ⟨e, rfl, .inr hnonce⟩)
        exact ⟨_, _, rfl, congrArg Verdict.record (judge_torn hrecord hnonce (hseq hnonce)), .inr rfl⟩
      · refine iff_of_false ?_ ?_
        · rintro ⟨verdict, record, hverdict, hverdict', -⟩
          rw [Option.toList_some, judge_disagree hrecord hnonce] at hverdict
          cases hverdict
          cases hverdict'
        · rintro (hnone | ⟨e', he', hsame⟩)
          · cases hnone
          · cases he'
            exact hsame.elim hrecord hnonce

end Drives

end Sush

namespace Sush.Terms

attribute [local instance] world

/-- One process stores a record, and dies. The next one loads it, stores another record, and dies
between the two slots. -/
def nextProcess : List LockerAct :=
  [.start 1, .store [1], .begin 0, .write, .write, .finish, .crash,
    .start 2, .load, .read none, .read none, .store [2], .begin 0, .write]

/-- The third process finds the record of the second in one slot and that of the first in the other,
and discards both, although the first one was acknowledged. -/
theorem discarded_nextProcess :
    ((Drives.new 2).run (0 : ℕ) nextProcess).1.log.last = some [1] ∧
    ((Drives.new 2).run (0 : ℕ) (nextProcess ++ [.crash, .start 3] ++ loadActs 2)).2 =
      [.stored (.ok ()), .loaded (.adopt [1]), .loaded (.discard .disagree)] := by
  decide +kernel

/-- A process stores a record, and is interrupted between the two slots when it stores another. -/
def sameProcess : List LockerAct :=
  [.start 1, .store [1], .begin 0, .write, .write, .finish, .store [2], .begin 0, .write]

/-- The next process adopts the record that was being stored. -/
theorem torn_write_kept_iff_sameProcess :
    ∃ verdict record, Drives.answer ((((Drives.new 2).run (0 : ℕ) sameProcess).1.run (0 : ℕ)
        (Interruption.crash 2).acts).1.run (0 : ℕ) (loadActs 2)) = some verdict ∧
      verdict.record = some record ∧
      (((Drives.new 2).run (0 : ℕ) sameProcess).1.log.last = some record ∨ record = [2]) := by
  refine (Drives.torn_write_kept_iff (0 : ℕ) sameProcess (by decide) (by simp [sameProcess])
    { nonce := 1, reserved := 2, committed := 1, holder := some (.store 2), detached := [],
      writing := some (⟨1, 2, ⟨1, 2, (0 : ℕ), [2]⟩⟩, 1) }
    ⟨1, 2, ⟨1, 2, (0 : ℕ), [2]⟩⟩ rfl rfl (.crash 2) ?_).2 ?_
  · intro t' h
    cases h
    rfl
  · exact .inr ⟨⟨1, 1, (0 : ℕ), [1]⟩, rfl, .inr rfl⟩

end Sush.Terms
