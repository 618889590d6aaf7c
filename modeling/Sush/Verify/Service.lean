import Sush.Server.Sled
import Sush.Verify.Torn

/-!
# The locker as its user sees it

Whoever holds the guard of a record sees little of the slots: the store or load it waits for goes on, and
then answers (`Drives.Serves`). A store that succeeds is the last attempt of all, and a load repairs only
with a record that is current; the one fact this needs beyond `Drives.Sound` is that the blocking half with
the greatest sequence number belongs to the last attempt (`Drives.Latest`).
-/

namespace Sush

open Lib (AckLog)

variable [World]

/-- What the guard of the record is held for. -/
inductive Hold where
  | free
  | storing
  | loading
  deriving DecidableEq

def Holder.hold : Holder → Hold
  | .store _ => .storing
  | .load .. | .repair .. => .loading

def Tenant.hold (t : Tenant) : Hold := (t.holder.map Holder.hold).getD .free

/-- What the guard is held for in the running process, if one runs. -/
def Drives.hold (d : Drives) : Option Hold := d.tenant.map Tenant.hold

/-- The last attempt is acknowledged. -/
def AckedLast (log log' : AckLog (List UInt8)) : Prop :=
  ∃ i, i + 1 = log.attempts.length ∧ log' = log.ack i

/-- What a store or a load that goes on can come to: nothing that is seen, a repair with a record that
is current, or an answer. A store that succeeds is the last attempt, and is acknowledged. -/
inductive Drives.Serves (d d' : Drives) : List LockerOut → Prop
  | quiet (hhold : d'.hold = d.hold) (hlog : d'.log = d.log) : Serves d d' []
  | repairs {record : List UInt8} (hhold : d.hold = some .loading) (hhold' : d'.hold = some .loading)
      (hcurrent : d.log.Current record) (hlog : d'.log = d.log.attempt record) : Serves d d' []
  | stored (hhold : d.hold = some .storing) (hhold' : d'.hold = some .free)
      (hlog : AckedLast d.log d'.log) : Serves d d' [.stored (.ok ())]
  | failed {error : StoreError} (hhold : d.hold = some .storing) (hhold' : d'.hold = some .free)
      (hlog : d'.log = d.log) : Serves d d' [.stored (.error error)]
  | loaded {verdict : Verdict} (hhold : d.hold = some .loading) (hhold' : d'.hold = some .free)
      (hlog : d'.log = d.log ∨ AckedLast d.log d'.log) : Serves d d' [.loaded verdict]

/-- The blocking half with the greatest sequence number is that of the last attempt. -/
def Tenant.Latest (log : AckLog (List UInt8)) (t : Tenant) : Prop :=
  ∀ c ∈ t.commits, c.seq = t.reserved → c.id + 1 = log.attempts.length

def Drives.Latest (d : Drives) : Prop := ∀ t, d.tenant = some t → t.Latest d.log

namespace Drives

variable {own : BaseboardId} {d : Drives} {t : Tenant} {c : Commit} {record : List UInt8}

theorem latest_reserve {holder : ℕ → Holder} (hreserved : ∀ c ∈ t.commits, c.seq ≤ t.reserved) :
    (d.reserve own t record holder).Latest := by
  intro t' h' c hc hseq
  cases h'
  rw [commits_reserve, List.mem_append, List.mem_singleton] at hc
  rcases hc with hc | rfl
  · have hle := hreserved c hc
    have hseq' : c.seq = t.reserved + 1 := hseq
    omega
  · simp [reserve, AckLog.attempt]

theorem latest_conclude {judgement : Judgement} (ht : t.Sound d.slots d.log) (hl : t.Latest d.log) :
    (d.conclude own t judgement).1.Latest := by
  have hraised : ({ t with reserved := max judgement.newest t.reserved, holder := none } :
      Tenant).Latest d.log := by
    intro c hc hseq
    have hle := (ht.reserved c hc).1
    have hseq' : c.seq = max judgement.newest t.reserved := hseq
    exact hl c hc (by omega)
  unfold conclude
  dsimp only
  split
  · exact latest_reserve fun c hc => (ht.reserved c hc).1.trans (le_max_right _ _)
  · exact fun t' h' => Option.some.inj h' ▸ hraised

theorem Latest.keep {t' : Tenant} {log' : AckLog (List UInt8)} (hl : t.Latest d.log)
    (hsub : ∀ c ∈ t'.commits, c ∈ t.commits) (hreserved : t'.reserved = t.reserved)
    (hlog : log'.attempts = d.log.attempts) : t'.Latest log' := by
  intro c hc hseq
  rw [hlog]
  exact hl c (hsub c hc) (hseq.trans hreserved)

theorem latest_report {t' : Tenant} {result : Except StoreError Unit} (hl : t'.Latest d.log) :
    (d.report t' c result).1.Latest := by
  have hkept : ({ d with tenant := some t' } : Drives).Latest := fun t h => Option.some.inj h ▸ hl
  have hacked : ∀ log, log = d.log ∨ log = d.log.ack c.id →
      ({ d with tenant := some { t' with holder := none }, log := log } : Drives).Latest := by
    intro log hlog t h
    cases h
    have hattempts : log.attempts = d.log.attempts := by
      rcases hlog with rfl | rfl
      · rfl
      · exact AckLog.attempts_ack
    exact Latest.keep hl (fun _ h => h) rfl hattempts
  unfold report
  dsimp only
  split
  · split
    · refine hacked _ ?_
      split
      · exact .inr rfl
      · exact .inl rfl
    · exact hkept
  · split
    · refine hacked _ ?_
      split
      · exact .inr rfl
      · exact .inl rfl
    · exact hkept
  · exact hkept

/-- **A blocking half that ends** answers whoever waits for it, and only if it is the last attempt. -/
theorem serves_report {t' : Tenant} (ht : d.tenant = some t) (hsound : t.Sound d.slots d.log)
    (hl : t.Latest d.log) (hc : c ∈ t.commits) (hholder : t'.holder = t.holder)
    (result : Except StoreError Unit) :
    d.Serves (d.report t' c result).1 (d.report t' c result).2 := by
  have hhold : d.hold = some t'.hold := by
    unfold hold Tenant.hold
    rw [ht, hholder]
    rfl
  have hkept : d.Serves { d with tenant := some t' } [] := .quiet hhold.symm rfl
  have hlast : ∀ h seq, t'.holder = some h → h.awaits = some seq → seq = c.seq →
      AckedLast d.log (d.log.ack c.id) := by
    intro h seq hh hseq heq
    refine ⟨c.id, hl c hc ?_, rfl⟩
    rw [← heq]
    exact hsound.awaits h seq (hholder ▸ hh) hseq
  unfold report
  dsimp only
  split
  · next seq hh =>
    have hstoring : d.hold = some .storing := by rw [hhold, Tenant.hold, hh]; rfl
    split
    · next heq =>
      cases result with
      | ok _ => exact .stored hstoring rfl (hlast _ seq hh rfl heq)
      | error error => exact .failed hstoring rfl rfl
    · exact hkept
  · next seq verdict hh =>
    have hloading : d.hold = some .loading := by rw [hhold, Tenant.hold, hh]; rfl
    split
    · next heq =>
      cases result with
      | ok _ => exact .loaded hloading rfl (.inr (hlast _ seq hh rfl heq))
      | error error => exact .loaded hloading rfl (.inl rfl)
    · exact hkept
  · exact hkept

/-- **A load that reads a slot** goes on, answers, or repairs with a record it found. -/
theorem serves_readSlot {slot : ℕ} {found : List Envelope} {error : Option String}
    (ht : d.tenant = some t) (hsound : d.Sound) (hholder : t.holder = some (.load slot found)) :
    d.Serves (d.readSlot own t slot found error).1 (d.readSlot own t slot found error).2 := by
  have hloading : d.hold = some .loading := by
    rw [hold, ht, Option.map_some, Tenant.hold, hholder]
    rfl
  have hfound : ∀ e ∈ found, e.Fits d.log := (hsound.tenant t ht).holder _ hholder
  unfold readSlot
  dsimp only
  split
  · exact .loaded hloading rfl (.inl rfl)
  · next found' hcollect =>
    split
    · exact .quiet (hloading.symm ▸ rfl) rfl
    · unfold conclude
      dsimp only
      split
      · next record hrepair =>
        refine .repairs hloading rfl ?_ rfl
        obtain ⟨e, he, rfl⟩ := judge_record (judge_repair hrepair)
        refine (collect_current hcollect hfound (fun e he => hsound.slots e ?_) e he).1
        split at he
        · cases he
        · next hread => cases he; exact mem_of_join_eq_some hread
        · cases he
      · exact .loaded hloading rfl (.inl rfl)

theorem commits_eraseIdx {place : ℕ} (hc : t.detached[place]? = some c) (hw : t.writing = none) :
    t.commits.Perm (c :: ({ t with detached := t.detached.eraseIdx place } : Tenant).commits) := by
  unfold Tenant.commits
  rw [hw]
  obtain ⟨hlt, rfl⟩ := List.getElem?_eq_some_iff.1 hc
  exact (List.getElem_cons_eraseIdx_perm hlt).symm

theorem latest_act (hs : d.Sound) (ht : d.tenant = some t) (hl : t.Latest d.log) (action : LockerAct) :
    (d.act own t action).1.Latest := by
  have hsame : d.Latest := fun t' h' => Option.some.inj (ht.symm.trans h') ▸ hl
  have hset : ∀ {t' : Tenant} {slots : List (Option Envelope)}, (∀ c ∈ t'.commits, c ∈ t.commits) →
      t'.reserved = t.reserved →
      ({ d with slots := slots, tenant := some t' } : Drives).Latest := by
    intro t' slots hsub hreserved t'' h''
    cases h''
    exact Latest.keep hl hsub hreserved rfl
  have hended : ∀ {c : Commit} (slot committed : ℕ), t.writing = some (c, slot) →
      ({ t with writing := none, committed := committed } : Tenant).Latest d.log :=
    fun slot committed hw => Latest.keep hl
      (fun c' hc' => (commits_perm_writing hw committed).mem_iff.2 (List.mem_cons_of_mem _ hc')) rfl rfl
  cases action with
  | start nonce => exact hsame
  | crash => exact hsame
  | remove slot => exact hsame
  | store record =>
    unfold act
    dsimp only
    split
    · exact hsame
    · split
      · exact hsame
      · exact latest_reserve fun c hc => ((hs.tenant t ht).reserved c hc).1
  | load =>
    unfold act
    dsimp only
    split
    · exact hsame
    · split
      · exact hsame
      · exact hset (fun _ h => h) rfl
  | cancel => exact hset (fun _ h => h) rfl
  | begin place =>
    unfold act beginCommit
    dsimp only
    split
    · next c hc hw =>
      have hsub : ∀ c' ∈ ({ t with detached := t.detached.eraseIdx place } : Tenant).commits,
          c' ∈ t.commits :=
        fun c' hc' => (commits_eraseIdx hc hw).mem_iff.2 (List.mem_cons_of_mem c hc')
      split
      · exact latest_report (Latest.keep hl hsub rfl rfl)
      · refine hset (fun c' hc' => (commits_eraseIdx hc hw).mem_iff.2 ?_) rfl
        unfold Tenant.commits at hc' ⊢
        rw [hw]
        exact hc'
    · exact hsame
  | write =>
    unfold act
    dsimp only
    split
    · next c slot hw =>
      split
      · refine hset (fun c' hc' => ?_) rfl
        unfold Tenant.commits at hc' ⊢
        rw [hw]
        exact hc'
      · exact hsame
    · exact hsame
  | fail error =>
    unfold act
    dsimp only
    split
    · next c slot hw =>
      split
      · exact latest_report (hended slot t.committed hw)
      · exact hsame
    · exact hsame
  | finish =>
    unfold act
    dsimp only
    split
    · next c slot hw =>
      split
      · exact hsame
      · exact latest_report (hended slot c.seq hw)
    · exact hsame
  | read error =>
    unfold act
    dsimp only
    split
    · unfold readSlot
      dsimp only
      split
      · exact hset (fun _ h => h) rfl
      · split
        · exact hset (fun _ h => h) rfl
        · exact latest_conclude (hs.tenant t ht) hl
    · exact hsame

theorem latest_step (hs : d.Sound) (hl : d.Latest) (action : LockerAct) :
    (d.step own action).1.Latest := by
  cases action with
  | remove slot => exact hl
  | crash => exact fun t h => by cases h
  | start nonce =>
    unfold step
    dsimp only
    split
    · intro t h c hc
      cases h
      cases hc
    · exact hl
  | _ =>
    unfold step
    dsimp only
    cases ht : d.tenant with
    | none => exact hl
    | some t => exact latest_act hs ht (hl t ht) _

theorem length_step (action : LockerAct) :
    (d.step own action).1.slots.length = d.slots.length := by
  have hreport : ∀ t c result, (d.report t c result).1.slots.length = d.slots.length :=
    fun t c result => congrArg _ (report_grows own d t c result).1
  cases ht : d.tenant with
  | none => cases action <;> simp [step, ht]
  | some t =>
    cases action with
    | begin place =>
      simp only [step, ht, act, beginCommit]
      split
      · split
        · exact hreport _ _ _
        · rfl
      · rfl
    | write =>
      simp only [step, ht, act]
      split
      · split
        · exact List.length_set
        · rfl
      · rfl
    | fail error =>
      simp only [step, ht, act]
      split
      · split
        · exact hreport _ _ _
        · rfl
      · rfl
    | finish =>
      simp only [step, ht, act]
      split
      · split
        · rfl
        · exact hreport _ _ _
      · rfl
    | read error =>
      simp only [step, ht, act]
      split
      · exact congrArg _ (readSlot_grows _ _ _).1
      · rfl
    | store record =>
      simp only [step, ht, act]
      split
      · rfl
      · split <;> rfl
    | load =>
      simp only [step, ht, act]
      split
      · rfl
      · split <;> rfl
    | start | crash | remove | cancel => simp [step, ht, act]

/-- **What goes on** in the drives serves the holder of the guard. -/
theorem serves_step (hs : d.Sound) (hl : d.Latest) (own : BaseboardId) {action : LockerAct}
    (haction : action.goesOn = true) :
    d.Serves (d.step own action).1 (d.step own action).2 := by
  have hsame : d.Serves d [] := .quiet rfl rfl
  cases ht : d.tenant with
  | none =>
    cases action with
    | begin | write | fail | finish | read => simpa only [step, ht] using hsame
    | _ => exact absurd haction Bool.false_ne_true
  | some t =>
    have hlatest := hl t ht
    have hsound := hs.tenant t ht
    have hkeep : ∀ {t' : Tenant} {slots : List (Option Envelope)}, t'.holder = t.holder →
        d.Serves { d with slots := slots, tenant := some t' } [] := by
      intro t' slots hholder
      refine .quiet ?_ rfl
      simp only [hold, Tenant.hold, ht, Option.map_some, hholder]
    cases action with
    | begin place =>
      simp only [step, ht, act, beginCommit]
      split
      · next c hc hw =>
        have hmem : c ∈ t.commits := (commits_eraseIdx hc hw).mem_iff.2 List.mem_cons_self
        split
        · apply serves_report ht hsound hlatest hmem
          rfl
        · exact hkeep rfl
      · exact hsame
    | write =>
      simp only [step, ht, act]
      split
      · split
        · exact hkeep rfl
        · exact hsame
      · exact hsame
    | fail error =>
      simp only [step, ht, act]
      split
      · next c slot hw =>
        have hmem : c ∈ t.commits := (commits_perm_writing hw 0).mem_iff.2 List.mem_cons_self
        split
        · apply serves_report ht hsound hlatest hmem
          rfl
        · exact hsame
      · exact hsame
    | finish =>
      simp only [step, ht, act]
      split
      · next c slot hw =>
        have hmem : c ∈ t.commits := (commits_perm_writing hw 0).mem_iff.2 List.mem_cons_self
        split
        · exact hsame
        · apply serves_report ht hsound hlatest hmem
          rfl
      · exact hsame
    | read error =>
      simp only [step, ht, act]
      split
      · next hholder => exact serves_readSlot ht hs hholder
      · exact hsame
    | _ => exact absurd haction Bool.false_ne_true

theorem holder_of_free (hfree : d.hold = some .free) :
    ∃ t, d.tenant = some t ∧ t.holder = none := by
  obtain ⟨t, ht, hhold⟩ := Option.map_eq_some_iff.1 hfree
  refine ⟨t, ht, ?_⟩
  cases hholder : t.holder with
  | none => rfl
  | some h =>
    rw [Tenant.hold, hholder] at hhold
    cases h <;> cases hhold

theorem step_store (hslots : d.slots ≠ []) (hfree : d.hold = some .free) (own : BaseboardId)
    (record : List UInt8) :
    (d.step own (.store record)).2 = [] ∧ (d.step own (.store record)).1.hold = some .storing ∧
      (d.step own (.store record)).1.log = d.log.attempt record := by
  obtain ⟨t, ht, hholder⟩ := holder_of_free hfree
  simp [step, act, ht, hholder, hslots, reserve, hold, Tenant.hold, Holder.hold]

theorem step_load (hslots : d.slots ≠ []) (hfree : d.hold = some .free) (own : BaseboardId) :
    (d.step own .load).2 = [] ∧ (d.step own .load).1.hold = some .loading ∧
      (d.step own .load).1.log = d.log := by
  obtain ⟨t, ht, hholder⟩ := holder_of_free hfree
  simp [step, act, ht, hholder, hslots, hold, Tenant.hold, Holder.hold]

end Drives

/-- What is kept of the drives: they are never stale, they acknowledge the last attempt only, and there is
a slot. -/
structure Drives.Tidy (d : Drives) : Prop where
  sound : d.Sound
  latest : d.Latest
  slots : d.slots ≠ []

theorem Drives.Tidy.step {d : Drives} (h : d.Tidy) (own : BaseboardId) (action : LockerAct) :
    (d.step own action).1.Tidy where
  sound := (sound_step h.sound action).1
  latest := latest_step h.sound h.latest action
  slots := by
    rw [← List.length_pos_iff_ne_nil, length_step]
    exact List.length_pos_iff_ne_nil.2 h.slots

end Sush
