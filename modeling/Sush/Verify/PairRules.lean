import Sush.Server.Guard
import Sush.Verify.Torn

/-!
# The pair rules, for any number of slots

The table in `server/src/locker.rs` is for two slots; `Guard::load` loops over as many as there are.
`Verdict.Follows` states the rules over what the slots hold, with no order among them. At most one
verdict follows the rules, up to why slots are discarded, and a load finds it. So the order of the
slots does not matter.

A load that returns a record has raised the tenant's number past every slot it read, so whatever the
process stores afterwards is newer than all of them, until the numbers are used up.
-/

namespace Sush

variable [World]
variable {e : Envelope} {record : List UInt8} {read : SlotRead}

/-- A slot that forbids any verdict but a discard: unreadable, undecodable, or of another sled. -/
def SlotRead.Untrusted (own : BaseboardId) : SlotRead → Prop
  | missing => False
  | failed _ => True
  | corrupt => True
  | holds envelope => envelope.baseboard ≠ own

def SlotRead.envelope? : SlotRead → Option Envelope
  | holds envelope => some envelope
  | _ => none

/-- Two verdicts are the same, but for the reason of a discard. -/
def Verdict.Agrees (v w : Verdict) : Prop :=
  v = w ∨ ∃ reason reason', v = .discard reason ∧ w = .discard reason'

/-! ## The rules -/

section Rules

variable {n : ℕ} (own : BaseboardId) (reads : Fin n → SlotRead)

/-- Every slot is missing or holds a valid envelope. -/
def Trusted : Prop := ∀ i, ¬(reads i).Untrusted own

/-- The slots hold one record. -/
def SameRecord : Prop :=
  ∀ i j e f, reads i = .holds e → reads j = .holds f → e.record = f.record

/-- The slots were written by one process. -/
def SameNonce : Prop :=
  ∀ i j e f, reads i = .holds e → reads j = .holds f → e.nonce = f.nonce

/-- Slot `i` holds `e`, and no slot has a greater sequence number. -/
def Greatest (i : Fin n) (e : Envelope) : Prop :=
  reads i = .holds e ∧ ∀ j f, reads j = .holds f → f.seq ≤ e.seq

/-- One process wrote the slots, and exactly one slot has the greatest sequence number. -/
def TornByOne : Prop := SameNonce reads ∧ ∃! i, ∃ e, Greatest reads i e

/-- The pair rules. -/
def Verdict.Follows : Verdict → Prop
  | .discard _ => ¬Trusted own reads ∨ ¬SameRecord reads ∧ ¬TornByOne reads
  | .empty => ∀ i, reads i = .missing
  | .restore record => Trusted own reads ∧ SameRecord reads ∧
      (∃ i e, reads i = .holds e ∧ e.record = record) ∧ ∃ i, reads i = .missing
  | .adopt record => Trusted own reads ∧
      (SameRecord reads ∧ (∃ i e, reads i = .holds e ∧ e.record = record) ∧
          (∀ i, reads i ≠ .missing) ∨
        ¬SameRecord reads ∧ TornByOne reads ∧ ∃ i e, Greatest reads i e ∧ e.record = record)

variable {own reads}

theorem SlotRead.eq_holds_iff : read = .holds e ↔ read.envelope? = some e := by
  cases read <;> simp [envelope?]

theorem not_trusted_iff : ¬Trusted own reads ↔ ∃ i, (reads i).Untrusted own := by
  simp [Trusted]

theorem trusted_of_missing (h : ∀ i, reads i = .missing) : Trusted own reads := by
  intro i
  rw [h i]
  exact id

theorem sameRecord_of_missing (h : ∀ i, reads i = .missing) : SameRecord reads := by
  intro i j e f hi
  rw [h i] at hi
  cases hi

theorem TornByOne.greatest_unique (h : TornByOne reads) {i j : Fin n} {e f : Envelope}
    (he : Greatest reads i e) (hf : Greatest reads j f) : e = f := by
  obtain rfl : i = j := h.2.unique ⟨e, he⟩ ⟨f, hf⟩
  exact SlotRead.holds.inj (he.1.symm.trans hf.1)

theorem not_missing_of_holds (hmissing : ∀ i, reads i = .missing) {i : Fin n} :
    reads i ≠ .holds e := by
  simp [hmissing i]

namespace Verdict

variable {v w : Verdict}

theorem Follows.eq_discard {reason : Discard} (hv : (Verdict.discard reason).Follows own reads)
    (hw : w.Follows own reads) : ∃ reason', w = .discard reason' := by
  cases w with
  | discard reason' => exact ⟨reason', rfl⟩
  | empty =>
    rcases hv with h | ⟨h, -⟩
    · exact absurd (trusted_of_missing hw) h
    · exact absurd (sameRecord_of_missing hw) h
  | restore record =>
    rcases hv with h | ⟨h, -⟩
    · exact absurd hw.1 h
    · exact absurd hw.2.1 h
  | adopt record =>
    rcases hv with h | ⟨hrecord, htorn⟩
    · exact absurd hw.1 h
    · rcases hw.2 with ⟨h, -⟩ | ⟨-, h, -⟩
      · exact absurd h hrecord
      · exact absurd h htorn

theorem Follows.eq_empty (hv : Verdict.empty.Follows own reads) (hw : w.Follows own reads) :
    w = .empty := by
  have hnone : ∀ {i e}, reads i ≠ .holds e := not_missing_of_holds hv
  cases w with
  | discard reason =>
    obtain ⟨_, h⟩ := Follows.eq_discard hw hv
    cases h
  | empty => rfl
  | restore record =>
    obtain ⟨-, -, ⟨i, e, he, -⟩, -⟩ := hw
    exact absurd he hnone
  | adopt record =>
    rcases hw.2 with ⟨-, ⟨i, e, he, -⟩, -⟩ | ⟨-, -, i, e, he, -⟩
    · exact absurd he hnone
    · exact absurd he.1 hnone

theorem Follows.eq_restore (hv : (Verdict.restore record).Follows own reads)
    (hw : w.Follows own reads) : w = .restore record := by
  obtain ⟨-, hsame, ⟨i, e, he, rfl⟩, k, hk⟩ := id hv
  cases w with
  | discard reason =>
    obtain ⟨_, h⟩ := Follows.eq_discard hw hv
    cases h
  | empty => exact absurd he (not_missing_of_holds hw)
  | restore record' =>
    obtain ⟨-, -, ⟨j, f, hf, rfl⟩, -⟩ := hw
    rw [hsame i j e f he hf]
  | adopt record' =>
    rcases hw.2 with ⟨-, -, h⟩ | ⟨h, -⟩
    · exact absurd hk (h k)
    · exact absurd hsame h

theorem Follows.eq_adopt (hv : (Verdict.adopt record).Follows own reads)
    (hw : w.Follows own reads) : w = .adopt record := by
  cases w with
  | discard reason =>
    obtain ⟨_, h⟩ := Follows.eq_discard hw hv
    cases h
  | empty => cases Follows.eq_empty hw hv
  | restore record' => cases Follows.eq_restore hw hv
  | adopt record' =>
    rcases hv.2, hw.2 with
      ⟨⟨hsame, ⟨i, e, he, rfl⟩, -⟩ | ⟨hdiffer, htorn, i, e, he, rfl⟩,
        ⟨hsame', ⟨j, f, hf, rfl⟩, -⟩ | ⟨hdiffer', -, j, f, hf, rfl⟩⟩
    · rw [hsame i j e f he hf]
    · exact absurd hsame hdiffer'
    · exact absurd hsame' hdiffer
    · rw [htorn.greatest_unique he hf]

/-- **At most one verdict follows the rules**, up to the reason of a discard. -/
theorem Follows.agrees (hv : v.Follows own reads) (hw : w.Follows own reads) : v.Agrees w := by
  cases v with
  | discard reason =>
    obtain ⟨reason', rfl⟩ := hv.eq_discard hw
    exact .inr ⟨reason, reason', rfl, rfl⟩
  | empty => exact .inl (hv.eq_empty hw).symm
  | restore record => exact .inl (hv.eq_restore hw).symm
  | adopt record => exact .inl (hv.eq_adopt hw).symm

theorem Follows.record_iff (hv : v.Follows own reads) :
    v.record = some record ↔ Trusted own reads ∧
      (SameRecord reads ∧ (∃ i e, reads i = .holds e ∧ e.record = record) ∨
        ¬SameRecord reads ∧ TornByOne reads ∧ ∃ i e, Greatest reads i e ∧ e.record = record) := by
  constructor
  · intro h
    cases v with
    | discard | empty => cases h
    | restore =>
      cases h
      exact ⟨hv.1, .inl ⟨hv.2.1, hv.2.2.1⟩⟩
    | adopt =>
      cases h
      exact ⟨hv.1, hv.2.imp_left fun h => ⟨h.1, h.2.1⟩⟩
  · rintro ⟨htrusted, ⟨hsame, hholds⟩ | htorn⟩
    · by_cases hmissing : ∃ i, reads i = .missing
      · have h : (restore record).Follows own reads := ⟨htrusted, hsame, hholds, hmissing⟩
        rw [h.eq_restore hv, Verdict.record]
      · have h : (adopt record).Follows own reads :=
          ⟨htrusted, .inl ⟨hsame, hholds, not_exists.1 hmissing⟩⟩
        rw [h.eq_adopt hv, Verdict.record]
    · have h : (adopt record).Follows own reads := ⟨htrusted, .inr htorn⟩
      rw [h.eq_adopt hv, Verdict.record]

end Verdict

/-! ### The order of the slots -/

variable (σ : Equiv.Perm (Fin n))

theorem trusted_comp : Trusted own (reads ∘ σ) ↔ Trusted own reads :=
  σ.forall_congr fun _ => .rfl

theorem sameRecord_comp : SameRecord (reads ∘ σ) ↔ SameRecord reads :=
  σ.forall₂_congr σ .rfl

theorem sameNonce_comp : SameNonce (reads ∘ σ) ↔ SameNonce reads :=
  σ.forall₂_congr σ .rfl

theorem greatest_comp {i : Fin n} : Greatest (reads ∘ σ) i e ↔ Greatest reads (σ i) e :=
  and_congr_right fun _ => σ.forall_congr fun _ => .rfl

theorem exists_greatest_comp {P : Envelope → Prop} :
    (∃ i e, Greatest (reads ∘ σ) i e ∧ P e) ↔ ∃ i e, Greatest reads i e ∧ P e := by
  simp only [greatest_comp]
  exact σ.exists_congr fun _ => .rfl

theorem tornByOne_comp : TornByOne (reads ∘ σ) ↔ TornByOne reads := by
  unfold TornByOne
  simp only [greatest_comp, sameNonce_comp]
  exact and_congr_right fun _ => σ.existsUnique_congr fun _ => .rfl

theorem exists_holds_comp {P : Envelope → Prop} :
    (∃ i e, (reads ∘ σ) i = .holds e ∧ P e) ↔ ∃ i e, reads i = .holds e ∧ P e :=
  σ.exists_congr fun _ => .rfl

/-- **The rules do not depend on the order of the slots.** -/
theorem Verdict.follows_comp (v : Verdict) : v.Follows own (reads ∘ σ) ↔ v.Follows own reads := by
  have hmissing : (∀ i, (reads ∘ σ) i = .missing) ↔ ∀ i, reads i = .missing :=
    σ.forall_congr fun _ => .rfl
  have hpresent : (∀ i, (reads ∘ σ) i ≠ .missing) ↔ ∀ i, reads i ≠ .missing :=
    σ.forall_congr fun _ => .rfl
  have hlone : (∃ i, (reads ∘ σ) i = .missing) ↔ ∃ i, reads i = .missing :=
    σ.exists_congr fun _ => .rfl
  cases v with
  | discard reason => simp only [Follows, trusted_comp, sameRecord_comp, tornByOne_comp]
  | empty => exact hmissing
  | restore record =>
    simp only [Follows, trusted_comp, sameRecord_comp, exists_holds_comp, hlone]
  | adopt record =>
    simp only [Follows, trusted_comp, sameRecord_comp, tornByOne_comp, exists_holds_comp,
      exists_greatest_comp, hpresent]

end Rules

/-! ## What a load finds -/

section Found

variable {n : ℕ} {own : BaseboardId} {reads : Fin n → SlotRead}

def held (reads : Fin n → SlotRead) : List Envelope := (List.ofFn reads).filterMap SlotRead.envelope?

theorem mem_held : e ∈ held reads ↔ ∃ i, reads i = .holds e := by
  simp [held, List.mem_filterMap, SlotRead.eq_holds_iff]

theorem collect_of_trusted (h : ¬read.Untrusted own) (slot : ℕ) (found : List Envelope) :
    collect own slot found read = .ok (found ++ read.envelope?.toList) := by
  cases read with
  | missing => simp [collect, SlotRead.envelope?]
  | failed error => exact absurd trivial h
  | corrupt => exact absurd trivial h
  | holds envelope =>
    have hown : envelope.baseboard = own := not_not.1 h
    simp [collect, hown, SlotRead.envelope?]

theorem collect_of_untrusted (h : read.Untrusted own) (slot : ℕ) (found : List Envelope) :
    ∃ reason, collect own slot found read = .error reason := by
  cases read with
  | missing => exact h.elim
  | failed error => exact ⟨_, rfl⟩
  | corrupt => exact ⟨_, rfl⟩
  | holds envelope => exact ⟨_, if_neg h⟩

theorem collectAll_of_trusted {list : List SlotRead} (h : ∀ read ∈ list, ¬read.Untrusted own)
    (slot : ℕ) (found : List Envelope) :
    collectAll own slot found list = .ok (found ++ list.filterMap SlotRead.envelope?) := by
  induction list generalizing slot found with
  | nil => simp [collectAll]
  | cons read list ih =>
    rw [List.forall_mem_cons] at h
    rw [collectAll, collect_of_trusted h.1]
    dsimp only
    rw [ih h.2, List.append_assoc]
    cases hread : read.envelope? <;> simp [hread]

theorem collectAll_of_untrusted {list : List SlotRead} (h : ∃ read ∈ list, read.Untrusted own)
    (slot : ℕ) (found : List Envelope) :
    ∃ reason, collectAll own slot found list = .error reason := by
  induction list generalizing slot found with
  | nil => simp at h
  | cons read list ih =>
    rw [collectAll]
    by_cases hread : read.Untrusted own
    · obtain ⟨reason, hreason⟩ := collect_of_untrusted hread slot found
      exact ⟨reason, by rw [hreason]⟩
    · rw [collect_of_trusted hread]
      rw [List.exists_mem_cons_iff] at h
      exact ih (h.resolve_left hread) _ _

omit [World] in
theorem countP_ofFn {α : Type*} (f : Fin n → α) (P : α → Prop) [DecidablePred P] :
    (List.ofFn f).countP P = (Finset.univ.filter fun i => P (f i)).card := by
  rw [← Multiset.coe_countP, ← Fin.univ_val_map, Multiset.countP_map]
  rfl

/-- How many slots hold an envelope that meets `P`. -/
theorem countP_held (reads : Fin n → SlotRead) (P : Envelope → Prop) [DecidablePred P] :
    (held reads).countP P =
      (Finset.univ.filter fun i => ∃ e ∈ (reads i).envelope?, P e).card := by
  rw [held, List.countP_filterMap,
    ← countP_ofFn reads fun read => ∃ e ∈ read.envelope?, P e]
  refine List.countP_congr fun read _ => ?_
  cases read.envelope? <;> simp

/-- Exactly one envelope meets `P` if exactly one slot holds such an envelope. -/
theorem countP_held_eq_one_iff {P : Envelope → Prop} [DecidablePred P] :
    (held reads).countP P = 1 ↔ ∃! i, ∃ e, reads i = .holds e ∧ P e := by
  rw [countP_held, ← Fintype.existsUnique_iff_card_one]
  simp only [SlotRead.eq_holds_iff, Option.mem_def]

theorem length_held_lt_iff (htrusted : Trusted own reads) :
    (held reads).length < n ↔ ∃ i, reads i = .missing := by
  have hle : (held reads).length ≤ n := by
    simpa [held] using List.length_filterMap_le SlotRead.envelope? (List.ofFn reads)
  have hfull : (held reads).length = n ↔ ∀ i, (reads i).envelope?.isSome := by
    rw [held, List.length_filterMap_eq_countP]
    nth_rewrite 2 [← List.length_ofFn (f := reads)]
    rw [List.countP_eq_length]
    simp
  rw [lt_iff_le_and_ne, and_iff_right hle, Ne, hfull, not_forall]
  refine exists_congr fun i => ?_
  have hi := htrusted i
  cases hread : reads i with
  | missing => simp [SlotRead.envelope?]
  | holds envelope => simp [SlotRead.envelope?]
  | failed error | corrupt =>
    rw [hread] at hi
    exact absurd trivial hi

theorem all_held_iff {α : Type*} [DecidableEq α] (f : Envelope → α) {x : Envelope}
    (hx : x ∈ held reads) :
    (held reads).all (f · = f x) ↔
      ∀ i j e e', reads i = .holds e → reads j = .holds e' → f e = f e' := by
  simp only [List.all_eq_true, decide_eq_true_eq]
  constructor
  · intro h i j e e' he he'
    rw [h e (mem_held.2 ⟨i, he⟩), h e' (mem_held.2 ⟨j, he'⟩)]
  · intro h e he
    obtain ⟨i, hi⟩ := mem_held.1 he
    obtain ⟨j, hj⟩ := mem_held.1 hx
    exact h i j e x hi hj

theorem le_newestOf (first : Envelope) (rest : List Envelope) :
    ∀ e ∈ first :: rest, e.seq ≤ (newestOf first rest).seq := by
  unfold newestOf
  induction rest generalizing first with
  | nil => simp
  | cons second rest ih =>
    rw [List.foldl_cons]
    have hfirst : first.seq ≤ (if first.seq ≤ second.seq then second else first).seq := by
      split <;> omega
    have hsecond : second.seq ≤ (if first.seq ≤ second.seq then second else first).seq := by
      split <;> omega
    generalize (if first.seq ≤ second.seq then second else first) = better at hfirst hsecond ⊢
    have hbetter := ih better better List.mem_cons_self
    intro e he
    rcases List.mem_cons.1 he with rfl | he
    · exact hfirst.trans hbetter
    · rcases List.mem_cons.1 he with rfl | he
      · exact hsecond.trans hbetter
      · exact ih better e (List.mem_cons_of_mem _ he)

section Judged

variable {first : Envelope} {rest : List Envelope} (hheld : held reads = first :: rest)

include hheld

theorem greatest_iff {i : Fin n} :
    Greatest reads i e ↔ reads i = .holds e ∧ e.seq = (newestOf first rest).seq := by
  refine and_congr_right fun hi => ?_
  have he : e ∈ first :: rest := hheld ▸ mem_held.2 ⟨i, hi⟩
  constructor
  · intro h
    obtain ⟨j, hj⟩ := mem_held.1 (hheld ▸ newestOf_mem first rest)
    exact le_antisymm (le_newestOf first rest e he) (h j _ hj)
  · intro h j f hj
    rw [h]
    exact le_newestOf first rest f (hheld ▸ mem_held.2 ⟨j, hj⟩)

theorem sameRecord_iff : SameRecord reads ↔ (first :: rest).all (·.record = first.record) := by
  have hx : first ∈ held reads := hheld ▸ List.mem_cons_self
  rw [← hheld]
  exact (all_held_iff Envelope.record hx).symm

theorem tornByOne_iff : TornByOne reads ↔
    (first :: rest).all (·.nonce = (newestOf first rest).nonce) ∧
      (first :: rest).countP (·.seq = (newestOf first rest).seq) = 1 := by
  have hx : newestOf first rest ∈ held reads := hheld ▸ newestOf_mem first rest
  unfold TornByOne
  rw [← hheld]
  refine and_congr (all_held_iff Envelope.nonce hx).symm ?_
  rw [countP_held_eq_one_iff]
  simp only [greatest_iff hheld]

end Judged

/-- **What a load concludes from the slots** follows the rules. -/
theorem judge_follows (htrusted : Trusted own reads) :
    (judge n (held reads)).verdict.Follows own reads := by
  have hmissing := length_held_lt_iff htrusted
  cases hheld : held reads with
  | nil =>
    intro i
    have hi := htrusted i
    cases hread : reads i with
    | missing => rfl
    | holds e =>
      have he : e ∈ held reads := mem_held.2 ⟨i, hread⟩
      rw [hheld] at he
      cases he
    | failed error | corrupt =>
      rw [hread] at hi
      exact absurd trivial hi
  | cons first rest =>
    obtain ⟨i, hi⟩ : ∃ i, reads i = .holds first := mem_held.1 (hheld ▸ List.mem_cons_self)
    rw [hheld] at hmissing
    unfold judge
    dsimp only
    by_cases hsame : SameRecord reads
    · rw [if_pos ((sameRecord_iff hheld).1 hsame)]
      by_cases hlone : (first :: rest).length < n
      · rw [if_pos hlone]
        exact ⟨htrusted, hsame, ⟨i, first, hi, rfl⟩, hmissing.1 hlone⟩
      · rw [if_neg hlone]
        exact ⟨htrusted, .inl ⟨hsame, ⟨i, first, hi, rfl⟩, fun k hk => hlone (hmissing.2 ⟨k, hk⟩)⟩⟩
    · rw [if_neg fun h => hsame ((sameRecord_iff hheld).2 h)]
      by_cases htorn : TornByOne reads
      · rw [if_pos ((tornByOne_iff hheld).1 htorn)]
        obtain ⟨j, hj⟩ := mem_held.1 (hheld ▸ newestOf_mem first rest)
        exact ⟨htrusted, .inr ⟨hsame, htorn, j, _, (greatest_iff hheld).2 ⟨hj, rfl⟩, rfl⟩⟩
      · rw [if_neg fun h => htorn ((tornByOne_iff hheld).2 h)]
        exact .inr ⟨hsame, htorn⟩

end Found

/-! ## Loading -/

omit [World] in
theorem swapRemove_perm {α : Type*} (rest : List α) : (swapRemove rest).Perm rest := by
  unfold swapRemove
  cases hlast : rest.getLast? with
  | none => rw [List.getLast?_eq_none_iff.1 hlast]
  | some last =>
    have hrest := List.dropLast_append_getLast? last hlast
    conv_rhs => rw [← hrest]
    exact (List.perm_append_singleton last rest.dropLast).symm

theorem foldl_swapRemove (rest : List Envelope) (seq : ℕ) :
    (swapRemove rest).foldl (fun seq e => max seq e.seq) seq =
      rest.foldl (fun seq e => max seq e.seq) seq := by
  have : RightCommutative fun (seq : ℕ) (e : Envelope) => max seq e.seq :=
    ⟨fun seq e f => max_right_comm seq e.seq f.seq⟩
  exact (swapRemove_perm rest).foldl_eq seq

namespace Guard

variable {n : ℕ} {g : Guard n} {reads : Fin n → SlotRead}

/-- What a guard does with a judgement. -/
def conclude (g : Guard n) (judgement : Judgement) : Loaded n :=
  match judgement.repair with
  | some record =>
    let (guard, envelope) := (g.raise judgement.newest).store record
    ⟨guard, judgement.verdict, envelope⟩
  | none => ⟨g.raise judgement.newest, judgement.verdict, none⟩

@[simp] theorem verdict_conclude (judgement : Judgement) :
    (g.conclude judgement).verdict = judgement.verdict := by
  unfold conclude
  split <;> rfl

@[simp] theorem raise_zero : g.raise 0 = g := by
  simp [raise]

/-- What a guard does with what the loop over the slots has collected. -/
def answer (g : Guard n) : Except Discard (List Envelope) → Loaded n
  | .error reason => ⟨g, .discard reason, none⟩
  | .ok found => g.conclude (judge n found)

theorem load_eq (hn : n ≠ 0) (g : Guard n) (reads : Fin n → SlotRead) :
    g.load reads = g.answer (collectAll g.baseboard 0 [] (List.ofFn reads)) := by
  rw [load, if_neg hn]
  cases collectAll g.baseboard 0 [] (List.ofFn reads) with
  | error reason => rfl
  | ok found =>
    cases found with
    | nil => simp [answer, judge, conclude]
    | cons first rest =>
      dsimp only
      rw [foldl_swapRemove, ← List.countP_eq_length_filter, answer, judge]
      by_cases hsame : (first :: rest).all (·.record = first.record) = true
      · rw [if_neg (not_not.2 hsame), if_pos hsame]
        split <;> rfl
      · rw [if_pos hsame, if_neg hsame]
        split
        · next htorn => rw [if_neg htorn]; simp [conclude]
        · next htorn => rw [if_pos (not_not.1 htorn)]; rfl

theorem load_of_untrusted (hn : n ≠ 0) (h : ¬Trusted g.baseboard reads) :
    ∃ reason, g.load reads = ⟨g, .discard reason, none⟩ := by
  obtain ⟨i, hi⟩ := not_trusted_iff.1 h
  obtain ⟨reason, hreason⟩ := collectAll_of_untrusted
    ⟨reads i, List.mem_ofFn.2 ⟨i, rfl⟩, hi⟩ 0 []
  exact ⟨reason, by rw [load_eq hn, hreason, answer]⟩

/-- **A load of slots that can be trusted** applies the pair rules to the envelopes in them. -/
theorem load_of_trusted (hn : n ≠ 0) (h : Trusted g.baseboard reads) :
    g.load reads = g.conclude (judge n (held reads)) := by
  have htrusted : ∀ read ∈ List.ofFn reads, ¬read.Untrusted g.baseboard := by
    intro read hread
    obtain ⟨i, rfl⟩ := List.mem_ofFn.1 hread
    exact h i
  rw [load_eq hn, collectAll_of_trusted htrusted, List.nil_append, answer, held]

/-- **A load follows the pair rules.** -/
theorem load_follows (hn : n ≠ 0) (g : Guard n) (reads : Fin n → SlotRead) :
    (g.load reads).verdict.Follows g.baseboard reads := by
  by_cases htrusted : Trusted g.baseboard reads
  · rw [load_of_trusted hn htrusted, verdict_conclude]
    exact judge_follows htrusted
  · obtain ⟨reason, hload⟩ := load_of_untrusted hn htrusted
    rw [hload]
    exact .inl htrusted

/-! ## Sequence numbers -/

def Call.Reads : Call n → Envelope → Prop
  | .load reads, e => ∃ i, reads i = .holds e
  | .store _, _ => False

theorem le_foldl_max (rest : List Envelope) (first : Envelope) :
    ∀ e ∈ first :: rest, e.seq ≤ rest.foldl (fun seq e => max seq e.seq) first.seq := by
  suffices ∀ (rest : List Envelope) (seq : ℕ),
      seq ≤ rest.foldl (fun seq e => max seq e.seq) seq ∧
        ∀ e ∈ rest, e.seq ≤ rest.foldl (fun seq e => max seq e.seq) seq from
    List.forall_mem_cons.2 (this rest first.seq)
  intro rest
  induction rest with
  | nil => simp
  | cons second rest ih =>
    intro seq
    obtain ⟨hstart, hrest⟩ := ih (max seq second.seq)
    refine ⟨(le_max_left _ _).trans hstart, List.forall_mem_cons.2 ⟨?_, hrest⟩⟩
    exact (le_max_right _ _).trans hstart

theorem foldl_max_mem (rest : List Envelope) (first : Envelope) :
    ∃ e ∈ first :: rest, rest.foldl (fun seq e => max seq e.seq) first.seq = e.seq := by
  induction rest generalizing first with
  | nil => exact ⟨first, List.mem_cons_self, rfl⟩
  | cons second rest ih =>
    rw [List.foldl_cons]
    rcases max_choice first.seq second.seq with hmax | hmax
    · rw [hmax]
      obtain ⟨e, he, hseq⟩ := ih first
      exact ⟨e, by grind, hseq⟩
    · rw [hmax]
      obtain ⟨e, he, hseq⟩ := ih second
      exact ⟨e, List.mem_cons_of_mem _ he, hseq⟩

theorem judge_newest (slots : ℕ) (found : List Envelope) :
    (judge slots found).newest = 0 ∨ ∃ e ∈ found, (judge slots found).newest = e.seq := by
  cases found with
  | nil => exact .inl rfl
  | cons first rest =>
    unfold judge
    dsimp only
    split
    · split
      · exact .inr (foldl_max_mem rest first)
      · exact .inr (foldl_max_mem rest first)
    · split
      · exact .inr ⟨_, newestOf_mem first rest, rfl⟩
      · exact .inl rfl

theorem le_judge_newest {slots : ℕ} {found : List Envelope}
    (h : (judge slots found).verdict.record = some record) :
    ∀ e ∈ found, e.seq ≤ (judge slots found).newest := by
  cases found with
  | nil => simp
  | cons first rest =>
    unfold judge at h ⊢
    dsimp only at h ⊢
    split
    · split
      · exact le_foldl_max rest first
      · exact le_foldl_max rest first
    · next hdiffer =>
      rw [if_neg hdiffer] at h
      split
      · exact le_newestOf first rest
      · next htorn =>
        rw [if_neg htorn] at h
        cases h

theorem call_cases (hn : n ≠ 0) (g : Guard n) (c : Call n) :
    ∃ seq, (seq = 0 ∨ ∃ e, c.Reads e ∧ seq = e.seq) ∧
      (g.call c = (g.raise seq, []) ∨
        ∃ record, g.call c =
          (((g.raise seq).store record).1, ((g.raise seq).store record).2.toList)) := by
  cases c with
  | store record =>
    refine ⟨0, .inl rfl, .inr ⟨record, ?_⟩⟩
    rw [raise_zero]
    rfl
  | load reads =>
    by_cases htrusted : Trusted g.baseboard reads
    · refine ⟨(judge n (held reads)).newest, ?_, ?_⟩
      · refine (judge_newest n (held reads)).imp_right ?_
        rintro ⟨e, he, hseq⟩
        exact ⟨e, mem_held.1 he, hseq⟩
      · rw [call, load_of_trusted hn htrusted, conclude]
        cases (judge n (held reads)).repair with
        | none => exact .inl rfl
        | some record => exact .inr ⟨record, rfl⟩
    · obtain ⟨reason, hload⟩ := load_of_untrusted hn htrusted
      refine ⟨0, .inl rfl, .inl ?_⟩
      rw [call, hload, raise_zero]
      rfl

theorem store_of_lt (hn : n ≠ 0) (h : g.reserved < 2 ^ 64 - 1) (record : List UInt8) :
    g.store record = ({ g with reserved := g.reserved + 1 },
      some ⟨g.nonce, g.reserved + 1, g.baseboard, record⟩) := by
  have hwrap : (g.reserved + 1) % 2 ^ 64 = g.reserved + 1 := Nat.mod_eq_of_lt (by omega)
  rw [store, if_neg hn, hwrap]

theorem call_step (hn : n ≠ 0) (h : g.reserved < 2 ^ 64 - 1) {c : Call n}
    (hreads : ∀ e, c.Reads e → e.seq < 2 ^ 64 - 1) :
    (g.call c).2 = [] ∧ g.reserved ≤ (g.call c).1.reserved ∧
        (g.call c).1.reserved < 2 ^ 64 - 1 ∨
      ∃ e, (g.call c).2 = [e] ∧ (g.call c).1.reserved = e.seq ∧ g.reserved < e.seq := by
  obtain ⟨seq, hseq, hcall⟩ := call_cases hn g c
  have hlt : seq < 2 ^ 64 - 1 := by
    rcases hseq with rfl | ⟨e, he, rfl⟩
    · decide
    · exact hreads e he
  have hraised : (g.raise seq).reserved < 2 ^ 64 - 1 := max_lt hlt h
  have hle : g.reserved ≤ (g.raise seq).reserved := le_max_right _ _
  rcases hcall with hcall | ⟨record, hcall⟩
  · rw [hcall]
    exact .inl ⟨rfl, hle, hraised⟩
  · rw [hcall, store_of_lt hn hraised]
    exact .inr ⟨_, rfl, rfl, Nat.lt_succ_of_le hle⟩

/-- What is stored in calls after which the number is at least `seq` is newer than `seq`, until the
numbers are used up. -/
theorem calls_newer (hn : n ≠ 0) {seq : ℕ} {cs : List (Call n)} {earlier later : List Envelope}
    (hseq : seq ≤ g.reserved) (h : g.reserved < 2 ^ 64 - 1)
    (hreads : ∀ c ∈ cs, ∀ e, c.Reads e → e.seq < 2 ^ 64 - 1)
    (hstored : (g.calls cs).2 = earlier ++ e :: later)
    (hearlier : ∀ x ∈ earlier, x.seq < 2 ^ 64 - 1) : seq < e.seq := by
  induction cs generalizing g earlier with
  | nil => simp [calls] at hstored
  | cons c cs ih =>
    rw [List.forall_mem_cons] at hreads
    have hrun : (g.calls (c :: cs)).2 = (g.call c).2 ++ ((g.call c).1.calls cs).2 := rfl
    rw [hrun] at hstored
    rcases call_step hn h hreads.1 with ⟨hnone, hle, hlt⟩ | ⟨x, hx, hxseq, hlt⟩
    · rw [hnone] at hstored
      exact ih (hseq.trans hle) hlt hreads.2 hstored hearlier
    · rw [hx, List.singleton_append] at hstored
      cases earlier with
      | nil =>
        obtain ⟨rfl, -⟩ := List.cons.inj hstored
        exact hseq.trans_lt hlt
      | cons y earlier =>
        obtain ⟨rfl, hrest⟩ := List.cons.inj hstored
        rw [List.forall_mem_cons] at hearlier
        exact ih (hseq.trans (hxseq ▸ hlt.le)) (hxseq ▸ hearlier.1) hreads.2 hrest hearlier.2

theorem reserved_calls_lt (hn : n ≠ 0) {cs : List (Call n)} (h : g.reserved < 2 ^ 64 - 1)
    (hreads : ∀ c ∈ cs, ∀ e, c.Reads e → e.seq < 2 ^ 64 - 1)
    (hstored : ∀ e ∈ (g.calls cs).2, e.seq < 2 ^ 64 - 1) :
    (g.calls cs).1.reserved < 2 ^ 64 - 1 := by
  induction cs generalizing g with
  | nil => exact h
  | cons c cs ih =>
    rw [List.forall_mem_cons] at hreads
    have hrun : (g.calls (c :: cs)).2 = (g.call c).2 ++ ((g.call c).1.calls cs).2 := rfl
    rw [hrun, List.forall_mem_append] at hstored
    refine ih (g := (g.call c).1) ?_ hreads.2 hstored.2
    rcases call_step hn h hreads.1 with ⟨-, -, hlt⟩ | ⟨x, hx, hxseq, -⟩
    · exact hlt
    · rw [hxseq]
      exact hstored.1 x (hx ▸ List.mem_singleton_self x)

theorem le_reserved_load (hn : n ≠ 0) (h : g.reserved < 2 ^ 64 - 1)
    (hreads : ∀ i e, reads i = .holds e → e.seq < 2 ^ 64 - 1)
    (hrecord : (g.load reads).verdict.record = some record) {i : Fin n} {f : Envelope}
    (hf : reads i = .holds f) :
    f.seq ≤ (g.load reads).guard.reserved ∧ ∀ e ∈ (g.load reads).repair, f.seq < e.seq := by
  by_cases htrusted : Trusted g.baseboard reads
  · rw [load_of_trusted hn htrusted] at hrecord ⊢
    rw [verdict_conclude] at hrecord
    have hnewest : f.seq ≤ (g.raise (judge n (held reads)).newest).reserved :=
      (le_judge_newest hrecord f (mem_held.2 ⟨i, hf⟩)).trans (le_max_left _ _)
    have hraised : (g.raise (judge n (held reads)).newest).reserved < 2 ^ 64 - 1 := by
      refine max_lt ?_ h
      rcases judge_newest n (held reads) with hzero | ⟨e, he, hseq⟩
      · rw [hzero]
        decide
      · rw [hseq]
        obtain ⟨j, hj⟩ := mem_held.1 he
        exact hreads j e hj
    unfold conclude
    cases (judge n (held reads)).repair with
    | none => exact ⟨hnewest, by simp⟩
    | some record =>
      dsimp only
      rw [store_of_lt hn hraised]
      refine ⟨Nat.le_succ_of_le hnewest, fun e he => ?_⟩
      cases he
      exact Nat.lt_succ_of_le hnewest
  · obtain ⟨reason, hload⟩ := load_of_untrusted hn htrusted
    rw [hload] at hrecord
    cases hrecord

/-- **A store after a load** has a greater number than every slot the load read, until the numbers
are used up. -/
theorem stored_after_load (hn : n ≠ 0) (h : g.reserved < 2 ^ 64 - 1)
    (hrecord : (g.load reads).verdict.record = some record) {cs : List (Call n)}
    (hreads : ∀ c ∈ Call.load reads :: cs, ∀ e, c.Reads e → e.seq < 2 ^ 64 - 1)
    {earlier later : List Envelope}
    (hstored : (g.calls (.load reads :: cs)).2 = earlier ++ e :: later)
    (hearlier : ∀ x ∈ earlier, x.seq < 2 ^ 64 - 1) {i : Fin n} {f : Envelope}
    (hf : reads i = .holds f) : f.seq < e.seq := by
  have hload := List.forall_mem_cons.1 hreads
  obtain ⟨hle, hrepair⟩ := le_reserved_load hn h (fun i e he => hload.1 e ⟨i, he⟩) hrecord hf
  have hrun : (g.calls (.load reads :: cs)).2 =
      (g.call (.load reads)).2 ++ ((g.load reads).guard.calls cs).2 := rfl
  rw [hrun] at hstored
  rcases call_step hn h hload.1 with ⟨hnone, -, hlt⟩ | ⟨x, hx, hxseq, -⟩
  · rw [hnone] at hstored
    exact calls_newer hn hle hlt hload.2 hstored hearlier
  · rw [hx, List.singleton_append] at hstored
    have hxcall : x ∈ (g.call (.load reads)).2 := hx ▸ List.mem_singleton_self x
    cases earlier with
    | nil =>
      obtain ⟨rfl, -⟩ := List.cons.inj hstored
      exact hrepair x (Option.mem_toList.1 hxcall)
    | cons y earlier =>
      obtain ⟨rfl, hrest⟩ := List.cons.inj hstored
      rw [List.forall_mem_cons] at hearlier
      exact calls_newer hn hle (hxseq ▸ hearlier.1) hload.2 hrest hearlier.2

theorem baseboard_calls (hn : n ≠ 0) (g : Guard n) (cs : List (Call n)) :
    (g.calls cs).1.baseboard = g.baseboard := by
  refine Lib.run_invariant call (P := fun g' _ _ => g'.baseboard = g.baseboard)
    (fun g' _ _ c hg' => ?_) rfl cs
  obtain ⟨seq, -, hcall | ⟨record, hcall⟩⟩ := call_cases hn g' c
  · rw [hcall]
    exact hg'
  · rw [hcall, store, if_neg hn]
    exact hg'

/-- **A load follows the pair rules, for any slots.** It discards what cannot be trusted, and records
that differ unless one process wrote them all and exactly one slot has the greatest number. It finds
nothing only where every slot is missing. Otherwise it returns the common record, or that of the
greatest number, and restores exactly where the records agree and a slot is missing. The order of
the slots matters only for the reason of a discard. Whatever the process stores from then on has a
greater number than every slot that was read, as long as no number that is read or stored is the
greatest there is. -/
theorem load_pair_rules (hn : 1 ≤ n) (nonce : Nonce) (own : BaseboardId) (before : List (Call n))
    (reads : Fin n → SlotRead) :
    let g : Guard n := ((Guard.new nonce own).calls before).1
    let verdict := (g.load reads).verdict
    ((∃ reason, verdict = .discard reason) ↔
      (∃ i, (reads i).Untrusted own) ∨ ¬SameRecord reads ∧ ¬TornByOne reads) ∧
    (verdict = .empty ↔ ∀ i, reads i = .missing) ∧
    (∀ record, verdict.record = some record ↔ (∀ i, ¬(reads i).Untrusted own) ∧
      (SameRecord reads ∧ (∃ i e, reads i = .holds e ∧ e.record = record) ∨
        ¬SameRecord reads ∧ TornByOne reads ∧ ∃ i e, Greatest reads i e ∧ e.record = record)) ∧
    (∀ record, verdict = .restore record ↔ (∀ i, ¬(reads i).Untrusted own) ∧ SameRecord reads ∧
      (∃ i e, reads i = .holds e ∧ e.record = record) ∧ ∃ i, reads i = .missing) ∧
    (∀ σ : Equiv.Perm (Fin n), (g.load (reads ∘ σ)).verdict.Agrees verdict) ∧
    ∀ record, verdict.record = some record → ∀ (after : List (Call n)) (earlier later : List Envelope)
      (e : Envelope), (g.calls (.load reads :: after)).2 = earlier ++ e :: later →
      (∀ c ∈ before ++ .load reads :: after, ∀ f, c.Reads f → f.seq < 2 ^ 64 - 1) →
      (∀ f ∈ ((Guard.new nonce own).calls before).2 ++ earlier, f.seq < 2 ^ 64 - 1) →
      ∀ i f, reads i = .holds f → f.seq < e.seq := by
  have hpos : n ≠ 0 := Nat.ne_of_gt hn
  intro g verdict
  have hown : g.baseboard = own := baseboard_calls hpos _ before
  have hfollows : ∀ reads, (g.load reads).verdict.Follows own reads := fun reads =>
    hown ▸ load_follows hpos g reads
  have hv : verdict.Follows own reads := hfollows reads
  refine ⟨⟨?_, fun h => ?_⟩, ⟨fun h => ?_, fun h => ?_⟩, fun record => hv.record_iff,
    fun record => ⟨fun h => ?_, fun h => ?_⟩, fun σ => ?_, ?_⟩
  · rintro ⟨reason, h⟩
    rw [h] at hv
    exact hv.imp_left not_trusted_iff.1
  · have hdiscard : (Verdict.discard .disagree).Follows own reads := h.imp_left not_trusted_iff.2
    exact hdiscard.eq_discard hv
  · rw [h] at hv
    exact hv
  · exact Verdict.Follows.eq_empty h hv
  · rw [h] at hv
    exact hv
  · exact Verdict.Follows.eq_restore h hv
  · exact ((Verdict.follows_comp σ _).1 (hfollows (reads ∘ σ))).agrees hv
  · intro record hrecord after earlier later e hstored hreads hnumbers i f hf
    rw [List.forall_mem_append] at hreads hnumbers
    have hlast : g.reserved < 2 ^ 64 - 1 :=
      reserved_calls_lt hpos (show 0 < 2 ^ 64 - 1 by decide) hreads.1 hnumbers.1
    exact stored_after_load hpos hlast hrecord hreads.2 hstored hnumbers.2 hf

end Guard

/-! ## The files -/

namespace Drives

variable {own : BaseboardId} {d : Drives} {t : Tenant}

def readFile : Option Envelope → SlotRead
  | some envelope => .holds envelope
  | none => .missing

def reads (d : Drives) (i : Fin d.slots.length) : SlotRead := readFile d.slots[i]

/-- The guard of the tenant `t`. -/
def guard (d : Drives) (own : BaseboardId) (t : Tenant) : Guard d.slots.length :=
  ⟨t.nonce, own, t.reserved⟩

theorem ofFn_reads (d : Drives) : List.ofFn d.reads = d.slots.map readFile := by
  have hfiles : List.ofFn (fun i : Fin d.slots.length => d.slots[i]) = d.slots :=
    List.ofFn_getElem
  conv_rhs => rw [← hfiles, List.map_ofFn]
  rfl

theorem run_read_free (own : BaseboardId) (ht : d.tenant = some t) (hfree : t.holder = none)
    (k : ℕ) : d.run own (List.replicate k (.read none)) = (d, []) := by
  have hstep : d.step own (.read none) = (d, []) := by
    simp [step, act, ht, hfree]
  induction k with
  | zero => rfl
  | succ k ih =>
    rw [run] at ih
    rw [run, List.replicate_succ, Lib.run_cons, hstep, ih]
    rfl

/-- What a load does with what it has collected. -/
def answerAll (own : BaseboardId) (d : Drives) (t : Tenant) :
    Except Discard (List Envelope) → Drives × List LockerOut
  | .error reason =>
    ({ d with tenant := some { t with holder := none } }, [.loaded (.discard reason)])
  | .ok found => d.conclude own t (judge d.slots.length found)

theorem readSlot_of_error {slot : ℕ} {found : List Envelope} {file : Option Envelope}
    {reason : Discard} (hfile : (d.slots[slot]?).join = file)
    (h : collect own slot found (readFile file) = .error reason) :
    d.readSlot own t slot found none = d.answerAll own t (.error reason) := by
  unfold readSlot
  cases file <;> rw [hfile] <;> dsimp only <;> rw [readFile] at h <;> rw [h] <;> rfl

theorem readSlot_of_ok {slot : ℕ} {found found' : List Envelope} {file : Option Envelope}
    (hfile : (d.slots[slot]?).join = file)
    (h : collect own slot found (readFile file) = .ok found') :
    d.readSlot own t slot found none =
      if slot + 1 < d.slots.length then
        ({ d with tenant := some { t with holder := some (.load (slot + 1) found') } }, [])
      else d.answerAll own t (.ok found') := by
  unfold readSlot
  cases file <;> rw [hfile] <;> dsimp only <;> rw [readFile] at h <;> rw [h] <;> rfl

theorem step_read {slot : ℕ} {found : List Envelope} (ht : d.tenant = some t)
    (hload : t.holder = some (.load slot found)) :
    d.step own (.read none) = d.readSlot own t slot found none := by
  simp [step, act, ht, hload]

/-- A load that has read `before` and is left alone reads the other slots and concludes. -/
theorem run_reads {before : List (Option Envelope)} {file : Option Envelope}
    {after : List (Option Envelope)} (hslots : d.slots = before ++ file :: after)
    {found : List Envelope} (ht : d.tenant = some t)
    (hload : t.holder = some (.load before.length found)) :
    d.run own (List.replicate (after.length + 1) (.read none)) =
      d.answerAll own t (collectAll own before.length found ((file :: after).map readFile)) := by
  -- by induction on the slots that are left
  induction after generalizing d t before file found with
  | nil =>
    have hfile : (d.slots[before.length]?).join = file := by simp [hslots]
    have hlast : ¬before.length + 1 < d.slots.length := by simp [hslots]
    rw [List.length_nil, List.replicate_succ, run, Lib.run_cons, step_read ht hload,
      List.map_singleton, collectAll]
    cases hcollect : collect own before.length found (readFile file) with
    | error reason => simp [readSlot_of_error hfile hcollect]
    | ok found' => simp [readSlot_of_ok hfile hcollect, hlast, collectAll]
  | cons next after ih =>
    have hfile : (d.slots[before.length]?).join = file := by simp [hslots]
    have hmore : before.length + 1 < d.slots.length := by simp [hslots]
    rw [List.length_cons, List.replicate_succ, run, Lib.run_cons, step_read ht hload, List.map_cons,
      collectAll]
    cases hcollect : collect own before.length found (readFile file) with
    | error reason =>
      have hrest : (d.answerAll own t (.error reason)).1.run own
          (List.replicate (after.length + 1) (.read none)) = _ := run_read_free own rfl rfl _
      rw [run] at hrest
      rw [readSlot_of_error hfile hcollect, hrest]
      rfl
    | ok found' =>
      have hlength : (before ++ [file]).length = before.length + 1 := by simp
      have hrest := @ih { d with
          tenant := some { t with holder := some (.load (before.length + 1) found') } } _
        (before ++ [file]) next (by simp [hslots]) found' rfl (by rw [hlength])
      rw [run, hlength] at hrest
      rw [readSlot_of_ok hfile hcollect, if_pos hmore, hrest]
      dsimp only
      cases collectAll own (before.length + 1) found' ((next :: after).map readFile) <;> rfl

theorem answer_answerAll (collected : Except Discard (List Envelope)) :
    answer (d.answerAll own t collected) = some ((d.guard own t).answer collected).verdict := by
  cases collected with
  | error reason => rfl
  | ok found =>
    rw [answerAll, Guard.answer, Guard.verdict_conclude, conclude]
    cases (judge d.slots.length found).repair <;> rfl

/-- **A load that is left alone** gives the verdict that its guard reaches over all the files, or
holds it until its repair has ended. -/
theorem answer_loadActs (hn : d.slots.length ≠ 0) (ht : d.tenant = some t)
    (hfree : t.holder = none) :
    answer (d.run own (loadActs d.slots.length)) = some ((d.guard own t).load d.reads).verdict := by
  obtain ⟨file, after, hslots⟩ := List.exists_cons_of_length_pos (Nat.pos_of_ne_zero hn)
  have hstart : d.step own .load =
      ({ d with tenant := some { t with holder := some (.load 0 []) } }, []) := by
    simp [step, act, ht, hfree, hslots]
  have hreads := @run_reads _ own { d with tenant := some { t with holder := some (.load 0 []) } } _ []
    file after hslots [] rfl rfl
  have hlength : after.length + 1 = d.slots.length := by simp [hslots]
  rw [hlength, ← hslots, ← ofFn_reads, run] at hreads
  have hrun : d.run own (loadActs d.slots.length) =
      d.answerAll own t (collectAll own 0 [] (List.ofFn d.reads)) := by
    rw [loadActs, run, Lib.run_cons, hstart, hreads, List.length_nil]
    cases collectAll own 0 [] (List.ofFn d.reads) <;> rfl
  rw [hrun, answer_answerAll, Guard.load_eq hn]
  rfl

end Drives

end Sush

namespace Sush.Terms

attribute [local instance] world

/-- Of three slots, one is missing and two were torn by a process that wrote nothing else. -/
def tornSlots : Fin 3 → SlotRead :=
  ![.holds ⟨7, 4, (0 : ℕ), [2]⟩, .missing, .holds ⟨7, 3, (0 : ℕ), [1]⟩]

theorem seq_lt_of_tornSlots {i : Fin 3} {f : Envelope} (h : tornSlots i = .holds f) :
    f.seq < 5 := by
  fin_cases i
  · cases h
    decide
  · cases h
  · cases h
    decide

/-- A load adopts the record of the greatest number and stores it again. The store after it is newer
than all. -/
theorem load_pair_rules_tornSlots :
    (((Guard.new 1 (0 : ℕ)).calls []).1.load tornSlots).verdict.record = some [2] ∧
      ∀ i f, tornSlots i = .holds f → f.seq < 6 := by
  obtain ⟨-, -, -, -, -, hstored⟩ :=
    Guard.load_pair_rules (by decide) 1 (0 : ℕ) [] tornSlots
  have hadopt : (((Guard.new 1 (0 : ℕ)).calls []).1.load tornSlots).verdict.record = some [2] := by
    decide
  refine ⟨hadopt, hstored [2] hadopt [.store [3]] [⟨1, 5, (0 : ℕ), [2]⟩] []
    ⟨1, 6, (0 : ℕ), [3]⟩ (by decide) ?_ (by decide)⟩
  rintro c hc f hf
  rcases List.mem_cons.1 hc with rfl | hc
  · obtain ⟨i, hi⟩ := hf
    exact (seq_lt_of_tornSlots hi).trans (by decide)
  · rw [List.mem_singleton.1 hc] at hf
    cases hf

end Sush.Terms
