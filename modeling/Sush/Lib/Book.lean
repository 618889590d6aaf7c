import Sush.Lib.Machine

/-!
# Books about tasks

Tasks are spawned for keys, and a book has one entry for a key: the task that was spawned for it last. A
task that is replaced, or whose entry is culled or cleared, is aborted; it ends, and is reaped, at some
later time. `Book.step` is one such act.

In a sound book the entries are exactly the tasks that are not aborted (`Sound`). So there is at most one
of them for a key, and reaping any other task leaves the entries alone. An entry also says what was done:
it is there if its task was spawned for the key, and since then the key was not culled, the book was not
cleared, no other task was spawned for the key and the task was not reaped (`Last`).
-/

namespace Sush.Lib

variable {K : Type}

structure Task (K : Type) where
  id : ℕ
  key : K
  aborted : Bool
  deriving DecidableEq

def Task.abort (t : Task K) : Task K := { t with aborted := true }

structure Book (K : Type) where
  tasks : List (Task K)
  entry : K → Option ℕ

namespace Book

/-- What can be done to a book. -/
inductive Act (K : Type) where
  | spawn (key : K) (id : ℕ)
  | cull (keep : K → Bool)
  | clear
  | reap (id : ℕ)

def step [DecidableEq K] (b : Book K) : Act K → Book K
  | .spawn key id => {
      tasks := (b.tasks.map fun t => if b.entry key = some t.id then t.abort else t) ++ [⟨id, key, false⟩]
      entry := Function.update b.entry key (some id) }
  | .cull keep => {
      tasks := b.tasks.map fun t =>
        if keep t.key = false ∧ b.entry t.key = some t.id then t.abort else t
      entry := fun key => if keep key then b.entry key else none }
  | .clear => {
      tasks := b.tasks.map Task.abort
      entry := fun _ => none }
  | .reap id => {
      tasks := b.tasks.filter (·.id ≠ id)
      entry := fun key => if b.entry key = some id then none else b.entry key }

variable {b : Book K} {key : K} {id : ℕ} {t : Task K}

/-! ## Sound books -/

/-- Tasks have different identifiers, and the entries are the tasks that are not aborted. -/
structure Sound (b : Book K) : Prop where
  unique : (b.tasks.map (·.id)).Nodup
  entry_iff : ∀ key id, b.entry key = some id ↔ ⟨id, key, false⟩ ∈ b.tasks

def Fresh (b : Book K) : Act K → Prop
  | .spawn _ id => ∀ t ∈ b.tasks, t.id ≠ id
  | _ => True

theorem sound_empty : Sound (⟨[], fun _ => none⟩ : Book K) where
  unique := List.nodup_nil
  entry_iff _ _ := by simp

theorem Sound.eq_of_id_eq (h : Sound b) {t' : Task K} (ht : t ∈ b.tasks) (ht' : t' ∈ b.tasks)
    (hid : t.id = t'.id) : t = t' :=
  List.inj_on_of_nodup_map h.unique ht ht' hid

theorem Sound.entry_of_mem (h : Sound b) (ht : t ∈ b.tasks) (hrunning : t.aborted = false) :
    b.entry t.key = some t.id := by
  rw [h.entry_iff]
  obtain ⟨id, key, aborted⟩ := t
  cases hrunning
  exact ht

theorem Sound.key_of_entry (h : Sound b) (ht : t ∈ b.tasks) (hentry : b.entry key = some t.id) :
    t.key = key := by
  rw [h.eq_of_id_eq ht ((h.entry_iff key t.id).1 hentry) rfl]

/-- **There is at most one task for a key that is not aborted.** -/
theorem Sound.eq_of_key_eq (h : Sound b) {t' : Task K} (ht : t ∈ b.tasks) (ht' : t' ∈ b.tasks)
    (hrunning : t.aborted = false) (hrunning' : t'.aborted = false) (hkey : t.key = t'.key) : t = t' := by
  have hentry := h.entry_of_mem ht hrunning
  rw [hkey, h.entry_of_mem ht' hrunning'] at hentry
  exact h.eq_of_id_eq ht ht' (Option.some.inj hentry).symm

theorem map_id_abort (tasks : List (Task K)) (c : Task K → Prop) [DecidablePred c] :
    (tasks.map fun t => if c t then t.abort else t).map (·.id) = tasks.map (·.id) := by
  rw [List.map_map]
  refine List.map_congr_left fun t _ => ?_
  simp only [Function.comp_apply]
  split
  · rfl
  · rfl

theorem mem_abort_iff (tasks : List (Task K)) (c : Task K → Prop) [DecidablePred c] :
    ⟨id, key, false⟩ ∈ (tasks.map fun t => if c t then t.abort else t) ↔
      ⟨id, key, false⟩ ∈ tasks ∧ ¬c ⟨id, key, false⟩ := by
  rw [List.mem_map]
  constructor
  · rintro ⟨t, ht, heq⟩
    split at heq
    · cases heq
    · next hc =>
      subst heq
      exact ⟨ht, hc⟩
  · rintro ⟨ht, hc⟩
    exact ⟨_, ht, if_neg hc⟩

variable [DecidableEq K]

theorem Sound.running_le_one (h : Sound b) (key : K) :
    (b.tasks.filter fun t => t.key = key ∧ t.aborted = false).length ≤ 1 := by
  have hnodup : (b.tasks.filter fun t => t.key = key ∧ t.aborted = false).Nodup :=
    (h.unique.of_map _).filter _
  rw [← List.toFinset_card_of_nodup hnodup, Finset.card_le_one]
  intro t ht t' ht'
  simp only [List.mem_toFinset, List.mem_filter, decide_eq_true_eq] at ht ht'
  exact h.eq_of_key_eq ht.1 ht'.1 ht.2.2 ht'.2.2 (ht.2.1.trans ht'.2.1.symm)

omit [DecidableEq K] in
theorem Sound.key_eq (h : Sound b) {key' : K} (hentry : b.entry key = some id)
    (hentry' : b.entry key' = some id) : key = key' :=
  h.key_of_entry (t := ⟨id, key, false⟩) ((h.entry_iff key id).1 hentry) hentry'

omit [DecidableEq K] in
theorem Sound.abort (h : Sound b) (c : Task K → Prop) [DecidablePred c] (entry : K → Option ℕ)
    (hentry : ∀ key id, entry key = some id ↔ b.entry key = some id ∧ ¬c ⟨id, key, false⟩) :
    Sound ⟨b.tasks.map fun t => if c t then t.abort else t, entry⟩ := by
  refine ⟨?_, ?_⟩
  · rw [map_id_abort]
    exact h.unique
  · intro key id
    rw [mem_abort_iff, hentry, h.entry_iff]

theorem Sound.add (h : Sound b) (hnone : b.entry key = none) (id : ℕ) (hfresh : ∀ t ∈ b.tasks, t.id ≠ id) :
    Sound ⟨b.tasks ++ [⟨id, key, false⟩], Function.update b.entry key (some id)⟩ := by
  refine ⟨?_, ?_⟩
  · rw [List.map_append, List.nodup_append]
    refine ⟨h.unique, List.nodup_singleton _, ?_⟩
    intro id₀ hid₀ id₁ hid₁ heq
    obtain ⟨t, ht, rfl⟩ := List.mem_map.1 hid₀
    exact hfresh t ht (heq.trans (List.mem_singleton.1 hid₁))
  · intro key' id'
    simp only [List.mem_append, List.mem_singleton, Task.mk.injEq, and_true]
    rw [← h.entry_iff]
    by_cases hkey : key' = key
    · subst hkey
      simp [hnone, eq_comm]
    · simp [hkey]

theorem Sound.spawn (h : Sound b) (hfresh : ∀ t ∈ b.tasks, t.id ≠ id) (key : K) :
    Sound (b.step (.spawn key id)) := by
  have habort := h.abort (fun t => b.entry key = some t.id) (Function.update b.entry key none) ?_
  · have hadd := habort.add (Function.update_self key none b.entry) id ?_
    · rw [Function.update_idem] at hadd
      exact hadd
    · intro t ht
      obtain ⟨t₀, ht₀, rfl⟩ := List.mem_map.1 ht
      split
      · exact hfresh t₀ ht₀
      · exact hfresh t₀ ht₀
  · intro key' id'
    by_cases hkey : key' = key
    · subst hkey
      simp
    · rw [Function.update_of_ne hkey]
      exact (and_iff_left_of_imp fun hentry hold => hkey (h.key_eq hentry hold)).symm

theorem Sound.cull (h : Sound b) (keep : K → Bool) : Sound (b.step (.cull keep)) := by
  refine h.abort (fun t => keep t.key = false ∧ b.entry t.key = some t.id) _ fun key id => ?_
  by_cases hkeep : keep key = true
  · simp [hkeep]
  · simp [hkeep]

theorem Sound.clear (h : Sound b) : Sound (b.step .clear) := by
  have habort := h.abort (fun _ => True) (fun _ => none) (by simp)
  simp only [if_true] at habort
  exact habort

theorem Sound.reap (h : Sound b) (reaped : ℕ) : Sound (b.step (.reap reaped)) := by
  refine ⟨h.unique.sublist (List.filter_sublist.map _), ?_⟩
  intro key id
  simp only [Book.step, List.mem_filter, decide_eq_true_eq]
  rw [← h.entry_iff]
  by_cases hentry : b.entry key = some reaped
  · rw [if_pos hentry, hentry]
    simp [eq_comm]
  · rw [if_neg hentry]
    refine (and_iff_left_of_imp fun hold => ?_).symm
    rintro rfl
    exact hentry hold

/-- **A sound book stays sound.** -/
theorem Sound.step (h : Sound b) {act : Act K} (hfresh : Fresh b act) : Sound (b.step act) := by
  cases act with
  | spawn key id => exact h.spawn hfresh key
  | cull keep => exact h.cull keep
  | clear => exact h.clear
  | reap id => exact h.reap id

/-- **Reaping a task that is not the entry of its key changes no entry.** -/
theorem Sound.entry_reap (h : Sound b) (ht : t ∈ b.tasks) (hother : b.entry t.key ≠ some t.id) :
    (b.step (.reap t.id)).entry = b.entry := by
  funext key
  simp only [Book.step]
  by_cases hentry : b.entry key = some t.id
  · have hkey := h.key_of_entry ht hentry
    rw [← hkey] at hentry
    exact absurd hentry hother
  · exact if_neg hentry

theorem Sound.entry_reap_eq (h : Sound b) (ht : t ∈ b.tasks) :
    (b.step (.reap t.id)).entry =
      if b.entry t.key = some t.id then Function.update b.entry t.key none else b.entry := by
  by_cases hentry : b.entry t.key = some t.id
  · rw [if_pos hentry]
    funext key
    simp only [Book.step]
    by_cases hkey : key = t.key
    · rw [hkey, if_pos hentry, Function.update_self]
    · rw [if_neg fun hold => hkey (h.key_of_entry ht hold).symm, Function.update_of_ne hkey]
  · rw [if_neg hentry]
    exact h.entry_reap ht hentry

/-! ## Numbered tasks -/

/-- A sound book whose tasks were numbered as they were spawned, with `next` to come. -/
structure Numbered (b : Book K) (next : ℕ) : Prop where
  sound : Sound b
  lt : ∀ t ∈ b.tasks, t.id < next

omit [DecidableEq K] in
theorem Numbered.mono {next next' : ℕ} (h : Numbered b next) (hle : next ≤ next') : Numbered b next' :=
  ⟨h.sound, fun t ht => (h.lt t ht).trans_le hle⟩

theorem id_of_mem_step {act : Act K} (ht : t ∈ (b.step act).tasks) :
    (∃ t₀ ∈ b.tasks, t.id = t₀.id) ∨ ∃ key, act = .spawn key t.id := by
  have hmapped (c : Task K → Prop) [DecidablePred c]
      (ht : t ∈ b.tasks.map fun t => if c t then t.abort else t) : ∃ t₀ ∈ b.tasks, t.id = t₀.id := by
    obtain ⟨t₀, ht₀, rfl⟩ := List.mem_map.1 ht
    refine ⟨t₀, ht₀, ?_⟩
    split
    · rfl
    · rfl
  cases act with
  | spawn key id =>
    rcases List.mem_append.1 ht with hold | hnew
    · exact .inl (hmapped _ hold)
    · rw [List.mem_singleton.1 hnew]
      exact .inr ⟨key, rfl⟩
  | cull keep => exact .inl (hmapped _ ht)
  | clear =>
    obtain ⟨t₀, ht₀, rfl⟩ := List.mem_map.1 ht
    exact .inl ⟨t₀, ht₀, rfl⟩
  | reap id => exact .inl ⟨t, List.mem_of_mem_filter ht, rfl⟩

theorem Numbered.spawn {next : ℕ} (h : Numbered b next) (key : K) :
    Numbered (b.step (.spawn key next)) (next + 1) := by
  refine ⟨h.sound.step fun t ht => (h.lt t ht).ne, ?_⟩
  intro t ht
  obtain ⟨t₀, ht₀, hid⟩ | ⟨key', heq⟩ := id_of_mem_step ht
  · rw [hid]
    exact (h.lt t₀ ht₀).trans (Nat.lt_succ_self next)
  · rw [← (Act.spawn.inj heq).2]
    exact Nat.lt_succ_self next

theorem Numbered.act {next : ℕ} (h : Numbered b next) {act : Act K}
    (hact : ∀ key id, act ≠ .spawn key id) : Numbered (b.step act) next := by
  have hfresh : Fresh b act := by
    cases act with
    | spawn key id => exact absurd rfl (hact key id)
    | cull keep => trivial
    | clear => trivial
    | reap id => trivial
  refine ⟨h.sound.step hfresh, ?_⟩
  intro t ht
  obtain ⟨t₀, ht₀, hid⟩ | ⟨key, heq⟩ := id_of_mem_step ht
  · rw [hid]
    exact h.lt t₀ ht₀
  · exact absurd heq (hact key t.id)

/-! ## What an entry says -/

/-- The act ends what the task `id` was for `key`. -/
def Act.Ends (key : K) (id : ℕ) : Act K → Prop
  | .spawn spawned _ => spawned = key
  | .cull keep => keep key = false
  | .clear => True
  | .reap reaped => reaped = id

/-- The task `id` was spawned for `key`, and nothing has ended that. -/
def Last (acts : List (Act K)) (key : K) (id : ℕ) : Prop :=
  ∃ pre post, acts = pre ++ .spawn key id :: post ∧ ∀ act ∈ post, ¬act.Ends key id

omit [DecidableEq K] in
theorem last_concat {acts : List (Act K)} {act : Act K} :
    Last (acts ++ [act]) key id ↔ act = .spawn key id ∨ (Last acts key id ∧ ¬act.Ends key id) := by
  constructor
  · rintro ⟨pre, post, heq, hpost⟩
    obtain ⟨-, -, hact⟩ | ⟨post', rfl, hacts⟩ := split_concat heq
    · exact .inl hact.symm
    · refine .inr ⟨⟨pre, post', hacts, ?_⟩, hpost act (by simp)⟩
      exact fun act' hact' => hpost act' (List.mem_append_left _ hact')
  · rintro (rfl | ⟨⟨pre, post, rfl, hpost⟩, hact⟩)
    · exact ⟨acts, [], rfl, fun _ h => by cases h⟩
    · refine ⟨pre, post ++ [act], by simp, ?_⟩
      intro act' hact'
      rcases List.mem_append.1 hact' with hold | hnew
      · exact hpost act' hold
      · rwa [List.mem_singleton.1 hnew]

/-- **An entry is there as long as its task was spawned last and nothing has ended it.** -/
theorem entry_step_iff {acts : List (Act K)} (h : ∀ key id, b.entry key = some id ↔ Last acts key id)
    (act : Act K) (key : K) (id : ℕ) :
    (b.step act).entry key = some id ↔ Last (acts ++ [act]) key id := by
  rw [last_concat, ← h]
  cases act with
  | spawn spawned new =>
    simp only [Book.step, Act.spawn.injEq, Act.Ends]
    by_cases hkey : key = spawned
    · subst hkey
      simp [eq_comm]
    · simp [Function.update_of_ne hkey, Ne.symm hkey]
  | cull keep =>
    simp only [Book.step, Act.Ends]
    by_cases hkeep : keep key = true
    · simp [hkeep]
    · simp [hkeep]
  | clear => simp [Book.step, Act.Ends]
  | reap reaped =>
    simp only [Book.step, Act.Ends]
    by_cases hentry : b.entry key = some reaped
    · rw [if_pos hentry, hentry]
      simp [eq_comm]
    · rw [if_neg hentry]
      constructor
      · intro heq
        refine .inr ⟨heq, ?_⟩
        rintro rfl
        exact hentry heq
      · rintro (heq | ⟨heq, -⟩)
        · cases heq
        · exact heq

end Book

end Sush.Lib
