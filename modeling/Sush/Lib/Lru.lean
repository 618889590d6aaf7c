import Mathlib

/-!
# A bounded cache with least-recently-used eviction

The entries stand most recently used first, each key once. `put` on a full cache drops the last
entry, `contains` and `peek` leave the order alone, `use` moves an entry to the front with what its
user leaves there, and `pop` takes an entry out. While the keys in the cache are among fewer than `cap`
others, a `put` drops nothing (`peek_put`).
-/

namespace Sush.Lib

/-- A cache of at most `cap` entries with distinct keys, most recently used first. -/
structure LruCache (K V : Type) where
  cap : ℕ
  entries : List (K × V)
  nodup : (entries.map Prod.fst).Nodup

namespace LruCache

variable {K V : Type} [DecidableEq K]

def new (cap : ℕ) : LruCache K V := ⟨cap, [], List.nodup_nil⟩

/-- The value under `k`, without using it. -/
def peek (c : LruCache K V) (k : K) : Option V := (c.entries.find? (·.1 = k)).map (·.2)

/-- Whether there is a value under `k`. -/
def contains (c : LruCache K V) (k : K) : Bool := (c.peek k).isSome

def keys (c : LruCache K V) : List K := c.entries.map Prod.fst

/-- The cache without `k`. -/
def erase (c : LruCache K V) (k : K) : LruCache K V where
  cap := c.cap
  entries := c.entries.filter (·.1 ≠ k)
  nodup := c.nodup.sublist (List.filter_sublist.map _)

/-- Take the value under `k` out. -/
def pop (c : LruCache K V) (k : K) : Option V × LruCache K V := (c.peek k, c.erase k)

theorem not_mem_keys_erase (c : LruCache K V) (k : K) : k ∉ (c.erase k).keys := by
  simp [keys, erase]

/-- Store `v` under `k` as the most recently used entry, dropping the least recently used one when
the cache is full. -/
def put (c : LruCache K V) (k : K) (v : V) : LruCache K V where
  cap := c.cap
  entries := ((k, v) :: (c.erase k).entries).take c.cap
  nodup := by
    have h : (((k, v) :: (c.erase k).entries).map Prod.fst).Nodup :=
      List.nodup_cons.2 ⟨not_mem_keys_erase c k, (c.erase k).nodup⟩
    exact h.sublist ((List.take_sublist _ _).map _)

/-- Use the entry under `k`, leaving `v` in it. -/
def use (c : LruCache K V) (k : K) (v : V) : LruCache K V where
  cap := c.cap
  entries := (k, v) :: (c.erase k).entries
  nodup := List.nodup_cons.2 ⟨not_mem_keys_erase c k, (c.erase k).nodup⟩

variable {c : LruCache K V} {k k' : K} {v v' : V}

@[simp] theorem peek_new {cap : ℕ} : (new cap : LruCache K V).peek k = none := rfl

theorem peek_eq_some_iff : c.peek k = some v ↔ (k, v) ∈ c.entries := by
  unfold peek
  rw [Option.map_eq_some_iff]
  constructor
  · rintro ⟨⟨a, b⟩, hf, rfl⟩
    have ha : a = k := by simpa using List.find?_some hf
    subst ha
    exact List.mem_of_find?_eq_some hf
  · intro hm
    have hs : (c.entries.find? (·.1 = k)).isSome := List.find?_isSome.2 ⟨(k, v), hm, by simp⟩
    obtain ⟨⟨a, b⟩, hf⟩ := Option.isSome_iff_exists.1 hs
    have ha : a = k := by simpa using List.find?_some hf
    have heq : (a, b) = (k, v) :=
      List.inj_on_of_nodup_map c.nodup (List.mem_of_find?_eq_some hf) hm ha
    exact ⟨(a, b), hf, by rw [heq]⟩

theorem mem_keys_iff : k ∈ c.keys ↔ ∃ v, c.peek k = some v := by
  simp only [keys, List.mem_map, peek_eq_some_iff, Prod.exists]
  constructor
  · rintro ⟨a, b, h, rfl⟩; exact ⟨b, h⟩
  · rintro ⟨b, h⟩; exact ⟨k, b, h, rfl⟩

theorem peek_erase : (c.erase k).peek k' = if k = k' then none else c.peek k' := by
  apply Option.ext
  intro v
  rw [peek_eq_some_iff]
  by_cases h : k = k'
  · subst h; simp [erase]
  · rw [if_neg h, peek_eq_some_iff]
    simp [erase, Ne.symm h]

theorem peek_use : (c.use k v).peek k' = if k = k' then some v else c.peek k' := by
  apply Option.ext
  intro w
  rw [peek_eq_some_iff, use, List.mem_cons, ← peek_eq_some_iff, peek_erase]
  by_cases hk : k = k'
  · subst hk; simp [eq_comm]
  · simp [hk, Ne.symm hk]

/-- **Nothing is dropped while there is room**: a `put` whose key leaves fewer than `cap` other
entries changes the value under that key only. -/
theorem peek_put (h : (c.erase k).entries.length < c.cap) :
    (c.put k v).peek k' = if k = k' then some v else c.peek k' := by
  apply Option.ext
  intro w
  have he : (c.put k v).entries = (c.use k v).entries := by
    unfold put
    exact List.take_of_length_le (by simp; omega)
  rw [peek_eq_some_iff, he, ← peek_eq_some_iff, peek_use]

/-- A value found after a `put` was put just now or was there before. -/
theorem peek_put_cases (h : (c.put k v).peek k' = some v') :
    (k' = k ∧ v' = v) ∨ c.peek k' = some v' := by
  rw [peek_eq_some_iff] at h
  rcases List.mem_cons.1 ((List.take_sublist _ _).subset h) with he | he
  · simp only [Prod.mk.injEq] at he
    exact .inl he
  · rw [← peek_eq_some_iff, peek_erase] at he
    split at he
    · cases he
    · exact .inr he

theorem peek_put_self (h : 0 < c.cap) : (c.put k v).peek k = some v := by
  rw [peek_eq_some_iff]
  obtain ⟨n, hn⟩ := Nat.exists_eq_succ_of_ne_zero h.ne'
  simp [put, hn]

/-- The other keys number fewer than `cap` when all of them and `k` are among `cap` keys. -/
theorem length_erase_lt {ks : Finset K} (hk : k ∈ ks) (hks : ∀ a ∈ c.keys, a ∈ ks)
    (hcap : ks.card ≤ c.cap) : (c.erase k).entries.length < c.cap := by
  have hsub : (c.erase k).keys.toFinset ⊆ ks.erase k := by
    intro a ha
    rw [List.mem_toFinset] at ha
    refine Finset.mem_erase.2 ⟨?_, hks a ?_⟩
    · rintro rfl; exact not_mem_keys_erase c a ha
    · exact (List.filter_sublist.map _).subset ha
  have hlen : (c.erase k).entries.length = (c.erase k).keys.toFinset.card := by
    unfold keys
    rw [List.toFinset_card_of_nodup (c.erase k).nodup, List.length_map]
  rw [hlen]
  have h1 := Finset.card_le_card hsub
  have h2 := Finset.card_erase_lt_of_mem hk
  omega

end LruCache

end Sush.Lib
