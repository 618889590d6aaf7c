import Sush.Client.CertChain
import Sush.Common.Terms
import Sush.Lib.Lineage
import Sush.Lib.Machine
import Sush.Lib.Text

/-!
# Trust anchors and their chains

`Certificates::new` goes through its anchors once. What it keeps of those before is one certificate for
each key, the latest (`Holds`), and of these it asks one to verify a certificate that is not a root: the
first in the order of keys that the issuer's name fits (`Chosen`). `exists_fold_iff` says for every list
whether it is accepted. So a certificate can be refused although one of those before it verifies it, if
another with the same name is asked (`accepts_iff_documented`).

The parents that are recorded are keys, and a later certificate for the same key takes the place of an
earlier one: the map has the last certificate for each key, with the key that was asked to verify it
(`kept_iff`). So a key can become its own ancestor, and then `Certificates::chain` does not end. It ends
exactly if that is not so, with a chain that a client accepts if the certificates that took another's
place still verify what was issued (`chain_satisfies_iff`).
-/

namespace Sush

open Lib (Acyclic Ends)
open Relation (ReflTransGen TransGen)

variable [World] [Crypto]

/-! ## Certificates -/

/-- The key of `parent` verifies the signature on `cert`. -/
def Verifies (cert parent : Certificate) : Prop := Crypto.verifyCert cert parent = .ok ()

/-- The certificate names itself as its issuer. -/
def SelfIssued (cert : Certificate) : Prop := Crypto.subject cert = Crypto.issuer cert

/-- The certificate and its key decode. -/
def WellFormed (cert : Certificate) : Prop :=
  (∃ k, Crypto.keyId cert = .ok k) ∧ Crypto.decodes cert = .ok ()

variable {k : KeyId} {seen l certs : List Certificate}
  {trusted : BTreeMap KeyId (Certificate × Option KeyId)} {cert c : Certificate}

namespace Certificates

def latest (seen : List Certificate) (k : KeyId) : Option Certificate :=
  seen.reverse.find? fun c => (Crypto.keyId c).toOption = some k

theorem latest_concat (hkey : Crypto.keyId cert = .ok k) (j : KeyId) :
    latest (seen ++ [cert]) j = if k = j then some cert else latest seen j := by
  rw [latest, List.reverse_append, List.reverse_singleton, List.singleton_append, List.find?_cons, hkey]
  by_cases hj : k = j
  · simp [hj, Except.toOption]
  · simp [hj, Except.toOption, latest]

theorem keyId_of_latest (h : latest seen k = some c) : c ∈ seen ∧ Crypto.keyId c = .ok k := by
  have hkey := List.find?_some h
  exact ⟨List.mem_reverse.1 (List.mem_of_find?_eq_some h),
    Lib.toOption_eq_some_iff.1 (of_decide_eq_true hkey)⟩

/-- The certificate `d` with key `p` is the one that is asked to verify `cert`. -/
def Chosen (seen : List Certificate) (cert d : Certificate) (p : KeyId) : Prop :=
  latest seen p = some d ∧ Crypto.subject d = Crypto.issuer cert ∧
    ∀ p' d', latest seen p' = some d' → Crypto.subject d' = Crypto.issuer cert → p ≤ p'

theorem exists_latest (h : ∃ c ∈ seen, Crypto.keyId c = .ok k) : ∃ c, latest seen k = some c := by
  obtain ⟨c, hc, hid⟩ := h
  refine Option.isSome_iff_exists.1 (List.find?_isSome.2 ⟨c, List.mem_reverse.2 hc, ?_⟩)
  simp [hid, Except.toOption]

theorem Chosen.unique {cert d d' : Certificate} {p p' : KeyId} (h : Chosen seen cert d p)
    (h' : Chosen seen cert d' p') : p = p' ∧ d = d' := by
  obtain ⟨hlatest, hname, hleast⟩ := h
  obtain ⟨hlatest', hname', hleast'⟩ := h'
  obtain rfl := le_antisymm (hleast p' d' hlatest' hname') (hleast' p d hlatest hname)
  exact ⟨rfl, Option.some.inj (hlatest.symm.trans hlatest')⟩

/-- The map has the last certificate for each key. -/
def Holds (seen : List Certificate) (trusted : BTreeMap KeyId (Certificate × Option KeyId)) : Prop :=
  ∀ k, trusted[k]?.map Prod.fst = latest seen k

theorem holds_nil : Holds [] ∅ := by
  intro k
  rw [Std.ExtTreeMap.getElem?_empty]
  rfl

theorem Holds.get_iff (h : Holds seen trusted) :
    latest seen k = some c ↔ ∃ q, trusted[k]? = some (c, q) := by
  rw [← h k, Option.map_eq_some_iff]
  constructor
  · rintro ⟨⟨c', q⟩, hget, rfl⟩
    exact ⟨q, hget⟩
  · rintro ⟨q, hget⟩
    exact ⟨(c, q), hget, rfl⟩

theorem Holds.insert (h : Holds seen trusted) (hkey : Crypto.keyId cert = .ok k)
    (parent : Option KeyId) : Holds (seen ++ [cert]) (trusted.insert k (cert, parent)) := by
  intro j
  rw [BTreeMap.get_insert, latest_concat hkey]
  by_cases hj : k = j
  · rw [if_pos hj, if_pos hj, Option.map_some]
  · rw [if_neg hj, if_neg hj, h j]

theorem findIssuer_eq_some_iff (h : Holds seen trusted) {cert d : Certificate} {p : KeyId} :
    findIssuer trusted cert = some (p, d) ↔ Chosen seen cert d p := by
  have hfound : ∀ {p d}, findIssuer trusted cert = some (p, d) → Chosen seen cert d p := by
    intro p d hfind
    rw [findIssuer, Option.map_eq_some_iff] at hfind
    obtain ⟨⟨p', d', q⟩, hfind, heq⟩ := hfind
    obtain ⟨rfl, rfl⟩ := Prod.mk.inj heq
    obtain ⟨hname, front, back, hlist, hfront⟩ := List.find?_eq_some_iff_append.1 hfind
    have hget : trusted[p']? = some (d', q) :=
      Std.ExtTreeMap.mem_toList_iff_getElem?_eq_some.1 (by rw [hlist]; simp)
    refine ⟨h.get_iff.2 ⟨q, hget⟩, of_decide_eq_true hname, fun p₁ d₁ hlatest hname' => ?_⟩
    -- what fits the name is not before the one found, so its key is not less
    obtain ⟨q', hget'⟩ := h.get_iff.1 hlatest
    have hmem : (p₁, d₁, q') ∈ trusted.toList :=
      Std.ExtTreeMap.mem_toList_iff_getElem?_eq_some.2 hget'
    have hsorted := Std.ExtTreeMap.ordered_keys_toList (t := trusted)
    rw [hlist] at hmem hsorted
    rcases List.mem_append.1 hmem with hmem | hmem
    · have hnot := hfront _ hmem
      simp [hname'] at hnot
    · rcases List.mem_cons.1 hmem with heq | hmem
      · cases heq
        exact le_rfl
      · have hlt := List.rel_of_pairwise_cons (List.pairwise_append.1 hsorted).2.1 hmem
        exact le_of_lt (compare_lt_iff_lt.1 hlt)
  refine ⟨hfound, fun hchosen => ?_⟩
  obtain ⟨q, hget⟩ := h.get_iff.1 hchosen.1
  cases hfind : findIssuer trusted cert with
  | none =>
    rw [findIssuer, Option.map_eq_none_iff] at hfind
    have hnot := List.find?_eq_none.1 hfind _ (Std.ExtTreeMap.mem_toList_iff_getElem?_eq_some.2 hget)
    exact absurd (decide_eq_true hchosen.2.1) hnot
  | some found =>
    obtain ⟨rfl, rfl⟩ := (hfound hfind).unique hchosen
    rfl

/-! ## What is accepted -/

/-- How `cert` is taken after `seen`: as a root, or as issued by the key `parent`. -/
def Taken (seen : List Certificate) (cert : Certificate) (parent : Option KeyId) : Prop :=
  (SelfIssued cert ∧ Verifies cert cert ∧ parent = none) ∨
    (¬SelfIssued cert ∧ ∃ p d, Chosen seen cert d p ∧ Verifies cert d ∧ parent = some p)

theorem Taken.unique {parent parent' : Option KeyId} (h : Taken seen cert parent)
    (h' : Taken seen cert parent') : parent = parent' := by
  rcases h with ⟨hself, -, rfl⟩ | ⟨hnot, p, d, hchosen, -, rfl⟩ <;>
    rcases h' with ⟨hself', -, rfl⟩ | ⟨hnot', p', d', hchosen', -, rfl⟩
  · rfl
  · exact absurd hself hnot'
  · exact absurd hself' hnot
  · rw [(hchosen.unique hchosen').1]

theorem parentId_eq_ok_iff (h : Holds seen trusted) {parent : Option KeyId} :
    parentId trusted k cert = .ok parent ↔ Taken seen cert parent := by
  unfold parentId Taken
  by_cases hself : Crypto.subject cert = Crypto.issuer cert
  · rw [if_pos hself, Lib.bind_eq_ok_iff]
    constructor
    · rintro ⟨⟨⟩, hverify, hparent⟩
      exact .inl ⟨hself, hverify, (Except.ok.inj hparent).symm⟩
    · rintro (⟨-, hverify, rfl⟩ | ⟨hnot, -⟩)
      · exact ⟨(), hverify, rfl⟩
      · exact absurd hself hnot
  · rw [if_neg hself]
    cases hfind : findIssuer trusted cert with
    | none =>
      constructor
      · intro herror
        cases herror
      · rintro (⟨hyes, -⟩ | ⟨-, p, d, hchosen, -⟩)
        · exact absurd hyes hself
        · rw [(findIssuer_eq_some_iff h).2 hchosen] at hfind
          cases hfind
    | some found =>
      obtain ⟨p, d⟩ := found
      have hchosen := (findIssuer_eq_some_iff h).1 hfind
      dsimp only
      rw [Lib.bind_eq_ok_iff]
      constructor
      · rintro ⟨⟨⟩, hverify, hparent⟩
        exact .inr ⟨hself, p, d, hchosen, hverify, (Except.ok.inj hparent).symm⟩
      · rintro (⟨hyes, -⟩ | ⟨-, p', d', hchosen', hverify, rfl⟩)
        · exact absurd hyes hself
        · rw [← findIssuer_eq_some_iff h, hfind] at hchosen'
          cases hchosen'
          exact ⟨(), hverify, rfl⟩

/-- One round of `new`. -/
theorem trust_eq_ok_iff {trusted trusted' : BTreeMap KeyId (Certificate × Option KeyId)}
    (h : Holds seen trusted) :
    trust trusted cert = .ok trusted' ↔ ∃ k parent, Crypto.keyId cert = .ok k ∧
      Crypto.decodes cert = .ok () ∧ Taken seen cert parent ∧
        trusted' = trusted.insert k (cert, parent) := by
  unfold trust
  simp only [Lib.bind_eq_ok_iff, parentId_eq_ok_iff h, pure, Except.pure, Except.ok.injEq]
  constructor
  · rintro ⟨k, hkey, ⟨⟩, hdecodes, parent, htaken, rfl⟩
    exact ⟨k, parent, hkey, hdecodes, htaken, rfl⟩
  · rintro ⟨k, parent, hkey, hdecodes, htaken, rfl⟩
    exact ⟨k, hkey, (), hdecodes, parent, htaken, rfl⟩

theorem holds_of_fold (h : certs.foldlM trust ∅ = .ok trusted) : Holds certs trusted := by
  induction certs using List.reverseRecOn generalizing trusted with
  | nil =>
    cases h
    exact holds_nil
  | append_singleton certs cert ih =>
    rw [List.foldlM_append, Lib.bind_eq_ok_iff] at h
    obtain ⟨before, hbefore, h⟩ := h
    simp only [List.foldlM_cons, List.foldlM_nil, bind_pure, trust_eq_ok_iff (ih hbefore)] at h
    obtain ⟨k, parent, hkey, -, -, rfl⟩ := h
    exact (ih hbefore).insert hkey parent

theorem exists_fold_iff :
    (∃ trusted, certs.foldlM trust ∅ = .ok trusted) ↔
      ∀ before cert after, certs = before ++ cert :: after →
        WellFormed cert ∧ ∃ parent, Taken before cert parent := by
  induction certs using List.reverseRecOn with
  | nil => exact ⟨fun _ before cert after hsplit => by simp at hsplit, fun _ => ⟨∅, rfl⟩⟩
  | append_singleton certs cert ih =>
    constructor
    · rintro ⟨trusted, h⟩ before c after hsplit
      rw [List.foldlM_append, Lib.bind_eq_ok_iff] at h
      obtain ⟨trusted₀, hbefore, h⟩ := h
      rcases Lib.split_concat hsplit with ⟨-, rfl, rfl⟩ | ⟨after', -, hsplit⟩
      · simp only [List.foldlM_cons, List.foldlM_nil, bind_pure,
          trust_eq_ok_iff (holds_of_fold hbefore)] at h
        obtain ⟨k, parent, hkey, hdecodes, htaken, -⟩ := h
        exact ⟨⟨⟨k, hkey⟩, hdecodes⟩, parent, htaken⟩
      · exact ih.1 ⟨trusted₀, hbefore⟩ before c after' hsplit
    · intro h
      obtain ⟨trusted, hbefore⟩ := ih.2 fun before c after hsplit =>
        h before c (after ++ [cert]) (by rw [hsplit]; simp)
      obtain ⟨⟨⟨k, hkey⟩, hdecodes⟩, parent, htaken⟩ := h certs cert [] rfl
      refine ⟨trusted.insert k (cert, parent), ?_⟩
      rw [List.foldlM_append, Lib.bind_eq_ok_iff]
      refine ⟨trusted, hbefore, ?_⟩
      simp only [List.foldlM_cons, List.foldlM_nil, bind_pure, trust_eq_ok_iff (holds_of_fold hbefore)]
      exact ⟨k, parent, hkey, hdecodes, htaken, rfl⟩

theorem new_eq_ok_iff {anchors : Certificates} :
    new certs = .ok anchors ↔ certs.foldlM trust ∅ = .ok anchors.anchors := by
  unfold new
  rw [Lib.bind_eq_ok_iff]
  constructor
  · rintro ⟨trusted, hfold, h⟩
    cases h
    exact hfold
  · intro h
    exact ⟨anchors.anchors, h, rfl⟩

/-- The certificate that `new` asks to verify each one that is not a root does verify it. -/
def FirstIssues (certs : List Certificate) : Prop :=
  ∀ before cert after, certs = before ++ cert :: after → ¬SelfIssued cert →
    ∃ p d, Chosen before cert d p ∧ Verifies cert d

/-- The rule that `new` documents: a root verifies itself, and every other certificate is verified by
some preceding one that its issuer's name fits. -/
def Documented (certs : List Certificate) : Prop :=
  (∀ cert ∈ certs, SelfIssued cert → Verifies cert cert) ∧
    ∀ before cert after, certs = before ++ cert :: after → ¬SelfIssued cert →
      ∃ d ∈ before, Crypto.subject d = Crypto.issuer cert ∧ Verifies cert d

/-- Well-formed certificates are accepted when roots verify themselves and the certificates that are
asked verify the others. -/
theorem exists_new_iff (hwf : ∀ cert ∈ certs, WellFormed cert) :
    (∃ anchors, new certs = .ok anchors) ↔
      (∀ cert ∈ certs, SelfIssued cert → Verifies cert cert) ∧ FirstIssues certs := by
  have hfold : (∃ anchors, new certs = .ok anchors) ↔ ∃ trusted, certs.foldlM trust ∅ = .ok trusted := by
    constructor
    · rintro ⟨anchors, h⟩
      exact ⟨_, new_eq_ok_iff.1 h⟩
    · rintro ⟨trusted, h⟩
      exact ⟨⟨trusted⟩, new_eq_ok_iff.2 h⟩
  rw [hfold, exists_fold_iff]
  constructor
  · intro h
    refine ⟨fun cert hcert hself => ?_, fun before cert after hsplit hnot => ?_⟩
    · obtain ⟨before, after, rfl⟩ := List.append_of_mem hcert
      obtain ⟨-, parent, ⟨-, hverify, -⟩ | ⟨hnot, -⟩⟩ := h before cert after rfl
      · exact hverify
      · exact absurd hself hnot
    · obtain ⟨-, parent, ⟨hself, -⟩ | ⟨-, p, d, hchosen, hverify, -⟩⟩ := h before cert after hsplit
      · exact absurd hself hnot
      · exact ⟨p, d, hchosen, hverify⟩
  · rintro ⟨hroots, hfirst⟩ before cert after hsplit
    have hcert : cert ∈ certs := by simp [hsplit]
    refine ⟨hwf cert hcert, ?_⟩
    by_cases hself : SelfIssued cert
    · exact ⟨none, .inl ⟨hself, hroots cert hcert hself, rfl⟩⟩
    · obtain ⟨p, d, hchosen, hverify⟩ := hfirst before cert after hsplit hself
      exact ⟨some p, .inr ⟨hself, p, d, hchosen, hverify, rfl⟩⟩

theorem documented_of_firstIssues (hroots : ∀ cert ∈ certs, SelfIssued cert → Verifies cert cert)
    (h : FirstIssues certs) : Documented certs := by
  refine ⟨hroots, fun before cert after hsplit hnot => ?_⟩
  obtain ⟨p, d, ⟨hlatest, hname, -⟩, hverify⟩ := h before cert after hsplit hnot
  exact ⟨d, (keyId_of_latest hlatest).1, hname, hverify⟩

/-- Wherever the rule is met up to a certificate and some preceding one verifies it, the one that is
asked does. -/
def AskedVerifies (certs : List Certificate) : Prop :=
  ∀ before cert after, certs = before ++ cert :: after → Documented before → ¬SelfIssued cert →
    (∃ d ∈ before, Crypto.subject d = Crypto.issuer cert ∧ Verifies cert d) →
      ∃ p d, Chosen before cert d p ∧ Verifies cert d

theorem Documented.of_append {before after : List Certificate} (h : Documented (before ++ after)) :
    Documented before := by
  refine ⟨fun cert hcert => h.1 cert (List.mem_append_left _ hcert), fun front cert back hsplit => ?_⟩
  exact h.2 front cert (back ++ after) (by simp [hsplit])

theorem chosen_of_distinct {cert d : Certificate} (hsubjects : (seen.map Crypto.subject).Nodup)
    (hkeys : (seen.map Crypto.keyId).Nodup) (hd : d ∈ seen)
    (hname : Crypto.subject d = Crypto.issuer cert) {p : KeyId} (hid : Crypto.keyId d = .ok p) :
    Chosen seen cert d p := by
  refine ⟨?_, hname, fun p' d' hlatest hname' => ?_⟩
  · obtain ⟨c, hlatest⟩ := exists_latest ⟨d, hd, hid⟩
    obtain ⟨hc, hid'⟩ := keyId_of_latest hlatest
    rw [hlatest, List.inj_on_of_nodup_map hkeys hc hd (hid'.trans hid.symm)]
  · obtain ⟨hd', hid'⟩ := keyId_of_latest hlatest
    rw [List.inj_on_of_nodup_map hsubjects hd' hd (hname'.trans hname.symm), hid] at hid'
    exact (Except.ok.inj hid').le

/-- `new` accepts a list of well-formed certificates exactly if roots verify themselves and every other
certificate is verified by the preceding one that is asked: of the latest for each key, the one with the
least key that its issuer's name fits. So it follows the documented rule on a list and all its initial
parts exactly if the certificate that is asked verifies whenever any preceding one of that name does. It
does where no two certificates share a subject or a key. -/
theorem accepts_iff_documented (certs : List Certificate) (hwf : ∀ cert ∈ certs, WellFormed cert) :
    ((∀ part, part <+: certs → ((∃ anchors, new part = .ok anchors) ↔ Documented part)) ↔
      AskedVerifies certs) ∧
    ((∃ anchors, new certs = .ok anchors) ↔
      (∀ cert ∈ certs, SelfIssued cert → Verifies cert cert) ∧ FirstIssues certs) ∧
    ((certs.map Crypto.subject).Nodup → (certs.map Crypto.keyId).Nodup → AskedVerifies certs) := by
  refine ⟨⟨fun h before cert after hsplit hbefore hnot hissued => ?_, ?_⟩, exists_new_iff hwf, ?_⟩
  · -- the rule is met up to the certificate, so that `new` accepts the list that ends with it
    have hdocumented : Documented (before ++ [cert]) := by
      refine ⟨fun c hc hself => ?_, fun front c back hsplit hnot => ?_⟩
      · rcases List.mem_append.1 hc with hc | hc
        · exact hbefore.1 c hc hself
        · exact absurd (List.mem_singleton.1 hc ▸ hself) hnot
      · rcases Lib.split_concat hsplit with ⟨-, rfl, rfl⟩ | ⟨back', -, hsplit⟩
        · exact hissued
        · exact hbefore.2 front c back' hsplit hnot
    have hpart : before ++ [cert] <+: certs := ⟨after, by simp [hsplit]⟩
    have hnew := exists_new_iff fun c hc => hwf c (hpart.subset hc)
    exact (hnew.1 ((h _ hpart).2 hdocumented)).2 before cert [] rfl hnot
  · rintro hasked part ⟨rest, rfl⟩
    rw [exists_new_iff fun c hc => hwf c (List.mem_append_left _ hc)]
    constructor
    · rintro ⟨hroots, hfirst⟩
      exact documented_of_firstIssues hroots hfirst
    · intro hdocumented
      refine ⟨hdocumented.1, fun before cert after hsplit hnot => ?_⟩
      subst hsplit
      exact hasked before cert (after ++ rest) (by simp) hdocumented.of_append hnot
        (hdocumented.2 before cert after rfl hnot)
  · rintro hsubjects hkeys before cert after rfl - - ⟨d, hd, hname, hverify⟩
    obtain ⟨⟨p, hid⟩, -⟩ := hwf d (List.mem_append_left _ hd)
    rw [List.map_append] at hsubjects hkeys
    exact ⟨p, d, chosen_of_distinct hsubjects.of_append_left hkeys.of_append_left hd hname hid, hverify⟩

/-! ## Chains -/

/-- The last certificate for `k`, with how it was taken. -/
def Kept (anchors : List Certificate) (k : KeyId) (cert : Certificate) (parent : Option KeyId) : Prop :=
  ∃ before after, anchors = before ++ cert :: after ∧ Crypto.keyId cert = .ok k ∧
    (∀ c ∈ after, Crypto.keyId c ≠ .ok k) ∧ Taken before cert parent

/-- **What `new` leaves in the map.** -/
theorem kept_iff {anchors : List Certificate} (h : anchors.foldlM trust ∅ = .ok trusted)
    {q : Option KeyId} : trusted[k]? = some (c, q) ↔ Kept anchors k c q := by
  induction anchors using List.reverseRecOn generalizing trusted with
  | nil =>
    cases h
    rw [Std.ExtTreeMap.getElem?_empty]
    refine ⟨fun hget => (by cases hget), ?_⟩
    rintro ⟨before, after, hsplit, -⟩
    simp at hsplit
  | append_singleton anchors cert ih =>
    rw [List.foldlM_append, Lib.bind_eq_ok_iff] at h
    obtain ⟨trusted₀, hbefore, h⟩ := h
    simp only [List.foldlM_cons, List.foldlM_nil, bind_pure, trust_eq_ok_iff (holds_of_fold hbefore)] at h
    obtain ⟨k₀, parent, hkey, -, htaken, rfl⟩ := h
    rw [BTreeMap.get_insert]
    by_cases hk : k₀ = k
    · -- the certificate takes the place of any other for its key
      rw [if_pos hk, ← hk]
      constructor
      · intro heq
        cases heq
        exact ⟨anchors, [], rfl, hkey, by simp, htaken⟩
      · rintro ⟨before, after, hsplit, -, hafter, htaken'⟩
        rcases Lib.split_concat hsplit with ⟨-, rfl, rfl⟩ | ⟨after', rfl, -⟩
        · rw [htaken.unique htaken']
        · exact absurd hkey (hafter cert (by simp))
    · rw [if_neg hk, ih hbefore]
      have hother : Crypto.keyId cert ≠ .ok k := fun hid => hk (Except.ok.inj (hkey.symm.trans hid))
      constructor
      · rintro ⟨before, after, rfl, hid, hafter, htaken'⟩
        refine ⟨before, after ++ [cert], by simp, hid, fun c hc => ?_, htaken'⟩
        rcases List.mem_append.1 hc with hc | hc
        · exact hafter c hc
        · exact List.mem_singleton.1 hc ▸ hother
      · rintro ⟨before, after, hsplit, hid, hafter, htaken'⟩
        rcases Lib.split_concat hsplit with ⟨-, -, rfl⟩ | ⟨after', rfl, hsplit'⟩
        · exact absurd hid hother
        · exact ⟨before, after', hsplit', hid, fun c hc => hafter c (by simp [hc]), htaken'⟩

/-- The last certificate for `k` is not a root, and the one that is asked to verify it has the key `p`. -/
def IssuedBy (anchors : List Certificate) (k p : KeyId) : Prop :=
  ∃ before cert after d, anchors = before ++ cert :: after ∧ Crypto.keyId cert = .ok k ∧
    (∀ c ∈ after, Crypto.keyId c ≠ .ok k) ∧ ¬SelfIssued cert ∧ Chosen before cert d p

section Accepted

variable {certs : Certificates} {anchors : List Certificate} (hnew : new anchors = .ok certs) {k p : KeyId}
  {c : Certificate}

include hnew

theorem get_iff_kept {q : Option KeyId} : certs.anchors[k]? = some (c, q) ↔ Kept anchors k c q :=
  kept_iff (new_eq_ok_iff.1 hnew)

theorem latest_iff : latest anchors k = some c ↔ ∃ q, certs.anchors[k]? = some (c, q) :=
  (holds_of_fold (new_eq_ok_iff.1 hnew)).get_iff

theorem decodes_of_get {q : Option KeyId} (h : certs.anchors[k]? = some (c, q)) :
    Crypto.decodes c = .ok () := by
  obtain ⟨before, after, hsplit, -⟩ := (get_iff_kept hnew).1 h
  exact ((exists_fold_iff.1 ⟨_, new_eq_ok_iff.1 hnew⟩) before c after hsplit).1.2

theorem root_of_get (h : certs.anchors[k]? = some (c, none)) : SelfIssued c ∧ Verifies c c := by
  obtain ⟨before, after, -, -, -, ⟨hself, hverify, -⟩ | ⟨-, p, d, -, -, hparent⟩⟩ :=
    (get_iff_kept hnew).1 h
  · exact ⟨hself, hverify⟩
  · cases hparent

theorem parent_of_get (h : certs.anchors[k]? = some (c, some p)) :
    (∃ entry, certs.anchors[p]? = some entry) ∧ ∃ d ∈ anchors, Crypto.keyId d = .ok p ∧ Verifies c d := by
  obtain ⟨before, after, rfl, -, -, ⟨-, -, hparent⟩ | ⟨-, p', d, hchosen, hverify, hparent⟩⟩ :=
    (get_iff_kept hnew).1 h
  · cases hparent
  · cases hparent
    obtain ⟨hmem, hid⟩ := keyId_of_latest hchosen.1
    refine ⟨?_, d, List.mem_append_left _ hmem, hid, hverify⟩
    obtain ⟨e, hlatest⟩ := exists_latest ⟨d, List.mem_append_left (c :: after) hmem, hid⟩
    obtain ⟨q, hget⟩ := (latest_iff hnew).1 hlatest
    exact ⟨_, hget⟩

theorem issuedBy_iff : IssuedBy anchors k p ↔ ∃ c, certs.anchors[k]? = some (c, some p) := by
  constructor
  · rintro ⟨before, cert, after, d, hsplit, hid, hafter, hnot, hchosen⟩
    obtain ⟨-, parent, htaken⟩ := (exists_fold_iff.1 ⟨_, new_eq_ok_iff.1 hnew⟩) before cert after hsplit
    refine ⟨cert, (get_iff_kept hnew).2 ⟨before, after, hsplit, hid, hafter, ?_⟩⟩
    rcases htaken with ⟨hself, -⟩ | ⟨-, p', d', hchosen', hverify, -⟩
    · exact absurd hself hnot
    · obtain ⟨rfl, rfl⟩ := hchosen.unique hchosen'
      exact .inr ⟨hnot, p, d, hchosen, hverify, rfl⟩
  · rintro ⟨c, hget⟩
    obtain ⟨before, after, hsplit, hid, hafter, ⟨-, -, hparent⟩ | ⟨hnot, p', d, hchosen, -, hparent⟩⟩ :=
      (get_iff_kept hnew).1 hget
    · cases hparent
    · cases hparent
      exact ⟨before, c, after, d, hsplit, hid, hafter, hnot, hchosen⟩

end Accepted

/-- The certificates from a key up to a root, leaf first. -/
inductive Lineage (certs : Certificates) : KeyId → List Certificate → Prop where
  | root {k : KeyId} {c : Certificate} (h : certs.anchors[k]? = some (c, none)) : Lineage certs k [c]
  | child {k p : KeyId} {c : Certificate} {l : List Certificate}
    (h : certs.anchors[k]? = some (c, some p)) (hp : Lineage certs p l) : Lineage certs k (c :: l)

theorem chainLoop_of_lineage {certs : Certificates} (h : Lineage certs k l)
    (chain : List Certificate) :
    certs.chainLoop l.length chain (some k) = some (.ok (chain ++ l).reverse) := by
  induction h generalizing chain with
  | root h =>
    rw [List.length_singleton, chainLoop, h]
    dsimp only
    rw [chainLoop]
  | child h _ ih =>
    rw [List.length_cons, chainLoop, h]
    dsimp only
    rw [ih, List.append_assoc, List.singleton_append]

theorem lineage_of_chainLoop {certs : Certificates} {fuel : ℕ} {chain result : List Certificate}
    (h : certs.chainLoop fuel chain (some k) = some (.ok result)) :
    ∃ l, Lineage certs k l ∧ result = (chain ++ l).reverse := by
  induction fuel generalizing chain k with
  | zero =>
    rw [chainLoop] at h
    cases h
  | succ fuel ih =>
    rw [chainLoop] at h
    cases hget : certs.anchors[k]? with
    | none =>
      rw [hget] at h
      cases h
    | some entry =>
      obtain ⟨c, parent⟩ := entry
      rw [hget] at h
      dsimp only at h
      cases parent with
      | none =>
        rw [chainLoop] at h
        cases h
        exact ⟨[c], .root hget, rfl⟩
      | some p =>
        obtain ⟨l, hl, rfl⟩ := ih h
        exact ⟨c :: l, .child hget hl, by rw [List.append_assoc, List.singleton_append]⟩

section Accepted

variable {certs : Certificates} {anchors : List Certificate} (hnew : new anchors = .ok certs) {k : KeyId}

include hnew

theorem not_error_of_chainLoop {fuel : ℕ} {chain : List Certificate} {e : KeyError}
    (hk : ∃ entry, certs.anchors[k]? = some entry) :
    certs.chainLoop fuel chain (some k) ≠ some (.error e) := by
  induction fuel generalizing chain k with
  | zero =>
    rw [chainLoop]
    intro h
    cases h
  | succ fuel ih =>
    obtain ⟨⟨c, parent⟩, hget⟩ := hk
    rw [chainLoop, hget]
    dsimp only
    cases parent with
    | none =>
      rw [chainLoop]
      intro h
      cases h
    | some p => exact ih (parent_of_get hnew hget).1

theorem ends_of_lineage (h : Lineage certs k l) : Ends (IssuedBy anchors) k := by
  induction h with
  | root h =>
    refine Acc.intro _ fun p hp => ?_
    obtain ⟨c, hget⟩ := (issuedBy_iff hnew).1 hp
    cases h.symm.trans hget
  | child h _ ih =>
    refine Acc.intro _ fun p hp => ?_
    obtain ⟨c, hget⟩ := (issuedBy_iff hnew).1 hp
    cases h.symm.trans hget
    exact ih

theorem exists_lineage (h : Ends (IssuedBy anchors) k) (hk : ∃ entry, certs.anchors[k]? = some entry) :
    ∃ l, Lineage certs k l := by
  induction h with
  | intro k _ ih =>
    obtain ⟨⟨c, parent⟩, hget⟩ := hk
    cases parent with
    | none => exact ⟨[c], .root hget⟩
    | some p =>
      obtain ⟨l, hl⟩ := ih p ((issuedBy_iff hnew).2 ⟨c, hget⟩) (parent_of_get hnew hget).1
      exact ⟨c :: l, .child hget hl⟩

theorem ends_iff (hk : ∃ entry, certs.anchors[k]? = some entry) :
    Ends (IssuedBy anchors) k ↔ Acyclic (IssuedBy anchors) k := by
  have hkeys : { j | ∃ entry, certs.anchors[j]? = some entry } = { j | j ∈ certs.anchors.keys } := by
    ext j
    simp only [Set.mem_ofPred_eq, BTreeMap.mem_keys_iff, BTreeMap.contains_iff]
  refine Lib.ends_iff_acyclic (s := { j | ∃ entry, certs.anchors[j]? = some entry }) ?_ ?_ hk
  · rw [hkeys]
    exact List.finite_toSet _
  · rintro j - p hp
    obtain ⟨c, hget⟩ := (issuedBy_iff hnew).1 hp
    exact (parent_of_get hnew hget).1

end Accepted

/-! ### What a chain has to be -/

/-- On the way up from `k` the last certificate for a key verifies under the last one for the key that
issued it. -/
def Undisplaced (anchors : List Certificate) (k : KeyId) : Prop :=
  ∀ j, ReflTransGen (IssuedBy anchors) k j → ∀ p c d, IssuedBy anchors j p →
    latest anchors j = some c → latest anchors p = some d → Verifies c d

/-- `chain` leads from a root to a certificate for `k`, and a client takes it. -/
structure Satisfies [DecidableEq Certificate] (k : KeyId) (chain : List Certificate) : Prop where
  root : ∃ root ∈ chain.head?, SelfIssued root ∧ Verifies root root
  links : chain.IsChain fun parent cert => Verifies cert parent
  leaf : ∃ leaf ∈ chain.getLast?, Crypto.keyId leaf = .ok k
  accepted : ∀ (expired : Certificate → Bool) (roots : List Certificate),
    (∀ cert ∈ chain, expired cert = false) → (roots = [] ∨ ∃ root ∈ chain.head?, root ∈ roots) →
      ∃ leaf ∈ chain.getLast?, CertChain.certChain expired k chain roots = .ok leaf

end Certificates

namespace CertChain

theorem verify_eq_ok {parent cert : Certificate} (hdecodes : Crypto.decodes cert = .ok ())
    (hverify : Verifies cert parent) : verify parent cert = .ok () := by
  rw [verify, hdecodes, hverify]
  rfl

theorem verifyRest_eq_ok {prev : Certificate} {rest : List Certificate}
    (hdecodes : ∀ cert ∈ rest, Crypto.decodes cert = .ok ())
    (hlinks : (prev :: rest).IsChain fun parent cert => Verifies cert parent) :
    verifyRest prev rest = .ok ((prev :: rest).getLast (List.cons_ne_nil _ _)) := by
  induction rest generalizing prev with
  | nil => rfl
  | cons cert rest ih =>
    rw [List.isChain_cons_cons] at hlinks
    rw [List.forall_mem_cons] at hdecodes
    rw [verifyRest, verify_eq_ok hdecodes.1 hlinks.1, List.getLast_cons (List.cons_ne_nil _ _)]
    exact ih hdecodes.2 hlinks.2

theorem checkValidity_eq_ok {expired : Certificate → Bool} {chain : List Certificate}
    (h : ∀ cert ∈ chain, expired cert = false) : checkValidity expired chain = .ok () := by
  induction chain with
  | nil => rfl
  | cons cert rest ih =>
    rw [List.forall_mem_cons] at h
    rw [checkValidity, h.1, if_neg Bool.false_ne_true]
    exact ih h.2

/-- A chain that leads from a trusted root to a certificate for the key is accepted. -/
theorem certChain_eq_ok [DecidableEq Certificate] {expired : Certificate → Bool}
    {root : Certificate} {rest roots : List Certificate}
    (hdecodes : ∀ cert ∈ root :: rest, Crypto.decodes cert = .ok ()) (hself : SelfIssued root)
    (hroot : Verifies root root)
    (hlinks : (root :: rest).IsChain fun parent cert => Verifies cert parent)
    (hleaf : Crypto.keyId ((root :: rest).getLast (List.cons_ne_nil _ _)) = .ok k)
    (hvalid : ∀ cert ∈ root :: rest, expired cert = false) (htrusted : roots = [] ∨ root ∈ roots) :
    certChain expired k (root :: rest) roots =
      .ok ((root :: rest).getLast (List.cons_ne_nil _ _)) := by
  rw [List.forall_mem_cons] at hdecodes
  have htrust : (!roots.isEmpty && !roots.contains root) = false := by
    rcases htrusted with rfl | hmem
    · rfl
    · rw [List.contains_iff_mem.2 hmem, Bool.not_true, Bool.and_false]
  unfold certChain
  dsimp only
  rw [if_neg (not_not.2 (show Crypto.subject root = Crypto.issuer root from hself)), htrust,
    if_neg Bool.false_ne_true, verify_eq_ok hdecodes.1 hroot, checkValidity_eq_ok hvalid,
    verifyRest_eq_ok hdecodes.2 hlinks]
  show (lift (Crypto.keyId ((root :: rest).getLast (List.cons_ne_nil _ _))) >>= fun leafId =>
    if leafId ≠ k then .error (.invalidLeafCert k)
    else .ok ((root :: rest).getLast (List.cons_ne_nil _ _))) = _
  rw [hleaf]
  exact if_neg (not_not.2 rfl)

end CertChain

namespace Certificates

variable {certs : Certificates}

theorem Lineage.exists_key (h : Lineage certs k l) :
    ∀ c ∈ l, ∃ (j : KeyId) (q : Option KeyId), certs.anchors[j]? = some (c, q) := by
  induction h with
  | root h =>
    intro c hc
    rw [List.mem_singleton.1 hc]
    exact ⟨_, _, h⟩
  | child h _ ih =>
    intro c hc
    rcases List.mem_cons.1 hc with rfl | hc
    · exact ⟨_, _, h⟩
    · exact ih c hc

theorem Lineage.head_eq (h : Lineage certs k l) :
    ∃ c q, certs.anchors[k]? = some (c, q) ∧ l.head? = some c := by
  cases h with
  | root h => exact ⟨_, _, h, rfl⟩
  | child h _ => exact ⟨_, _, h, rfl⟩

theorem Lineage.getLast_eq (h : Lineage certs k l) :
    ∃ (j : KeyId) (c : Certificate), certs.anchors[j]? = some (c, none) ∧ l.getLast? = some c := by
  induction h with
  | root h => exact ⟨_, _, h, rfl⟩
  | child h hp ih =>
    obtain ⟨j, c, hc, hlast⟩ := ih
    obtain ⟨d, q, -, hhead⟩ := hp.head_eq
    exact ⟨j, c, hc, by rw [List.getLast?_cons, hlast]; rfl⟩

section Accepted

variable {anchors : List Certificate} (hnew : new anchors = .ok certs) {k : KeyId}

include hnew

theorem Lineage.isChain_iff (h : Lineage certs k l) :
    l.IsChain Verifies ↔ Undisplaced anchors k := by
  induction h with
  | root h =>
    refine iff_of_true (.singleton _) fun j hj p c d hp => ?_
    obtain ⟨i, hi⟩ : ∃ i, IssuedBy anchors _ i := by
      rcases ReflTransGen.cases_head hj with rfl | ⟨i, hi, -⟩
      · exact ⟨p, hp⟩
      · exact ⟨i, hi⟩
    obtain ⟨c', hget⟩ := (issuedBy_iff hnew).1 hi
    cases h.symm.trans hget
  | @child k p c l h hp ih =>
    obtain ⟨d, q, hd, hhead⟩ := hp.head_eq
    have hissued : IssuedBy anchors k p := (issuedBy_iff hnew).2 ⟨c, h⟩
    have honly : ∀ {i}, IssuedBy anchors k i → i = p := fun hi => by
      obtain ⟨c', hget⟩ := (issuedBy_iff hnew).1 hi
      cases h.symm.trans hget
      rfl
    have hc : latest anchors k = some c := (latest_iff hnew).2 ⟨_, h⟩
    have hd : latest anchors p = some d := (latest_iff hnew).2 ⟨_, hd⟩
    rw [List.isChain_cons, hhead, ih]
    constructor
    · rintro ⟨hfirst, hrest⟩ j hj p' c' d' hp' hc' hd'
      rcases ReflTransGen.cases_head hj with rfl | ⟨i, hi, hij⟩
      · obtain rfl := honly hp'
        cases hc.symm.trans hc'
        cases hd.symm.trans hd'
        exact hfirst d rfl
      · obtain rfl := honly hi
        exact hrest j hij p' c' d' hp' hc' hd'
    · intro hall
      refine ⟨fun d' hd' => ?_, fun j hj => hall j (.head hissued hj)⟩
      cases hd'
      exact hall k .refl p c d hissued hc hd

theorem Lineage.satisfies [DecidableEq Certificate] (h : Lineage certs k l)
    (hlinks : l.IsChain Verifies) : Satisfies k l.reverse := by
  obtain ⟨c, q, hget, hhead⟩ := h.head_eq
  obtain ⟨j, root, hroot, hlast⟩ := h.getLast_eq
  obtain ⟨hself, hverify⟩ := root_of_get hnew hroot
  have hkey : Crypto.keyId c = .ok k := (keyId_of_latest ((latest_iff hnew).2 ⟨q, hget⟩)).2
  have hdecodes : ∀ cert ∈ l.reverse, Crypto.decodes cert = .ok () := by
    intro cert hcert
    obtain ⟨i, q', hi⟩ := h.exists_key cert (List.mem_reverse.1 hcert)
    exact decodes_of_get hnew hi
  have hchain : l.reverse.IsChain fun parent cert => Verifies cert parent :=
    List.isChain_reverse.2 hlinks
  have hfront : l.reverse.head? = some root := by rw [List.head?_reverse, hlast]
  have hback : l.reverse.getLast? = some c := by rw [List.getLast?_reverse, hhead]
  refine ⟨⟨root, hfront, hself, hverify⟩, hchain, ⟨c, hback, hkey⟩, fun expired roots hvalid htrusted => ?_⟩
  refine ⟨c, hback, ?_⟩
  obtain ⟨rest, hrest⟩ : ∃ rest, l.reverse = root :: rest := by
    cases hl : l.reverse with
    | nil =>
      rw [hl] at hfront
      cases hfront
    | cons first rest =>
      rw [hl] at hfront
      cases hfront
      exact ⟨rest, rfl⟩
  rw [hrest] at hdecodes hchain hback hvalid hfront htrusted ⊢
  have hleaf : (root :: rest).getLast (List.cons_ne_nil _ _) = c := by
    rw [List.getLast?_eq_some_getLast (List.cons_ne_nil _ _)] at hback
    exact Option.some.inj hback
  have htrust : roots = [] ∨ root ∈ roots := by
    refine htrusted.imp_right ?_
    rintro ⟨root', hroot', hmem⟩
    cases hroot'
    exact hmem
  rw [CertChain.certChain_eq_ok hdecodes hself hverify hchain (by rw [hleaf, hkey]) hvalid htrust, hleaf]

/-- Certificates with one key identifier have one key, so none that took another's place fails to verify
what the other issued. -/
theorem undisplaced_of_faithful
    (hfaithful : ∀ c ∈ anchors, ∀ d ∈ anchors, Crypto.keyId c = Crypto.keyId d →
      ∀ x, Crypto.verifyCert x c = Crypto.verifyCert x d) : Undisplaced anchors k := by
  intro j _ p c d hp hc hd
  obtain ⟨c', hget⟩ := (issuedBy_iff hnew).1 hp
  obtain rfl : c' = c := Option.some.inj (((latest_iff hnew).2 ⟨_, hget⟩).symm.trans hc)
  obtain ⟨-, d', hmem', hid', hverify⟩ := parent_of_get hnew hget
  obtain ⟨hmem, hid⟩ := keyId_of_latest hd
  rw [Verifies, hfaithful d hmem d' hmem' (by rw [hid, hid'])]
  exact hverify

end Accepted

/-- A certificate for `p` comes before one for `k`. -/
def Precedes (anchors : List Certificate) (p k : KeyId) : Prop :=
  ∃ before cert after, anchors = before ++ cert :: after ∧ Crypto.keyId cert = .ok k ∧
    ∃ d ∈ before, Crypto.keyId d = .ok p

section Distinct

variable {anchors : List Certificate} (hdistinct : (anchors.map Crypto.keyId).Nodup)

include hdistinct

theorem Precedes.trans {j p k : KeyId} (h : Precedes anchors p k) (h' : Precedes anchors j p) :
    Precedes anchors j k := by
  obtain ⟨before, cert, after, rfl, hid, d, hd, hidd⟩ := h
  obtain ⟨front, d', back, hsplit, hidd', e, he, hide⟩ := h'
  obtain ⟨first, second, rfl⟩ := List.append_of_mem hd
  -- both splits are at the one certificate for `p`
  have hkeys := congrArg (List.map Crypto.keyId) hsplit
  simp only [List.map_append, List.map_cons, hidd, hidd', List.append_assoc, List.cons_append]
    at hdistinct hkeys
  have hnot := (List.nodup_middle.1 hdistinct).notMem
  have hfirst := (List.append_cons_inj_of_notMem (fun h => hnot (List.mem_append_left _ h))
    (fun h => hnot (List.mem_append_right _ h))).1 hkeys
  obtain ⟨e', he', hide'⟩ := List.mem_map.1 (hfirst.1 ▸ List.mem_map_of_mem he)
  exact ⟨_, cert, after, rfl, hid, e', by simp [he'], hide'.trans hide⟩

theorem Precedes.irrefl : ¬Precedes anchors k k := by
  rintro ⟨before, cert, after, rfl, hid, d, hd, hidd⟩
  rw [List.map_append, List.map_cons] at hdistinct
  refine (List.nodup_middle.1 hdistinct).notMem (List.mem_append_left _ ?_)
  exact List.mem_map.2 ⟨d, hd, hidd.trans hid.symm⟩

theorem acyclic_of_distinct (k : KeyId) : Acyclic (IssuedBy anchors) k := by
  intro j _ hloop
  have hprecedes : ∀ {p}, TransGen (IssuedBy anchors) j p → Precedes anchors p j := by
    intro p hp
    induction hp with
    | single h =>
      obtain ⟨before, cert, after, d, hsplit, hid, -, -, hchosen⟩ := h
      exact ⟨before, cert, after, hsplit, hid, d, keyId_of_latest hchosen.1⟩
    | tail _ h ih =>
      obtain ⟨before, cert, after, d, hsplit, hid, -, -, hchosen⟩ := h
      exact ih.trans hdistinct ⟨before, cert, after, hsplit, hid, d, keyId_of_latest hchosen.1⟩
  exact Precedes.irrefl hdistinct (hprecedes hloop)

end Distinct

/-- For every accepted list of anchors and every key of one, the chain of the key ends exactly if no key
on the way up is its own ancestor, and it is then a chain from a root that a client takes exactly if the
last certificates for the issuers verify what was issued. That they do follows if a key identifier
stands for one key; that no key is its own ancestor if no two certificates have the same. -/
theorem chain_satisfies_iff [DecidableEq Certificate] (anchors : List Certificate)
    (certs : Certificates) (hnew : new anchors = .ok certs) (k : KeyId)
    (hk : ∃ cert ∈ anchors, Crypto.keyId cert = .ok k) :
    ((∃ fuel result, certs.chain fuel k = some result) ↔ Acyclic (IssuedBy anchors) k) ∧
    ((∃ fuel chain, certs.chain fuel k = some (.ok chain) ∧ Satisfies k chain) ↔
      Acyclic (IssuedBy anchors) k ∧ Undisplaced anchors k) ∧
    ((∀ c ∈ anchors, ∀ d ∈ anchors, Crypto.keyId c = Crypto.keyId d →
      ∀ x, Crypto.verifyCert x c = Crypto.verifyCert x d) → Undisplaced anchors k) ∧
    ((anchors.map Crypto.keyId).Nodup → Acyclic (IssuedBy anchors) k ∧ Undisplaced anchors k) := by
  have hk : ∃ entry, certs.anchors[k]? = some entry := by
    obtain ⟨c, hc⟩ := exists_latest hk
    obtain ⟨q, hget⟩ := (latest_iff hnew).1 hc
    exact ⟨_, hget⟩
  refine ⟨⟨?_, fun hacyclic => ?_⟩, ⟨?_, ?_⟩, undisplaced_of_faithful hnew, fun hdistinct => ⟨?_, ?_⟩⟩
  · rintro ⟨fuel, result, hresult⟩
    cases result with
    | error e => exact absurd hresult (not_error_of_chainLoop hnew hk)
    | ok chain =>
      obtain ⟨l, hl, -⟩ := lineage_of_chainLoop hresult
      exact (ends_iff hnew hk).1 (ends_of_lineage hnew hl)
  · obtain ⟨l, hl⟩ := exists_lineage hnew ((ends_iff hnew hk).2 hacyclic) hk
    exact ⟨l.length, _, chainLoop_of_lineage hl []⟩
  · rintro ⟨fuel, chain, hchain, hsatisfies⟩
    obtain ⟨l, hl, rfl⟩ := lineage_of_chainLoop hchain
    refine ⟨(ends_iff hnew hk).1 (ends_of_lineage hnew hl), (hl.isChain_iff hnew).1 ?_⟩
    exact List.isChain_reverse.1 hsatisfies.links
  · rintro ⟨hacyclic, hundisplaced⟩
    obtain ⟨l, hl⟩ := exists_lineage hnew ((ends_iff hnew hk).2 hacyclic) hk
    exact ⟨l.length, _, chainLoop_of_lineage hl [],
      hl.satisfies hnew ((hl.isChain_iff hnew).2 hundisplaced)⟩
  · exact acyclic_of_distinct hdistinct k
  · refine undisplaced_of_faithful hnew fun c hc d hd hid => ?_
    rw [List.inj_on_of_nodup_map hdistinct hc hd hid]
    exact fun _ => rfl

end Certificates

end Sush

/-! ## Certificates for a few keys -/

namespace Sush.Terms

attribute [local instance] world

/-- A certificate for `key`, with the key that signed it. -/
structure Cert where
  key : ℕ
  subject : ℕ
  issuer : ℕ
  signer : ℕ
  deriving DecidableEq

/-- A key verifies what it signed. -/
abbrev issuing : Crypto where
  Certificate := Cert
  Name := ℕ
  nameDecEq := inferInstance
  keyId cert := .ok cert.key
  subject := Cert.subject
  issuer := Cert.issuer
  decodes _ := .ok ()
  verifyCert cert parent := if cert.signer = parent.key then .ok () else .error (.crypto "bad signature")
  verifyJob _ _ := .ok ()

attribute [local instance] issuing

instance decidableEqCertificate : DecidableEq Certificate := inferInstanceAs (DecidableEq Cert)

def rootCert : Cert := ⟨1, 10, 10, 1⟩

def leafCert : Cert := ⟨2, 11, 10, 1⟩

theorem not_selfIssued_leafCert : ¬SelfIssued leafCert := by
  show ¬(11 : ℕ) = 10
  decide

def namesake : Cert := ⟨0, 10, 10, 0⟩

def renamed : Cert := ⟨1, 12, 10, 1⟩

def twoAnchors : Certificates := ⟨(∅ : BTreeMap ℕ (Cert × Option ℕ)).insert 1 (rootCert, none)
  |>.insert 2 (leafCert, some 1)⟩

theorem new_twoAnchors : Certificates.new [rootCert, leafCert] = .ok twoAnchors := rfl

/-- A leaf has a chain that leads to its root. -/
theorem chain_satisfies_twoAnchors : ∃ fuel chain,
    twoAnchors.chain fuel (2 : ℕ) = some (.ok chain) ∧ Certificates.Satisfies (2 : ℕ) chain := by
  have hiff := Certificates.chain_satisfies_iff [rootCert, leafCert] twoAnchors new_twoAnchors (2 : ℕ)
    ⟨leafCert, by simp, rfl⟩
  exact hiff.2.1.2 (hiff.2.2.2 (by decide))

def selfAnchored : Certificates := ⟨(∅ : BTreeMap ℕ (Cert × Option ℕ)).insert 1 (rootCert, none)
  |>.insert 1 (renamed, some 1)⟩

/-- The two certificates are accepted, the key is then its own issuer, and no number of rounds is enough
for its chain. -/
theorem selfAnchored_never_ends :
    Certificates.new [rootCert, renamed] = .ok selfAnchored ∧
      selfAnchored.anchors[(1 : ℕ)]? = some (renamed, some (1 : ℕ)) ∧
        ∀ fuel, selfAnchored.chain fuel (1 : ℕ) = none := by
  have hget : selfAnchored.anchors[(1 : ℕ)]? = some (renamed, some (1 : ℕ)) := rfl
  have hloop : ∀ fuel chain, selfAnchored.chainLoop fuel chain (some (1 : ℕ)) = none := by
    intro fuel
    induction fuel with
    | zero => exact fun chain => rfl
    | succ fuel ih =>
      intro chain
      rw [Certificates.chainLoop, hget]
      exact ih (chain ++ [renamed])
  exact ⟨rfl, hget, fun fuel => hloop fuel []⟩

/-- A list that `new` accepts by the documented rule. -/
theorem accepts_twoAnchors : ∃ certs, Certificates.new [rootCert, leafCert] = .ok certs := by
  have hiff := Certificates.accepts_iff_documented [rootCert, leafCert] fun cert _ =>
    ⟨⟨cert.key, rfl⟩, rfl⟩
  refine ((hiff.1.2 (hiff.2.2 (by decide) (by decide))) _ List.prefix_rfl).2 ⟨?_, ?_⟩
  · rw [List.forall_mem_cons, List.forall_mem_singleton]
    exact ⟨fun _ => rfl, fun hself => absurd hself not_selfIssued_leafCert⟩
  · intro before cert after hsplit hnot
    rcases before with _ | ⟨first, _ | ⟨second, before⟩⟩
    · cases hsplit
      exact absurd rfl hnot
    · cases hsplit
      exact ⟨rootCert, List.mem_singleton_self _, rfl, rfl⟩
    · simp at hsplit

/-- The root verifies the leaf, and a namesake with a lesser key is asked instead. -/
theorem namesake_refused :
    Certificates.Documented [namesake, rootCert, leafCert] ∧
      ∀ certs, Certificates.new [namesake, rootCert, leafCert] ≠ .ok certs := by
  refine ⟨⟨?_, fun before cert after hsplit hnot => ?_⟩, fun certs h => by cases h⟩
  · rw [List.forall_mem_cons, List.forall_mem_cons, List.forall_mem_singleton]
    exact ⟨fun _ => rfl, fun _ => rfl, fun hself => absurd hself not_selfIssued_leafCert⟩
  · rcases before with _ | ⟨first, _ | ⟨second, _ | ⟨third, before⟩⟩⟩
    · cases hsplit
      exact absurd rfl hnot
    · cases hsplit
      exact absurd rfl hnot
    · cases hsplit
      exact ⟨rootCert, by simp, rfl, rfl⟩
    · simp at hsplit

end Sush.Terms
