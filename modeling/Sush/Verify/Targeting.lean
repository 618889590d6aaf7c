import Sush.Common.Terms
import Sush.Proxy.Targets
import Sush.Server.Rack

/-!
# Submitter and runner agree on targets

Three lookups decide which sleds a target names. The sled that accepts a job looks its cubbies up in
the map (`Target.resolve`). The sled that receives the job looks itself up in the map, and the cubby it
finds there in the target (`Rack.setCubbies`, `Target.matches`). The proxy takes the first that it has an
address for (`Targets.resolve`). All three are compared with one relation: `Names`.
-/

namespace Sush

variable [World]

variable {baseboard : BaseboardId} {cubbies : Cubbies}

/-- `sled` is the sled of `baseboard`, where `cubbies` has what is known of the rack. -/
def SledId.Names (cubbies : Cubbies) (sled : SledId) (baseboard : BaseboardId) : Prop :=
  sled = .baseboard baseboard ∨ ∃ cubby, sled = .cubby cubby ∧ cubbies[cubby]? = some baseboard

namespace Target

/-- The list names a cubby that is not in the map. -/
def NamesUnknown (cubbies : Cubbies) (target : Target) : Prop :=
  ∃ ids cubby, target = .sleds ids ∧ SledId.cubby cubby ∈ ids ∧ cubbies[cubby]? = none

variable {cubbies : Cubbies} {named named' : BTreeSet BaseboardId} {ids : List SledId}

theorem nameSled_eq_error {sled : SledId} :
    (∃ unknown, nameSled cubbies named sled = .error unknown) ↔
      ∃ cubby, sled = .cubby cubby ∧ cubbies[cubby]? = none := by
  cases sled with
  | baseboard baseboard => simp [nameSled]
  | cubby cubby =>
    cases hget : cubbies[cubby]? with
    | none => exact iff_of_true ⟨⟨cubby⟩, by simp only [nameSled, hget]⟩ ⟨cubby, rfl, hget⟩
    | some baseboard =>
      refine iff_of_false ?_ ?_
      · rintro ⟨unknown, herror⟩
        simp only [nameSled, hget, reduceCtorEq] at herror
      · rintro ⟨_, heq, hnone⟩
        cases heq
        cases hget.symm.trans hnone

theorem contains_nameSled {sled : SledId} (h : nameSled cubbies named sled = .ok named') :
    named'.contains baseboard = true ↔
      sled.Names cubbies baseboard ∨ named.contains baseboard = true := by
  cases sled with
  | baseboard listed =>
    cases h
    simp [SledId.Names]
  | cubby listed =>
    cases hget : cubbies[listed]? with
    | none => simp [nameSled, hget] at h
    | some occupant =>
      simp only [nameSled, hget, Except.ok.injEq] at h
      subst h
      simp [SledId.Names, hget]

theorem foldlM_nameSled_eq_error :
    (∃ unknown, ids.foldlM (nameSled cubbies) named = .error unknown) ↔
      ∃ cubby, SledId.cubby cubby ∈ ids ∧ cubbies[cubby]? = none := by
  induction ids generalizing named with
  | nil => simp [pure, Except.pure]
  | cons sled ids ih =>
    rw [List.foldlM_cons]
    cases hsled : nameSled cubbies named sled with
    | error unknown =>
      obtain ⟨cubby, rfl, hget⟩ := nameSled_eq_error.1 ⟨unknown, hsled⟩
      exact iff_of_true ⟨unknown, rfl⟩ ⟨cubby, .head _, hget⟩
    | ok named' =>
      have hknown : ∀ cubby, sled = .cubby cubby → cubbies[cubby]? ≠ none := fun cubby heq hget => by
        obtain ⟨unknown, herror⟩ := nameSled_eq_error.2 ⟨cubby, heq, hget⟩
        cases hsled.symm.trans herror
      refine ih.trans ⟨?_, ?_⟩
      · rintro ⟨cubby, hmem, hget⟩
        exact ⟨cubby, .tail _ hmem, hget⟩
      · rintro ⟨cubby, hmem, hget⟩
        rcases List.mem_cons.1 hmem with heq | hmem
        · exact absurd hget (hknown cubby heq.symm)
        · exact ⟨cubby, hmem, hget⟩

theorem contains_foldlM_nameSled (h : ids.foldlM (nameSled cubbies) named = .ok named') :
    named'.contains baseboard = true ↔
      (∃ sled ∈ ids, sled.Names cubbies baseboard) ∨ named.contains baseboard = true := by
  induction ids generalizing named with
  | nil =>
    cases h
    simp
  | cons sled ids ih =>
    rw [List.foldlM_cons] at h
    cases hsled : nameSled cubbies named sled with
    | error unknown => simp [hsled, bind, Except.bind] at h
    | ok middle =>
      simp only [hsled, bind, Except.bind] at h
      rw [ih h, contains_nameSled hsled, List.exists_mem_cons_iff]
      rw [or_left_comm, or_assoc]

theorem resolve_eq_error {target : Target} {reachable : BTreeSet BaseboardId} :
    (∃ unknown, target.resolve reachable cubbies = .error unknown) ↔ target.NamesUnknown cubbies := by
  cases target with
  | all => simp [resolve, NamesUnknown]
  | sleds ids =>
    have hunknown : (Target.sleds ids).NamesUnknown cubbies ↔
        ∃ cubby, SledId.cubby cubby ∈ ids ∧ cubbies[cubby]? = none := by
      simp [NamesUnknown]
    rw [hunknown, ← foldlM_nameSled_eq_error, resolve]
    cases ids.foldlM (nameSled cubbies) ∅ with
    | error unknown => simp [bind, Except.bind]
    | ok named => simp [bind, Except.bind, pure, Except.pure]

theorem contains_resolve {reachable sleds : BTreeSet BaseboardId}
    (h : (Target.sleds ids).resolve reachable cubbies = .ok sleds) :
    sleds.contains baseboard = true ↔
      reachable.contains baseboard = true ∧ ∃ sled ∈ ids, sled.Names cubbies baseboard := by
  rw [resolve] at h
  cases hloop : ids.foldlM (nameSled cubbies) ∅ with
  | error unknown => simp [hloop, bind, Except.bind] at h
  | ok named =>
    simp only [hloop, bind, Except.bind, pure, Except.pure, Except.ok.injEq] at h
    subst h
    rw [← BTreeSet.mem_toList_iff, BTreeSet.mem_toList_filter, BTreeSet.mem_toList_iff,
      contains_foldlM_nameSled hloop, and_comm]
    simp

end Target

/-- No baseboard occupies two cubbies. -/
def Cubbies.OneEach (cubbies : Cubbies) : Prop :=
  ∀ (c c' : Cubby) (baseboard : BaseboardId),
    cubbies[c]? = some baseboard → cubbies[c']? = some baseboard → c = c'

theorem Rack.ownCubby_setCubbies_new (h : cubbies.OneEach) {own : BaseboardId}
    {current : VersionInfo} {cubby : Cubby} :
    ((Rack.new own current).setCubbies cubbies).ownCubby = some cubby ↔ cubbies[cubby]? = some own := by
  unfold Rack.setCubbies
  split
  · rename_i found occupant hfind
    have hown : occupant = own := by
      have hmatch := List.find?_some hfind
      exact of_decide_eq_true hmatch
    have hget : cubbies[found]? = some own := by
      rw [← hown]
      exact Std.ExtTreeMap.mem_toList_iff_getElem?_eq_some.1 (List.mem_of_find?_eq_some hfind)
    constructor
    · rintro hcubby
      cases hcubby
      exact hget
    · intro hcubby
      rw [h found cubby own hget hcubby]
  · rename_i hfind
    refine iff_of_false (by simp [Rack.new]) fun hget => ?_
    have hnot := List.find?_eq_none.1 hfind (cubby, own)
      (Std.ExtTreeMap.mem_toList_iff_getElem?_eq_some.2 hget)
    simp [Rack.new] at hnot

theorem Rack.matches_setCubbies_new (h : cubbies.OneEach) {own : BaseboardId}
    {current : VersionInfo} {ids : List SledId} :
    (Target.sleds ids).matches own ((Rack.new own current).setCubbies cubbies).ownCubby = true ↔
      ∃ sled ∈ ids, sled.Names cubbies own := by
  simp only [Target.matches, List.any_eq_true]
  refine exists_congr fun sled => and_congr_right fun _ => ?_
  cases sled with
  | baseboard listed => simp [SledId.Names]
  | cubby listed =>
    rw [decide_eq_true_eq, eq_comm, Rack.ownCubby_setCubbies_new h]
    simp [SledId.Names]

namespace Targets

variable {SocketAddr : Type} {targets : Targets SocketAddr} {ids : List SledId}

theorem contains_addressed :
    targets.addressed.contains baseboard = true ↔ ∃ addr, targets.sleds[baseboard]? = some addr := by
  rw [← BTreeMap.contains_iff, ← BTreeMap.mem_keys_iff, addressed]
  simp [Std.ExtTreeSet.contains_ofList]

theorem mem_filterMap_names :
    baseboard ∈ ids.filterMap (baseboard? cubbies) ↔ ∃ sled ∈ ids, sled.Names cubbies baseboard := by
  rw [List.mem_filterMap]
  refine exists_congr fun sled => and_congr_right fun _ => ?_
  cases sled <;> simp [baseboard?, SledId.Names]

theorem exists_of_resolve_eq_some {addr : SocketAddr}
    (h : targets.resolve (.sleds ids) = some addr) :
    ∃ baseboard, (∃ sled ∈ ids, sled.Names targets.cubbies baseboard) ∧
      targets.sleds[baseboard]? = some addr := by
  obtain ⟨baseboard, hmem, hget⟩ := List.exists_of_findSome?_eq_some h
  exact ⟨baseboard, mem_filterMap_names.1 hmem, hget⟩

theorem resolve_eq_none :
    targets.resolve (.sleds ids) = none ↔
      ∀ baseboard, (∃ sled ∈ ids, sled.Names targets.cubbies baseboard) →
        targets.sleds[baseboard]? = none := by
  rw [resolve, List.findSome?_eq_none_iff]
  exact forall_congr' fun baseboard => by rw [mem_filterMap_names]

end Targets

/-- **Submitter and runner agree on targets.** The target fails to resolve exactly if it names a cubby
that is not in the map. What it resolves to is what is reachable and whose own rack, fresh and with the
same map, finds itself matched. For a list, the proxy finds an address exactly if the list resolves to
some sled with an address, and it is the address of such a sled. -/
theorem targets_agree (target : Target) (cubbies : Cubbies) (heach : Cubbies.OneEach cubbies)
    (reachable : BTreeSet BaseboardId) (current : VersionInfo) {SocketAddr : Type}
    (addresses : Sleds SocketAddr) :
    ((∃ unknown, target.resolve reachable cubbies = .error unknown) ↔ target.NamesUnknown cubbies) ∧
    (∀ sleds, target.resolve reachable cubbies = .ok sleds → ∀ baseboard,
      (sleds.contains baseboard = true ↔ reachable.contains baseboard = true ∧
        let rack := (Rack.new baseboard current).setCubbies cubbies
        target.matches rack.ownBaseboard rack.ownCubby = true)) ∧
    (∀ sleds, target ≠ .all →
      target.resolve (Targets.mk addresses cubbies).addressed cubbies = .ok sleds →
      (((Targets.mk addresses cubbies).resolve target).isSome = true ↔
        ∃ baseboard, sleds.contains baseboard = true) ∧
      ∀ addr, (Targets.mk addresses cubbies).resolve target = some addr →
        ∃ baseboard, sleds.contains baseboard = true ∧ addresses[baseboard]? = some addr) := by
  refine ⟨Target.resolve_eq_error, fun sleds hresolve baseboard => ?_, fun sleds hlist hresolve => ?_⟩
  · dsimp only
    rw [Rack.ownBaseboard_setCubbies]
    cases target with
    | all =>
      cases hresolve
      simp [Target.matches]
    | sleds ids =>
      rw [Target.contains_resolve hresolve]
      exact and_congr_right fun _ => (Rack.matches_setCubbies_new heach).symm
  · cases target with
    | all => exact absurd rfl hlist
    | sleds ids =>
      have hfound : ∀ addr, (Targets.mk addresses cubbies).resolve (.sleds ids) = some addr →
          ∃ baseboard, sleds.contains baseboard = true ∧ addresses[baseboard]? = some addr := by
        intro addr haddr
        obtain ⟨baseboard, hnames, hget⟩ := Targets.exists_of_resolve_eq_some haddr
        have hmem := (Target.contains_resolve hresolve).2
          ⟨Targets.contains_addressed.2 ⟨addr, hget⟩, hnames⟩
        exact ⟨baseboard, hmem, hget⟩
      refine ⟨⟨fun hsome => ?_, ?_⟩, hfound⟩
      · obtain ⟨addr, haddr⟩ := Option.isSome_iff_exists.1 hsome
        obtain ⟨baseboard, hmem, -⟩ := hfound addr haddr
        exact ⟨baseboard, hmem⟩
      · rintro ⟨baseboard, hmem⟩
        obtain ⟨haddressed, hnames⟩ := (Target.contains_resolve hresolve).1 hmem
        obtain ⟨addr, hget⟩ := Targets.contains_addressed.1 haddressed
        by_contra hnone
        have hno := Targets.resolve_eq_none.1 (Option.not_isSome_iff_eq_none.1 hnone) baseboard hnames
        cases hget.symm.trans hno

end Sush

namespace Sush.Terms

attribute [local instance] world

def inCubby : Cubbies := ((∅ : Cubbies).insert 14 (1 : ℕ)).insert 16 (2 : ℕ)

theorem oneEach_inCubby : Cubbies.OneEach inCubby := by
  have hget : ∀ (cubby : Cubby) (baseboard : ℕ), inCubby[cubby]? = some baseboard →
      cubby = 14 ∧ baseboard = 1 ∨ cubby = 16 ∧ baseboard = 2 := by
    intro cubby baseboard h
    simp only [inCubby, BTreeMap.get_insert] at h
    split_ifs at h <;> simp_all
  intro c c' baseboard h h'
  rcases hget c baseboard h with ⟨rfl, rfl⟩ | ⟨rfl, rfl⟩ <;>
    rcases hget c' _ h' with ⟨rfl, hsame⟩ | ⟨rfl, hsame⟩
  · rfl
  · cases hsame
  · cases hsame
  · rfl

/-- Only the sled in cubby 16 has an address. -/
def inReach : Sleds ℕ := (∅ : Sleds ℕ).insert (2 : ℕ) 80

/-- Cubby 15 is unknown; cubbies 14 and 16 are the sleds 1 and 2, for the submitter and for the sleds
themselves, and the proxy finds the address of the second. -/
theorem targets_agree_cubby : Cubbies.OneEach inCubby ∧
    (∃ unknown, (Target.sleds [.cubby 15]).resolve ∅ inCubby = .error unknown) ∧
    (∀ sleds, (Target.sleds [.cubby 14, .cubby 16]).resolve (((∅ : BTreeSet ℕ).insert 1).insert 2) inCubby =
      .ok sleds → sleds.contains (1 : ℕ) = true ∧ sleds.contains (2 : ℕ) = true) ∧
    ∀ sleds, (Target.sleds [.cubby 14, .cubby 16]).resolve (Targets.mk inReach inCubby).addressed inCubby =
      .ok sleds → (Targets.mk inReach inCubby).resolve (.sleds [.cubby 14, .cubby 16]) = some 80 ∧
        sleds.contains (2 : ℕ) = true := by
  refine ⟨oneEach_inCubby, ?_, fun sleds hresolve => ⟨?_, ?_⟩, fun sleds hresolve => ?_⟩
  · refine (targets_agree _ _ oneEach_inCubby ∅ ⟨"", ""⟩ inReach).1.2 ⟨_, 15, rfl, .head _, ?_⟩
    simp [inCubby]
  · refine ((targets_agree _ _ oneEach_inCubby _ ⟨"", ""⟩ inReach).2.1 sleds hresolve (1 : ℕ)).2 ?_
    exact ⟨by simp, by decide⟩
  · refine ((targets_agree _ _ oneEach_inCubby _ ⟨"", ""⟩ inReach).2.1 sleds hresolve (2 : ℕ)).2 ?_
    exact ⟨by simp, by decide⟩
  · have haddr : (Targets.mk inReach inCubby).resolve (.sleds [.cubby 14, .cubby 16]) = some 80 := rfl
    obtain ⟨baseboard, hmem, hget⟩ :=
      ((targets_agree _ _ oneEach_inCubby ∅ ⟨"", ""⟩ inReach).2.2 sleds (by simp) hresolve).2 80 haddr
    have hsled : baseboard = (2 : ℕ) := by
      rw [inReach, BTreeMap.get_insert] at hget
      split_ifs at hget with heq
      · exact heq.symm
      · simp at hget
    exact ⟨haddr, hsled ▸ hmem⟩

end Sush.Terms
