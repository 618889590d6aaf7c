import Sush.World

/-!
# Which sleds a request names

`common/src/targets.rs`: a target is every sled, or a list of sleds named by baseboard or by cubby.
-/

namespace Sush

variable [World]

/-- A cubby number, a byte. -/
abbrev Cubby : Type := Fin 256

instance : Std.TransOrd Cubby := inferInstance

-- for numerals of cubbies
instance neZero_256 : NeZero 256 := inferInstance

/-- Baseboards by cubby number, as much of it as is known. -/
abbrev Cubbies : Type := BTreeMap Cubby BaseboardId

/-- One sled, named by baseboard or by cubby. -/
inductive SledId where
  | baseboard (baseboard : BaseboardId)
  | cubby (cubby : Cubby)
  deriving DecidableEq

/-- The sleds a request names. -/
inductive Target where
  | all
  | sleds (sleds : List SledId)
  deriving DecidableEq

/-- A target names a cubby that no known sled occupies. -/
structure UnknownCubby where
  cubby : Cubby
  deriving DecidableEq

namespace Target

/-- One turn of the loop of `resolve`: add the sled that `sled` names. -/
def nameSled (cubbies : Cubbies) (named : BTreeSet BaseboardId) (sled : SledId) :
    Except UnknownCubby (BTreeSet BaseboardId) :=
  match sled with
  | .baseboard baseboard => .ok (named.insert baseboard)
  | .cubby cubby =>
    match cubbies[cubby]? with
    | some baseboard => .ok (named.insert baseboard)
    | none => .error ⟨cubby⟩

/-- The sleds in `reachable` that this target names, with cubbies looked up in `cubbies`. -/
def resolve (target : Target) (reachable : BTreeSet BaseboardId) (cubbies : Cubbies) :
    Except UnknownCubby (BTreeSet BaseboardId) :=
  match target with
  | all => .ok reachable
  | sleds ids => do
    let named ← ids.foldlM (nameSled cubbies) ∅
    return named.filter reachable.contains

/-- Whether this target includes `baseboard` or `cubby`. -/
def «matches» (target : Target) (baseboard : BaseboardId) (cubby : Option Cubby) : Bool :=
  match target with
  | all => true
  | sleds ids => ids.any fun
    | .baseboard listed => listed = baseboard
    | .cubby listed => some listed = cubby

/-- Whether this target names exactly one sled. -/
def isSingle : Target → Bool
  | all => false
  | sleds ids => ids.length = 1

end Target

end Sush
