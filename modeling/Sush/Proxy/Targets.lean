import Sush.Common.Targets

/-!
# Where the proxy may route

`proxy/src/lib.rs`: the addresses of the sush servers and the cubby map, each as last received, and the
lookup of the sled that a request names.
-/

namespace Sush

variable [World]

/-- Server addresses by baseboard. -/
abbrev Sleds (SocketAddr : Type) : Type := BTreeMap BaseboardId SocketAddr

/-- The sush servers the proxy may route to. -/
structure Targets (SocketAddr : Type) where
  sleds : Sleds SocketAddr
  /-- Baseboards by cubby number, as much of it as is known. -/
  cubbies : Cubbies

namespace Targets

/-- The baseboard of the sled, as far as the map has it. -/
def baseboard? (cubbies : Cubbies) : SledId → Option BaseboardId
  | .baseboard baseboard => some baseboard
  | .cubby cubby => cubbies[cubby]?

variable {SocketAddr : Type}

/-- The address of the first sled `target` resolves to. For routing, a list means the first of these that
is reachable. -/
def resolve (targets : Targets SocketAddr) (target : Target) : Option SocketAddr :=
  match target with
  | .all => none
  | .sleds ids =>
    (ids.filterMap (baseboard? targets.cubbies)).findSome? fun baseboard => targets.sleds[baseboard]?

/-- The sleds with an address. -/
def addressed (targets : Targets SocketAddr) : BTreeSet BaseboardId :=
  .ofList targets.sleds.keys compare

end Targets

end Sush
