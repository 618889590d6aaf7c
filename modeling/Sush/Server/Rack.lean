import Sush.Common.Jobs

/-!
# What a sled knows about itself and its rack

`server/src/rack.rs`.
-/

namespace Sush

variable [World]

/-- One build's version and commit. -/
structure VersionInfo where
  version : String
  commit : String
  deriving DecidableEq

/-- The sled's own identity, the cubby map, and the builds of the sleds around it. -/
structure Rack where
  ownBaseboard : BaseboardId
  /-- Does not change once known. -/
  ownCubby : Option Cubby
  cubbies : Cubbies
  versions : BTreeMap BaseboardId VersionInfo
  /-- Message versions from newer builds, each warned about once. -/
  unknownVersions : BTreeSet String

namespace Rack

/-- A rack of which only this sled, at the build `current`, is known. -/
def new (ownBaseboard : BaseboardId) (current : VersionInfo) : Rack where
  ownBaseboard := ownBaseboard
  ownCubby := none
  cubbies := ∅
  versions := (∅ : BTreeMap BaseboardId VersionInfo).insert ownBaseboard current
  unknownVersions := ∅

/-- Why `job` should not run on this sled, or `none` if it should. -/
def checkTarget (rack : Rack) (job : JobStartRequest) : Option SkipReason :=
  if job.targetMatchesMode && job.target.matches rack.ownBaseboard rack.ownCubby then none
  else if rack.ownCubby.isNone then some .cubbyUnknown
  else some .notTargeted

/-- Adopt a cubby map, and this sled's cubby if the map has it. -/
def setCubbies (rack : Rack) (cubbies : Cubbies) : Rack :=
  match cubbies.toList.find? fun entry => entry.2 = rack.ownBaseboard with
  | some (cubby, _) => { rack with ownCubby := some cubby, cubbies }
  | none => { rack with cubbies }

/-- Record the build a sled announced. This sled's own announcement is ignored. -/
def knownVersion (rack : Rack) (baseboard : BaseboardId) (version : VersionInfo) : Rack :=
  if baseboard ≠ rack.ownBaseboard then
    { rack with versions := rack.versions.insert baseboard version }
  else rack

/-- Record a message version this build does not know. -/
def unknownVersion (rack : Rack) (version : String) : Rack :=
  { rack with unknownVersions := rack.unknownVersions.insert version }

@[simp] theorem ownBaseboard_setCubbies (rack : Rack) (cubbies : Cubbies) :
    (rack.setCubbies cubbies).ownBaseboard = rack.ownBaseboard := by
  unfold setCubbies
  split <;> rfl

@[simp] theorem ownBaseboard_knownVersion (rack : Rack) (baseboard : BaseboardId)
    (version : VersionInfo) :
    (rack.knownVersion baseboard version).ownBaseboard = rack.ownBaseboard := by
  unfold knownVersion
  split <;> rfl

end Rack

end Sush
