import Sush.Lib.Map

/-!
# The types the server takes from around it

Identifiers are 88-bit code phrases made from hashes, and baseboards, networks and causal versions
come from other crates. The model takes all of them as types with the orders that the code uses:
`World` collects them. The hash functions that make identifiers are in `Sush.Common.Jobs`, the
signature checks in `Sush.Common.Keys`.
-/

namespace Sush

/-- The types of identifiers and of the gossip layer, with their orders. -/
class World where
  /-- The identity of a sled's baseboard. -/
  BaseboardId : Type
  /-- The identity of a public key. -/
  KeyId : Type
  SessionId : Type
  JobId : Type
  /-- The identity of a gossip universe. -/
  Network : Type
  /-- A causal version of the gossip layer; its order is causal precedence. -/
  Version : Type
  /-- A total order that extends causal precedence. -/
  Rank : Type
  baseboardIdOrder : LinearOrder BaseboardId
  keyIdOrder : LinearOrder KeyId
  sessionIdOrder : LinearOrder SessionId
  jobIdOrder : LinearOrder JobId
  networkDecEq : DecidableEq Network
  versionOrder : PartialOrder Version
  versionDecLE : DecidableLE Version
  rankOrder : LinearOrder Rank
  /-- `Version::rank`. -/
  rank : Version → Rank

export World (BaseboardId KeyId SessionId JobId Network Version Rank)

section Instances

variable [w : World]

instance : LinearOrder BaseboardId := w.baseboardIdOrder
instance : LinearOrder KeyId := w.keyIdOrder
instance : LinearOrder SessionId := w.sessionIdOrder
instance : LinearOrder JobId := w.jobIdOrder
instance : DecidableEq Network := w.networkDecEq
instance : PartialOrder Version := w.versionOrder
instance : DecidableLE Version := w.versionDecLE
instance : LinearOrder Rank := w.rankOrder

-- What maps and sets over these types ask of their comparisons.
instance : Std.TransOrd BaseboardId := inferInstance
instance : Std.TransOrd KeyId := inferInstance
instance : Std.TransOrd JobId := inferInstance
instance : Std.TransOrd (JobId ×ₗ BaseboardId) := inferInstance
instance : Std.TransOrd (Rank ×ₗ JobId ×ₗ BaseboardId) := inferInstance

end Instances

/-- A UTC time, in nanoseconds since the Unix epoch. -/
abbrev DateTime : Type := ℤ

end Sush
