import Sush.Common.TargetText
import Sush.Lib.Percent
import Sush.Proxy.Targets

/-!
# How the proxy routes a request

`Router::route` and `named_target` of `proxy/src/lib.rs`. A request names a sled in its path or, by the
`via` parameter, in its query. Path and query are given as they stand in the request, percent-encoded.
-/

namespace Sush

/-- The crate `percent_encoding`. -/
class PercentEncoding where
  /-- The bytes of `percent_decode_str`. -/
  decodeBytes : String → List UInt8
  /-- All texts that encode some bytes are read as these. -/
  decodeBytes_of_encodes : ∀ {raw : String} {bs : List UInt8},
    Lib.Encodes (Lib.utf8 raw) bs → decodeBytes raw = bs

export PercentEncoding (decodeBytes)

/-- A crate that leaves what encodes nothing as it is. -/
abbrev percentEncoding : PercentEncoding where
  decodeBytes raw := Lib.percentDecode (Lib.utf8 raw)
  decodeBytes_of_encodes := Lib.Encodes.decode

/-- `percent_decode_str(raw).decode_utf8()`. -/
def decodeUtf8 [PercentEncoding] (raw : String) : Option String := Lib.ofUtf8 (decodeBytes raw)

/-- The parts of a path. -/
def segments (path : String) : List String :=
  ((path.toList.dropWhile (· = '/')).splitOn '/').map String.ofList

/-- The value of the first `via` parameter of a query. -/
def viaParam (query : String) : Option String :=
  (query.toList.splitOn '&').findSome? fun param =>
    ((Lib.splitOnce '=' param).filter fun pair => pair.1 = "via".toList).map fun pair => String.ofList pair.2

/-- What a request names, as it stands there. -/
def named (path : String) (query : Option String) : Option String :=
  match segments path with
  | jobs :: _ :: action :: target :: _ =>
    if jobs = "jobs" ∧ action ∈ ["attach", "output", "start"] ∧ target ≠ "*" then some target
    else query.bind viaParam
  | _ => query.bind viaParam

variable [World] [Phrases] [PercentEncoding]

/-- The target that a text names. A `*` names none, and a text that is no target is an error. -/
def parseNamed (named : String) : Option (Except String Target) :=
  match decodeUtf8 named with
  | none => some (.error named)
  | some decoded =>
    match Target.fromStr decoded with
    | .ok .all => none
    | .ok target => some (.ok target)
    | .error _ => some (.error decoded)

/-- The target a request names, if any. A `*` path segment names no particular sled, so the `via` query
parameter may still route. -/
def namedTarget (path : String) (query : Option String) : Option (Except String Target) :=
  (named path query).bind parseNamed

inductive StatusCode where
  | badRequest
  | badGateway
  | serviceUnavailable
  deriving DecidableEq

/-- What `Router::route` uses of a router. -/
structure Router (SocketAddr : Type) where
  targets : Targets SocketAddr
  home : Option BaseboardId

namespace Router

variable {SocketAddr : Type}

/-- Where a request goes that names no target. -/
def anywhere (router : Router SocketAddr) : Except (StatusCode × String) SocketAddr :=
  match router.home with
  | some home =>
    match router.targets.sleds[home]? with
    | some addr => .ok addr
    | none =>
      .error (.serviceUnavailable, "The proxy's own sled `" ++ displayBaseboardId home ++ "` is not reachable")
  | none =>
    match router.targets.sleds.toList.head? with
    | some (_, addr) => .ok addr
    | none => .error (.serviceUnavailable, "No sleds are reachable")

/-- Pick a sled for a request. -/
def route (router : Router SocketAddr) (path : String) (query : Option String) :
    Except (StatusCode × String) SocketAddr :=
  match namedTarget path query with
  | some (.ok target) =>
    match router.targets.resolve target with
    | some addr => .ok addr
    | none => .error (.badGateway, "No reachable sled matches `" ++ target.display ++ "`")
  | some (.error bad) => .error (.badRequest, "Invalid target `" ++ bad ++ "`")
  | none => router.anywhere

end Router

end Sush
