import Polywan.Health
import Polywan.System

/-!
# Uplink discovery

Readiness, local addresses, source and next hop of every configured path, derived
from the observed system.  The current instant is an argument.

## Main definitions

* `Discovered` — the discovered state of one path.
* `discover` — the discovered state of every configured path.
-/

namespace Polywan

/-- The discovered state of one path. -/
structure Discovered where
  /-- The interface index, when the interface exists. -/
  ifindex : Option ℕ
  /-- `ok` when the path is ready; otherwise the reason it is not. -/
  ready : Except Health.Reason ReadyPath
  /-- Each with a source rule and a guard. -/
  localAddresses : Std.ExtTreeSet IpAddr
  /-- An automatic gateway is needed and none is discovered on the usable interface. -/
  gatewayMissing : Bool
  /-- No usable gateway, and a default route through a nexthop group uses the
  interface. -/
  groupOnly : Bool
deriving DecidableEq

namespace Discover

def usable (a : ObservedAddress) : Bool := a.global && !a.tentative && !a.dadFailed

/-- A static source assigned to another interface. -/
def staticSourceElsewhere (s : System) (p : PathSettings) (ifindex : Option ℕ) : Option IpAddr :=
  match p.source with
  | .auto => none
  | .static source =>
    ((s.addresses.toList.map Prod.snd).find? fun a =>
      a.address = source && some a.index ≠ ifindex && usable a).map ObservedAddress.address

/-- The order source candidates are chosen by. -/
def sourceKey (a : ObservedAddress) : Bool ×ₗ Bool ×ₗ IpAddr :=
  toLex (!a.permanent, toLex (a.secondary, a.address))

/-- The first element of least key. -/
def minByKey {α β : Type} [LinearOrder β] (key : α → β) : List α → Option α
  | [] => none
  | a :: l => some (l.foldl (fun best x => if key x < key best then x else best) a)

/-- Among the local addresses of the interface that are neither temporary nor
deprecated: permanent ones first, then IPv4 primary ones, then the lowest. -/
def autoSource (onLink : List ObservedAddress) : Option IpAddr :=
  (minByKey sourceKey (onLink.filter fun a => !a.temporary && !a.deprecated)).map
    ObservedAddress.address

/-- Whether the first `len` bits of two addresses agree. -/
def contains (net : IpAddr) (len : ℕ) (a : IpAddr) : Bool :=
  match net, a with
  | .v4 n, .v4 a =>
    let mask := if len = 0 then 0 else BitVec.allOnes 32 <<< (32 - min len 32)
    n &&& mask = a &&& mask
  | .v6 n, .v6 a =>
    let mask := if len = 0 then 0 else BitVec.allOnes 128 <<< (128 - min len 128)
    n &&& mask = a &&& mask
  | _, _ => false

/-- The gateway is covered by a connected route of the interface in the main table. -/
def connected (s : System) (family : Family) (ifindex : ℕ) (gw : IpAddr) : Bool :=
  (s.routesIn family tableMain).any fun r =>
    match r.destination with
    | none => false
    | some (net, len) =>
      (r.nexthops.any fun h => h.ifindex = ifindex && h.gateway.isNone) && contains net len gw

/-- The default routes of a discovery table that discovery considers. -/
def candidates (s : System) (ownProtocol : ℕ) (family : Family) (table now : ℕ) :
    List ObservedRoute :=
  (s.routesIn family table).filter fun r =>
    r.isDefault && r.kind = .unicast && r.protocol ≠ ownProtocol && !r.expired now

/-- The gateways of a default route on the interface; of nexthop objects, only single
ones are used. -/
def allGateways (r : ObservedRoute) (nexthops : Std.ExtTreeMap ℕ NexthopMessage) (ifindex : ℕ) :
    List (IpAddr × Bool) :=
  match r.nexthopId with
  | some id =>
    match nexthops[id]? with
    | some n =>
      if n.group.isEmpty && !n.blackhole && !n.fdb && !n.dead && !n.linkdown
          && n.ifindex = some ifindex then
        (n.gateway.map fun g => (g, n.onlink)).toList
      else []
    | none => []
  | none =>
    (r.nexthops.filter fun h => h.ifindex = ifindex && !h.dead && !h.linkdown).filterMap fun h =>
      h.gateway.map fun g => (g, h.onlink)

/-- The usable ones: of the route's own family. -/
def routeGateways (r : ObservedRoute) (nexthops : Std.ExtTreeMap ℕ NexthopMessage)
    (ifindex : ℕ) : List (IpAddr × Bool) :=
  (allGateways r nexthops ifindex).filter fun g => Family.of g.1 = r.family

/-- A hop of a default route and its place in the order: metric, router preference
(highest first), position of the table, gateway. -/
structure RankedHop where
  rank : ℕ ×ₗ ℤ ×ₗ ℕ ×ₗ IpAddr
  gateway : IpAddr
  onlink : Bool

/-- Every hop discovery may choose, in the order it looks at them. -/
def rankedHops (c : Config) (s : System) (ownProtocol : ℕ) (family : Family) (ifindex now : ℕ) :
    List RankedHop :=
  c.routing.discoveryTables.zipIdx.flatMap fun (table, order) =>
    (candidates s ownProtocol family table now).flatMap fun r =>
      (routeGateways r s.nexthops ifindex).map fun (gw, onlink) =>
        { rank := toLex (r.metric, toLex (-r.preference, toLex (order, gw)))
          gateway := gw, onlink }

/-- The best default route of the discovery tables that uses the interface. -/
def autoGateway (c : Config) (s : System) (ownProtocol : ℕ) (family : Family)
    (ifindex now : ℕ) : Option (Option IpAddr × Bool) :=
  (minByKey RankedHop.rank (rankedHops c s ownProtocol family ifindex now)).map fun h =>
    (some h.gateway, h.onlink)

/-- Whether a default route through a nexthop group uses the interface. -/
def groupRoutes (c : Config) (s : System) (ownProtocol : ℕ) (family : Family)
    (ifindex now : ℕ) : Bool :=
  c.routing.discoveryTables.any fun t =>
    (candidates s ownProtocol family t now).any fun r =>
      (r.nexthopId.bind (s.nexthops[·]?)).any fun n =>
        !n.group.isEmpty
          && ((r.nexthops.any fun h => h.ifindex = ifindex)
            || n.group.any fun m => (s.nexthops[m]?).any fun o => o.ifindex = some ifindex)

end Discover

open Discover

/-- The gateway of a path: configured, none on an IPv4 point-to-point interface, or
discovered. -/
def discoverHop (s : System) (family : Family) (p : PathSettings) (link : ObservedLink)
    (autoHop : Option (Option IpAddr × Bool)) : Option (Option IpAddr × Bool) :=
  match p.gateway with
  | .static gw =>
    if p.gatewayOnlink || connected s family link.index gw then some (some gw, p.gatewayOnlink)
    else none
  | .auto => if family = .v4 && link.pointToPoint then some (none, false) else autoHop

/-- The source of a path: configured and present, or chosen on the interface. -/
def discoverSource (s : System) (p : PathSettings) (onLink : List ObservedAddress) :
    Option IpAddr :=
  match p.source with
  | .static source =>
    if (s.addresses.toList.map Prod.snd).any fun a =>
        a.address = source && usable a && !a.deprecated then some source
    else none
  | .auto => autoSource onLink

/-- One path. -/
def discoverPath (c : Config) (s : System) (ownProtocol : ℕ) (u : Uplink) (family : Family)
    (p : PathSettings) (now : ℕ) : Discovered :=
  match s.linkByName u.interface with
  | none =>
    -- A static source on another interface is still a local address.
    { ifindex := none
      ready := .error .interfaceRemoved
      localAddresses := Std.ExtTreeSet.ofList (staticSourceElsewhere s p none).toList
      gatewayMissing := false
      groupOnly := false }
  | some link =>
    let onLink := (s.addresses.toList.map Prod.snd).filter fun a =>
      a.index = link.index && a.family = family && usable a
    let localAddresses := Std.ExtTreeSet.ofList (onLink.map ObservedAddress.address
      ++ (staticSourceElsewhere s p (some link.index)).toList)
    let automatic := p.gateway = .auto && !(family = .v4 && link.pointToPoint)
    let autoHop := if automatic && link.usable then
        autoGateway c s ownProtocol family link.index now
      else none
    let gatewayMissing := automatic && link.usable && autoHop.isNone
    let groupOnly := gatewayMissing && groupRoutes c s ownProtocol family link.index now
    let ready : Except Health.Reason ReadyPath :=
      if !link.usable then .error .carrierLost
      else match discoverSource s p onLink with
        | none => .error .addressLost
        | some source =>
          match discoverHop s family p link autoHop with
          | some (gateway, onlink) => .ok { ifindex := link.index, gateway, onlink, source }
          | none => .error .gatewayLost
    { ifindex := some link.index, ready, localAddresses, gatewayMissing, groupOnly }

/-- Every configured path by itself. -/
def discoverPaths (c : Config) (s : System) (ownProtocol now : ℕ) :
    Std.ExtTreeMap PathKey Discovered :=
  Std.ExtTreeMap.ofList <| c.uplinks.flatMap fun u =>
    u.families.filterMap fun family => (u.path family).map fun p =>
      (({ uplink := u.id, family } : PathKey), discoverPath c s ownProtocol u family p now)

/-- Whether two sets of addresses share one. -/
def overlap (a b : Std.ExtTreeSet IpAddr) : Bool := a.toList.any b.contains

/-- An address in the local sets of two paths of the same family. -/
def conflicted (out : Std.ExtTreeMap PathKey Discovered) (k : PathKey) (d : Discovered) : Bool :=
  out.toList.any fun e =>
    e.1 ≠ k && e.1.family = k.family && overlap e.2.localAddresses d.localAddresses

/-- Discovers every configured path; those that share an address are not ready. -/
def discover (c : Config) (s : System) (ownProtocol now : ℕ) :
    Std.ExtTreeMap PathKey Discovered :=
  let out := discoverPaths c s ownProtocol now
  out.map fun k d =>
    if conflicted out k d then { d with ready := .error .addressConflict } else d

end Polywan
