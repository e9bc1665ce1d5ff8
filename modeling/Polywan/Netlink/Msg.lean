import Polywan.Plan

/-!
# Rule, route, link and address messages

The messages the program sends to the kernel and the objects it reads back from
dumps and notifications.  A message is its header and its attributes; what the
program does not interpret is an opaque number.  Instants are nanoseconds.

## Main definitions

* `ruleMessage`, `ObservedRule.parse`, `ObservedRule.is` — rules.
* `routeMessage`, `routeDeleteKey`, `ObservedRoute.parse`, `ObservedRoute.asPlanned` — routes.
* `ObservedLink.parse`, `ObservedAddress.parse` — links and addresses.
-/

namespace Polywan

/-- The main routing table. -/
def tableMain : ℕ := 254

inductive AddressFamily where
  | inet
  | inet6
  | other (n : ℕ)
deriving DecidableEq

def addressFamily : Family → AddressFamily
  | .v4 => .inet
  | .v6 => .inet6

def family : AddressFamily → Option Family
  | .inet => some .v4
  | .inet6 => some .v6
  | .other _ => none

/-- The prefix length of a single address. -/
def hostLen : IpAddr → ℕ
  | .v4 _ => 32
  | .v6 _ => 128

/-! ## Rules -/

inductive RuleAction where
  | toTable
  | unreachable
  | other (n : ℕ)
deriving DecidableEq

inductive RuleAttribute where
  | priority (n : ℕ)
  | protocol (n : ℕ)
  | table (n : ℕ)
  | fwMark (v : BitVec 32)
  | fwMask (v : BitVec 32)
  | source (a : IpAddr)
  | suppressPrefixLen (n : ℕ)
  | l3mdev (b : Bool)
  | suppressIfGroup (n : ℕ)
  /-- Any other attribute, by type and value. -/
  | other (kind value : ℕ)
deriving DecidableEq

structure RuleHeader where
  family : AddressFamily
  dstLen : ℕ := 0
  srcLen : ℕ := 0
  tos : ℕ := 0
  table : ℕ := 0
  action : RuleAction
  flags : ℕ := 0
deriving DecidableEq

structure RuleMessage where
  header : RuleHeader
  attributes : List RuleAttribute
deriving DecidableEq

/-- The message that creates, or as a deletion removes, a planned rule. -/
def ruleMessage (r : Rule) (protocol : ℕ) : RuleMessage where
  header :=
    { family := addressFamily r.family
      srcLen := (r.source.map hostLen).getD 0
      action := match r.action with
        | .lookup _ | .lookupMainSuppressDefault => .toTable
        | .unreachable => .unreachable }
  attributes :=
    [.priority r.priority, .protocol protocol]
      ++ (match r.action with
        | .lookup t => [.table t]
        | .lookupMainSuppressDefault => [.table tableMain, .suppressPrefixLen 0]
        | .unreachable => [])
      ++ (match r.fwmark with
        | some (mark, mask) => [.fwMark mark, .fwMask mask]
        | none => [])
      ++ (match r.source with
        | some a => [.source a]
        | none => [])

/-- What a dumped rule does. -/
inductive ObservedAction where
  | lookup (table : ℕ) (suppressPrefixlen : Option ℕ)
  | unreachable
  | other
deriving DecidableEq

/-- A dumped rule, normalised. -/
structure ObservedRule where
  family : Family
  priority : ℕ
  protocol : ℕ
  fwmark : Option (BitVec 32 × BitVec 32)
  source : Option (IpAddr × ℕ)
  action : ObservedAction
  /-- Selectors the program never uses. -/
  foreignSelectors : Bool
  /-- The kernel's VRF rule. -/
  l3mdev : Bool
  message : RuleMessage
deriving DecidableEq

/-- The largest 32-bit value, which dumps use for an unset prefix length. -/
def u32Max : ℕ := 4294967295

namespace ObservedRule

/-- What is known of a rule while its attributes are read. -/
structure Fields where
  priority : ℕ := 0
  protocol : ℕ := 0
  table : ℕ
  mark : Option (BitVec 32) := none
  mask : Option (BitVec 32) := none
  source : Option (IpAddr × ℕ) := none
  spl : Option ℕ := none
  foreign : Bool
  l3mdev : Bool := false

def readAttribute (srcLen : ℕ) (f : Fields) : RuleAttribute → Fields
  | .priority n => { f with priority := n }
  | .protocol n => { f with protocol := n }
  | .table n => { f with table := n }
  | .fwMark v => { f with mark := some v }
  | .fwMask v => { f with mask := some v }
  | .source a => { f with source := some (a, srcLen) }
  | .suppressPrefixLen n => { f with spl := if n = u32Max then none else some n }
  | .l3mdev true => { f with l3mdev := true }
  | .l3mdev false | .suppressIfGroup _ => f
  | .other _ _ => { f with foreign := true }

/-- Every attribute of a message, read in order. -/
def readAttributes (m : RuleMessage) : Fields :=
  m.attributes.foldl (readAttribute m.header.srcLen)
    { table := m.header.table
      foreign := m.header.dstLen ≠ 0 || m.header.tos ≠ 0 || m.header.flags ≠ 0 }

def parse (m : RuleMessage) : Option ObservedRule :=
  (Polywan.family m.header.family).map fun family =>
    let f := readAttributes m
    { family
      priority := f.priority
      protocol := f.protocol
      fwmark := match f.mark, f.mask with
        | none, none => none
        | mark, mask => some (mark.getD 0, mask.getD (BitVec.allOnes 32))
      source := f.source
      action :=
        if f.l3mdev then .other
        else match m.header.action with
          | .toTable => .lookup f.table f.spl
          | .unreachable => .unreachable
          | .other _ => .other
      foreignSelectors := f.foreign || f.l3mdev
      l3mdev := f.l3mdev
      message := m }

end ObservedRule

/-- The action of a planned rule as a dump shows it. -/
def Action.observed : Action → ObservedAction
  | .lookup t => .lookup t none
  | .lookupMainSuppressDefault => .lookup tableMain (some 0)
  | .unreachable => .unreachable

/-- Whether a dumped rule is the planned rule, protocol included. -/
def ObservedRule.is (o : ObservedRule) (r : Rule) (protocol : ℕ) : Bool :=
  o.family = r.family
    && o.priority = r.priority
    && o.protocol = protocol
    && !o.foreignSelectors
    && o.fwmark = r.fwmark
    && o.source = r.source.map (fun a => (a, hostLen a))
    && o.action = r.action.observed

/-! ## Routes -/

/-- An address of a route attribute; only IP addresses are interpreted. -/
inductive RouteAddress where
  | ip (a : IpAddr)
  | other (n : ℕ)
deriving DecidableEq

/-- The IP address of an attribute. -/
def RouteAddress.toIp : RouteAddress → Option IpAddr
  | ip a => some a
  | other _ => none

inductive RouteType where
  | unicast
  | other (n : ℕ)
deriving DecidableEq

inductive RoutePreference where
  | low
  | medium
  | high
  | other (n : ℕ)
deriving DecidableEq

/-- The flags the program reads or sets, of a route or of one next hop. -/
structure HopFlags where
  onlink : Bool := false
  dead : Bool := false
  linkdown : Bool := false
deriving DecidableEq

inductive HopAttribute where
  | gateway (a : RouteAddress)
  | other (kind value : ℕ)
deriving DecidableEq

/-- One next hop of a multipath attribute. -/
structure RouteNextHop where
  interfaceIndex : ℕ
  /-- The weight less one. -/
  hops : BitVec 8
  flags : HopFlags
  attributes : List HopAttribute
deriving DecidableEq

inductive RouteAttribute where
  | table (n : ℕ)
  | priority (n : ℕ)
  | destination (a : RouteAddress)
  | prefSource (a : RouteAddress)
  | gateway (a : RouteAddress)
  | oif (n : ℕ)
  | nhId (n : ℕ)
  | multiPath (hops : List RouteNextHop)
  | preference (p : RoutePreference)
  /-- The remaining lifetime in clock ticks. -/
  | cacheInfo (expires : BitVec 32)
  | other (kind value : ℕ)
deriving DecidableEq

structure RouteHeader where
  addressFamily : AddressFamily
  destinationPrefixLength : ℕ := 0
  table : ℕ := 0
  protocol : ℕ
  kind : RouteType := .unicast
  flags : HopFlags := {}
deriving DecidableEq

structure RouteMessage where
  header : RouteHeader
  attributes : List RouteAttribute
deriving DecidableEq

/-- The header and the key attributes of every message about a planned route. -/
def routeDeleteKey (family : Family) (table protocol : ℕ) : RouteMessage where
  header := { addressFamily := addressFamily family, protocol }
  attributes := [.table table, .priority routeMetric]

/-- One member of a multipath route, with the kernel's weight less one. -/
def NextHop.message (h : NextHop) : RouteNextHop where
  interfaceIndex := h.ifindex
  hops := BitVec.ofNat 8 (min (max h.weight 1) 256 - 1)
  flags := { onlink := h.onlink }
  attributes := (h.gateway.map fun g => .gateway (.ip g)).toList

/-- The message that installs a planned route. -/
def routeMessage (r : Route) (protocol : ℕ) : RouteMessage :=
  let key := routeDeleteKey r.family r.table protocol
  let source := (r.source.map fun s => RouteAttribute.prefSource (.ip s)).toList
  match r.nexthops with
  | [h] =>
    { header := { key.header with flags := { onlink := h.onlink } }
      attributes := key.attributes ++ source
        ++ (h.gateway.map fun g => RouteAttribute.gateway (.ip g)).toList ++ [.oif h.ifindex] }
  | hops =>
    { key with attributes := key.attributes ++ source ++ [.multiPath (hops.map (·.message))] }

/-- A next hop of a dumped route. -/
structure ObservedHop where
  ifindex : ℕ
  gateway : Option IpAddr
  weight : ℕ
  onlink : Bool
  dead : Bool
  linkdown : Bool
deriving DecidableEq

/-- A dumped or notified route, normalised. -/
structure ObservedRoute where
  family : Family
  table : ℕ
  protocol : ℕ
  metric : ℕ
  /-- `none` for a default route. -/
  destination : Option (IpAddr × ℕ)
  kind : RouteType
  source : Option IpAddr
  nexthops : List ObservedHop
  /-- The route uses a nexthop object. -/
  nexthopId : Option ℕ
  preference : ℤ
  expiresAt : Option ℕ
deriving DecidableEq

/-- When a route expires: clock ticks of 10 ms, negative once past, 0 without
expiry. -/
def expiry (now : ℕ) (ticks : BitVec 32) : Option ℕ :=
  let left := ticks.toInt.natAbs * 10000000
  if ticks.toInt = 0 then none
  else if 0 < ticks.toInt then some (now + left)
  else some (if left ≤ now then now - left else now)

namespace ObservedRoute

/-- What is known of a route while its attributes are read. -/
structure Fields where
  table : ℕ
  metric : ℕ := 0
  destination : Option IpAddr := none
  source : Option IpAddr := none
  gateway : Option IpAddr := none
  oif : Option ℕ := none
  nhId : Option ℕ := none
  multipath : Option (List RouteNextHop) := none
  preference : ℤ := 0
  expiresAt : Option ℕ := none

def readAttribute (now : ℕ) (f : Fields) : RouteAttribute → Fields
  | .table n => { f with table := n }
  | .priority n => { f with metric := n }
  | .destination a => { f with destination := a.toIp }
  | .prefSource a => { f with source := a.toIp }
  | .gateway a => { f with gateway := a.toIp }
  | .oif n => { f with oif := some n }
  | .nhId n => { f with nhId := some n }
  | .multiPath hops => { f with multipath := some hops }
  | .preference .high => { f with preference := 1 }
  | .preference .low => { f with preference := -1 }
  | .preference _ => { f with preference := 0 }
  | .cacheInfo ticks => { f with expiresAt := expiry now ticks }
  | .other _ _ => f

/-- A member of a multipath attribute. -/
def hop (h : RouteNextHop) : ObservedHop where
  ifindex := h.interfaceIndex
  gateway := h.attributes.findSome? fun
    | .gateway g => g.toIp
    | .other _ _ => none
  weight := h.hops.toNat + 1
  onlink := h.flags.onlink
  dead := h.flags.dead
  linkdown := h.flags.linkdown

/-- The address of an unspecified destination. -/
def unspecified : Family → IpAddr
  | .v4 => .v4 0
  | .v6 => .v6 0

def parse (now : ℕ) (m : RouteMessage) : Option ObservedRoute :=
  (Polywan.family m.header.addressFamily).map fun family =>
    let f := m.attributes.foldl (readAttribute now) { table := m.header.table }
    let flags := m.header.flags
    { family
      table := f.table
      protocol := m.header.protocol
      metric := f.metric
      destination := match m.header.destinationPrefixLength with
        | 0 => none
        | len => some (f.destination.getD (unspecified family), len)
      kind := m.header.kind
      source := f.source
      nexthops := match f.multipath with
        | some hops => hops.map hop
        | none => (f.oif.map fun i =>
          { ifindex := i, gateway := f.gateway, weight := 1, onlink := flags.onlink
            dead := flags.dead, linkdown := flags.linkdown }).toList
      nexthopId := f.nhId
      preference := f.preference
      expiresAt := f.expiresAt }

/-- Whether the route has expired. -/
def expired (r : ObservedRoute) (now : ℕ) : Bool := r.expiresAt.any (· ≤ now)

def isDefault (r : ObservedRoute) : Bool := r.destination.isNone

/-- The planned form of a dumped next hop. -/
def plannedHop (single : Bool) (h : ObservedHop) : NextHop where
  ifindex := h.ifindex
  gateway := h.gateway
  onlink := h.onlink
  weight := if single then 1 else h.weight

/-- The planned form of a dumped route, if it has the shape of one. -/
def asPlanned (r : ObservedRoute) : Option Route :=
  if !r.isDefault || r.kind ≠ .unicast || r.metric ≠ routeMetric || r.nexthops.isEmpty then none
  else
    let nexthops := r.nexthops.map (plannedHop (r.nexthops.length == 1))
    some
      { family := r.family
        table := r.table
        source := r.source
        nexthops := nexthops.insertionSort (· ≤ ·) }

end ObservedRoute

/-! ## Links and addresses -/

inductive LinkAttribute where
  | ifName (name : String)
  | other (kind value : ℕ)
deriving DecidableEq

structure LinkMessage where
  index : ℕ
  up : Bool
  lowerUp : Bool
  pointopoint : Bool
  attributes : List LinkAttribute
deriving DecidableEq

structure ObservedLink where
  index : ℕ
  name : String
  up : Bool
  lowerUp : Bool
  pointToPoint : Bool
deriving DecidableEq

namespace ObservedLink

def parse (m : LinkMessage) : Option ObservedLink :=
  (m.attributes.findSome? fun
    | .ifName n => some n
    | .other _ _ => none).map fun name =>
      { index := m.index, name, up := m.up, lowerUp := m.lowerUp, pointToPoint := m.pointopoint }

/-- Up with carrier. -/
def usable (l : ObservedLink) : Bool := l.up && l.lowerUp

end ObservedLink

inductive AddressAttribute where
  | localAddress (a : IpAddr)
  | address (a : IpAddr)
  | flags (bits : BitVec 32)
  | other (kind value : ℕ)
deriving DecidableEq

structure AddressMessage where
  family : AddressFamily
  index : ℕ
  prefixLen : ℕ
  scope : ℕ
  flags : BitVec 8
  attributes : List AddressAttribute
deriving DecidableEq

structure ObservedAddress where
  index : ℕ
  family : Family
  address : IpAddr
  prefixLen : ℕ
  /-- 0 is global. -/
  scope : ℕ
  flags : BitVec 32
deriving DecidableEq

namespace ObservedAddress

/-- What is known of an address while its attributes are read. -/
structure Fields where
  localAddress : Option IpAddr := none
  address : Option IpAddr := none
  flags : Option (BitVec 32) := none

def readAttribute (f : Fields) : AddressAttribute → Fields
  | .localAddress a => { f with localAddress := some a }
  | .address a => { f with address := some a }
  | .flags b => { f with flags := some b }
  | .other _ _ => f

/-- The local address; on point-to-point links the other attribute is the peer. -/
def parse (m : AddressMessage) : Option ObservedAddress :=
  let f := m.attributes.foldl readAttribute {}
  match Polywan.family m.family, f.localAddress.or f.address with
  | some family, some address =>
    some { index := m.index, family, address, prefixLen := m.prefixLen, scope := m.scope
           flags := f.flags.getD (m.flags.setWidth 32) }
  | _, _ => none

/-- Whether the flags contain those of a mask. -/
def hasFlags (a : ObservedAddress) (mask : BitVec 32) : Bool := a.flags &&& mask = mask

def global (a : ObservedAddress) : Bool := a.scope = 0

def tentative (a : ObservedAddress) : Bool := a.hasFlags 0x40

def dadFailed (a : ObservedAddress) : Bool := a.hasFlags 0x08

def deprecated (a : ObservedAddress) : Bool := a.hasFlags 0x20

/-- An IPv6 temporary address, whose flag is the IPv4 one of secondary addresses. -/
def temporary (a : ObservedAddress) : Bool := a.family = .v6 && a.hasFlags 0x01

def secondary (a : ObservedAddress) : Bool := a.family = .v4 && a.hasFlags 0x01

def permanent (a : ObservedAddress) : Bool := a.hasFlags 0x80

end ObservedAddress

end Polywan
