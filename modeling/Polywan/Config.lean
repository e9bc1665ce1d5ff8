import Mathlib.Algebra.Order.Ring.Unbundled.Rat
import Polywan.Model

/-!
# The validated configuration

The resolved configuration every other component reads, and the properties of it
the rest of the program assumes.  Durations are in nanoseconds.

## Main definitions

* `Config` — the configuration.
* `Config.Valid` — what an accepted configuration guarantees.
-/

namespace Polywan

/-- What the active set becomes when no candidate is healthy. -/
inductive AllDownPolicy where
  | ready
  | keep
deriving DecidableEq

inductive OnShutdown where
  | keep
  | cleanup
deriving DecidableEq

inductive FirewallMode where
  | managed
  | external
deriving DecidableEq

/-- Source translation of a path. -/
inductive NatMode where
  | masquerade
  | snat
  | none
deriving DecidableEq

inductive Protocol where
  | tcp
  | udp
  | sctp
  | icmp
  | icmpv6
deriving DecidableEq

/-- Where a policy's traffic goes when its uplink cannot take it. -/
inductive Fallback where
  | balance
  | block
deriving DecidableEq

inductive AutoOr (α : Type) where
  | auto
  | static (a : α)
deriving DecidableEq

/-- An address with a port. -/
structure SocketAddr where
  ip : IpAddr
  port : ℕ
deriving DecidableEq

/-- A network prefix. -/
structure IpNet where
  addr : IpAddr
  prefixLen : ℕ
deriving DecidableEq

/-- A probe target. -/
inductive Target where
  | icmp (addr : IpAddr)
  | tcp (addr : SocketAddr)
deriving DecidableEq

/-- The address probed. -/
def Target.addr : Target → IpAddr
  | .icmp a => a
  | .tcp s => s.ip

structure Quality where
  maxRtt : Option ℕ
  maxJitter : Option ℕ
  maxLoss : Option ℚ
deriving DecidableEq

/-- Whether some gate is configured. -/
def Quality.enabled (q : Quality) : Bool :=
  q.maxRtt.isSome || q.maxJitter.isSome || q.maxLoss.isSome

structure Health where
  interval : ℕ
  timeout : ℕ
  attempts : ℕ
  requiredReachable : ℕ
  fall : ℕ
  rise : ℕ
  targetsV4 : List Target
  targetsV6 : List Target
  quality : Quality
  qualityWindow : ℕ
  qualityMinSamples : ℕ
deriving DecidableEq

/-- The targets of a family. -/
def Health.targets (h : Health) : Family → List Target
  | .v4 => h.targetsV4
  | .v6 => h.targetsV6

structure PathSettings where
  source : AutoOr IpAddr
  gateway : AutoOr IpAddr
  gatewayOnlink : Bool
  nat : NatMode
deriving DecidableEq

structure Uplink where
  id : UplinkId
  name : String
  description : String
  interface : String
  /-- `none`: never a candidate. -/
  priority : Option ℕ
  weight : ℕ
  ipv4 : Option PathSettings
  ipv6 : Option PathSettings
  health : Health
deriving DecidableEq

namespace Uplink

/-- The settings of the uplink in a family it enables. -/
def path (u : Uplink) : Family → Option PathSettings
  | .v4 => u.ipv4
  | .v6 => u.ipv6

/-- The enabled families. -/
def families (u : Uplink) : List Family := Family.all.filter fun f => (u.path f).isSome

end Uplink

structure Routing where
  tableBase : ℕ
  rulePriorityBase : ℕ
  routeProtocol : ℕ
  fwmarkMask : FwMask
  allDownPolicy : AllDownPolicy
  discoveryTables : List ℕ
  manageSysctls : Bool
  reconcileInterval : ℕ
  onShutdown : OnShutdown
deriving DecidableEq

structure Firewall where
  mode : FirewallMode
  natPriority : ℤ
  nftPath : String
deriving DecidableEq

structure Policy where
  name : String
  family : Family
  /-- `none`: any downlink. -/
  inputInterface : Option String
  source : Option IpNet
  destination : Option IpNet
  protocol : Option Protocol
  destinationPort : Option (ℕ × ℕ)
  uplink : UplinkId
  fallback : Fallback
deriving DecidableEq

/-- The validated configuration, without the settings of the notification, API,
metrics and state components. -/
structure Config where
  routing : Routing
  firewall : Firewall
  downlinks : List String
  uplinks : List Uplink
  policies : List Policy
deriving DecidableEq

/-- Structural settings, which cannot change on reload. -/
structure Structural where
  fwmarkMask : FwMask
  tableBase : ℕ
  rulePriorityBase : ℕ
  routeProtocol : ℕ
  firewallMode : FirewallMode
deriving DecidableEq

namespace Config

def structural (c : Config) : Structural where
  fwmarkMask := c.routing.fwmarkMask
  tableBase := c.routing.tableBase
  rulePriorityBase := c.routing.rulePriorityBase
  routeProtocol := c.routing.routeProtocol
  firewallMode := c.firewall.mode

/-- Whether at least one uplink enables the family. -/
def manages (c : Config) (f : Family) : Bool := c.uplinks.any fun u => (u.path f).isSome

/-- The uplink of an id. -/
def uplink (c : Config) (id : UplinkId) : Option Uplink := c.uplinks.find? fun u => u.id = id

/-- What the rest of the program assumes about an accepted configuration. -/
structure Valid (c : Config) : Prop where
  nodup_ids : (c.uplinks.map Uplink.id).Nodup
  nodup_interfaces : (c.downlinks ++ c.uplinks.map Uplink.interface).Nodup
  uplinks_ne_nil : c.uplinks ≠ []
  downlinks_ne_nil : c.downlinks ≠ []
  families_ne_nil : ∀ u ∈ c.uplinks, u.families ≠ []
  weight_mem : ∀ u ∈ c.uplinks, 1 ≤ u.weight ∧ u.weight ≤ 256
  tableBase_pos : 1 ≤ c.routing.tableBase
  tableBase_le : c.routing.tableBase + 191 ≤ 4294967294
  tables_unreserved : c.routing.tableBase + 191 < 253 ∨ 255 < c.routing.tableBase
  priorityBase_pos : 1 ≤ c.routing.rulePriorityBase
  priorityBase_le : c.routing.rulePriorityBase + 699 ≤ 32765
  protocol_mem : 5 ≤ c.routing.routeProtocol ∧ c.routing.routeProtocol ≤ 255
  discovery_outside : ∀ t ∈ c.routing.discoveryTables,
    t < c.routing.tableBase ∨ c.routing.tableBase + 191 < t
  policy_uplink : ∀ p ∈ c.policies, ∃ u ∈ c.uplinks, u.id = p.uplink ∧ (u.path p.family).isSome
  policy_input : ∀ p ∈ c.policies, ∀ i ∈ p.inputInterface, i ∈ c.downlinks

instance (c : Config) : Decidable c.Valid :=
  decidable_of_iff
    ((c.uplinks.map Uplink.id).Nodup ∧
      (c.downlinks ++ c.uplinks.map Uplink.interface).Nodup ∧
      c.uplinks ≠ [] ∧ c.downlinks ≠ [] ∧
      (∀ u ∈ c.uplinks, u.families ≠ []) ∧
      (∀ u ∈ c.uplinks, 1 ≤ u.weight ∧ u.weight ≤ 256) ∧
      1 ≤ c.routing.tableBase ∧ c.routing.tableBase + 191 ≤ 4294967294 ∧
      (c.routing.tableBase + 191 < 253 ∨ 255 < c.routing.tableBase) ∧
      1 ≤ c.routing.rulePriorityBase ∧ c.routing.rulePriorityBase + 699 ≤ 32765 ∧
      (5 ≤ c.routing.routeProtocol ∧ c.routing.routeProtocol ≤ 255) ∧
      (∀ t ∈ c.routing.discoveryTables,
        t < c.routing.tableBase ∨ c.routing.tableBase + 191 < t) ∧
      (∀ p ∈ c.policies, ∃ u ∈ c.uplinks, u.id = p.uplink ∧ (u.path p.family).isSome) ∧
      (∀ p ∈ c.policies, ∀ i ∈ p.inputInterface, i ∈ c.downlinks))
    ⟨fun ⟨a, b, c, d, e, f, g, h, i, j, k, l, m, n, o⟩ =>
        ⟨a, b, c, d, e, f, g, h, i, j, k, l, m, n, o⟩,
      fun ⟨a, b, c, d, e, f, g, h, i, j, k, l, m, n, o⟩ =>
        ⟨a, b, c, d, e, f, g, h, i, j, k, l, m, n, o⟩⟩

theorem manages_iff {c : Config} {f : Family} :
    c.manages f = true ↔ ∃ u ∈ c.uplinks, (u.path f).isSome := by
  simp [manages]

end Config

/-! ## A small configuration

Two uplinks and one downlink, to instantiate general results with. -/

namespace Sample

def health : Health where
  interval := 5000000000
  timeout := 1000000000
  attempts := 2
  requiredReachable := 1
  fall := 2
  rise := 3
  targetsV4 := [.icmp (.v4 0x01010101)]
  targetsV6 := []
  quality := ⟨none, none, none⟩
  qualityWindow := 6
  qualityMinSamples := 10

def settings : PathSettings where
  source := .auto
  gateway := .auto
  gatewayOnlink := false
  nat := .masquerade

def id1 : UplinkId := ⟨1, by decide, by decide⟩

def id2 : UplinkId := ⟨2, by decide, by decide⟩

def uplink (id : UplinkId) (name interface : String) : Uplink where
  id := id
  name := name
  description := name
  interface := interface
  priority := some 1
  weight := 1
  ipv4 := some settings
  ipv6 := none
  health := health

def routing : Routing where
  tableBase := 1000
  rulePriorityBase := 1000
  routeProtocol := 249
  fwmarkMask := FwMask.default
  allDownPolicy := .ready
  discoveryTables := [254]
  manageSysctls := true
  reconcileInterval := 60000000000
  onShutdown := .keep

def firewall : Firewall where
  mode := .managed
  natPriority := 100
  nftPath := "/usr/sbin/nft"

/-- Uplinks 1 and 2 behind one downlink. -/
def config : Config where
  routing := routing
  firewall := firewall
  downlinks := ["lan0"]
  uplinks := [uplink id1 "fibre" "wan1", uplink id2 "radio" "wan2"]
  policies := []

/-- The sample with its first uplink only. -/
def single : Config := { config with uplinks := [uplink id1 "fibre" "wan1"] }

theorem config_valid : config.Valid := by decide

end Sample

end Polywan
