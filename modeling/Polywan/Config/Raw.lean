import Polywan.Config.Settings

/-!
# The configuration file

The image of the configuration file before validation.  A table comes with the line it
starts on.  Numbers are those of a signed 64-bit integer; a number with a fraction may also
be none or infinite.
-/

namespace Polywan

/-- A table, with the line it starts on. -/
structure Spanned (α : Type) where
  value : α
  line : ℕ
deriving DecidableEq

/-- A number with a fraction; `other` stands for the infinite ones and those that are none. -/
inductive Fraction where
  | finite (value : ℚ)
  | other
deriving DecidableEq

namespace Raw

inductive TableRef where
  | id (n : ℤ)
  | name (n : String)
deriving DecidableEq

structure Routing where
  tableBase : Option ℤ := none
  rulePriorityBase : Option ℤ := none
  routeProtocol : Option ℤ := none
  fwmarkMask : Option ℤ := none
  allDownPolicy : Option AllDownPolicy := none
  discoveryTables : Option (List TableRef) := none
  manageSysctls : Option Bool := none
  reconcileInterval : Option String := none
  onShutdown : Option OnShutdown := none
deriving DecidableEq

structure Firewall where
  mode : Option FirewallMode := none
  natPriority : Option ℤ := none
  nftPath : Option String := none
deriving DecidableEq

structure Downlink where
  interface : String
deriving DecidableEq

structure Path where
  source : Option String := none
  gateway : Option String := none
  gatewayOnlink : Option Bool := none
  nat : Option NatMode := none
deriving DecidableEq

structure Quality where
  maxRtt : Option String := none
  maxJitter : Option String := none
  maxLoss : Option Fraction := none
deriving DecidableEq

structure Health where
  interval : Option String := none
  timeout : Option String := none
  attempts : Option ℤ := none
  requiredReachable : Option ℤ := none
  fall : Option ℤ := none
  rise : Option ℤ := none
  /-- The IPv4 targets. -/
  ipv4 : Option (List String) := none
  /-- The IPv6 targets. -/
  ipv6 : Option (List String) := none
  quality : Option Quality := none
  qualityWindow : Option ℤ := none
  qualityMinSamples : Option ℤ := none
deriving DecidableEq

structure Uplink where
  id : ℤ
  name : String
  description : Option String := none
  interface : String
  priority : Option ℤ := none
  weight : Option ℤ := none
  ipv4 : Option (Spanned Path) := none
  ipv6 : Option (Spanned Path) := none
  health : Option (Spanned Health) := none
deriving DecidableEq

inductive PortSpec where
  | port (n : ℤ)
  | range (text : String)
deriving DecidableEq

structure Policy where
  name : String
  family : Family
  inputInterface : Option String := none
  source : Option String := none
  destination : Option String := none
  protocol : Option Protocol := none
  destinationPort : Option PortSpec := none
  uplink : String
  fallback : Option Fallback := none
deriving DecidableEq

structure Email where
  sender : String
  recipients : List String
  sendmail : Option String := none
  maxPerHour : Option ℤ := none
  events : Option (List String) := none
deriving DecidableEq

structure Hook where
  command : List String
  events : Option (List String) := none
  timeout : Option String := none
deriving DecidableEq

structure Notify where
  coalesce : Option String := none
  email : Option (Spanned Email) := none
  hook : List (Spanned Hook) := []
  hookUser : Option String := none
deriving DecidableEq

structure Api where
  socket : Option String := none
  group : Option String := none
  statusSocket : Option String := none
  statusGroup : Option String := none
deriving DecidableEq

structure Metrics where
  listen : Option String := none
deriving DecidableEq

structure Config where
  routing : Option (Spanned Routing) := none
  firewall : Option (Spanned Firewall) := none
  downlink : List (Spanned Downlink) := []
  uplink : List (Spanned Uplink) := []
  health : Option (Spanned Health) := none
  policy : List (Spanned Policy) := []
  notify : Option (Spanned Notify) := none
  api : Option (Spanned Api) := none
  metrics : Option (Spanned Metrics) := none
  stateDir : Option (Spanned String) := none
deriving DecidableEq

end Raw

end Polywan
