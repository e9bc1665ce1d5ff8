import Mathlib.Data.String.Basic
import Std.Data.ExtTreeSet
import Polywan.Nft

/-!
# System settings

The settings the program wants below `/proc/sys`, and the scopes they are applied in.

## Main definitions

* `Setting`, `Sysctl.desired` — the wanted settings of a configuration.
* `SysctlScope` — the settings applied together: the global ones, or an interface's.
-/

namespace Polywan

/-- One wanted setting. -/
structure Setting where
  /-- A path below `/proc/sys`. -/
  key : String
  value : String
  /-- The interface the key belongs to, if any. -/
  interface : Option String
  family : Option Family
deriving DecidableEq

/-- A set of settings applied together. -/
inductive SysctlScope where
  | global
  | interface (name : String)

namespace SysctlScope

/-- The global scope sorts first. -/
def index : SysctlScope → WithBot String
  | global => ⊥
  | interface name => name

theorem index_injective : Function.Injective index := by
  intro a b h
  cases a <;> cases b <;> simp_all [index]

instance : LinearOrder SysctlScope := LinearOrder.lift' index index_injective

instance : Std.TransCmp (compare : SysctlScope → SysctlScope → Ordering) := inferInstance

/-- The interface of a scope. -/
def interface? : SysctlScope → Option String
  | global => none
  | interface name => some name

end SysctlScope

/-- The settings of one scope and whether they are managed or only checked. -/
structure SysctlJob where
  settings : List Setting
  manage : Bool
deriving DecidableEq

namespace Sysctl

/-- A setting of a family that belongs to no interface. -/
def global (key value : String) (family : Family) : Setting where
  key := key
  value := value
  interface := none
  family := some family

def perInterface (family : Family) (interface name value : String) : Setting where
  key := "net/" ++ family.key ++ "/conf/" ++ interface ++ "/" ++ name
  value := value
  interface := some interface
  family := some family

/-- The settings of one uplink's interface in the managed families. -/
def ofUplink (c : Config) (u : Uplink) : List Setting :=
  (if c.manages .v4 then
    [ perInterface .v4 u.interface "rp_filter" "2",
      perInterface .v4 u.interface "src_valid_mark" "1",
      perInterface .v4 u.interface "ignore_routes_with_linkdown" "1" ]
  else [])
    ++ if c.manages .v6 then [perInterface .v6 u.interface "ignore_routes_with_linkdown" "1"]
      else []

/-- Every wanted setting, for the managed families. -/
def desired (c : Config) : List Setting :=
  (if c.manages .v4 then
    [ global "net/ipv4/ip_forward" "1" .v4,
      global "net/ipv4/fib_multipath_hash_policy" "1" .v4 ]
  else [])
    ++ (if c.manages .v6 then
      [ global "net/ipv6/conf/all/forwarding" "1" .v6,
        global "net/ipv6/fib_multipath_hash_policy" "1" .v6 ]
    else [])
    ++ c.uplinks.flatMap (ofUplink c)

/-- The family a recorded key belongs to. -/
def familyOf (key : String) : Option Family :=
  if key.startsWith "net/ipv4/" then some .v4
  else if key.startsWith "net/ipv6/" then some .v6
  else none

/-- Families with recorded settings that the configuration no longer manages. -/
def departed (recorded : List String) (c : Config) : List Family :=
  Family.all.filter fun f => !c.manages f && recorded.any fun k => familyOf k = some f

end Sysctl

/-- Every scope of the wanted settings: the global one, then each interface's. -/
def Config.sysctlScopes (c : Config) : List SysctlScope :=
  .global :: (Std.ExtTreeSet.ofList ((Sysctl.desired c).filterMap Setting.interface)).toList.map
    .interface

/-- The wanted settings of a scope; none for an interface without settings. -/
def Config.wantedSysctlsOf (c : Config) (scope : SysctlScope) : Option SysctlJob :=
  let settings := (Sysctl.desired c).filter fun s => s.interface = scope.interface?
  if scope = .global || !settings.isEmpty then some ⟨settings, c.routing.manageSysctls⟩ else none

end Polywan
