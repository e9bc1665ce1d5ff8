import Mathlib.Data.List.Sort
import Std.Data.ExtTreeMap
import Std.Data.ExtTreeSet
import Polywan.Config

/-!
# The planner

A pure function from the configuration and the observed state of the paths to
the rules and routes the program wants installed.

Tables and rule priorities are natural numbers: an accepted configuration keeps
every sum below `2 ^ 32`.  The source's ordered sets and maps are `ExtTreeSet`
and `ExtTreeMap`, iterated in the derived order of their keys.

## Main definitions

* `Layout` — the table and priority arithmetic, with `staticRules` and `sourceRules`.
* `plan` — the desired rules and routes.
* `without` — a planner input with some paths held back.
-/

namespace Polywan

/-- What a rule does. -/
inductive Action where
  | lookup (table : ℕ)
  /-- `lookup main suppress_prefixlength 0`. -/
  | lookupMainSuppressDefault
  | unreachable

namespace Action

def index : Action → ℕ ×ₗ ℕ
  | lookup t => toLex (0, t)
  | lookupMainSuppressDefault => toLex (1, 0)
  | unreachable => toLex (2, 0)

theorem index_injective : Function.Injective index := by
  intro a b h
  cases a <;> cases b <;> simp_all [index]

instance : LinearOrder Action := LinearOrder.lift' index index_injective

end Action

/-- Role of a rule in the layout; it orders installation and removal. -/
inductive RuleKind where
  | probeLookup (id : UplinkId)
  | probeGuard
  | mainBypass
  | pathLookup (id : UplinkId)
  | pathGuard
  | policyBalanceLookup (id : UplinkId)
  | policyBlockLookup (id : UplinkId)
  | policyBlockGuard
  | sourceLookup (id : UplinkId)
  | sourceGuard
  | balance
  | finalGuard

namespace RuleKind

def index : RuleKind → ℕ ×ₗ ℕ
  | probeLookup id => toLex (0, id.num)
  | probeGuard => toLex (1, 0)
  | mainBypass => toLex (2, 0)
  | pathLookup id => toLex (3, id.num)
  | pathGuard => toLex (4, 0)
  | policyBalanceLookup id => toLex (5, id.num)
  | policyBlockLookup id => toLex (6, id.num)
  | policyBlockGuard => toLex (7, 0)
  | sourceLookup id => toLex (8, id.num)
  | sourceGuard => toLex (9, 0)
  | balance => toLex (10, 0)
  | finalGuard => toLex (11, 0)

theorem index_injective : Function.Injective index := by
  intro a b h
  cases a <;> cases b <;> simp_all [index, UplinkId.num_injective.eq_iff]

instance : LinearOrder RuleKind := LinearOrder.lift' index index_injective

/-- The guards installed before every lookup rule. -/
def isClassGuard : RuleKind → Bool
  | probeGuard | pathGuard | policyBlockGuard => true
  | _ => false

end RuleKind

/-- A routing rule.  The protocol is part of every rule's identity and is not
repeated here. -/
@[ext] structure Rule where
  family : Family
  priority : ℕ
  /-- A mark and a mask; a zero mark with a non-zero mask selects a zero field. -/
  fwmark : Option (BitVec 32 × BitVec 32)
  source : Option IpAddr
  action : Action
  kind : RuleKind

namespace Rule

/-- The fields in declaration order, a missing one first. -/
def index (r : Rule) :
    Family ×ₗ ℕ ×ₗ WithBot (ℕ ×ₗ ℕ) ×ₗ WithBot IpAddr ×ₗ Action ×ₗ RuleKind :=
  toLex (r.family, toLex (r.priority,
    toLex (noneFirst (r.fwmark.map fun m => toLex (m.1.toNat, m.2.toNat)),
      toLex (noneFirst r.source, toLex (r.action, r.kind)))))

theorem index_injective : Function.Injective index := by
  have hm : Function.Injective fun m : BitVec 32 × BitVec 32 =>
      (toLex (m.1.toNat, m.2.toNat) : ℕ ×ₗ ℕ) := by
    rintro ⟨a, b⟩ ⟨c, d⟩ h
    simpa [BitVec.toNat_inj] using h
  rintro ⟨f, p, m, s, a, k⟩ ⟨f', p', m', s', a', k'⟩ h
  simp only [index, toLex_inj, Prod.mk.injEq, noneFirst_inj] at h
  obtain ⟨rfl, rfl, hfw, rfl, rfl, rfl⟩ := h
  have := Option.map_injective hm hfw
  subst this
  rfl

instance : LinearOrder Rule := LinearOrder.lift' index index_injective

instance : Std.TransCmp (compare : Rule → Rule → Ordering) := inferInstance

end Rule

/-- One next hop of a route; no gateway means a device route. -/
structure NextHop where
  ifindex : ℕ
  gateway : Option IpAddr
  onlink : Bool
  weight : ℕ

namespace NextHop

def index (h : NextHop) : ℕ ×ₗ WithBot IpAddr ×ₗ Bool ×ₗ ℕ :=
  toLex (h.ifindex, toLex (noneFirst h.gateway, toLex (h.onlink, h.weight)))

theorem index_injective : Function.Injective index := by
  rintro ⟨i, g, o, w⟩ ⟨i', g', o', w'⟩ h
  simp only [index, toLex_inj, Prod.mk.injEq, noneFirst_inj] at h
  obtain ⟨rfl, rfl, rfl, rfl⟩ := h
  rfl

instance : LinearOrder NextHop := LinearOrder.lift' index index_injective

end NextHop

/-- A family and a table number. -/
@[ext] structure TableKey where
  family : Family
  table : ℕ

namespace TableKey

def index (k : TableKey) : Family ×ₗ ℕ := toLex (k.family, k.table)

theorem index_injective : Function.Injective index := by
  rintro ⟨f, t⟩ ⟨f', t'⟩ h
  simpa [index] using h

instance : LinearOrder TableKey := LinearOrder.lift' index index_injective

instance : Std.TransCmp (compare : TableKey → TableKey → Ordering) := inferInstance

end TableKey

/-- The only route a table of the program holds: `default` with metric 100. -/
structure Route where
  family : Family
  table : ℕ
  source : Option IpAddr
  /-- Sorted by interface index; more than one means a multipath route. -/
  nexthops : List NextHop
deriving DecidableEq

/-- The table a route stands in. -/
def Route.key (r : Route) : TableKey := ⟨r.family, r.table⟩

/-- Metric of every installed route. -/
def routeMetric : ℕ := 100

/-- Observed state of a ready path. -/
structure ReadyPath where
  ifindex : ℕ
  gateway : Option IpAddr
  onlink : Bool
  source : IpAddr
deriving DecidableEq

/-- Planner input for one configured path. -/
structure PathInput where
  /-- Present when the path is ready. -/
  ready : Option ReadyPath
  /-- Each with a source rule and a source guard. -/
  localAddresses : Std.ExtTreeSet IpAddr
  healthy : Bool
  drained : Bool
deriving DecidableEq

/-- Whether policy traffic may use the path. -/
def PathInput.takesPolicies (p : PathInput) : Bool := p.healthy && !p.drained

/-- Everything the planner needs besides the configuration. -/
structure Input where
  paths : Std.ExtTreeMap PathKey PathInput := ∅
  /-- Active set of each family. -/
  active : Std.ExtTreeMap Family (Std.ExtTreeSet UplinkId) := ∅
deriving DecidableEq

/-- The desired rules and routes; a table without an entry must be empty. -/
structure Desired where
  rules : Std.ExtTreeSet Rule := ∅
  routes : Std.ExtTreeMap TableKey Route := ∅
deriving DecidableEq

/-- Table and priority arithmetic. -/
structure Layout where
  tableBase : ℕ
  priorityBase : ℕ
  mask : FwMask
deriving DecidableEq

namespace Layout

def of (c : Config) : Layout where
  tableBase := c.routing.tableBase
  priorityBase := c.routing.rulePriorityBase
  mask := c.routing.fwmarkMask

def balancingTable (l : Layout) : ℕ := l.tableBase

def pathTable (l : Layout) (id : UplinkId) : ℕ := l.tableBase + id.num

/-- A path table: not the balancing table, not a policy table. -/
def isPathTable (l : Layout) (table : ℕ) : Bool :=
  l.tableBase + 1 ≤ table && table < l.tableBase + 64

def policyBalanceTable (l : Layout) (id : UplinkId) : ℕ := l.tableBase + 64 + id.num

def policyBlockTable (l : Layout) (id : UplinkId) : ℕ := l.tableBase + 128 + id.num

/-- Every table the program owns. -/
def tables (l : Layout) (table : ℕ) : Bool :=
  l.tableBase ≤ table && table ≤ l.tableBase + 191

/-- Every rule priority the program owns. -/
def priorities (l : Layout) (priority : ℕ) : Bool :=
  l.priorityBase ≤ priority && priority ≤ l.priorityBase + 699

/-- Selector of one value of the field. -/
def value (l : Layout) (v : FieldValue) : BitVec 32 × BitVec 32 := (l.mask.encode v, l.mask.mask)

/-- Selector of one class of the field. -/
def class' (l : Layout) (v : FieldValue) : BitVec 32 × BitVec 32 :=
  (l.mask.encode v, l.mask.classMask)

/-- The four lookup rules of a configured path. -/
def lookupRules (l : Layout) (family : Family) (id : UplinkId) : List Rule :=
  let b := l.priorityBase
  let rule priority fwmark action kind : Rule :=
    { family, priority, fwmark, source := none, action, kind }
  [ rule (b + id.num) (some (l.value (.probe id))) (.lookup (l.pathTable id)) (.probeLookup id),
    rule (b + 200 + id.num) (some (l.value (.path id))) (.lookup (l.pathTable id))
      (.pathLookup id),
    rule (b + 300 + id.num) (some (l.value (.policyBalance id)))
      (.lookup (l.policyBalanceTable id)) (.policyBalanceLookup id),
    rule (b + 400 + id.num) (some (l.value (.policyBlock id)))
      (.lookup (l.policyBlockTable id)) (.policyBlockLookup id) ]

/-- The rules that do not depend on addresses: guards and the lookup rules of the
configured paths of the family. -/
def staticRules (l : Layout) (family : Family) (uplinks : List UplinkId) : List Rule :=
  let b := l.priorityBase
  let rule priority fwmark action kind : Rule :=
    { family, priority, fwmark, source := none, action, kind }
  uplinks.flatMap (l.lookupRules family)
    ++ [ rule (b + 64) (some (l.class' .probeClass)) .unreachable .probeGuard,
         rule (b + 100) none .lookupMainSuppressDefault .mainBypass ]
    -- Any non-zero path-class value, as six rules that each select one bit.
    ++ (List.range 6).map (fun k =>
        let bit : BitVec 8 := 1#8 <<< k
        let mark := l.mask.encode (.raw bit)
        let mask := l.mask.encode (.raw (0xc0 ||| bit))
        rule (b + 264) (some (mark, mask)) .unreachable .pathGuard)
    ++ [ rule (b + 464) (some (l.class' .policyBlockClass)) .unreachable .policyBlockGuard,
         rule (b + 600) none (.lookup l.balancingTable) .balance,
         rule (b + 699) none .unreachable .finalGuard ]

/-- Source rule and source guard of a local address. -/
def sourceRules (l : Layout) (family : Family) (id : UplinkId) (address : IpAddr) : List Rule :=
  let zero := some (0, l.mask.mask)
  [ { family, priority := l.priorityBase + 500 + id.num, fwmark := zero, source := some address,
      action := .lookup (l.pathTable id), kind := .sourceLookup id },
    { family, priority := l.priorityBase + 564, fwmark := zero, source := some address,
      action := .unreachable, kind := .sourceGuard } ]

end Layout

/-- The input with some paths out of the active sets and the policy tables: paths
whose mark assignments are not installed yet. -/
def without (input : Input) (paths : Std.ExtTreeSet PathKey) : Input where
  paths := input.paths.map fun k p => if k ∈ paths then { p with healthy := false } else p
  active := input.active.map fun family set =>
    set.filter fun u => !paths.contains { uplink := u, family }

/-- The next hop of a ready path's own routes. -/
def ReadyPath.hop (r : ReadyPath) : NextHop where
  ifindex := r.ifindex
  gateway := r.gateway
  onlink := r.onlink
  weight := 1

/-- A ready path's route in one of its tables. -/
def ReadyPath.route (r : ReadyPath) (family : Family) (table : ℕ) : Route where
  family := family
  table := table
  source := some r.source
  nexthops := [r.hop]

namespace Desired

def addRules (d : Desired) (rules : List Rule) : Desired :=
  { d with rules := d.rules.insertMany rules }

/-- A route in the table it names. -/
def addRoute (d : Desired) (r : Route) : Desired :=
  { d with routes := d.routes.insert r.key r }

end Desired

/-- One uplink of a family: its source rules, its routes and, when it is active,
its balancing member. -/
def planUplink (layout : Layout) (input : Input) (family : Family)
    (acc : Desired × List NextHop) (u : Uplink) : Desired × List NextHop :=
  let (desired, members) := acc
  match input.paths[({ uplink := u.id, family } : PathKey)]? with
  | none => (desired, members)
  | some p =>
    let desired := p.localAddresses.toList.foldl
      (fun d a => d.addRules (layout.sourceRules family u.id a)) desired
    match p.ready with
    | none => (desired, members)
    | some r =>
      let desired := desired.addRoute (r.route family (layout.pathTable u.id))
      let desired := if p.takesPolicies then
          [layout.policyBalanceTable u.id, layout.policyBlockTable u.id].foldl
            (fun d t => d.addRoute (r.route family t)) desired
        else desired
      let members := if (input.active[family]?).any (·.contains u.id) then
          members ++ [{ r.hop with weight := u.weight }]
        else members
      (desired, members)

/-- A single member carries no weight. -/
def plainWeight : List NextHop → List NextHop
  | [h] => [{ h with weight := 1 }]
  | hs => hs

/-- The uplinks that enable a family. -/
def Config.uplinksOf (c : Config) (family : Family) : List Uplink :=
  c.uplinks.filter fun u => (u.path family).isSome

/-- The artifacts of one managed family. -/
def planFamily (c : Config) (input : Input) (desired : Desired) (family : Family) : Desired :=
  if !c.manages family then desired
  else
    let layout := Layout.of c
    let uplinks := c.uplinksOf family
    let desired := desired.addRules (layout.staticRules family (uplinks.map Uplink.id))
    let (desired, members) := uplinks.foldl (planUplink layout input family) (desired, [])
    if members.isEmpty then desired
    else
      let members := plainWeight (members.insertionSort (· ≤ ·))
      desired.addRoute
        { family, table := layout.balancingTable, source := none, nexthops := members }

/-- Computes the desired artifacts. -/
def plan (c : Config) (input : Input) : Desired :=
  Family.all.foldl (planFamily c input) {}

namespace Sample

/-- A ready path on an interface. -/
def ready (ifindex : ℕ) (source : IpAddr) : ReadyPath where
  ifindex := ifindex
  gateway := some (.v4 0x0a000001)
  onlink := false
  source := source

/-- A ready and healthy path. -/
def pathInput (ifindex : ℕ) (source : IpAddr) : PathInput where
  ready := some (ready ifindex source)
  localAddresses := (∅ : Std.ExtTreeSet IpAddr).insert source
  healthy := true
  drained := false

/-- Both uplinks of the sample are ready, the first one is active. -/
def input : Input where
  paths := (∅ : Std.ExtTreeMap PathKey PathInput)
    |>.insert ⟨id1, .v4⟩ (pathInput 3 (.v4 0x0a000002))
    |>.insert ⟨id2, .v4⟩ (pathInput 4 (.v4 0x0a010002))
  active := (∅ : Std.ExtTreeMap Family (Std.ExtTreeSet UplinkId)).insert .v4
    ((∅ : Std.ExtTreeSet UplinkId).insert id1)

end Sample

end Polywan
