import Polywan.System

/-!
# The reconciler

Compares the desired artifacts with the observed ones and orders the operations
so that every intermediate state keeps the invariants: routes first, then rule
additions with guards before lookups, the nftables table, routes of the paths it
assigned, rule deletions in the opposite order, and last the routes of path
tables.

## Main definitions

* `Op` — one kernel or nftables operation.
* `diff` — the ordered operations of a pass.
* `teardown` — the operations that remove everything.
* `applyOp`, `execute` — the effect of operations on the view.
* `Pass` — one pass of the daemon.
-/

namespace Polywan

/-- One kernel or nftables operation. -/
inductive Op where
  | replaceRoute (r : Route)
  | addRule (r : Rule)
  | applyNft
  | deleteRule (o : ObservedRule)
  | deleteRoute (family : Family) (table protocol : ℕ)
deriving DecidableEq

/-- The role of a rule found in the priority range, from its offset. -/
def classify (layout : Layout) (priority : ℕ) : Option RuleKind :=
  if priority < layout.priorityBase then none
  else
    let off := priority - layout.priorityBase
    let id (base : ℕ) : Option UplinkId := UplinkId.new (BitVec.ofNat 8 (off - base))
    if 1 ≤ off ∧ off ≤ 63 then (id 0).map .probeLookup
    else if off = 64 then some .probeGuard
    else if off = 100 then some .mainBypass
    else if 201 ≤ off ∧ off ≤ 263 then (id 200).map .pathLookup
    else if off = 264 then some .pathGuard
    else if 301 ≤ off ∧ off ≤ 363 then (id 300).map .policyBalanceLookup
    else if 401 ≤ off ∧ off ≤ 463 then (id 400).map .policyBlockLookup
    else if off = 464 then some .policyBlockGuard
    else if 501 ≤ off ∧ off ≤ 563 then (id 500).map .sourceLookup
    else if off = 564 then some .sourceGuard
    else if off = 600 then some .balance
    else if off = 699 then some .finalGuard
    else none

/-- Installation order; a source guard sorts right after the source rule of the
same address. -/
def installRank : RuleKind → ℕ
  | .probeGuard | .pathGuard | .policyBlockGuard => 0
  | .probeLookup _ => 1
  | .mainBypass => 2
  | .pathLookup _ => 3
  | .policyBalanceLookup _ | .policyBlockLookup _ => 4
  | .sourceLookup _ | .sourceGuard => 5
  | .balance => 6
  | .finalGuard => 7

/-- Removal order: the reverse; rules of unknown role go with the lookup rules. -/
def removalRank : Option RuleKind → ℕ
  | some .finalGuard => 0
  | some .balance => 1
  | some (.sourceLookup _) | some .sourceGuard => 2
  | some (.policyBalanceLookup _) | some (.policyBlockLookup _) => 3
  | some (.pathLookup _) | none => 4
  | some .mainBypass => 5
  | some (.probeLookup _) => 6
  | some .probeGuard | some .pathGuard | some .policyBlockGuard => 7

/-- The program's rules as observed: tagged with its protocol, in its range. -/
def observedRules (s : System) (layout : Layout) (protocol : ℕ) : List ObservedRule :=
  s.rules.filter fun o => o.protocol = protocol && layout.priorities o.priority

def routePresent (s : System) (protocol : ℕ) (r : Route) : Bool :=
  (s.routesIn r.family r.table).any fun o => o.protocol = protocol && o.asPlanned = some r

/-- The tables holding a planned-shaped route tagged with the protocol. -/
def observedTables (s : System) (layout : Layout) (protocol : ℕ) : List TableKey :=
  let tagged := (s.routes.toList.map Prod.snd).filter fun r =>
    r.protocol = protocol && layout.tables r.table && r.asPlanned.isSome
  ((∅ : Std.ExtTreeSet TableKey).insertMany
    (tagged.map fun r => ({ family := r.family, table := r.table } : TableKey))).toList

/-- Inputs of a diff besides the observed state. -/
structure DiffInput where
  layout : Layout
  protocol : ℕ
  families : List Family
  /-- The desired state restricted to paths whose mark assignments are installed. -/
  beforeNft : Desired
  desired : Desired
  nftPending : Bool
deriving DecidableEq

/-- The key additions are sorted by. -/
def installKey (r : Rule) : ℕ ×ₗ WithBot IpAddr ×ₗ ℕ ×ₗ Family ×ₗ ℕ :=
  let sourceOrder := if r.kind = .sourceGuard then 1 else 0
  toLex (installRank r.kind, toLex (noneFirst r.source,
    toLex (sourceOrder, toLex (r.family, r.priority))))

/-- The key deletions are sorted by: by role, each source guard before its source
rule. -/
def removalKey (layout : Layout) (o : ObservedRule) :
    ℕ ×ₗ WithBot (IpAddr ×ₗ ℕ) ×ₗ ℕ ×ₗ Family ×ₗ ℕᵒᵈ :=
  let kind := classify layout o.priority
  let guardFirst := if kind = some .sourceGuard then 0 else 1
  toLex (removalRank kind, toLex (noneFirst (o.source.map toLex),
    toLex (guardFirst, toLex (o.family, OrderDual.toDual o.priority))))

namespace DiffInput

variable (d : DiffInput) (s : System)

/-- Routes to install before the nftables step. -/
def replacements : List Op :=
  ((d.beforeNft.routes.toList.map Prod.snd).filter fun r => !routePresent s d.protocol r).map
    .replaceRoute

/-- Balancing and policy tables to empty first. -/
def early : List TableKey :=
  ((observedTables s d.layout d.protocol).filter fun k => !d.layout.isPathTable k.table).filter
    fun k => !d.beforeNft.routes.contains k

/-- Path tables that must lose their route. -/
def stale : List TableKey :=
  ((observedTables s d.layout d.protocol).filter fun k => d.layout.isPathTable k.table).filter
    fun k => !d.desired.routes.contains k

/-- Whether a desired rule looks up a table. -/
def lookedUp (k : TableKey) : Bool :=
  d.desired.rules.toList.any fun r => r.family = k.family && r.action = .lookup k.table

/-- Path tables that a desired rule still looks up lose their route at once. -/
def withdrawn : List TableKey := (d.stale s).filter d.lookedUp

/-- The others go after the rules that use them. -/
def late : List TableKey := (d.stale s).filter fun k => !d.lookedUp k

def deletion (k : TableKey) : Op := .deleteRoute k.family k.table d.protocol

/-- Rules to add, guards first. -/
def additions : List Rule :=
  (d.desired.rules.toList.filter fun r =>
    !(observedRules s d.layout d.protocol).any (·.is r d.protocol)).insertionSort
      fun r r' => installKey r ≤ installKey r'

/-- Routes that include the paths just given their assignments. -/
def lateReplacements : List Op :=
  ((d.desired.routes.toList.filter fun e =>
    d.beforeNft.routes[e.1]? ≠ some e.2
      && ((d.early s).contains e.1 || !routePresent s d.protocol e.2)).map Prod.snd).map
    .replaceRoute

/-- Rules to delete, in the opposite order. -/
def deletions : List ObservedRule :=
  (((observedRules s d.layout d.protocol).filter fun o =>
    d.families.contains o.family || !d.desired.rules.toList.any (·.family = o.family)).filter
      fun o => !d.desired.rules.toList.any fun r => o.is r d.protocol).insertionSort
        fun o o' => removalKey d.layout o ≤ removalKey d.layout o'

/-- The operations before the nftables step. -/
def firstOps : List Op :=
  d.replacements s ++ (d.early s ++ d.withdrawn s).map d.deletion
    ++ (d.additions s).map .addRule

/-- The operations after it. -/
def lastOps : List Op :=
  d.lateReplacements s ++ (d.deletions s).map .deleteRule ++ (d.late s).map d.deletion

end DiffInput

/-- Computes the ordered operations. -/
def diff (s : System) (d : DiffInput) : List Op :=
  d.firstOps s ++ (if d.nftPending then [.applyNft] else []) ++ d.lastOps s

/-! ## Removing everything -/

/-- Whether a rule is the one that its priority's role installs: the same fwmark,
source and action. -/
def hasRole (layout : Layout) (o : ObservedRule) : Bool :=
  match classify layout o.priority with
  | none => false
  | some kind =>
    let shaped (r : Rule) : Bool := r.kind = kind && o.is r o.protocol
    match kind, o.source with
    | .sourceLookup id, some (address, _) => (layout.sourceRules o.family id address).any shaped
    | .sourceGuard, some (address, _) =>
      (UplinkId.new 1).any fun id => (layout.sourceRules o.family id address).any shaped
    | _, _ => (layout.staticRules o.family UplinkId.all).any shaped

/-- The layout a rule is removed by: the one whose rule it is, else the first that
owns it. -/
def ownerLayout (layouts : List (Layout × ℕ)) (o : ObservedRule) : Option Layout :=
  let owners := (layouts.filter fun l =>
    o.protocol = l.2 && l.1.priorities o.priority).map Prod.fst
  owners.head?.map fun first => (owners.find? fun l => hasRole l o).getD first

/-- The rules of every layout, in removal order. -/
def teardownRules (s : System) (layouts : List (Layout × ℕ)) : List ObservedRule :=
  ((s.rules.filterMap fun o =>
    (ownerLayout layouts o).map fun l => (removalKey l o, o)).insertionSort
      fun a b => a.1 ≤ b.1).map Prod.snd

/-- The tables of every layout that hold a route, by protocol, family and number. -/
def teardownTables (s : System) (layouts : List (Layout × ℕ)) : List (ℕ ×ₗ Family ×ₗ ℕ) :=
  ((∅ : Std.ExtTreeSet (ℕ ×ₗ Family ×ₗ ℕ)).insertMany (layouts.flatMap fun l =>
    (observedTables s l.1 l.2).map fun k => toLex (l.2, toLex (k.family, k.table)))).toList

/-- Cleanup over a union of layouts, each with its route protocol: the rules in
removal order, then every route. -/
def teardown (s : System) (layouts : List (Layout × ℕ)) : List Op :=
  (teardownRules s layouts).map .deleteRule
    ++ (teardownTables s layouts).map fun e =>
      .deleteRoute (ofLex (ofLex e).2).1 (ofLex (ofLex e).2).2 (ofLex e).1

/-! ## Executing operations -/

/-- The message of a netlink operation. -/
def netlinkOp (protocol : ℕ) : Op → Option RouteNetlinkMessage
  | .replaceRoute r => some (.newRoute (routeMessage r protocol))
  | .addRule r => some (.newRule (ruleMessage r protocol))
  | .deleteRule o => some (.delRule o.message)
  | .deleteRoute family table protocol => some (.delRoute (routeDeleteKey family table protocol))
  | .applyNft => none

/-- The view after a successful operation. -/
def applyOp (now : ℕ) (scope : Scope) (protocol : ℕ) (s : System) (op : Op) : System :=
  match netlinkOp protocol op with
  | some m => (s.apply now scope m).1
  | none => s

/-- The view after a list of successful operations. -/
def applyOps (now : ℕ) (scope : Scope) (protocol : ℕ) (s : System) (ops : List Op) : System :=
  ops.foldl (applyOp now scope protocol) s

/-- Runs the operations in order, each succeeding or failing; stops at the first
failure, and at the nftables step, which it reports as reached. -/
def execute (now : ℕ) (scope : Scope) (protocol : ℕ) (succeeds : Op → Bool) :
    System → List Op → System × Option Bool
  | s, [] => (s, some false)
  | s, .applyNft :: _ => (s, some true)
  | s, op :: ops =>
    if succeeds op then execute now scope protocol succeeds (applyOp now scope protocol s op) ops
    else (s, none)

/-! ## Passes -/

/-- The operations of a pass before the nftables step. -/
def beforeStep (ops : List Op) : List Op := ops.takeWhile fun op => op ≠ .applyNft

/-- What a pass of the daemon works from. -/
structure Pass where
  config : Config
  input : Input
  /-- The paths whose mark assignments are not installed yet. -/
  newPaths : Std.ExtTreeSet PathKey
  nftPending : Bool

/-- The comparison a pass makes. -/
def Pass.diffInput (p : Pass) : DiffInput where
  layout := Layout.of p.config
  protocol := p.config.routing.routeProtocol
  families := Family.all.filter p.config.manages
  beforeNft := plan p.config (without p.input p.newPaths)
  desired := plan p.config p.input
  nftPending := p.nftPending

end Polywan
