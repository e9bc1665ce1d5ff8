import Polywan.Daemon

/-!
# Passes of the daemon

A reconciliation pass brings the settings, the view and the evaluation up to date,
compares the plan with the view and runs the operations that are due; the nftables
table goes to its lane, and the rest waits for the lane's completion.

## Main definitions

* `Daemon.pass` — what a pass compares.
* `Daemon.step` — one reconciliation pass.
* `Daemon.nftApplied`, `Daemon.checkNft`, `Daemon.sysctlsDone` — completions.
* `Daemon.commitReload` — a reload that commits.
* `Daemon.Event`, `Daemon.handle` — everything the daemon reacts to.
-/

namespace Polywan

/-- The first operation the kernel rejects. -/
def rejected (succeeds : Op → Bool) (ops : List Op) : Option Op :=
  (beforeStep ops).find? fun op => !succeeds op

namespace Daemon

variable (d : Daemon)

/-! ## Comparison -/

/-- Whether the nftables step is to be made: a transaction in flight keeps it as the
barrier until its outcome is known. -/
def nftPending : Bool :=
  d.managed
    && (d.nft.missing || d.nft.flight.isSome || d.nft.applied.map Prod.fst ≠ some d.transaction)

/-- The assignments counted on: those of the table last applied, or adopted at
startup, that the transaction in flight keeps. -/
def surviving : Option (Std.ExtTreeSet Assignment) :=
  let installed := (d.nft.applied.map Prod.snd).or d.nft.adopted
  match installed, d.nft.flight with
  | some i, some f => some (i.filter f.configured.contains)
  | i, _ => i

/-- The paths held back until the nftables step. -/
def newPaths : Std.ExtTreeSet PathKey :=
  if d.managed then unassigned d.cfg.assignments d.surviving else ∅

/-- What a pass compares. -/
def pass (input : Input) : Pass where
  config := d.cfg
  input := input
  newPaths := d.newPaths
  nftPending := d.nftPending

/-- Without the repairs that wait for a full reconciliation. -/
def unheld (ops : List Op) : List Op :=
  ops.filter fun
    | .addRule r => !d.heldRules.any (·.is r d.protocol)
    | .replaceRoute r => !d.heldRoutes.contains r.key
    | _ => true

/-- The operations of a pass. -/
def passOps (input : Input) : List Op := d.unheld (diff d.system (d.pass input).diffInput)

/-- Those it runs: while the nftables lane applies a transaction, the ones before the
nftables step. -/
def dueOps (input : Input) : List Op :=
  if d.nft.flight.isSome then beforeStep (d.passOps input) else d.passOps input

/-! ## Outcomes -/

/-- A failed application: retried with exponential backoff from 1 s to 60 s.  The table
of a failed route installation is read again, and its path is not ready until
discovery changes. -/
def failed (now : ℕ) (op : Option Op) (attempt : Attempt) : Daemon :=
  let table := op.bind fun
    | .replaceRoute r => some r.key
    | _ => none
  let path := table.bind fun k => d.paths.keys.find? fun key =>
    key.family = k.family && d.layout.pathTable key.uplink = k.table
  let backoff := match d.retry with
    | some r => if r.attempt = attempt then min (r.backoff * 2) 60000000000 else 1000000000
    | none => 1000000000
  { d with
    reread := d.reread.insertMany table.toList
    routeFailed := d.routeFailed.insertMany path.toList
    retry := some ⟨now + backoff, backoff, attempt⟩
    dirty := true }

/-- A pass with nothing to do: settings of departed families go back last. -/
def finish (e : PassEnv) (attempt : List Op) : Daemon :=
  if d.nft.flight.isSome || d.handBack.isSome then d
  else if !(Sysctl.departed d.sysctls.recorded d.cfg).isEmpty && d.cfg.routing.manageSysctls then
    let seq := d.seq + 1
    match e.lost seq with
    | none => { d with seq, handBack := some (seq, .ops attempt) }
    | some .full => { d with seq, dirty := true }
    | some .closed => { d with seq, fatal := true }
  else { d with retry := none }

/-- The lane with the transaction of the configuration in flight. -/
def inFlight (seq : ℕ) (attempt : List Op) : NftState :=
  let flight : NftFlight :=
    { seq, transaction := d.transaction, configured := d.cfg.assignments, attempt }
  { d.nft with flight := some flight }

/-- The nftables step is reached: the table goes to its lane. -/
def launch (e : PassEnv) (attempt : List Op) : Daemon :=
  let seq := d.seq + 1
  match e.lost seq with
  | none => { d with seq, nft := d.inFlight seq attempt }
  | some .full => { d with seq, dirty := true }
  | some .closed => { d with seq, fatal := true }

/-- Runs the operations of a pass. -/
def perform (e : PassEnv) (attempt ops : List Op) : Daemon :=
  let (system, outcome) := execute e.now d.scope d.protocol e.succeeds d.system ops
  let d := { d with system }
  match outcome with
  | some true => d.launch e attempt
  | some false => { d with dirty := true }
  | none => d.failed e.now (rejected e.succeeds ops) (.ops attempt)

/-- A pass of a full reconciliation holds nothing back. -/
def released : Daemon :=
  { d with
    fullPass := false
    heldRules := if d.fullPass then [] else d.heldRules
    heldRoutes := if d.fullPass then ∅ else d.heldRoutes }

/-- The comparison of a pass and what it leads to; the attempt of a failed pass waits
for its backoff. -/
def reconcile (e : PassEnv) (waiting : Option Attempt) (input : Input) : Daemon :=
  let attempt := d.released.passOps input
  let ops := d.released.dueOps input
  if waiting = some (.ops attempt) then { d.released with fullPass := d.fullPass }
  else if ops.isEmpty then d.released.finish e attempt
  else d.released.perform e attempt ops

/-- The attempt that waits for its backoff. -/
def waiting (now : ℕ) : Option Attempt :=
  (d.retry.filter fun r => now < r.due).map Retry.attempt

/-- The settings a pass gives to the persistence lane. -/
def dispatched (e : PassEnv) : Daemon :=
  if d.sysctls.pending.isEmpty then d
  else d.dispatchSysctls e (d.waiting e.now ≠ some .sysctls)

/-- The view a pass works on: the tables scheduled for a re-read are read again. -/
def refreshed (e : PassEnv) : Daemon :=
  let d := d.rereadExpired e.now
  { d with
    system := (Polywan.reread e.now d.scope e.dumps d.system d.reread.toList).1
    reread := ∅ }

/-- Whether a pass stops before it evaluates: the first settings are being applied. -/
def awaitsInstallation : Bool := d.installing && !d.sysctls.flight.isEmpty

/-- Whether a pass stops after it evaluates: everything depends on the global
settings. -/
def awaitsGlobal : Bool := !d.sysctls.pending.isEmpty && d.sysctlsUnapplied .global none

/-- The first settings of every scope completed. -/
def installed : Daemon := { d with installing := false }

/-- One reconciliation pass. -/
def step (e : PassEnv) : Daemon :=
  let waiting := d.waiting e.now
  let d := d.dispatched e
  if d.awaitsInstallation then d
  else if d.installed.awaitsGlobal then d.installed.evaluate e.now
  else
    let d := d.installed.refreshed e
    (d.evaluate e.now).reconcile e waiting (d.evaluateInput e.now)

/-! ## Completions -/

/-- The nftables lane applied a transaction, or failed to. -/
def nftApplied (now seq : ℕ) (result : Except String (Option Nft.Table)) : Daemon :=
  match d.nft.flight.filter fun f => f.seq = seq with
  | none => d
  | some f =>
    let d := { d with nft := { d.nft with flight := none }, dirty := true }
    match result with
    | .ok listing =>
      -- The kernel holds this table, whatever the configuration became meanwhile.
      { d with nft := { d.nft with
          applied := some (f.transaction, f.configured), missing := false, listing } }
    | .error _ => d.failed now none (.ops f.attempt)

/-- The comparison of the program's table listed by an inspection. -/
def checkNft (now : ℕ) (listing : Except String (Option Nft.Table)) : Daemon :=
  if !d.managed then d
  else match listing with
    | .error _ => d
    | .ok listing =>
      let differs := listing.isNone || (d.nft.listing.isSome && listing ≠ d.nft.listing)
      let d := if differs && d.nft.applied.isSome then d.countRemoval .nftables now else d
      { d with nft := { d.nft with missing := differs || d.nft.listing.isNone } }

def nftInspected (now seq : ℕ) (listing : Except String (Option Nft.Table)) : Daemon :=
  if d.inspection = some seq then
    { { d with inspection := none }.checkNft now listing with dirty := true }
  else d

/-- A completed application of settings, with the keys it left in the manifest; one
superseded meanwhile does not count. -/
def sysctlsDone (now seq : ℕ) (scope : SysctlScope) (result : Except String Unit)
    (recorded : List String) : Daemon :=
  let d := { d with sysctls := { d.sysctls with recorded } }
  match (d.sysctls.flight[scope]?).filter fun f => f.1 = seq with
  | none => d
  | some (_, job) =>
    let flight := d.sysctls.flight.erase scope
    match result, scope with
    | .ok _, _ =>
      { d with dirty := true, sysctls := { d.sysctls with
          flight
          pending := d.sysctls.pending.erase scope
          applied := d.sysctls.applied.insert scope job
          retries := scope.interface?.elim d.sysctls.retries d.sysctls.retries.erase } }
    | .error _, .interface i =>
      let backoff := match d.sysctls.retries[i]? with
        | some r => min (r.backoff * 2) 60000000000
        | none => 1000000000
      { d with dirty := true, sysctls := { d.sysctls with
          flight
          applied := d.sysctls.applied.erase scope
          retries := d.sysctls.retries.insert i ⟨now + backoff, backoff, .sysctls⟩ } }
    | .error _, .global =>
      { d with dirty := true, sysctls := { d.sysctls with
          flight, applied := d.sysctls.applied.erase scope } }.failed now none .sysctls

/-- The persistence lane handed families back; `recorded` are the keys it left in the
manifest. -/
def handedBack (now seq : ℕ) (result : Except String Unit) (recorded : List String) : Daemon :=
  let d := { d with sysctls := { d.sysctls with recorded } }
  match d.handBack.filter fun h => h.1 = seq with
  | none => d
  | some (_, attempt) =>
    let d := { d with handBack := none, dirty := true }
    match result with
    | .ok _ => d
    | .error _ => d.failed now none attempt

/-! ## Commands, reloads and full reconciliations -/

/-- A drain intent that was written applies. -/
def setDrained (uplink : UplinkId) (drain : Bool) : Daemon :=
  { d with
    dirty := true
    drained := if drain then d.drained.insert uplink else d.drained.erase uplink }

/-- A reload commits: every scope of settings is checked again, those applied earlier
keep their paths ready meanwhile. -/
def commitReload (new : Config) : Daemon :=
  let pending := Std.ExtTreeSet.ofList new.sysctlScopes
  let manage := new.routing.manageSysctls
  { d with
    cfg := new
    drained := d.drained.filter fun id => (new.uplink id).isSome
    paths := d.paths.filter fun k _ => new.uplinks.any fun u => u.id = k.uplink
    sysctls := { d.sysctls with
      applied := d.sysctls.applied.filter fun s _ => pending.contains s
      pending
      retries := if manage then d.sysctls.retries.filter fun i _ => pending.contains (.interface i)
        else ∅
      flight := ∅ }
    retry := if manage then d.retry else d.retry.filter fun r => r.attempt ≠ .sysctls
    dirty := true }

/-- A validated reload: structural settings cannot change. -/
def reload (new : Config) : Daemon :=
  if new.Valid ∧ new.structural = d.cfg.structural then d.commitReload new else d

/-- One clean reconciliation of a kind in conflict; the second clears it. -/
def cleared (o : Ownership) : Ownership :=
  if o.conflict then
    { o with
      cleanReconciliations := o.cleanReconciliations + 1
      conflict := o.cleanReconciliations + 1 < 2 }
  else o

/-- A full reconciliation, with the view of the new dump unless it failed. -/
def fullReconciliation (e : PassEnv) (view : Option System) : Daemon :=
  let d := { d with system := view.getD d.system }
  let d := match d.inspection with
    | some _ => d
    | none => match e.lost (d.seq + 1) with
      | none => { d with seq := d.seq + 1, inspection := some (d.seq + 1) }
      | some .full => { d with seq := d.seq + 1 }
      | some .closed => { d with seq := d.seq + 1, fatal := true }
  { d with
    ownership := fun k => cleared (d.ownership k)
    routeFailed := ∅
    fullPass := true
    dirty := true }

/-- Router Advertisements arrived on an interface: they may have refreshed the default
routes it installed there. -/
def routerAdvertisement (ifindex : ℕ) : Daemon :=
  if (d.uplinkOn ifindex).isNone then d
  else
    let tables := (d.discoveryDefaults.filter fun r =>
      r.family = .v6 && (r.expiresAt.isSome || r.protocol = 9)
        && r.nexthops.any fun h => h.ifindex = ifindex).map fun r =>
          (⟨r.family, r.table⟩ : TableKey)
    if tables.isEmpty then d
    else { d with reread := d.reread.insertMany tables, dirty := true }

/-! ## Events -/

/-- What the daemon reacts to. -/
inductive Event where
  | notification (now : ℕ) (m : Message) (port : ℕ) (flags : BitVec 16)
  | routerAdvertisement (ifindex : ℕ)
  | round (path : PathKey) (r : Health.Round)
  | drain (uplink : UplinkId) (drain : Bool)
  | reload (config : Config)
  | fullReconciliation (e : PassEnv) (view : Option System)
  | nftApplied (now seq : ℕ) (result : Except String (Option Nft.Table))
  | nftInspected (now seq : ℕ) (listing : Except String (Option Nft.Table))
  | sysctlsDone (now seq : ℕ) (scope : SysctlScope) (result : Except String Unit)
      (recorded : List String)
  | handedBack (now seq : ℕ) (result : Except String Unit) (recorded : List String)
  | pass (e : PassEnv)

/-- The state after an event. -/
def handle : Event → Daemon
  | .notification now m port flags => d.notification now m port flags
  | .routerAdvertisement i => d.routerAdvertisement i
  | .round k r => d.round k r
  | .drain u drain => d.setDrained u drain
  | .reload c => d.reload c
  | .fullReconciliation e view => d.fullReconciliation e view
  | .nftApplied now seq result => d.nftApplied now seq result
  | .nftInspected now seq listing => d.nftInspected now seq listing
  | .sysctlsDone now seq scope result recorded => d.sysctlsDone now seq scope result recorded
  | .handedBack now seq result recorded => d.handedBack now seq result recorded
  | .pass e => d.step e

/-- The state after a list of events. -/
def run (events : List Event) : Daemon := events.foldl handle d

/-- The state at startup, without a usable checkpoint, from the first dump and the
listing of a table found. -/
def start (c : Config) (port now : ℕ) (system : System) (listing : Option Nft.Table)
    (drained : Std.ExtTreeSet UplinkId) : Daemon :=
  let found := discover c system c.routing.routeProtocol now
  let adopted := if c.firewall.mode = .managed then
      listing.map fun t => c.assignments.filter (t.assigns c.routing.fwmarkMask)
    else none
  { cfg := c
    port
    system
    drained
    expiryChecked := now
    sysctls := { pending := Std.ExtTreeSet.ofList c.sysctlScopes }
    nft := { adopted }
    paths := found.map fun _ raw =>
      { discovered := some raw
        machine := match raw.ready with
          | .ok _ => .new true .startup none
          | .error reason => .new false reason none } : Daemon }.checkNft now (.ok listing)

end Daemon

namespace Sample

/-- An interface that is up with carrier. -/
def link (index : ℕ) (name : String) : LinkMessage where
  index := index
  up := true
  lowerUp := true
  pointopoint := false
  attributes := [.ifName name]

/-- A permanent address of a /24 network. -/
def address (index : ℕ) (a : IpAddr) : AddressMessage where
  family := .inet
  index := index
  prefixLen := 24
  scope := 0
  flags := 0x80
  attributes := [.localAddress a]

/-- A default route of the main table. -/
def defaultRoute (index : ℕ) (gateway : IpAddr) : RouteMessage where
  header := { addressFamily := .inet, protocol := 3, table := 254 }
  attributes := [.gateway (.ip gateway), .oif index]

/-- Both interfaces of the sample, each with an address and a default route. -/
def network : View (Scope.of config) :=
  [ .newLink (link 3 "wan1"), .newLink (link 4 "wan2"),
    .newAddress (address 3 (.v4 0x0a000002)), .newAddress (address 4 (.v4 0x0a010002)),
    .newRoute (defaultRoute 3 (.v4 0x0a000001)),
    .newRoute (defaultRoute 4 (.v4 0x0a010001)) ].foldl (View.apply 0) (View.empty _)

/-- The same without an address on the second interface. -/
def halfNetwork : View (Scope.of config) :=
  [ .newLink (link 3 "wan1"), .newLink (link 4 "wan2"), .newAddress (address 3 (.v4 0x0a000002)),
    .newRoute (defaultRoute 3 (.v4 0x0a000001)) ].foldl (View.apply 0) (View.empty _)

/-- The first uplink alone, with an nftables table of the administrator's. -/
def plain : Config := { single with firewall := { firewall with mode := .external } }

/-- The same uplink on the other interface. -/
def moved : Config := { config with uplinks := [uplink id1 "fibre" "wan2"] }

/-- A pass without dumps, whose operations all succeed. -/
def quiet : PassEnv := { now := 0, dumps := fun _ _ => none }

/-- The first uplink alone, once its settings are applied. -/
def alone (drained : Std.ExtTreeSet UplinkId) : Daemon :=
  (Daemon.start single 7 0 network.system none drained).run
    [ .pass quiet, .sysctlsDone 0 1 (.interface "wan1") (.ok ()) [],
      .sysctlsDone 0 2 .global (.ok ()) [] ]

end Sample

end Polywan
