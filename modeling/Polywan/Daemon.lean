import Polywan.Discover
import Polywan.Nft.Assign
import Polywan.Observer
import Polywan.Reconcile
import Polywan.Select
import Polywan.Sysctl

/-!
# The state of the daemon

One task owns all mutable state and reacts to netlink notifications, probe results,
completions of its lanes and timers.  The layout, the route protocol, the scope of the
view and the nftables transaction are functions of the configuration, whose structural
settings a reload cannot change.  Reporting (events, status, metrics, answers to
commands) is left out: no decision reads it.

## Main definitions

* `Daemon` — the state.
* `Daemon.sysctlsUnapplied` — whether settings are missing that readiness needs.
* `Daemon.evaluate` — discovery, readiness, health and active sets.
* `Daemon.notification` — a netlink notification.
-/

namespace Polywan

/-- One configured path at runtime. -/
structure PathRuntime where
  discovered : Option Discovered
  machine : Health.Machine
deriving DecidableEq

/-- What failed: the pending settings, or the operations of a pass. -/
inductive Attempt where
  | sysctls
  | ops (ops : List Op)
deriving DecidableEq

/-- Retry state after a failed application. -/
structure Retry where
  due : ℕ
  backoff : ℕ
  /-- Only the same attempt waits for the backoff. -/
  attempt : Attempt
deriving DecidableEq

/-- The kinds of artifacts a third party may remove. -/
inductive ArtifactKind where
  | rules
  | routes
  | nftables
deriving DecidableEq

/-- Removals by third parties of one kind of artifact. -/
structure Ownership where
  removals : List ℕ := []
  conflict : Bool := false
  cleanReconciliations : ℕ := 0
deriving DecidableEq

/-- The nftables transaction being applied by the nftables lane. -/
structure NftFlight where
  seq : ℕ
  transaction : Nft.Table
  configured : Std.ExtTreeSet Assignment
  /-- The operations of the pass that started it. -/
  attempt : List Op
deriving DecidableEq

/-- What is known of the nftables table. -/
structure NftState where
  flight : Option NftFlight := none
  /-- The transaction last applied and the assignments it holds. -/
  applied : Option (Nft.Table × Std.ExtTreeSet Assignment) := none
  /-- The table listed after the last application. -/
  listing : Option Nft.Table := none
  missing : Bool := false
  /-- Configured paths that a table found at startup already assigns. -/
  adopted : Option (Std.ExtTreeSet Assignment) := none
deriving DecidableEq

/-- What is known of the system settings. -/
structure SysctlState where
  /-- Scopes to apply before the next routes and rules. -/
  pending : Std.ExtTreeSet SysctlScope := ∅
  /-- Scopes whose settings the persistence lane is applying. -/
  flight : Std.ExtTreeMap SysctlScope (ℕ × SysctlJob) := ∅
  /-- The settings last applied or checked. -/
  applied : Std.ExtTreeMap SysctlScope SysctlJob := ∅
  /-- Retries of interfaces whose settings failed. -/
  retries : Std.ExtTreeMap String Retry := ∅
  /-- The keys recorded in the manifest. -/
  recorded : List String := []

structure Daemon where
  cfg : Config
  /-- The port of the socket that changes routes and rules. -/
  port : ℕ := 0
  system : System := {}
  /-- Sequence numbers of the jobs given to the lanes. -/
  seq : ℕ := 0
  nft : NftState := {}
  sysctls : SysctlState := {}
  inspection : Option ℕ := none
  handBack : Option (ℕ × Attempt) := none
  /-- Passes wait until the first settings of every scope completed. -/
  installing : Bool := true
  /-- An internal task ended. -/
  fatal : Bool := false
  paths : Std.ExtTreeMap PathKey PathRuntime := ∅
  active : Std.ExtTreeMap Family (Std.ExtTreeSet UplinkId) := ∅
  drained : Std.ExtTreeSet UplinkId := ∅
  /-- Paths whose route installation failed. -/
  routeFailed : Std.ExtTreeSet PathKey := ∅
  retry : Option Retry := none
  ownership : ArtifactKind → Ownership := fun _ => {}
  /-- Artifacts removed by a third party while immediate repairs are suspended. -/
  heldRules : List ObservedRule := []
  heldRoutes : Std.ExtTreeSet TableKey := ∅
  /-- The next pass is part of a full reconciliation. -/
  fullPass : Bool := false
  dirty : Bool := true
  /-- Tables to read again before the next evaluation. -/
  reread : Std.ExtTreeSet TableKey := ∅
  /-- Route expiries up to this instant have been handled. -/
  expiryChecked : ℕ := 0

/-- The configured paths whose assignments the table does not hold; without a known
table, none. -/
def unassigned (configured : Std.ExtTreeSet Assignment)
    (known : Option (Std.ExtTreeSet Assignment)) : Std.ExtTreeSet PathKey :=
  match known with
  | none => ∅
  | some known =>
    Std.ExtTreeSet.ofList
      ((configured.toList.filter fun a => !known.contains a).map Assignment.path)

namespace Daemon

variable (d : Daemon)

def layout : Layout := Layout.of d.cfg

def protocol : ℕ := d.cfg.routing.routeProtocol

def scope : Scope := Scope.of d.cfg

/-- The transaction of the configuration. -/
def transaction : Nft.Table := Nft.ruleset d.cfg

def managed : Bool := d.cfg.firewall.mode = .managed

def hysteresis (id : UplinkId) : Option Health.Hysteresis :=
  (d.cfg.uplink id).map fun u => ⟨u.health.fall, u.health.rise⟩

/-! ## Ownership -/

/-- A third party removed an artifact: more than 3 removals in 5 minutes suspend the
immediate repairs of the kind. -/
def countRemoval (kind : ArtifactKind) (now : ℕ) : Daemon :=
  let o := d.ownership kind
  let removals := (o.removals ++ [now]).dropWhile fun t => 300000000000 < now - t
  let o : Ownership :=
    { removals, cleanReconciliations := 0, conflict := o.conflict || 3 < removals.length }
  { d with ownership := fun k => if k = kind then o else d.ownership k }

def immediateRepairs (kind : ArtifactKind) : Bool := !(d.ownership kind).conflict

/-! ## System settings -/

/-- Whether the settings of a scope that matter to a family (`none`: all of them) are
pending without an earlier application.  Settings that are only checked are never a
prerequisite. -/
def sysctlsUnapplied (scope : SysctlScope) (family : Option Family) : Bool :=
  if !d.cfg.routing.manageSysctls || !d.sysctls.pending.contains scope then false
  else match d.sysctls.applied[scope]? with
    | some ⟨applied, true⟩ =>
      let wanted := ((d.cfg.wantedSysctlsOf scope).map SysctlJob.settings).getD []
      !(wanted.filter fun s => family.isNone || s.family.isNone || s.family = family).all
        applied.contains
    | _ => true

end Daemon

/-- Why a job was not queued: the queue was full, or the lane is gone. -/
inductive Lost where
  | full
  | closed
deriving DecidableEq

/-- What a pass meets: the instant, the kernel's answers to its operations and dumps,
and the jobs, by sequence number, that a lane does not take. -/
structure PassEnv where
  now : ℕ
  succeeds : Op → Bool := fun _ => true
  dumps : Dumps
  lost : ℕ → Option Lost := fun _ => none

namespace Daemon

variable (d : Daemon)

/-- Gives the settings of a scope to the persistence lane. -/
def dispatchScope (e : PassEnv) (scope : SysctlScope) : Daemon :=
  let wanted := (d.cfg.wantedSysctlsOf scope).getD ⟨[], false⟩
  let seq := d.seq + 1
  let d := { d with seq }
  match e.lost seq with
  | none =>
    { d with sysctls := { d.sysctls with flight := d.sysctls.flight.insert scope (seq, wanted) } }
  | some .full => { d with dirty := true }
  | some .closed => { d with fatal := true }

/-- Whether the settings of a scope are due: not being applied, and not waiting for
their backoff (`global`: the global ones do not). -/
def sysctlDue (now : ℕ) (global : Bool) (scope : SysctlScope) : Bool :=
  !d.sysctls.flight.contains scope
    && match scope with
      | .interface i => !(d.sysctls.retries[i]?).any fun r => now < r.due
      | .global => global

/-- Gives the pending settings to the persistence lane, the interfaces' first. -/
def dispatchSysctls (e : PassEnv) (global : Bool) : Daemon :=
  let scopes := d.sysctls.pending.toList
  let ordered := scopes.filter (· ≠ .global) ++ scopes.filter (· = .global)
  ordered.foldl (fun d scope => if d.sysctlDue e.now global scope then d.dispatchScope e scope
    else d) d

/-! ## Evaluation -/

/-- Whether discovery found a path as before. -/
def unchanged (k : PathKey) (raw : Discovered) : Bool :=
  d.paths[k]?.bind PathRuntime.discovered = some raw

/-- Whether a path is ready: discovered so, its route installed unless discovery
changed since, and the settings of its interface applied. -/
def pathReady (k : PathKey) (raw : Discovered) : Except Health.Reason ReadyPath :=
  match raw.ready with
  | .error reason => .error reason
  | .ok r =>
    if d.unchanged k raw && d.routeFailed.contains k then .error .routeInstallFailed
    else if (d.cfg.uplink k.uplink).any fun u =>
        d.sysctlsUnapplied (.interface u.interface) (some k.family) then
      .error .routeInstallFailed
    else .ok r

/-- The machine of a path; one that is new starts not ready. -/
def machineOf (k : PathKey) : Health.Machine :=
  match d.paths[k]? with
  | some p => p.machine
  | none => .new false .startup none

/-- The machine of a path after its readiness. -/
def evaluateMachine (k : PathKey) (raw : Discovered) : Health.Machine :=
  match d.pathReady k raw with
  | .ok _ => ((d.machineOf k).setReady true .startup).1
  | .error reason => ((d.machineOf k).setReady false reason).1

/-- The planner input of a path. -/
def evaluatePath (k : PathKey) (raw : Discovered) : PathInput where
  ready := (d.pathReady k raw).toOption
  localAddresses := raw.localAddresses
  healthy := (d.evaluateMachine k raw).isUp
  drained := d.drained.contains k.uplink

/-- The eligible and ready paths of a family. -/
def candidates (paths : Std.ExtTreeMap PathKey PathInput) (family : Family) : List Candidate :=
  d.cfg.uplinks.filterMap fun u =>
    match paths[(⟨u.id, family⟩ : PathKey)]?, u.priority with
    | some p, some priority =>
      if p.ready.isSome && !p.drained then some ⟨u.id, priority, p.healthy⟩ else none
    | _, _ => none

/-- The active set of a family, after the previous one. -/
def select (paths : Std.ExtTreeMap PathKey PathInput) (family : Family) :
    Std.ExtTreeSet UplinkId :=
  activeSet (d.candidates paths family) d.cfg.routing.allDownPolicy
    ((d.active[family]?).getD ∅)

/-- What discovery finds. -/
def discovered (now : ℕ) : Std.ExtTreeMap PathKey Discovered :=
  discover d.cfg d.system d.protocol now

/-- The planner input. -/
def evaluateInput (now : ℕ) : Input :=
  let paths := (d.discovered now).map fun k raw => d.evaluatePath k raw
  { paths
    active := (Family.all.filter d.cfg.manages).foldl
      (fun active f => active.insert f (d.select paths f)) ∅ }

/-- The active sets after a selection. -/
def evaluateActive (paths : Std.ExtTreeMap PathKey PathInput) :
    Std.ExtTreeMap Family (Std.ExtTreeSet UplinkId) :=
  (Family.all.filter d.cfg.manages).foldl
    (fun active f =>
      if d.select paths f = (d.active[f]?).getD ∅ then active
      else active.insert f (d.select paths f)) d.active

/-- Discovery, readiness, health and active sets. -/
def evaluate (now : ℕ) : Daemon :=
  let found := d.discovered now
  { d with
    paths := found.map fun k raw => ⟨some raw, d.evaluateMachine k raw⟩
    active := d.evaluateActive (d.evaluateInput now).paths
    -- Installation is retried at each discovery change.
    routeFailed := d.routeFailed.filter fun k => (found[k]?).all (d.unchanged k) }

/-! ## Notifications -/

/-- The uplink on an interface, also after the interface is gone. -/
def uplinkOn (ifindex : ℕ) : Option UplinkId :=
  let name := (d.system.links[ifindex]?).map ObservedLink.name
  (d.cfg.uplinks.find? fun u =>
    name = some u.interface || d.paths.toList.any fun e =>
      e.1.uplink = u.id && e.2.discovered.bind Discovered.ifindex = some ifindex).map Uplink.id

/-- The tables a link or address change of an uplink concerns. -/
def concerned (u : UplinkId) : List TableKey :=
  Family.all.flatMap fun f =>
    ⟨f, d.layout.balancingTable⟩ :: ⟨f, d.layout.pathTable u⟩
      :: d.cfg.routing.discoveryTables.map fun t => ⟨f, t⟩

/-- A new incarnation of an interface gets its settings at once; a job in flight wrote
to the old one and no longer counts. -/
def forgetSysctls (interface : String) : Daemon :=
  let scope : SysctlScope := .interface interface
  { d with sysctls := { d.sysctls with
      applied := d.sysctls.applied.erase scope
      flight := d.sysctls.flight.erase scope
      pending := d.sysctls.pending.insert scope
      retries := d.sysctls.retries.erase interface } }

/-- A link or an address of an interface changed. -/
def interfaceChanged (ifindex : ℕ) (link : Bool) : Daemon :=
  match d.uplinkOn ifindex with
  | none => { d with dirty := true }
  | some u =>
    let d := { d with dirty := true, reread := d.reread.insertMany (d.concerned u) }
    match link, d.cfg.uplink u with
    | true, some up => d.forgetSysctls up.interface
    | _, _ => d

/-- The reaction to what a notification changed. -/
def react : Change → Daemon
  | .link i => d.interfaceChanged i true
  | .address i => d.interfaceChanged i false
  | .route _ _ _ | .rule _ _ | .nexthop _ => { d with dirty := true }
  | .none => d

/-- A rule of the program that a message removes. -/
def removedRule : RouteNetlinkMessage → Option ObservedRule
  | .delRule m => (ObservedRule.parse m).filter fun o =>
    o.protocol = d.protocol && d.layout.priorities o.priority
  | _ => none

/-- The route of a message, and whether it is deleted. -/
def notifiedRoute (now : ℕ) : RouteNetlinkMessage → Option (ObservedRoute × Bool)
  | .newRoute m => (ObservedRoute.parse now m).map (·, false)
  | .delRoute m => (ObservedRoute.parse now m).map (·, true)
  | _ => none

/-- A table of the program that a message removes a route from. -/
def removedRoute (now : ℕ) (m : RouteNetlinkMessage) : Option TableKey :=
  match notifiedRoute now m with
  | some (r, true) =>
    if r.protocol = d.protocol && d.layout.tables r.table then some ⟨r.family, r.table⟩ else none
  | _ => none

/-- The table a message may leave a stale entry of. -/
def staleTable (now : ℕ) (m : RouteNetlinkMessage) (flags : BitVec 16) : Option TableKey :=
  (notifiedRoute now m).bind fun (r, deleted) => d.system.staleAfter d.scope r deleted flags

/-- A rule removed by a third party. -/
def ruleRemoved (now : ℕ) (r : ObservedRule) : Daemon :=
  let d := d.countRemoval .rules now
  if d.immediateRepairs .rules then d else { d with heldRules := d.heldRules ++ [r] }

/-- A route removed by a third party. -/
def routeRemoved (now : ℕ) (k : TableKey) : Daemon :=
  let d := d.countRemoval .routes now
  if d.immediateRepairs .routes then d else { d with heldRoutes := d.heldRoutes.insert k }

/-- A route netlink notification, from the port of its sender and with its flags. -/
def routeNotification (now : ℕ) (m : RouteNetlinkMessage) (port : ℕ) (flags : BitVec 16) :
    Daemon :=
  let thirdParty := port ≠ 0 && port ≠ d.port
  let removedRule := if thirdParty then d.removedRule m else none
  let removedRoute := if thirdParty then d.removedRoute now m else none
  let (system, change) := d.system.apply now d.scope m
  -- Which entries are stale is decided against the view before the message.
  let d := { d with system, reread := d.reread.insertMany (d.staleTable now m flags).toList }
  let d := removedRule.elim d (d.ruleRemoved now)
  let d := removedRoute.elim d (d.routeRemoved now)
  d.react change

/-- A change of a nexthop object: only the routes that use it depend on it. -/
def nexthopNotification (now : ℕ) (id : ℕ) (deleted : Bool) (m : Message) : Daemon :=
  let users := d.system.nexthopUsers id
  let d := { d with system := (d.system.applyMessage now d.scope m).1 }
  if users.isEmpty then d
  else
    { d with
      dirty := true
      reread := if deleted then d.reread.insertMany users else d.reread }

/-- A notification. -/
def notification (now : ℕ) (m : Message) (port : ℕ) (flags : BitVec 16) : Daemon :=
  match m with
  | .route r => d.routeNotification now r port flags
  | .newNexthop n => d.nexthopNotification now n.id false m
  | .delNexthop n => d.nexthopNotification now n.id true m
  | .getNexthops => d

/-! ## Probe results and expiries -/

/-- A completed round of a path's current prober. -/
def round (k : PathKey) (r : Health.Round) : Daemon :=
  match d.paths[k]?, d.hysteresis k.uplink with
  | some p, some h =>
    let (machine, transition) := p.machine.round r h
    { d with paths := d.paths.insert k { p with machine }
             dirty := d.dirty || transition.isSome }
  | _, _ => d

/-- The default routes of the discovery tables, which make paths ready. -/
def discoveryDefaults : List ObservedRoute :=
  (d.system.routes.toList.map Prod.snd).filter fun r =>
    r.isDefault && r.protocol ≠ d.protocol && d.cfg.routing.discoveryTables.contains r.table

/-- Schedules the tables of routes whose known expiry has passed since the last
check. -/
def rereadExpired (now : ℕ) : Daemon :=
  let expired := d.discoveryDefaults.filter fun r =>
    (r.expiresAt.any fun t => d.expiryChecked < t) && r.expired now
  { d with
    reread := d.reread.insertMany (expired.map fun r => (⟨r.family, r.table⟩ : TableKey))
    expiryChecked := now }

end Daemon

end Polywan
