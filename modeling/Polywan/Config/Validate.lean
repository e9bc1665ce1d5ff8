import Mathlib.Algebra.Ring.Int.Defs
import Mathlib.Data.List.Destutter
import Mathlib.Data.String.Basic
import Polywan.Config.Check
import Polywan.Lib.Collect

/-!
# Validation of the configuration file

Every problem is collected, with the line of the innermost table that holds the key, and the
checks go on with a default in the place of what was refused.  Sums and products of machine
numbers that do not fit stop the process; here they have no result.

## Main definitions

* `Diagnostic` — a problem.
* `Validate.health`, `Validate.policy`, … — the checks of one table.
* `validate` — the configuration, or the problems.
-/

namespace Polywan

open Lib Duration

/-- A problem of a configuration file. -/
structure Diagnostic where
  line : Option ℕ
  key : String
  message : String
deriving DecidableEq

namespace Diagnostic

/-- By line, then by key. -/
def keyLe (a b : Diagnostic) : Bool :=
  match a.line, b.line with
  | none, some _ => true
  | some _, none => false
  | some m, some n => m < n || (m = n && decide (a.key ≤ b.key))
  | none, none => decide (a.key ≤ b.key)

/-- By line, then by key, then by message. -/
def le (a b : Diagnostic) : Bool :=
  keyLe a b && (!keyLe b a || decide (a.message ≤ b.message))

/-- Removes what repeats its neighbour. -/
def dedup (ds : List Diagnostic) : List Diagnostic := ds.destutter (· ≠ ·)

def tidy (ds : List Diagnostic) : List Diagnostic := dedup (ds.mergeSort le)

theorem tidy_eq_nil {ds : List Diagnostic} (h : tidy ds = []) : ds = [] := by
  have hsorted : ds.mergeSort le = [] := (List.destutter_eq_nil _).mp h
  rw [← List.length_eq_zero_iff, List.length_mergeSort] at hsorted
  exact List.length_eq_zero_iff.mp hsorted

end Diagnostic

/-- The types of the integers of the configuration. -/
inductive IntType where
  | u8
  | u16
  | u32
  | i32
deriving DecidableEq

namespace IntType

def fits : IntType → ℤ → Bool
  | u8, v => 0 ≤ v && v < 2 ^ 8
  | u16, v => 0 ≤ v && v < 2 ^ 16
  | u32, v => 0 ≤ v && v < 2 ^ 32
  | i32, v => -2 ^ 31 ≤ v && v < 2 ^ 31

end IntType

/-- Event types, accepted in filters. -/
def eventTypes : List String :=
  ["daemon_started", "daemon_stopping", "config_reloaded", "reload_failed", "path_state_changed",
    "path_address_changed", "path_gateway_changed", "active_set_changed", "uplink_drained",
    "uplink_undrained", "artifact_repaired", "apply_failed", "status_degraded", "status_recovered"]

/-- Event types that produce email unless others are chosen. -/
def defaultEmailEvents : List String :=
  ["daemon_started", "daemon_stopping", "config_reloaded", "reload_failed", "path_state_changed",
    "active_set_changed", "uplink_drained", "uplink_undrained", "status_degraded",
    "status_recovered"]

/-- Built-in probe targets. -/
def defaultTargets : Family → List String
  | .v4 => ["icmp:1.1.1.1", "icmp:8.8.8.8", "icmp:9.9.9.9", "icmp:208.67.222.222"]
  | .v6 => ["icmp:2606:4700:4700::1111", "icmp:2001:4860:4860::8888", "icmp:2620:fe::fe"]

/-- The number of distinct addresses among targets. -/
def distinctAddresses (targets : List Target) : ℕ := (targets.map Target.addr).dedup.length

/-- The finite value; what has none is refused. -/
def Fraction.value : Fraction → ℚ
  | .finite v => v
  | .other => 0

def Fraction.inUnit : Fraction → Bool
  | .finite v => 0 ≤ v && v ≤ 1
  | .other => false

/-- A number in hexadecimal, a negative one by its 64 bits. -/
def hex (v : ℤ) : String := "0x" ++ String.ofList (Nat.toDigits 16 (v % 2 ^ 64).toNat)

namespace Validate

/-- A check: it collects problems, and may stop at a number that does not fit. -/
abbrev Check := Collect Diagnostic

def err (line : Option ℕ) (key message : String) : Check Unit :=
  Collect.report ⟨line, key, message⟩

/-- A problem, on a condition. -/
def errIf (c : Prop) [Decidable c] (line : Option ℕ) (key message : String) : Check Unit :=
  if c then err line key message else pure ()

/-- The problem of a check that failed. -/
def errOf (result : Except String Unit) (line : Option ℕ) (key : String) : Check Unit :=
  match result with
  | .ok () => pure ()
  | .error message => err line key message

/-- A 32-bit number. -/
def checkedU32 (n : ℕ) : Check ℕ := Collect.ofOption (if n < 2 ^ 32 then some n else none)

/-- A 64-bit number. -/
def checkedUsize (n : ℕ) : Check ℕ := Collect.ofOption (if n < 2 ^ 64 then some n else none)

/-- An integer in a range, `default` when absent. -/
def int (type : IntType) (value : Option ℤ) (default low high : ℤ) (line : Option ℕ)
    (key : String) : Check ℤ :=
  match value with
  | none => pure default
  | some v =>
    if v < low ∨ high < v then do
      err line key s!"{v} is out of range {low}–{high}"
      pure default
    else pure (if type.fits v then v else default)

section Texts

variable (t : Texts)

def duration (value : Option String) (default : ℕ) (line : Option ℕ) (key : String) : Check ℕ :=
  match value with
  | none => pure default
  | some text =>
    match Duration.parse text with
    | some d => pure d
    | none => do
        err line key ("invalid duration " ++ t.debug text
          ++ " (expected for example \"5s\", \"500ms\", \"1m30s\")")
        pure default

def durationIn (value : Option String) (default low high : ℕ) (line : Option ℕ) (key : String) :
    Check ℕ := do
  let d ← duration t value default line key
  if d < low ∨ high < d then do
    err line key (s!"{Duration.format d} is out of range {Duration.format low}–"
      ++ Duration.format high)
    pure default
  else pure d

/-- The number of a discovery table. -/
def tableId (line : Option ℕ) : Raw.TableRef → Check (Option ℕ)
  | .name n =>
    if n = "main" then pure (some 254)
    else if n = "default" then pure (some 253)
    else do
      err line "routing.discovery_tables" ("unknown table name " ++ t.debug n
        ++ " (use \"main\", \"default\" or a number)")
      pure none
  | .id n =>
    if 1 ≤ n ∧ n < 2 ^ 32 ∧ n ≠ 255 then pure (some n.toNat)
    else do
      err line "routing.discovery_tables" s!"{n} is not a usable table id"
      pure none

/-- One discovery table, after those before it. -/
def discoveryTable (line : Option ℕ) (tableBase : ℕ) (tables : List ℕ) (ref : Raw.TableRef) :
    Check (List ℕ) := do
  match ← tableId t line ref with
  | none => pure tables
  | some id =>
    let last ← checkedU32 (tableBase + 191)
    if tableBase ≤ id ∧ id ≤ last then do
      err line "routing.discovery_tables" s!"table {id} is in PolyWAN's own range"
      pure tables
    else if id ∈ tables then pure tables
    else pure (tables ++ [id])

/-- The mask of the field. -/
def fwmarkMask (value : Option ℤ) (line : Option ℕ) : Check FwMask :=
  match value with
  | none => pure FwMask.default
  | some v =>
    match if 0 ≤ v ∧ v < 2 ^ 32 then FwMask.new (BitVec.ofInt 32 v) else none with
    | some m => pure m
    | none => do
        err line "routing.fwmark_mask" (hex v ++ " is not exactly 8 contiguous bits")
        pure FwMask.default

def routing (raw : Option (Spanned Raw.Routing)) : Check Routing := do
  let line := raw.map Spanned.line
  let r := (raw.map Spanned.value).getD {}
  let base ← int .u32 r.tableBase 1000 1 (4294967294 - 191) line "routing.table_base"
  let tableBase := base.toNat
  let last ← checkedU32 (tableBase + 191)
  errIf ((tableBase ≤ 253 ∧ 253 ≤ last) ∨ (tableBase ≤ 255 ∧ 255 ≤ last)) line
    "routing.table_base" s!"tables {tableBase}–{last} include the reserved tables 253–255"
  let rulePriorityBase ←
    int .u32 r.rulePriorityBase 1000 1 (32765 - 699) line "routing.rule_priority_base"
  let routeProtocol ← int .u8 r.routeProtocol 249 5 255 line "routing.route_protocol"
  let fwmarkMask ← fwmarkMask r.fwmarkMask line
  let discoveryTables ←
    (r.discoveryTables.getD [.name "main"]).foldlM (discoveryTable t line tableBase) []
  let reconcileInterval ← durationIn t r.reconcileInterval (ofSecs 60) (ofSecs 10) (ofSecs 3600)
    line "routing.reconcile_interval"
  return {
    tableBase
    rulePriorityBase := rulePriorityBase.toNat
    routeProtocol := routeProtocol.toNat
    fwmarkMask
    allDownPolicy := r.allDownPolicy.getD .ready
    discoveryTables
    manageSysctls := r.manageSysctls.getD true
    reconcileInterval
    onShutdown := r.onShutdown.getD .keep }

def firewall (raw : Option (Spanned Raw.Firewall)) : Check Firewall := do
  let line := raw.map Spanned.line
  let f := (raw.map Spanned.value).getD {}
  let natPriority ← int .i32 f.natPriority 100 (-149) 400 line "firewall.nat_priority"
  let nftPath := f.nftPath.getD "/usr/sbin/nft"
  errIf (¬ isAbsolute nftPath) line "firewall.nft_path" "must be an absolute path"
  return { mode := f.mode.getD .managed, natPriority, nftPath }

/-! ## Paths and health -/

/-- An address of a path, or `auto`. -/
def addr (family : Family) (line : Option ℕ) (key : String) (value : Option String) :
    Check (AutoOr IpAddr) :=
  match value with
  | none => pure .auto
  | some text =>
    if text = "auto" then pure .auto
    else
      match t.parseAddr text with
      | some a =>
        if Family.of a = family then pure (.static a)
        else do
          err line key s!"{text} is not an {family.key} address"
          pure .auto
      | none => do
          err line key (t.debug text ++ " is neither \"auto\" nor an address")
          pure .auto

/-- A static source must be one that the kernel can use. -/
def usableSource (line : Option ℕ) (key : String) : AutoOr IpAddr → Check Unit
  | .static a =>
    errIf (¬ isUsableSource a) line s!"{key}.source" (t.addr a ++ " cannot be a source address")
  | .auto => pure ()

/-- The source translation of a path; there is no default for IPv6. -/
def nat (family : Family) (line : Option ℕ) (key : String) (value : Option NatMode) :
    Check NatMode :=
  match value, family with
  | some n, _ => pure n
  | none, .v4 => pure .masquerade
  | none, .v6 => do
      err line s!"{key}.nat"
        "must be set explicitly for IPv6 (\"masquerade\", \"snat\" or \"none\", FR-NAT-1)"
      pure .none

def path (raw : Spanned Raw.Path) (family : Family) (key : String) : Check PathSettings := do
  let line := some raw.line
  let p := raw.value
  let source ← addr t family line s!"{key}.source" p.source
  let gateway ← addr t family line s!"{key}.gateway" p.gateway
  usableSource t line key source
  let gatewayOnlink := p.gatewayOnlink.getD false
  errIf (gatewayOnlink ∧ gateway = .auto) line s!"{key}.gateway_onlink"
    "requires a static gateway (FR-DISC-4)"
  let nat ← nat family line key p.nat
  errIf (nat = .snat ∧ source = .auto) line s!"{key}.source"
    "nat = \"snat\" requires a static source address"
  return { source, gateway, gatewayOnlink, nat }

/-- The settings of an uplink over the global ones. -/
def mergeHealth (globalHealth localHealth : Option Raw.Health) : Raw.Health :=
  let g := globalHealth.getD {}
  match localHealth with
  | none => g
  | some l =>
    let gq := g.quality.getD {}
    let quality := l.quality.map fun lq => {
      maxRtt := lq.maxRtt.or gq.maxRtt
      maxJitter := lq.maxJitter.or gq.maxJitter
      maxLoss := lq.maxLoss.or gq.maxLoss }
    { interval := l.interval.or g.interval
      timeout := l.timeout.or g.timeout
      attempts := l.attempts.or g.attempts
      requiredReachable := l.requiredReachable.or g.requiredReachable
      fall := l.fall.or g.fall
      rise := l.rise.or g.rise
      ipv4 := l.ipv4.or g.ipv4
      ipv6 := l.ipv6.or g.ipv6
      quality := quality.or (some gq)
      qualityWindow := l.qualityWindow.or g.qualityWindow
      qualityMinSamples := l.qualityMinSamples.or g.qualityMinSamples }

/-- One target, after those before it. -/
def target (family : Family) (line : Option ℕ) (key : String) (targets : List Target)
    (text : String) : Check (List Target) :=
  match parseTarget t text with
  | .ok target =>
    if Family.of target.addr ≠ family then do
      err line key (t.debug text ++ s!" is not an {family.key} target")
      pure targets
    else if ¬ isGlobalUnicast target.addr then do
      err line key (t.debug text ++ ": the address is not global unicast (FR-PROBE-2)")
      pure targets
    else if target ∈ targets then do
      err line key (t.debug text ++ " is listed more than once")
      pure targets
    else pure (targets ++ [target])
  | .error e => do
      err line key e
      pure targets

/-- The targets of a family. -/
def targets (h : Raw.Health) (families : List Family) (line : Option ℕ) (key : String)
    (family : Family) : Check (List Target) := do
  let list := (match family with
    | .v4 => h.ipv4
    | .v6 => h.ipv6).getD (defaultTargets family)
  let key := s!"{key}.{family.key}.targets"
  let out ← list.foldlM (target t family line key) []
  errIf (out = [] ∧ family ∈ families) line key "at least one target is required"
  return out

/-- Each enabled family has as many targets as have to answer. -/
def reachable (required : ℕ) (targets : Family → List Target) (line : Option ℕ) (key : String)
    (f : Family) : Check Unit :=
  let n := distinctAddresses (targets f)
  errIf (0 < n ∧ n < required) line s!"{key}.required_reachable"
    s!"{required} exceeds the {n} distinct {f.key} targets (FR-PROBE-4)"

/-- The gates of a path. -/
def quality (q : Raw.Quality) (line : Option ℕ) (key : String) : Check Quality := do
  let maxRtt ← gate q.maxRtt s!"{key}.quality.max_rtt"
  let maxJitter ← gate q.maxJitter s!"{key}.quality.max_jitter"
  errIf (q.maxLoss.any fun l => !l.inUnit) line s!"{key}.quality.max_loss"
    ((q.maxLoss.map t.fraction).getD "" ++ " is out of range 0–1")
  return { maxRtt, maxJitter, maxLoss := q.maxLoss.map Fraction.value }
where
  gate (value : Option String) (key : String) : Check (Option ℕ) :=
    match value with
    | none => pure none
    | some text => do
        let d ← duration t (some text) 0 line key
        return some d

/-- The samples that a full window holds of the smallest list of targets. -/
def sampleCapacity (enabled : Bool) (fewest : Option ℕ) (window : ℕ) : Check (Option ℕ) :=
  if enabled then
    match fewest with
    | some n => do
        let capacity ← checkedUsize (n * window)
        return some capacity
    | none => pure none
  else pure none

def health (h : Raw.Health) (families : List Family) (line : Option ℕ) (key : String) :
    Check Health := do
  let interval ← durationIn t h.interval (ofSecs 5) (ofSecs 1) (ofSecs 300) line s!"{key}.interval"
  let timeout ← duration t h.timeout (ofSecs 1) line s!"{key}.timeout"
  errIf (timeout = 0) line s!"{key}.timeout" "must be greater than zero"
  let attempts ← int .u8 h.attempts 2 1 5 line s!"{key}.attempts"
  let round ← Collect.ofOption (checkedMul timeout attempts.toNat)
  errIf (interval ≤ round) line s!"{key}.timeout"
    (s!"timeout × attempts ({format timeout} × {attempts}) must be shorter than interval "
      ++ s!"({format interval}) (FR-PROBE-4)")
  let fall ← int .u8 h.fall 2 1 20 line s!"{key}.fall"
  let rise ← int .u8 h.rise 3 1 20 line s!"{key}.rise"
  let targetsV4 ← targets t h families line key .v4
  let targetsV6 ← targets t h families line key .v6
  let lists : Family → List Target
    | .v4 => targetsV4
    | .v6 => targetsV6
  let required ← int .u8 h.requiredReachable 2 1 255 line s!"{key}.required_reachable"
  families.forM (reachable required.toNat lists line key)
  let gates ← quality t (h.quality.getD {}) line key
  let window ← int .u8 h.qualityWindow 6 2 100 line s!"{key}.quality_window"
  let samples ← int .u16 h.qualityMinSamples 10 1 10000 line s!"{key}.quality_min_samples"
  let capacity ← sampleCapacity gates.enabled (families.map (distinctAddresses ∘ lists)).min?
    window.toNat
  errIf (capacity.any (· < samples.toNat)) line s!"{key}.quality_min_samples"
    s!"{samples} exceeds targets × quality_window ({capacity.getD 0}) (FR-PROBE-5)"
  return {
    interval
    timeout
    attempts := attempts.toNat
    requiredReachable := required.toNat
    fall := fall.toNat
    rise := rise.toNat
    targetsV4
    targetsV6
    quality := gates
    qualityWindow := window.toNat
    qualityMinSamples := samples.toNat }

/-! ## Uplinks -/

/-- What the loop over the uplinks has seen. -/
structure Seen where
  interfaces : List String
  uplinks : List Uplink := []
  staticSources : List (IpAddr × String) := []

/-- One downlink: the interfaces seen, and the downlinks. -/
def downlink (seen : List String × List String) (d : Spanned Raw.Downlink × ℕ) :
    Check (List String × List String) := do
  let key := s!"downlink[{d.2}].interface"
  let name := d.1.value.interface
  let interfaces ← interface seen.1 name (some d.1.line) key
    ("interface " ++ t.debug name ++ " is listed more than once")
  return (interfaces, seen.2 ++ [name])
where
  /-- A valid name that is not taken is taken. -/
  interface (seen : List String) (name : String) (line : Option ℕ) (key taken : String) :
      Check (List String) :=
    match checkInterfaceName t name with
    | .error e => do
        err line key e
        pure seen
    | .ok () =>
      if name ∈ seen then do
        err line key taken
        pure seen
      else pure (name :: seen)

/-- The id of an uplink; 1 stands for an impossible one. -/
def uplinkId (id : ℤ) (line : Option ℕ) (key : String) : Check UplinkId :=
  match if 0 ≤ id ∧ id < 2 ^ 8 then UplinkId.new (BitVec.ofInt 8 id) else none with
  | some id => pure id
  | none => do
      err line s!"{key}.id" s!"{id} is out of range 1–63"
      pure ⟨1, UplinkId.one_le_one, UplinkId.one_le_max⟩

def uplinkName (seen : List Uplink) (name : String) (line : Option ℕ) (key : String) :
    Check Unit :=
  if ¬ validUplinkName name then
    err line s!"{key}.name" (t.debug name ++ " must match [a-z0-9_-]\x7b1,32\x7d")
  else
    errIf (∃ o ∈ seen, o.name = name) line s!"{key}.name"
      ("name " ++ t.debug name ++ " is used by another uplink")

/-- A static source is used by one path only. -/
def staticSource (line : Option ℕ) (key name : String) (seen : List (IpAddr × String))
    (p : PathSettings) : Check (List (IpAddr × String)) :=
  match p.source with
  | .auto => pure seen
  | .static a => do
      let other := seen.find? fun s => s.1 = a
      errIf other.isSome line s!"{key}.source" (s!"static source {t.addr a} is also used by uplink "
        ++ t.debug ((other.map Prod.snd).getD "") ++ " (FR-DISC-2)")
      return seen ++ [(a, name)]

/-- The settings of a family, if it is enabled. -/
def optionalPath (raw : Option (Spanned Raw.Path)) (family : Family) (key : String) :
    Check (Option PathSettings) :=
  match raw with
  | none => pure none
  | some raw => do
      let p ← path t raw family key
      return some p

def optionalInt (type : IntType) (value : Option ℤ) (default low high : ℤ) (line : Option ℕ)
    (key : String) : Check (Option ℕ) :=
  match value with
  | none => pure none
  | some v => do
      let n ← int type (some v) default low high line key
      return some n.toNat

def uplink (globalHealth : Option (Spanned Raw.Health)) (seen : Seen)
    (raw : Spanned Raw.Uplink × ℕ) : Check Seen := do
  let line := some raw.1.line
  let u := raw.1.value
  let key := s!"uplink[{raw.2}]"
  let id ← uplinkId u.id line key
  errIf ((∃ o ∈ seen.uplinks, o.id = id) ∧ 1 ≤ u.id ∧ u.id ≤ 63) line s!"{key}.id"
    s!"id {id.num} is used by another uplink"
  uplinkName t seen.uplinks u.name line key
  let interfaces ← downlink.interface t seen.interfaces u.interface line s!"{key}.interface"
    ("interface " ++ t.debug u.interface ++ " is already used by another uplink or downlink")
  let priority ← optionalInt .u16 u.priority 1 1 1000 line s!"{key}.priority"
  let weight ← int .u16 u.weight 1 1 256 line s!"{key}.weight"
  errIf (u.ipv4 = none ∧ u.ipv6 = none) line key
    "at least one of [uplink.ipv4] and [uplink.ipv6] is required"
  let ipv4 ← optionalPath t u.ipv4 .v4 s!"{key}.ipv4"
  let ipv6 ← optionalPath t u.ipv6 .v6 s!"{key}.ipv6"
  let staticSources ← (ipv4.toList ++ ipv6.toList).foldlM (staticSource t line key u.name)
    seen.staticSources
  let families := (if ipv4.isSome then [Family.v4] else []) ++
    if ipv6.isSome then [Family.v6] else []
  let merged := mergeHealth (globalHealth.map Spanned.value) (u.health.map Spanned.value)
  let place := match u.health with
    | some h => (some h.line, s!"{key}.health")
    | none => (globalHealth.map Spanned.line, "health")
  let health ← health t merged families place.1 place.2
  return {
    interfaces
    staticSources
    uplinks := seen.uplinks ++ [{
      id
      name := u.name
      description := u.description.getD u.name
      interface := u.interface
      priority
      weight := weight.toNat
      ipv4
      ipv6
      health }] }

/-! ## Policies -/

/-- The uplink that a policy names. -/
def policyUplink (uplinks : List Uplink) (name : String) (family : Family) (line : Option ℕ)
    (key : String) : Check (Option UplinkId) :=
  match uplinks.find? fun u => u.name = name with
  | some u => do
      errIf (u.path family = none) line s!"{key}.uplink"
        ("uplink " ++ t.debug u.name ++ s!" does not enable {family.key}")
      return some u.id
  | none => do
      err line s!"{key}.uplink" ("no uplink is named " ++ t.debug name)
      return none

/-- A prefix of the family of a policy. -/
def policyNet (value : Option String) (family : Family) (line : Option ℕ) (key : String) :
    Check (Option IpNet) :=
  match value with
  | none => pure none
  | some text =>
    match (t.parseNet text).or ((t.parseAddr text).map IpNet.ofAddr) with
    | some n =>
      if Family.of n.addr = family then pure (some n.trunc)
      else do
        err line key s!"{text} is not an {family.key} prefix"
        pure none
    | none => do
        err line key (t.debug text ++ " is not a prefix")
        pure none

/-- The ICMP of the other family is refused. -/
def policyProtocol (protocol : Option Protocol) (family : Family) (line : Option ℕ)
    (key : String) : Check Unit :=
  match protocol, family with
  | some .icmp, .v6 => err line s!"{key}.protocol" "\"icmp\" is IPv4 only, use \"icmpv6\""
  | some .icmpv6, .v4 => err line s!"{key}.protocol" "\"icmpv6\" is IPv6 only, use \"icmp\""
  | _, _ => pure ()

/-- The bounds of a range of ports. -/
def portRange : Raw.PortSpec → Option (ℤ × ℤ)
  | .port n => some (n, n)
  | .range text =>
    let chars := text.toList
    if chars.contains '-' then do
      let low ← parseInt (trim (chars.takeWhile (· ≠ '-')))
      let high ← parseInt (trim ((chars.dropWhile (· ≠ '-')).drop 1))
      some (low, high)
    else none

def destinationPort (spec : Option Raw.PortSpec) (protocol : Option Protocol) (line : Option ℕ)
    (key : String) : Check (Option (ℕ × ℕ)) :=
  match spec with
  | none => pure none
  | some spec =>
    if protocol ≠ some .tcp ∧ protocol ≠ some .udp ∧ protocol ≠ some .sctp then do
      err line s!"{key}.destination_port" "ports require protocol \"tcp\", \"udp\" or \"sctp\""
      pure none
    else
      match (portRange spec).filter fun r =>
          1 ≤ r.1 ∧ r.1 ≤ 65535 ∧ 1 ≤ r.2 ∧ r.2 ≤ 65535 ∧ r.1 ≤ r.2 with
      | some r => pure (some (r.1.toNat, r.2.toNat))
      | none => do
          err line s!"{key}.destination_port"
            "must be a port 1–65535 or a range \"A-B\" with A ≤ B"
          pure none

/-- One policy, after those before it; one with problems is left out. -/
def policy (uplinks : List Uplink) (downlinks : List String) (policies : List Policy)
    (raw : Spanned Raw.Policy × ℕ) : Check (List Policy) := do
  let line := some raw.1.line
  let p := raw.1.value
  let key := s!"policy[{raw.2}]"
  let before ← Collect.count
  let uplink ← policyUplink t uplinks p.uplink p.family line key
  errIf (p.inputInterface.any fun i => i ∉ downlinks) line s!"{key}.input_interface"
    (t.debug (p.inputInterface.getD "") ++ " is not a downlink")
  let source ← policyNet t p.source p.family line s!"{key}.source"
  let destination ← policyNet t p.destination p.family line s!"{key}.destination"
  policyProtocol p.protocol p.family line key
  let port ← destinationPort p.destinationPort p.protocol line key
  let after ← Collect.count
  if after ≠ before then return policies
  else
    match uplink with
    | none => return policies
    | some uplink => return policies ++ [{
        name := p.name
        family := p.family
        inputInterface := p.inputInterface
        source
        destination
        protocol := p.protocol
        destinationPort := port
        uplink
        fallback := p.fallback.getD .balance }]

/-- One policy name, after those before it. -/
def policyName (names : List String) (p : Policy × ℕ) : Check (List String) := do
  errIf (p.1.name ∈ names) none s!"policy[{p.2}].name"
    ("policy name " ++ t.debug p.1.name ++ " is used more than once")
  return p.1.name :: names

/-! ## Notifications, sockets and the rest -/

/-- An explicit filter of events: it is not empty, and all types exist. -/
def checkEvents (events : List String) (line : Option ℕ) (key : String) : Check Unit := do
  errIf (events = []) line key "must not be empty (omit it for the default selection)"
  events.forM fun event =>
    errIf (event ∉ eventTypes) line key ("unknown event type " ++ t.debug event)

/-- The event types that produce email, without repetitions. -/
def emailEvents (events : Option (List String)) (line : Option ℕ) : Check (List String) :=
  match events with
  | none => pure defaultEmailEvents
  | some events => do
      checkEvents t events line "notify.email.events"
      return events.foldl (fun unique e => if e ∈ unique then unique else unique ++ [e]) []

def email (raw : Spanned Raw.Email) : Check Email := do
  let line := some raw.line
  let e := raw.value
  let maxPerHour ← int .u32 e.maxPerHour 20 1 10000 line "notify.email.max_per_hour"
  errOf (checkMailbox t e.sender) line "notify.email.from"
  errIf (e.recipients = []) line "notify.email.to" "at least one recipient is required"
  e.recipients.zipIdx.forM fun r => errOf (checkMailbox t r.1) line s!"notify.email.to[{r.2}]"
  let sendmail := e.sendmail.getD "/usr/sbin/sendmail"
  errIf (¬ isAbsolute sendmail) line "notify.email.sendmail"
    "must be an absolute path, without arguments"
  let events ← emailEvents t e.events line
  return { sender := e.sender, recipients := e.recipients, sendmail
           maxPerHour := maxPerHour.toNat, events }

def optionalEmail (raw : Option (Spanned Raw.Email)) : Check (Option Email) :=
  match raw with
  | none => pure none
  | some raw => do
      let e ← email t raw
      return some e

def optionalEvents (events : Option (List String)) (line : Option ℕ) (key : String) :
    Check Unit :=
  match events with
  | none => pure ()
  | some events => checkEvents t events line key

/-- One hook, after those before it. -/
def hook (hooks : List Hook) (raw : Spanned Raw.Hook × ℕ) : Check (List Hook) := do
  let line := some raw.1.line
  let h := raw.1.value
  let key := s!"notify.hook[{raw.2}]"
  errIf (¬ h.command.head?.any isAbsolute) line s!"{key}.command"
    "the first element must be an absolute executable path"
  optionalEvents t h.events line s!"{key}.events"
  let timeout ← duration t h.timeout (ofSecs 10) line s!"{key}.timeout"
  errIf (timeout = 0) line s!"{key}.timeout" "must be greater than zero"
  return hooks ++ [{ command := h.command, events := h.events, timeout }]

def notify (raw : Option (Spanned Raw.Notify)) : Check Notify :=
  match raw with
  | none => pure { coalesce := ofSecs 30, email := none, hooks := [], hookUser := "nobody" }
  | some raw => do
      let line := some raw.line
      let n := raw.value
      let coalesce ← duration t n.coalesce (ofSecs 30) line "notify.coalesce"
      let email ← optionalEmail t n.email
      let hooks ← n.hook.zipIdx.foldlM (hook t) []
      let hookUser := n.hookUser.getD "nobody"
      errOf (checkAccountName t hookUser) line "notify.hook_user"
      return { coalesce, email, hooks, hookUser }

/-- Paths are equal when their components are. -/
def samePath (a b : String) : Bool := isAbsolute a = isAbsolute b &&
  Polywan.components a = Polywan.components b

/-- The status socket is another one than that of the API. -/
def statusSocket (socket : String) (line : Option ℕ) (status : Option String) : Check Unit :=
  match status with
  | none => pure ()
  | some p =>
    match checkSocketPath p with
    | .error m => err line "api.status_socket" m
    | .ok () => errIf (samePath p socket) line "api.status_socket"
        "must be distinct from api.socket (FR-API-1)"

def api (raw : Option (Spanned Raw.Api)) : Check Api := do
  let line := raw.map Spanned.line
  let a := (raw.map Spanned.value).getD {}
  let socket := a.socket.getD "/run/polywan/api.sock"
  errOf (checkSocketPath socket) line "api.socket"
  let status := (some (a.statusSocket.getD "/run/polywan/status.sock")).filter (· ≠ "")
  statusSocket socket line status
  let group := a.group.getD "polywan"
  errOf (checkAccountName t group) line "api.group"
  a.statusGroup.forM fun g => errOf (checkAccountName t g) line "api.status_group"
  return { socket, group, statusSocket := status, statusGroup := a.statusGroup }

def metricsListen (raw : Option (Spanned Raw.Metrics)) : Check (Option SocketAddr) :=
  match raw.bind fun m => m.value.listen.map fun l => (m.line, l) with
  | none => pure none
  | some (line, l) =>
    match t.parseSocketAddr l with
    | some a => pure (some a)
    | none => do
        err (some line) "metrics.listen"
          (t.debug l ++ " is not a socket address such as 127.0.0.1:9750")
        pure none

def checkStateDir (path : String) : Except String Unit :=
  if ¬ isAbsolute path then .error "must be an absolute path"
  else if (Polywan.components path).any (· = ['.', '.']) then .error "must not contain `..`"
  else .ok ()

def stateDir (raw : Option (Spanned String)) : Check String :=
  match raw with
  | none => pure "/var/lib/polywan"
  | some s => do
      errOf (checkStateDir s.value) (some s.line) "state_dir"
      return s.value

/-- The whole configuration. -/
def configuration (raw : Raw.Config) : Check Configuration := do
  let routing ← routing t raw.routing
  let firewall ← firewall raw.firewall
  errIf (raw.downlink = []) none "downlink" "at least one [[downlink]] is required"
  let downlinks ← raw.downlink.zipIdx.foldlM (downlink t) ([], [])
  errIf (raw.uplink = []) none "uplink" "at least one [[uplink]] is required"
  let seen ← raw.uplink.zipIdx.foldlM (uplink t raw.health) { interfaces := downlinks.1 }
  -- Problems of the global health settings repeat for every uplink without an override.
  Collect.tidy Diagnostic.tidy fun _ => Diagnostic.tidy_eq_nil
  let policies ← raw.policy.zipIdx.foldlM (policy t seen.uplinks downlinks.2) []
  let _ ← policies.zipIdx.foldlM (policyName t) []
  let notify ← notify t raw.notify
  let api ← api t raw.api
  let metricsListen ← metricsListen t raw.metrics
  let stateDir ← stateDir raw.stateDir
  return {
    routing
    firewall
    downlinks := downlinks.2
    uplinks := seen.uplinks
    policies
    notify
    api
    metricsListen
    stateDir }

end Texts

end Validate

/-- The accepted configuration, or the problems of the file; no result where the arithmetic
stops the process. -/
def validate (t : Texts) (raw : Raw.Config) : Option (Except (List Diagnostic) Configuration) :=
  ((Validate.configuration t raw).run []).map fun (c, ds) =>
    if ds = [] then .ok c else .error (Diagnostic.dedup (ds.mergeSort Diagnostic.keyLe))

end Polywan
