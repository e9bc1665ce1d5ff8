import Polywan.Daemon.Pass
import Polywan.Discover.Congr
import Polywan.Reconcile.Families

/-!
# The families do not interfere

Discovery, the selection of the active sets, the planner and the comparison treat the
families apart: whatever happens to one, the other is planned and repaired alike.

## Main definitions

* `Config.StaticSources` — the static sources of a family are addresses of it.
* `Daemon.Agrees` — two states agree on all that concerns a family.

## Main results

* `discover_keeping` — discovery of a family.
* `Daemon.families_apart` — the plan and the operations of a family.
-/

namespace Polywan

open Discover

/-- The static sources of a family are addresses of it, as the validation accepts them. -/
def Config.StaticSources (f : Family) (c : Config) : Prop :=
  ∀ u ∈ c.uplinks, ∀ p, u.path f = some p → ∀ a, p.source = .static a → Family.of a = f

variable {f : Family}

/-- The restriction to a family says which. -/
theorem Config.staticSources_keeping {c : Config} :
    (c.keeping f).StaticSources f ↔ c.StaticSources f := by
  simp [StaticSources, keeping]

/-! ## Discovery -/

section Discovery

variable {c : Config} {s : System} {ownProtocol now : ℕ}

theorem pathAgrees_keeping {tables : List ℕ} {p : PathSettings}
    (hp : ∀ a, p.source = .static a → Family.of a = f) :
    PathAgrees tables ownProtocol now f p s (s.keeping f) where
  links := rfl
  nexthops := rfl
  onLink i := Lib.filter_values_filter fun a ha => by simp_all
  elsewhere i := by
    cases hsource : p.source with
    | auto => simp only [staticSourceElsewhere, hsource]
    | static source =>
      have hfamily := hp source hsource
      simp only [staticSourceElsewhere, hsource]
      exact congrArg _ (Lib.find?_values_filter fun a ha => by simp_all)
  source l := by
    cases hsource : p.source with
    | auto => simp only [discoverSource, hsource]
    | static source =>
      have hfamily := hp source hsource
      have hpresent : ((s.keeping f).addresses.toList.map Prod.snd).any (fun a =>
          a.address = source && usable a && !a.deprecated) =
          (s.addresses.toList.map Prod.snd).any fun a =>
            a.address = source && usable a && !a.deprecated :=
        Lib.any_values_filter fun a ha => by simp_all
      simp only [discoverSource, hsource, hpresent]
  connected i gw := by rw [connected, routesIn_keeping, connected]
  candidates t _ := by rw [candidates, routesIn_keeping, candidates]

/-- The paths of one family, as discovery enters them. -/
def familyPaths (c : Config) (s : System) (ownProtocol now : ℕ) (f : Family) :
    List (PathKey × Discovered) :=
  c.uplinks.flatMap fun u => ((u.path f).map fun p =>
    (⟨u.id, f⟩, discoverPath c s ownProtocol u f p now)).toList

/-- The settings of one family among those of an uplink. -/
theorem filter_families {α : Type} (u : Uplink) (key : Family → PathKey)
    (hkey : ∀ g, (key g).family = g) (value : Family → PathSettings → α) :
    (u.families.filterMap fun g => (u.path g).map fun p => (key g, value g p)).filter
        (fun e => e.1.family = f) = ((u.path f).map fun p => (key f, value f p)).toList := by
  have hv4 := hkey .v4
  have hv6 := hkey .v6
  cases f <;> cases h4 : u.ipv4 <;> cases h6 : u.ipv6 <;>
    simp [Uplink.families, Family.all, Uplink.path, h4, h6, hv4, hv6]

theorem discoverPaths_family (id : UplinkId) :
    (discoverPaths c s ownProtocol now)[(⟨id, f⟩ : PathKey)]? =
      (Std.ExtTreeMap.ofList (familyPaths c s ownProtocol now f) compare)[
        (⟨id, f⟩ : PathKey)]? := by
  have hpart : familyPaths c s ownProtocol now f =
      (c.uplinks.flatMap fun u => u.families.filterMap fun family => (u.path family).map fun p =>
        ((⟨u.id, family⟩ : PathKey), discoverPath c s ownProtocol u family p now)).filter
          fun e => e.1.family = f := by
    rw [List.filter_flatMap, familyPaths]
    exact List.flatMap_congr fun u _ => (filter_families u (fun g => ⟨u.id, g⟩) (fun _ => rfl)
      fun g p => discoverPath c s ownProtocol u g p now).symm
  rw [discoverPaths, hpart]
  exact (@Lib.getElem?_ofList_filter _ _ _ _ (fun k : PathKey => k.family = f) _ (by simp)).symm

variable (hc : c.StaticSources f)
include hc

theorem familyPaths_keeping :
    familyPaths (c.keeping f) (s.keeping f) ownProtocol now f =
      familyPaths c s ownProtocol now f := by
  simp only [familyPaths, Config.keeping, List.flatMap_map]
  refine List.flatMap_congr fun u hu => ?_
  rw [Uplink.path_keeping, Uplink.id_keeping]
  congr 1
  refine Option.map_congr fun p hp => ?_
  have hpath : discoverPath (c.keeping f) (s.keeping f) ownProtocol (u.keeping f) f p now =
      discoverPath c s ownProtocol u f p now :=
    discoverPath_congr rfl (pathAgrees_keeping (hc u hu p hp)) u.interface_keeping
  rw [← hpath]
  rfl

/-- **Discovery of a family** reads what concerns the family. -/
theorem discover_keeping (id : UplinkId) :
    (discover (c.keeping f) (s.keeping f) ownProtocol now)[(⟨id, f⟩ : PathKey)]? =
      (discover c s ownProtocol now)[(⟨id, f⟩ : PathKey)]? := by
  have hpaths : ∀ id, (discoverPaths (c.keeping f) (s.keeping f) ownProtocol now)[
      (⟨id, f⟩ : PathKey)]? = (discoverPaths c s ownProtocol now)[(⟨id, f⟩ : PathKey)]? := by
    intro id
    rw [discoverPaths_family, discoverPaths_family, familyPaths_keeping hc]
  have hconflicted : ∀ raw, conflicted (discoverPaths (c.keeping f) (s.keeping f) ownProtocol now)
      ⟨id, f⟩ raw = conflicted (discoverPaths c s ownProtocol now) ⟨id, f⟩ raw := by
    intro raw
    rw [Bool.eq_iff_iff]
    simp only [conflicted, List.any_eq_true, Prod.exists,
      Std.ExtTreeMap.mem_toList_iff_getElem?_eq_some, Bool.and_eq_true, decide_eq_true_eq]
    refine exists_congr fun k => exists_congr fun raw' => and_congr_left fun hk => ?_
    obtain ⟨id', g⟩ := k
    obtain rfl : g = f := hk.1.2
    rw [hpaths]
  simp only [discover, Std.ExtTreeMap.getElem?_map, hpaths, hconflicted]

end Discovery

/-! ## Evaluation -/

namespace Daemon

/-- Two states agree on a family: on the configuration and the view of it, on the health and
the installation of its paths, on the drained uplinks and on its active set. -/
structure Agrees (f : Family) (d d' : Daemon) : Prop where
  cfg : d'.cfg.keeping f = d.cfg.keeping f
  system : d'.system.keeping f = d.system.keeping f
  paths : ∀ id, d'.paths[(⟨id, f⟩ : PathKey)]? = d.paths[(⟨id, f⟩ : PathKey)]?
  failed : ∀ id, d'.routeFailed.contains ⟨id, f⟩ = d.routeFailed.contains ⟨id, f⟩
  settings : ∀ i, d'.sysctlsUnapplied (.interface i) (some f) =
    d.sysctlsUnapplied (.interface i) (some f)
  drained : d'.drained = d.drained
  active : d'.active[f]? = d.active[f]?
  newPaths : ∀ id, (⟨id, f⟩ : PathKey) ∈ d'.newPaths ↔ (⟨id, f⟩ : PathKey) ∈ d.newPaths

section Agrees

variable {d d' : Daemon} (h : d.Agrees f d')
include h

theorem Agrees.routing : d'.cfg.routing = d.cfg.routing := by
  have hrouting : (d'.cfg.keeping f).routing = (d.cfg.keeping f).routing := by rw [h.cfg]
  exact hrouting

/-- The same paths are discovered. -/
theorem Agrees.discovered (hc : d.cfg.StaticSources f) (now : ℕ) (id : UplinkId) :
    (d'.discovered now)[(⟨id, f⟩ : PathKey)]? = (d.discovered now)[(⟨id, f⟩ : PathKey)]? := by
  have hc' : d'.cfg.StaticSources f := by
    rw [← Config.staticSources_keeping, h.cfg, Config.staticSources_keeping]
    exact hc
  rw [Daemon.discovered, ← discover_keeping hc', h.cfg, h.system, discover_keeping hc, protocol,
    h.routing]
  rfl

/-- A path is ready and healthy in both. -/
theorem Agrees.evaluatePath (id : UplinkId) (raw : Discovered) :
    d'.evaluatePath ⟨id, f⟩ raw = d.evaluatePath ⟨id, f⟩ raw := by
  have hinterface : ∀ (c : Config) (P : String → Bool),
      ((c.keeping f).uplink id).any (fun u => P u.interface) =
        (c.uplink id).any fun u => P u.interface := by
    intro c P
    simp only [Config.uplink, Config.keeping, List.find?_map, Option.any_map, Function.comp_def,
      Uplink.id_keeping, Uplink.interface_keeping]
  have hsettings : ((d'.cfg.uplink id).any fun u =>
      d'.sysctlsUnapplied (.interface u.interface) (some f)) =
      (d.cfg.uplink id).any fun u => d.sysctlsUnapplied (.interface u.interface) (some f) := by
    simp only [h.settings]
    rw [← hinterface d'.cfg fun i => d.sysctlsUnapplied (.interface i) (some f), h.cfg,
      hinterface d.cfg fun i => d.sysctlsUnapplied (.interface i) (some f)]
  have hready : d'.pathReady ⟨id, f⟩ raw = d.pathReady ⟨id, f⟩ raw := by
    have hunchanged : d'.unchanged ⟨id, f⟩ raw = d.unchanged ⟨id, f⟩ raw := by
      rw [unchanged, h.paths, unchanged]
    simp only [pathReady, hsettings, hunchanged, h.failed]
  simp only [Daemon.evaluatePath, evaluateMachine, machineOf, hready, h.paths, h.drained]

/-- The same candidates are selected from. -/
theorem Agrees.select {paths paths' : Std.ExtTreeMap PathKey PathInput}
    (hpaths : ∀ id, paths'[(⟨id, f⟩ : PathKey)]? = paths[(⟨id, f⟩ : PathKey)]?) :
    d'.select paths' f = d.select paths f := by
  have hkeeping : ∀ d : Daemon, d.candidates paths f =
      { d with cfg := d.cfg.keeping f : Daemon }.candidates paths f := by
    intro d
    simp only [candidates, Config.keeping, List.filterMap_map, Function.comp_def,
      Uplink.id_keeping, Uplink.priority_keeping]
  have hcandidates : d'.candidates paths' f = d.candidates paths f := by
    have hsame : d'.candidates paths' f = d'.candidates paths f := by
      simp only [candidates, hpaths]
    rw [hsame, hkeeping d', hkeeping d, h.cfg]
    rfl
  rw [Daemon.select, hcandidates, h.routing, h.active, Daemon.select]

/-- The planner gets the same for the family. -/
theorem Agrees.input (hc : d.cfg.StaticSources f) (now : ℕ) :
    (d.evaluateInput now).Agrees f (d'.evaluateInput now) := by
  have hpaths : ∀ id, (d'.evaluateInput now).paths[(⟨id, f⟩ : PathKey)]? =
      (d.evaluateInput now).paths[(⟨id, f⟩ : PathKey)]? := by
    intro id
    simp only [evaluateInput, Std.ExtTreeMap.getElem?_map, h.discovered hc]
    exact Option.map_congr fun raw _ => h.evaluatePath id raw
  have hmanages : d'.cfg.manages f = d.cfg.manages f := by
    rw [← Config.manages_keeping, h.cfg, Config.manages_keeping]
  have hactive : ∀ d : Daemon, (d.evaluateInput now).active[f]? =
      if d.cfg.manages f then some (d.select (d.evaluateInput now).paths f) else none := by
    intro d
    simp only [evaluateInput, Lib.getElem?_foldl_insert, List.mem_filter, Family.mem_all, true_and,
      Std.ExtTreeMap.getElem?_empty]
  refine ⟨hpaths, ?_⟩
  rw [hactive, hactive, hmanages, h.select hpaths]

end Agrees

end Daemon

/-- **The families do not interfere.**  In two states that agree on a family, whatever they
hold of the other one, the same rules and routes are planned for the family, and the
comparison makes the same operations on it in the same order. -/
theorem Daemon.families_apart {f : Family} {d d' : Daemon} (hc : d.cfg.StaticSources f)
    (h : d.Agrees f d') (now : ℕ) :
    (plan d'.cfg (d'.evaluateInput now)).keeping f =
        (plan d.cfg (d.evaluateInput now)).keeping f ∧
      (diff d'.system (d'.pass (d'.evaluateInput now)).diffInput).filter (Op.concerns f) =
        (diff d.system (d.pass (d.evaluateInput now)).diffInput).filter (Op.concerns f) := by
  have hinput := h.input hc now
  have hplan := plan_keeping h.cfg hinput
  refine ⟨hplan, ?_⟩
  rw [filter_diff (fun _ _ => key_of_planned) (fun _ _ => key_of_planned),
    filter_diff (fun _ _ => key_of_planned) (fun _ _ => key_of_planned), h.system]
  have hbefore := plan_keeping h.cfg (agrees_without hinput h.newPaths)
  have hmanages : d'.cfg.manages f = d.cfg.manages f := by
    rw [← Config.manages_keeping, h.cfg, Config.manages_keeping]
  have hfamilies : (Family.all.filter d'.cfg.manages).filter (fun g => g = f) =
      (Family.all.filter d.cfg.manages).filter fun g => g = f := by
    rw [List.filter_filter, List.filter_filter]
    refine List.filter_congr fun g _ => ?_
    by_cases hg : g = f
    · simp [hg, hmanages]
    · simp [hg]
  have hlayout : Layout.of d'.cfg = Layout.of d.cfg := by simp only [Layout.of, h.routing]
  congr 1
  simp only [DiffInput.keeping, Pass.diffInput, Daemon.pass, hplan, hbefore, hfamilies, hlayout,
    h.routing]

namespace Sample

/-- The first uplink alone, with nothing left to the daemon but the routing. -/
def bare : Config := { plain with routing := { plain.routing with manageSysctls := false } }

/-- The same with an IPv6 path too. -/
def dual : Config :=
  { bare with
    uplinks := bare.uplinks.map fun u => { u with ipv6 := some settings } }

def bareStart : Daemon := Daemon.start bare 7 0 network.system none ∅

/-- The IPv6 path is configured, and an IPv6 rule of the program is found. -/
def dualStart : Daemon :=
  { bareStart with
    cfg := dual
    system := { bareStart.system with
      rules := bareStart.system.rules ++ (ObservedRule.parse (ruleMessage
        { family := .v6, priority := 1699, fwmark := none, source := none,
          action := .unreachable, kind := .finalGuard } 249)).toList } }

end Sample

/-- An IPv6 path and an IPv6 rule change nothing for IPv4. -/
theorem Daemon.families_apart_dual :
    Sample.dualStart.cfg ≠ Sample.bareStart.cfg ∧
      Sample.dualStart.system ≠ Sample.bareStart.system ∧
      (diff Sample.dualStart.system
          (Sample.dualStart.pass (Sample.dualStart.evaluateInput 0)).diffInput).filter
            (Op.concerns .v4) =
        (diff Sample.bareStart.system
          (Sample.bareStart.pass (Sample.bareStart.evaluateInput 0)).diffInput).filter
            (Op.concerns .v4) := by
  have hsources : Sample.bareStart.cfg.StaticSources .v4 := by
    intro u hu p hp a ha
    have hcfg : Sample.bareStart.cfg.uplinks = [Sample.uplink Sample.id1 "fibre" "wan1"] := rfl
    rw [hcfg, List.mem_singleton] at hu
    obtain rfl := hu
    obtain rfl : Sample.settings = p := Option.some.inj hp
    cases ha
  have hrules : (Sample.dualStart.system.rules.filter fun o => o.family = .v4) =
      Sample.bareStart.system.rules.filter fun o => o.family = .v4 := by decide +kernel
  have hagrees : Sample.bareStart.Agrees .v4 Sample.dualStart := by
    refine ⟨by decide +kernel, ?_, fun _ => rfl, fun _ => rfl, fun i => ?_, rfl, rfl,
      fun id => ?_⟩
    · simp only [System.keeping, hrules]
      rfl
    · rfl
    · rfl
  exact ⟨by decide +kernel, by decide +kernel, (families_apart hsources hagrees 0).2⟩

end Polywan
