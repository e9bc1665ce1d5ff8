import Polywan.Daemon.Host
import Polywan.Lib.Until

/-!
# Removals that the kernel does not notify

When a link or an address changes, the kernel may drop routes that use it without telling.
After such a change of an uplink the daemon schedules the balancing table, the uplink's
path table and the discovery tables for a re-read.  The uplink's policy tables hold a route
through it as well and are not among them.

## Main definitions

* `Host.Drops` — what the kernel may drop with a change.
* `Host.Reread` — the routes dropped from the program's tables stand in tables that the
  change schedules.
* `Host.Agrees` — the view agrees with the kernel on the program's tables.
-/

namespace Polywan

/-- The interface that a link or address change is about. -/
def Change.interface? : Change → Option ℕ
  | .link i | .address i => some i
  | .route _ _ _ | .rule _ _ | .nexthop _ | .none => Option.none

/-- The address that a message is about. -/
def RouteNetlinkMessage.address? : RouteNetlinkMessage → Option IpAddr
  | .newAddress m | .delAddress m => (ObservedAddress.parse m).map ObservedAddress.address
  | _ => none

/-- A route uses an interface, or an address as its source. -/
def ObservedRoute.Uses (r : ObservedRoute) (ifindex : ℕ) (address : Option IpAddr) : Prop :=
  (∃ h ∈ r.nexthops, h.ifindex = ifindex) ∨ (r.source.isSome ∧ r.source = address)

namespace Daemon

variable (d : Daemon)

/-- What a message changes in the view. -/
def changeOf (now : ℕ) (m : RouteNetlinkMessage) : Change := (d.system.apply now d.scope m).2

/-- The daemon once its view has taken in a message. -/
def applied (now : ℕ) (m : RouteNetlinkMessage) : Daemon :=
  { d with system := (d.system.apply now d.scope m).1 }

end Daemon

namespace Host

variable (h : Host)

/-- A link or an address changes, and the kernel drops some of the routes that use it. -/
def Drops : Event → Prop
  | .interface lost now m _ _ =>
    h.now ≤ now ∧ ∃ i, (h.daemon.changeOf now m).interface? = some i ∧
      ∀ r ∈ lost, r.Uses i m.address?
  | .changed _ _ _ | .daemon _ => False

/-- What it drops from the program's tables stood in the balancing table or in the path
table of the uplink that the daemon finds on the interface. -/
def Reread : Event → Prop
  | .interface lost now m _ _ =>
    ∀ r ∈ lost, h.daemon.scope.isPolywan r.table = true →
      ∃ i u, (h.daemon.changeOf now m).interface? = some i ∧
        (h.daemon.applied now m).uplinkOn i = some u ∧
        (r.table = h.daemon.layout.balancingTable ∨ r.table = h.daemon.layout.pathTable u)
  | .changed _ _ _ | .daemon _ => True

/-- The view agrees with the kernel on the program's tables. -/
def Agrees : Prop :=
  ∀ k : TableKey, h.daemon.scope.isPolywan k.table = true →
    Exact h.daemon.scope h.now h.kernel h.daemon.system k

end Host

/-! ## One change -/

section Apply

variable {now : ℕ} {scope : Scope} {s : System} {m : RouteNetlinkMessage} {i : ℕ}

/-- A message that changes an interface is about a link or an address. -/
theorem routes_of_interface (h : (s.apply now scope m).2.interface? = some i) :
    (s.apply now scope m).1.routes = s.routes := by
  cases m with
  | newLink m | delAddress m =>
    simp only [System.apply]
    split <;> rfl
  | delLink m => rfl
  | newAddress m =>
    simp only [System.apply]
    split
    · split <;> rfl
    · rfl
  | newRoute m | delRoute m =>
    simp only [System.apply, System.applyRoute] at h
    split at h
    · split at h <;> cases h
    · cases h
  | newRule m | delRule m =>
    simp only [System.apply] at h
    split at h <;> cases h
  | other n => cases h

end Apply

namespace Daemon

variable {d : Daemon} {now : ℕ} {m : RouteNetlinkMessage} {i : ℕ}
  (h : (d.changeOf now m).interface? = some i)
include h

/-- Such a message removes no artifact and leaves no entry stale. -/
theorem routeNotification_of_interface (port : ℕ) (flags : BitVec 16) :
    ∃ link, d.routeNotification now m port flags = (d.applied now m).interfaceChanged i link := by
  have hreact : ∀ (d : Daemon) (c : Change), c.interface? = some i →
      ∃ link, d.react c = d.interfaceChanged i link := by
    intro d c hc
    cases c with
    | link j =>
      obtain rfl := Option.some.inj hc
      exact ⟨true, rfl⟩
    | address j =>
      obtain rfl := Option.some.inj hc
      exact ⟨false, rfl⟩
    | route _ _ _ | rule _ _ | nexthop _ | none => cases hc
  obtain ⟨link, hlink⟩ := hreact (d.applied now m) _ h
  refine ⟨link, Eq.trans ?_ hlink⟩
  cases m with
  | newLink m | delLink m | newAddress m | delAddress m =>
    simp [routeNotification, removedRule, removedRoute, notifiedRoute, staleTable, applied,
      changeOf]
  | newRoute m | delRoute m =>
    simp only [changeOf, System.apply, System.applyRoute] at h
    split at h
    · split at h <;> cases h
    · cases h
  | newRule m | delRule m =>
    simp only [changeOf, System.apply] at h
    split at h <;> cases h
  | other n => cases h

/-- It schedules the balancing table and the path table of the uplink. -/
theorem mem_reread_of_interface {u : UplinkId} (hu : (d.applied now m).uplinkOn i = some u)
    (port : ℕ) (flags : BitVec 16) {k : TableKey}
    (hk : k.table = d.layout.balancingTable ∨ k.table = d.layout.pathTable u) :
    k ∈ (d.routeNotification now m port flags).reread := by
  obtain ⟨link, hlink⟩ := routeNotification_of_interface h port flags
  have hconcerned : k ∈ (d.applied now m).concerned u := by
    obtain ⟨f, t⟩ := k
    refine List.mem_flatMap.mpr ⟨f, Family.mem_all f, ?_⟩
    rcases hk with hk | hk
    · obtain rfl := hk
      exact List.mem_cons_self
    · obtain rfl := hk
      exact List.mem_cons_of_mem _ List.mem_cons_self
  have hscheduled : ∀ {d : Daemon}, d.uplinkOn i = some u → k ∈ d.concerned u →
      k ∈ (d.interfaceChanged i link).reread := by
    intro d hu hk
    unfold interfaceChanged
    rw [hu]
    dsimp only
    split
    · exact Std.ExtTreeSet.mem_insertMany_list.mpr (.inr (List.contains_iff_mem.mpr hk))
    · exact Std.ExtTreeSet.mem_insertMany_list.mpr (.inr (List.contains_iff_mem.mpr hk))
  rw [hlink]
  exact hscheduled hu hconcerned

end Daemon

/-! ## A batch of changes -/

namespace Host

/-- Where the view does not agree with the kernel, a re-read is scheduled. -/
structure Scheduled (h : Host) : Prop where
  valid : h.daemon.cfg.Valid
  distinct : h.kernel.Distinct h.daemon.scope
  wellFormed : h.daemon.system.WellFormed h.daemon.scope
  exact : ∀ k : TableKey, h.daemon.scope.isPolywan k.table = true →
    Exact h.daemon.scope h.now h.kernel h.daemon.system k ∨ k ∈ h.daemon.reread

variable {h : Host}

theorem Scheduled.step (hs : h.Scheduled) {ev : Event} (hdrops : h.Drops ev)
    (hreread : h.Reread ev) : (h.step ev).Scheduled := by
  cases ev with
  | changed n m port => cases hdrops
  | daemon ev => cases hdrops
  | interface lost now m port flags =>
    obtain ⟨hnow, i, hi, -⟩ := hdrops
    obtain ⟨link, hlink⟩ := Daemon.routeNotification_of_interface hi port flags
    have hcore : (h.daemon.routeNotification now m port flags).core =
        (h.daemon.applied now m).core := by
      rw [hlink]
      exact Daemon.core_interfaceChanged _ i link
    have hcfg : (h.daemon.routeNotification now m port flags).cfg = h.daemon.cfg :=
      congrArg Core.cfg hcore
    have hscope : (h.daemon.routeNotification now m port flags).scope = h.daemon.scope :=
      congrArg Scope.of hcfg
    have hsystem : (h.daemon.routeNotification now m port flags).system =
        (h.daemon.system.apply now h.daemon.scope m).1 := congrArg Core.system hcore
    refine ⟨?_, ?_, ?_, ?_⟩
    · exact hcfg ▸ hs.valid
    · exact hscope ▸ hs.distinct.mono Set.sdiff_subset
    · change (h.daemon.routeNotification now m port flags).system.WellFormed
        (h.daemon.routeNotification now m port flags).scope
      rw [hscope, hsystem]
      exact hs.wellFormed.apply now m
    · change ∀ k : TableKey,
        (h.daemon.routeNotification now m port flags).scope.isPolywan k.table = true →
          Exact (h.daemon.routeNotification now m port flags).scope now (h.kernel \ lost)
            (h.daemon.routeNotification now m port flags).system k ∨
            k ∈ (h.daemon.routeNotification now m port flags).reread
      rw [hscope, hsystem]
      intro k hk
      by_cases hlost : ∃ r ∈ lost, r.tableKey = k
      · obtain ⟨r, hr, rfl⟩ := hlost
        obtain ⟨j, u, hj, hu, htable⟩ := hreread r hr hk
        exact .inr (Daemon.mem_reread_of_interface hj hu port flags htable)
      · rcases hs.exact k hk with hexact | hmem
        · refine .inl ((hexact.mono hnow).frame (fun x hx _ => ?_) fun κ _ => ?_)
          · exact and_iff_left fun hxlost => hlost ⟨x, hxlost, hx⟩
          · rw [routes_of_interface hi]
        · exact .inr (Daemon.mem_reread_routeNotification _ now m port flags (.inl hmem))

/-- **What the kernel drops from the tables scheduled is found by the next pass.** -/
theorem agrees_of_reread (h : Host) (hvalid : h.daemon.cfg.Valid)
    (hdistinct : h.kernel.Distinct h.daemon.scope)
    (hwell : h.daemon.system.WellFormed h.daemon.scope) (hagrees : h.Agrees)
    {batch : List Event} (hdrops : Lib.Along step Drops h batch)
    (hreread : Lib.Along step Reread h batch) {e : PassEnv} (hnow : (h.run batch).now ≤ e.now)
    (hdumps : e.dumps.Complete e.now (h.run batch).kernel fun k =>
      (h.run batch).daemon.scope.isPolywan k.table = true)
    (hplans : ((h.run batch).daemon.prepared e).isSome) :
    ((h.run batch).step (.daemon (.pass e))).Agrees := by
  have hs : (h.run batch).Scheduled := by
    have hboth : Lib.Along step (fun h ev => h.Drops ev ∧ h.Reread ev) h batch :=
      Lib.along_and.mpr ⟨hdrops, hreread⟩
    refine hboth.invariant (fun h ev hs hev => hs.step hev.1 hev.2) ?_
    exact ⟨hvalid, hdistinct, hwell, fun k hk => .inl (hagrees k hk)⟩
  obtain ⟨p, hp⟩ := Option.isSome_iff_exists.mp hplans
  have hbefore := Daemon.exact_of_prepared hp hs.distinct hdumps fun k hk =>
    (hs.exact k hk).imp_left fun hexact => hexact.mono hnow
  have hscope : ((h.run batch).daemon.step e).scope = (h.run batch).daemon.scope :=
    congrArg Scope.of ((h.run batch).daemon.lane_step e).1
  change ∀ k : TableKey, ((h.run batch).daemon.step e).scope.isPolywan k.table = true →
    Exact ((h.run batch).daemon.step e).scope e.now _ ((h.run batch).daemon.step e).system k
  rw [hscope]
  exact Daemon.exact_step hp hs.valid hs.wellFormed hbefore

end Host

namespace Sample

/-- The planned route of a table through the uplink. -/
def through (table : ℕ) : Route where
  family := .v4
  table := table
  source := if table = 1000 then none else some (.v4 0x0a000002)
  nexthops := [⟨3, some (.v4 0x0a000001), false, 1⟩]

/-- The main table's default route, and the planned ones. -/
def hostRoutes : List RouteMessage :=
  defaultRoute 3 (.v4 0x0a000001) ::
    [1000, 1001, 1065, 1129].map fun t => routeMessage (through t) 249

def hostView : View (Scope.of plain) :=
  (.newLink (link 3 "wan1") :: .newAddress (address 3 (.v4 0x0a000002)) ::
    hostRoutes.map RouteNetlinkMessage.newRoute).foldl (View.apply 0) (View.empty _)

/-- The daemon finds them installed. -/
def host : Host where
  kernel := Kernel.told 0 hostRoutes
  daemon := (Daemon.start plain 7 0 hostView.system none ∅).run
    [ .pass quiet, .sysctlsDone 0 1 (.interface "wan1") (.ok ()) [],
      .sysctlsDone 0 2 .global (.ok ()) [], .pass quiet ]
  now := 0

/-- The address is removed and comes back; the route of a table is lost. -/
def flapped (table : ℕ) : List Host.Event :=
  [ .interface {(through table).observed 249} 0
      (.delAddress (address 3 (.v4 0x0a000002))) 0 0,
    .interface ∅ 0 (.newAddress (address 3 (.v4 0x0a000002))) 0 0 ]

/-- The messages that are left. -/
def remaining (table : ℕ) : List RouteMessage :=
  hostRoutes.filter fun m => ObservedRoute.parse 0 m ≠ some ((through table).observed 249)

/-- A pass whose dumps list them. -/
def afterFlap (table : ℕ) : PassEnv := { now := 0, dumps := Dumps.told 0 (remaining table) }

theorem kernel_flapped (table : ℕ) :
    (host.run (flapped table)).kernel = Kernel.told 0 (remaining table) := by
  ext r
  simp only [Host.run, flapped, List.foldl_cons, List.foldl_nil, Host.step, Set.mem_sdiff,
    Set.mem_empty_iff_false, not_false_iff, and_true, Set.mem_singleton_iff]
  simp only [host, Kernel.told, remaining, Set.mem_ofPred_eq, List.mem_filterMap,
    List.mem_filter, decide_eq_true_eq]
  constructor
  · rintro ⟨⟨m, hm, hparse⟩, hne⟩
    exact ⟨m, ⟨hm, by simp [hparse, hne]⟩, hparse⟩
  · rintro ⟨m, ⟨hm, hne⟩, hparse⟩
    exact ⟨⟨m, hm, hparse⟩, by simpa [hparse] using hne⟩

theorem host_shown : ∀ r ∈ hostRoutes.filterMap (ObservedRoute.parse 0),
    host.daemon.system.routes[routeKey host.daemon.scope r]? = some r := by
  decide +kernel

theorem host_agrees : host.Agrees := by
  refine fun k _ => exact_told host_shown ?_ k
  decide +kernel

theorem host_wellFormed : host.daemon.system.WellFormed host.daemon.scope := by
  refine ⟨fun κ r hr => ?_, by decide +kernel, by decide +kernel⟩
  have hall : ∀ e ∈ host.daemon.system.routes.toList,
      routeKey host.daemon.scope e.2 = e.1 := by decide +kernel
  exact hall (κ, r) (Std.ExtTreeMap.mem_toList_iff_getElem?_eq_some.mpr hr)

/-- Both changes are those of the interface, and the route lost uses it. -/
theorem flapped_drops (table : ℕ) : Lib.Along Host.step Host.Drops host (flapped table) := by
  refine ⟨⟨Nat.le_refl _, 3, by decide +kernel, ?_⟩, ⟨Nat.le_refl _, 3, ?_, by simp⟩, trivial⟩
  · rintro r rfl
    exact .inl ⟨_, List.mem_singleton_self _, rfl⟩
  · show ((host.daemon.notification 0 (.route (.delAddress (address 3 (.v4 0x0a000002)))) 0
      0).changeOf 0 (.newAddress (address 3 (.v4 0x0a000002)))).interface? = some 3
    decide +kernel

end Sample

open Sample in
/-- The route of the path table is found missing and set again. -/
theorem Host.agrees_of_reread_sample :
    ((host.run (flapped 1001)).step (.daemon (.pass (afterFlap 1001)))).Agrees ∧
      .replaceRoute (through 1001) ∈
        (host.run (flapped 1001)).daemon.executed (afterFlap 1001) := by
  refine ⟨agrees_of_reread host (by decide +kernel) (Kernel.distinct_told host_shown)
    host_wellFormed host_agrees (flapped_drops 1001) ⟨?_, fun r hr => absurd hr (by simp), trivial⟩
    (Nat.le_refl _) ?_ (by decide +kernel), by decide +kernel⟩
  · rintro r rfl -
    exact ⟨3, id1, by decide +kernel, by decide +kernel, .inr (by decide +kernel)⟩
  · rw [kernel_flapped]
    exact Dumps.complete_told 0 _ _

open Sample in
/-- **The route of a policy table is lost for good**: the pass succeeds, and the view still
shows what the kernel does not hold. -/
theorem Host.policy_route_lost :
    host.daemon.cfg.Valid ∧ host.kernel.Distinct host.daemon.scope ∧
      host.daemon.system.WellFormed host.daemon.scope ∧ host.Agrees ∧
      Lib.Along step Drops host (flapped 1065) ∧
      (afterFlap 1065).dumps.Complete 0 (host.run (flapped 1065)).kernel (fun _ => True) ∧
      (∀ op, (afterFlap 1065).succeeds op = true) ∧
      ((host.run (flapped 1065)).daemon.prepared (afterFlap 1065)).isSome ∧
      ¬ ((host.run (flapped 1065)).step (.daemon (.pass (afterFlap 1065)))).Agrees := by
  refine ⟨by decide +kernel, Kernel.distinct_told host_shown, host_wellFormed, host_agrees,
    flapped_drops 1065, ?_, fun _ => rfl, by decide +kernel, fun hagrees => ?_⟩
  · rw [kernel_flapped]
    exact Dumps.complete_told 0 _ _
  · -- The view shows the route, the pass has nothing to do, and the kernel lost the route.
    have hidle : (host.run (flapped 1065)).daemon.executed (afterFlap 1065) = [] := by
      decide +kernel
    have hshown : ((host.run (flapped 1065)).daemon.step (afterFlap 1065)).system.routes[
        TableKey.routeKey ⟨.v4, 1065⟩]? = some ((through 1065).observed 249) := by decide +kernel
    have htable : ((host.run (flapped 1065)).daemon.step (afterFlap 1065)).scope.isPolywan 1065 =
        true := by decide +kernel
    obtain ⟨r, hr, -, hkey⟩ := (hagrees ⟨.v4, 1065⟩ htable).only _ _ hshown rfl
      (keeps_of_isPolywan htable)
    have hleft : r ∈ (host.run (flapped 1065)).kernel := by
      simp only [step, handle, hidle] at hr
      exact hr
    rw [kernel_flapped] at hleft
    have hgone : ∀ r ∈ (remaining 1065).filterMap (ObservedRoute.parse 0),
        r.table ≠ 1065 := by decide +kernel
    exact hgone r hleft (congrArg RouteKey.table hkey)

end Polywan
