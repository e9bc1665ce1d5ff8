import Polywan.Daemon.Run
import Polywan.Plan.Members
import Polywan.Reconcile.Pass

/-!
# Marks before membership, over whole runs

The kernel's nftables table lags behind what the daemon knows of it: a transaction in
flight may or may not be in force yet.  From the first one on, the paths in the
balancing route and in the policy tables are those whose marks the kernel's table
assigns, provided that no pass runs during the first application with a configuration
that enables a path which this application does not assign.

## Main definitions

* `World` — the daemon, the kernel's table and the paths in the kernel's routes.
* `World.step`, `World.run` — an event, and a list of them.
* `World.Marked` — every path in a route has its assignment.
* `World.Steady` — the condition on passes during the first application.
-/

namespace Polywan

/-! ## The daemon and the kernel -/

/-- The daemon and what the kernel holds of it. -/
structure World where
  daemon : Daemon
  /-- The nftables table, from the first application on. -/
  table : Option Nft.Table := none
  /-- Whether the kernel has taken the transaction in flight. -/
  committed : Bool := false
  /-- The paths in the route of each balancing and policy table. -/
  members : TableKey → List Member := fun _ => []

/-- The balancing route and the routes of policy tables lose next hops at most. -/
def Shrinks (l : Layout) (protocol : ℕ) (s s' : System) : Prop :=
  ∀ k : TableKey, l.isTrafficTable k.table = true → ∀ r', s'.planned protocol k = some r' →
    ∃ r, s.planned protocol k = some r ∧
      ∀ h' ∈ r'.nexthops, ∃ h ∈ r.nexthops, h'.unweighted = h.unweighted

theorem Shrinks.refl (l : Layout) (protocol : ℕ) (s : System) : Shrinks l protocol s s :=
  fun _ _ r hr => ⟨r, hr, fun h hh => ⟨h, hh, rfl⟩⟩

/-- The paths in the route of a table after a pass: those of the plan that the route is
taken from, and the former ones of a route that the pass left. -/
def Pass.membersAfter (p : Pass) (ran : List Op) (s : System) (old : TableKey → List Member)
    (k : TableKey) : List Member :=
  match s.planned p.config.routing.routeProtocol k with
  | none => []
  | some r =>
    if p.diffInput.beforeNft.routes[k]? = some r then
      plannedMembers p.config (without p.input p.newPaths) k
    else if Op.replaceRoute r ∈ ran then plannedMembers p.config p.input k
    else old k

namespace World

/-- What happens. -/
inductive Event where
  /-- The daemon reacts to something. -/
  | daemon (ev : Daemon.Event)
  /-- The kernel takes the transaction in flight. -/
  | commit

variable (w : World)

def pass (e : PassEnv) : World :=
  { w with
    daemon := w.daemon.step e
    members := match w.daemon.prepared e with
      | none => w.members
      | some p => (p.pass (p.evaluateInput e.now)).membersAfter (w.daemon.executed e)
          (w.daemon.step e).system w.members }

/-- The kernel takes the transaction in flight. -/
def commit : World :=
  match w.daemon.nft.flight with
  | none => w
  | some f => { w with table := some f.transaction, committed := true }

/-- The nftables lane reports an outcome. -/
def reported (now seq : ℕ) (result : Except String (Option Nft.Table)) : World :=
  { w with
    daemon := w.daemon.nftApplied now seq result
    committed := w.committed && w.daemon.nft.flight.all fun f => f.seq ≠ seq }

/-- The world after an event. -/
def step : Event → World
  | .commit => w.commit
  | .daemon (.pass e) => w.pass e
  | .daemon (.nftApplied now seq result) => w.reported now seq result
  | .daemon ev => { w with daemon := w.daemon.handle ev }

/-- The world after a list of events. -/
def run (events : List Event) : World := events.foldl step w

/-- What the kernel and third parties may do: a transaction is reported as applied
exactly when the kernel took it; nobody else removes the program's rules and routes or
adds to its balancing and policy tables; a new view is made of the kernel's messages. -/
def Permits : Event → Prop
  | .daemon (.nftApplied _ seq result) =>
    ∀ f ∈ w.daemon.nft.flight, f.seq = seq → result.isOk = w.committed
  | .daemon (.notification now m port _) =>
    w.daemon.Harmless now m port ∧
      Shrinks w.daemon.layout w.daemon.protocol w.daemon.system
        (w.daemon.system.applyMessage now w.daemon.scope m).1
  | .daemon (.fullReconciliation _ view) =>
    ∀ s ∈ view, s.WellFormed w.daemon.scope ∧
      Shrinks w.daemon.layout w.daemon.protocol w.daemon.system s
  | .daemon (.pass e) =>
    ∀ p ∈ w.daemon.prepared e,
      Shrinks w.daemon.layout w.daemon.protocol w.daemon.system p.system
  | _ => True

/-- While the first application is in flight, without a table found at startup, passes
run with configurations whose assignments it holds. -/
def Steady : Event → Prop
  | .daemon (.pass _) =>
    w.daemon.nft.applied = none → w.daemon.nft.adopted = none →
      ∀ f ∈ w.daemon.nft.flight, ∀ a ∈ w.daemon.cfg.assignments, a ∈ f.configured
  | _ => True

/-- Every event of a run meets a condition. -/
def Meets (cond : World → Event → Prop) : World → List Event → Prop
  | _, [] => True
  | w, ev :: events => cond w ev ∧ Meets cond (w.step ev) events

/-- A daemon that starts: no transaction applied or in flight, no repair held back. -/
structure Initial : Prop where
  valid : w.daemon.cfg.Valid
  wellFormed : w.daemon.system.WellFormed w.daemon.scope
  managed : w.daemon.managed = true
  applied : w.daemon.nft.applied = none
  flight : w.daemon.nft.flight = none
  heldRules : w.daemon.heldRules = []
  heldRoutes : w.daemon.heldRoutes = ∅
  table : w.table = none
  committed : w.committed = false

/-- Once the kernel holds a table of the program, every next hop of the balancing route
and of the policy tables is that of a path, and every such path has its assignment in
the table. -/
def Marked : Prop :=
  ∀ t ∈ w.table, ∀ k : TableKey, w.daemon.layout.isTrafficTable k.table = true →
    (∀ r, w.daemon.system.planned w.daemon.protocol k = some r →
      ∀ h ∈ r.nexthops, ∃ m ∈ w.members k, h.unweighted = m.hop) ∧
    ∀ m ∈ w.members k, t.assigns w.daemon.cfg.routing.fwmarkMask m.assignment = true

end World

/-! ## What the daemon counts on -/

/-- The table and the assignments of a configuration with the same structural
settings. -/
def Config.Installs (c : Config) (t : Nft.Table) (known : Std.ExtTreeSet Assignment) : Prop :=
  ∃ c' : Config, c'.structural = c.structural ∧ t = Nft.ruleset c' ∧ known = c'.assignments

theorem Config.installs_self (c : Config) : c.Installs (Nft.ruleset c) c.assignments :=
  ⟨c, rfl, rfl, rfl⟩

section Installs

variable {c : Config} {t : Nft.Table} {known : Std.ExtTreeSet Assignment}

theorem Config.Installs.of_structural (h : c.Installs t known) {new : Config}
    (hs : new.structural = c.structural) : new.Installs t known := by
  obtain ⟨c', hc', ht, hk⟩ := h
  exact ⟨c', hc'.trans hs.symm, ht, hk⟩

theorem Config.Installs.assigns (h : c.Installs t known) {a : Assignment} (ha : a ∈ known) :
    t.assigns c.routing.fwmarkMask a = true := by
  obtain ⟨c', hs, rfl, rfl⟩ := h
  rw [← show c'.routing.fwmarkMask = c.routing.fwmarkMask from congrArg Structural.fwmarkMask hs]
  exact (Nft.assigns_ruleset c' a).mpr ha

/-- The table of the configuration itself has its assignments. -/
theorem Config.Installs.eq_assignments (h : c.Installs (Nft.ruleset c) known) :
    known = c.assignments := by
  obtain ⟨c', hs, ht, rfl⟩ := h
  exact Nft.assignments_eq_of_ruleset_eq hs ht.symm

end Installs

/-- An assignment that every table has which the kernel may hold. -/
def NftState.Counts (n : NftState) (a : Assignment) : Prop :=
  (∀ applied ∈ n.applied, a ∈ applied.2) ∧ ∀ f ∈ n.flight, a ∈ f.configured

theorem mem_of_not_unassigned {configured known : Std.ExtTreeSet Assignment} {a : Assignment}
    (ha : a ∈ configured) (h : a.path ∉ unassigned configured (some known)) : a ∈ known := by
  by_contra hnot
  refine h ?_
  simp only [unassigned, Std.ExtTreeSet.mem_ofList, List.contains_eq_mem, decide_eq_true_iff,
    List.mem_map, List.mem_filter, Bool.not_eq_true', ← Bool.not_eq_true,
    Std.ExtTreeSet.contains_iff_mem, Std.ExtTreeSet.mem_toList]
  exact ⟨a, ⟨ha, hnot⟩, rfl⟩

/-- Paths that a pass does not hold back are counted on. -/
theorem Daemon.counts_of_not_new {d : Daemon} (hm : d.managed = true)
    (hsteady : d.nft.applied = none → d.nft.adopted = none →
      ∀ f ∈ d.nft.flight, ∀ a ∈ d.cfg.assignments, a ∈ f.configured)
    {a : Assignment} (ha : a ∈ d.cfg.assignments) (hnew : a.path ∉ d.newPaths) :
    d.nft.Counts a := by
  rw [newPaths, if_pos hm] at hnew
  have hknown : ∀ known, d.surviving = some known → a ∈ known := by
    intro known hs
    rw [hs] at hnew
    exact mem_of_not_unassigned ha hnew
  unfold surviving at hknown
  cases happ : d.nft.applied with
  | some applied =>
    cases hf : d.nft.flight with
    | some f =>
      have := hknown (applied.2.filter f.configured.contains) (by simp [happ, hf])
      rw [Std.ExtTreeSet.mem_filter] at this
      simp_all [NftState.Counts]
    | none =>
      have := hknown applied.2 (by simp [happ, hf])
      simp_all [NftState.Counts]
  | none =>
    refine ⟨by simp [happ], fun f hf => ?_⟩
    cases had : d.nft.adopted with
    | none => exact hsteady happ had f hf a ha
    | some known =>
      have := hknown (known.filter f.configured.contains) (by
        simp [happ, had, Option.mem_def.mp hf])
      rw [Std.ExtTreeSet.mem_filter] at this
      simp_all

/-! ## The invariant -/

/-- What holds at every moment: the paths in the routes have their assignments in every
table that the kernel may hold. -/
structure Marking (c : Core) (table : Option Nft.Table) (committed : Bool)
    (members : TableKey → List Member) : Prop where
  valid : c.cfg.Valid
  wellFormed : c.system.WellFormed (Scope.of c.cfg)
  managed : c.cfg.firewall.mode = .managed
  heldRules : c.heldRules = []
  heldRoutes : c.heldRoutes = ∅
  applied : ∀ a ∈ c.nft.applied, c.cfg.Installs a.1 a.2
  flight : ∀ f ∈ c.nft.flight, c.cfg.Installs f.transaction f.configured
  /-- The kernel holds the table last applied, or the one in flight already. -/
  table_eq : table = if committed then c.nft.flight.map NftFlight.transaction
    else c.nft.applied.map Prod.fst
  flight_of_committed : committed = true → c.nft.flight.isSome
  counts : ∀ k : TableKey, (Layout.of c.cfg).isTrafficTable k.table = true → ∀ m ∈ members k,
    c.nft.Counts m.assignment
  /-- From the first application on, the members of every route are known. -/
  hops : c.nft.flight.isSome ∨ c.nft.applied.isSome → ∀ k : TableKey,
    (Layout.of c.cfg).isTrafficTable k.table = true →
    ∀ r, c.system.planned c.cfg.routing.routeProtocol k = some r →
      ∀ h ∈ r.nexthops, ∃ m ∈ members k, h.unweighted = m.hop

namespace Marking

variable {c : Core} {table : Option Nft.Table} {committed : Bool}
  {members : TableKey → List Member} (hm : Marking c table committed members)
include hm

/-- The kernel and third parties. -/
theorem environment {s : System} (hw : s.WellFormed (Scope.of c.cfg))
    (hs : Shrinks (Layout.of c.cfg) c.cfg.routing.routeProtocol c.system s) :
    Marking { c with system := s } table committed members :=
  { hm with
    wellFormed := hw
    hops := fun hsome k hk r' hr' h' hh' => by
      obtain ⟨r, hr, hhops⟩ := hs k hk r' hr'
      obtain ⟨h, hh, heq⟩ := hhops h' hh'
      rw [heq]
      exact hm.hops hsome k hk r hr h hh }

/-- An inspection of the table. -/
theorem inspected (missing : Bool) :
    Marking { c with nft := { c.nft with missing } } table committed members := { hm with }

/-- A reload. -/
theorem reloaded {new : Config} (hv : new.Valid) (hs : new.structural = c.cfg.structural) :
    Marking { c with cfg := new } table committed members := by
  have hlayout := Layout.of_structural hs
  have hprotocol : new.routing.routeProtocol = c.cfg.routing.routeProtocol :=
    congrArg Structural.routeProtocol hs
  exact
    { hm with
      valid := hv
      wellFormed := hm.wellFormed.of_isPolywan fun t => by
        rw [Scope.covers_of, Scope.covers_of, hlayout]
      managed := (congrArg Structural.firewallMode hs).trans hm.managed
      applied := fun a ha => (hm.applied a ha).of_structural hs
      flight := fun f hf => (hm.flight f hf).of_structural hs
      counts := hlayout ▸ hm.counts
      hops := by
        rw [hlayout, hprotocol]
        exact hm.hops }

/-- The kernel takes the transaction in flight. -/
theorem commit {f : NftFlight} (hf : c.nft.flight = some f) :
    Marking c (some f.transaction) true members :=
  { hm with
    table_eq := by rw [if_pos rfl, hf, Option.map_some]
    flight_of_committed := fun _ => by rw [hf, Option.isSome_some] }

/-- The transaction in flight is reported as applied. -/
theorem applied_ok {f : NftFlight} (hf : c.nft.flight = some f) (hcommitted : committed = true)
    (listing : Option Nft.Table) :
    Marking { c with nft := { c.nft with
      flight := none, applied := some (f.transaction, f.configured), missing := false, listing } }
      table false members :=
  { hm with
    applied := fun a ha => by
      obtain rfl := Option.some.inj ha
      exact hm.flight f hf
    flight := fun f' hf' => by cases hf'
    table_eq := by simp [hm.table_eq, hcommitted, hf]
    flight_of_committed := by simp
    counts := fun k hk m hmem => by
      refine ⟨fun a ha => ?_, fun f' hf' => by cases hf'⟩
      obtain rfl := Option.some.inj ha
      exact (hm.counts k hk m hmem).2 f hf
    hops := fun _ => hm.hops (.inl (by rw [hf, Option.isSome_some])) }

/-- It is reported as failed. -/
theorem applied_error (hcommitted : committed = false) :
    Marking { c with nft := { c.nft with flight := none } } table false members :=
  { hm with
    flight := fun f' hf' => by cases hf'
    table_eq := by simp [hm.table_eq, hcommitted]
    flight_of_committed := by simp
    counts := fun k hk m hmem => ⟨(hm.counts k hk m hmem).1, fun f' hf' => by cases hf'⟩
    hops := fun hsome => hm.hops (.inr (hsome.resolve_left (by simp))) }

end Marking

/-! ## Passes -/

/-- Without an nftables step, the table applied is that of the configuration. -/
theorem Daemon.counts_of_not_pending {d : Daemon} (hm : d.managed = true)
    (happlied : ∀ a ∈ d.nft.applied, d.cfg.Installs a.1 a.2) (hp : d.nftPending = false)
    {a : Assignment} (ha : a ∈ d.cfg.assignments) : d.nft.Counts a := by
  simp only [nftPending, hm, Bool.true_and, Bool.or_eq_false_iff, decide_eq_false_iff_not,
    not_not, Option.isSome_eq_false_iff, Option.isNone_iff_eq_none] at hp
  obtain ⟨⟨-, hflight⟩, heq⟩ := hp
  refine ⟨fun applied happ => ?_, by simp [hflight]⟩
  have htable : applied.1 = d.transaction := by simpa [Option.mem_def.mp happ] using heq
  have hinstalls := happlied applied happ
  rw [htable, transaction] at hinstalls
  rwa [hinstalls.eq_assignments]

section Pass

variable {d : Daemon} {table : Option Nft.Table} {committed : Bool}
  {members : TableKey → List Member} (hm : Marking d.core table committed members)
  {input : Input} {now : ℕ} {ran : List Op}
  (hran : ran <+: beforeStep (diff d.system (d.pass input).diffInput))
  {s : System} (hs : s = applyOps now d.scope d.protocol d.system ran)
include hm

theorem Marking.daemon_managed : d.managed = true := decide_eq_true hm.managed

include hran

/-- A pass sets routes of the plan before the nftables step; without that step, also
those of the plan itself. -/
theorem Marking.of_replaced {r : Route} (hr : Op.replaceRoute r ∈ ran) :
    (plan d.cfg (without input d.newPaths)).routes[r.key]? = some r ∨
      d.nftPending = false ∧ (plan d.cfg input).routes[r.key]? = some r := by
  have hd := Pass.proper (p := d.pass input) hm.valid
  have hmem := hran.subset hr
  by_cases hp : d.nftPending = true
  · rw [beforeStep_diff d.system (d := (d.pass input).diffInput) hp] at hmem
    exact .inl (DiffInput.replaceRoute_mem_firstOps hd.beforeNft hmem)
  · rw [Bool.not_eq_true] at hp
    rw [beforeStep_diff_of_not_pending d.system (d := (d.pass input).diffInput) hp,
      List.mem_append] at hmem
    rcases hmem with hmem | hmem
    · exact .inl (DiffInput.replaceRoute_mem_firstOps hd.beforeNft hmem)
    · exact .inr ⟨hp, DiffInput.replaceRoute_mem_lastOps hd.desired hmem⟩

include hs

/-- **A pass keeps the invariant.** -/
theorem Marking.pass (hsteady : d.nft.applied = none → d.nft.adopted = none →
      ∀ f ∈ d.nft.flight, ∀ a ∈ d.cfg.assignments, a ∈ f.configured) :
    Marking { d.core with system := s } table committed
      ((d.pass input).membersAfter ran s members) := by
  have hd := Pass.proper (p := d.pass input) hm.valid
  have hw : s.WellFormed d.scope := hs ▸ hm.wellFormed.applyOps now _ ran
  have hkey : ∀ {k r}, s.planned d.protocol k = some r → r.key = k := hw.planned_key
  refine { hm with wellFormed := hw, counts := fun k hk m hmem => ?_, hops := ?_ }
  · unfold Pass.membersAfter at hmem
    split at hmem
    · cases hmem
    · next r hr =>
        split at hmem
        · exact Daemon.counts_of_not_new hm.daemon_managed hsteady
            (mem_assignments_of_member hmem) (not_mem_of_member hmem)
        · next hbefore =>
            split at hmem
            · next hrep =>
                -- The plan before the step does not have the route: there is no step.
                rcases hm.of_replaced hran hrep with h | ⟨hp, -⟩
                · exact absurd (hkey hr ▸ h) hbefore
                · exact Daemon.counts_of_not_pending hm.daemon_managed hm.applied hp
                    (mem_assignments_of_member hmem)
            · exact hm.counts k hk m hmem
  · intro hsome k hk r hr h hh
    have hplanned : s.planned (d.pass input).config.routing.routeProtocol k = some r := hr
    simp only [Pass.membersAfter, hplanned]
    split
    · next hbefore => exact exists_member hk hbefore hh
    · next hbefore =>
        split
        · next hrep =>
            rcases hm.of_replaced hran hrep with h' | ⟨-, h'⟩
            · exact absurd (hkey hr ▸ h') hbefore
            · exact exists_member hk (hkey hr ▸ h') hh
        · next hrep =>
            have hproper : ∀ op ∈ ran, op.Proper d.layout := fun op hop =>
              diff_proper hd.beforeNft hd.desired op
                ((List.takeWhile_prefix _).subset (hran.subset hop))
            rw [hs] at hr
            rcases replaced_or_planned (Scope.covers_of d.cfg) now d.protocol d.system hproper hr
              with ⟨hmem, -⟩ | hr
            · exact absurd hmem hrep
            · exact hm.hops hsome k hk r hr h hh

omit hran in
/-- **A pass that reaches the nftables step keeps the invariant.**  The balancing and
policy tables hold what is planned before the step. -/
theorem Marking.launch (hflight : d.nft.flight = none) (hp : d.nftPending = true)
    (hran : ran = beforeStep (diff d.system (d.pass input).diffInput)) (seq : ℕ)
    (attempt : List Op) :
    Marking { d.core with system := s, nft := d.inFlight seq attempt } table committed
      ((d.pass input).membersAfter ran s members) := by
  have hsteady : d.nft.applied = none → d.nft.adopted = none →
      ∀ f ∈ d.nft.flight, ∀ a ∈ d.cfg.assignments, a ∈ f.configured := by
    intro _ _ f hf
    rw [hflight] at hf
    cases hf
  have hprefix : ran <+: beforeStep (diff d.system (d.pass input).diffInput) :=
    ⟨[], by rw [List.append_nil, hran]⟩
  have hpass := hm.pass hprefix hs hsteady
  have hcommitted : committed = false := by
    by_contra hc
    have := hm.flight_of_committed (by simpa using hc)
    rw [show d.core.nft.flight = none from hflight] at this
    cases this
  have hd := Pass.proper (p := d.pass input) hm.valid
  have hplanned : ∀ k : TableKey, d.layout.isTrafficTable k.table = true →
      s.planned d.protocol k = (plan d.cfg (without input d.newPaths)).routes[k]? := by
    intro k hk
    rw [Layout.isTrafficTable, Bool.and_eq_true, Bool.not_eq_true'] at hk
    rw [hs, hran, beforeStep_diff d.system (d := (d.pass input).diffInput) hp]
    exact (DiffInput.planned_firstOps_eq ..).trans (DiffInput.planned_routeOps_of_not_path
      (d := (d.pass input).diffInput) hm.wellFormed (Scope.covers_of d.cfg) now hd hk.1 hk.2)
  have hmembers : ∀ k : TableKey, d.layout.isTrafficTable k.table = true → ∀ r,
      s.planned d.protocol k = some r → (d.pass input).membersAfter ran s members k =
        plannedMembers d.cfg (without input d.newPaths) k := by
    intro k hk r hr
    have hr' : s.planned (d.pass input).config.routing.routeProtocol k = some r := hr
    simp only [Pass.membersAfter, hr']
    exact if_pos ((hplanned k hk).symm.trans hr)
  refine
    { hpass with
      flight := fun f hf => ?_
      table_eq := by simp [hm.table_eq, hcommitted, Daemon.inFlight, Daemon.core]
      flight_of_committed := by simp [hcommitted]
      counts := fun k hk m hmem => ⟨(hpass.counts k hk m hmem).1, fun f hf => ?_⟩
      hops := fun _ k hk r hr h hh => ?_ }
  · obtain rfl := Option.some.inj hf
    exact d.cfg.installs_self
  · obtain rfl := Option.some.inj hf
    cases hr : s.planned d.protocol k with
    | none =>
      have hr' : s.planned (d.pass input).config.routing.routeProtocol k = none := hr
      simp [Pass.membersAfter, hr'] at hmem
    | some r =>
      rw [hmembers k hk r hr] at hmem
      exact mem_assignments_of_member hmem
  · rw [hmembers k hk r hr]
    exact exists_member hk ((hplanned k hk).symm.trans hr) hh

end Pass

/-! ## Runs -/

namespace World

variable {w : World}

/-- The invariant of a world. -/
def Inv (w : World) : Prop := Marking w.daemon.core w.table w.committed w.members

theorem Initial.inv (h : w.Initial) : w.Inv where
  valid := h.valid
  wellFormed := h.wellFormed
  managed := of_decide_eq_true h.managed
  heldRules := h.heldRules
  heldRoutes := h.heldRoutes
  applied := fun a ha => by cases h.applied ▸ ha
  flight := fun f hf => by cases h.flight ▸ hf
  table_eq := by simp [h.table, h.committed, Daemon.core, h.applied]
  flight_of_committed := by simp [h.committed]
  counts := fun _ _ _ _ =>
    ⟨fun a ha => (by cases h.applied ▸ ha), fun f hf => (by cases h.flight ▸ hf)⟩
  hops := by simp [Daemon.core, h.applied, h.flight]

/-- Paths in a route have their assignments in the table the kernel holds. -/
theorem Inv.marked (h : w.Inv) : w.Marked := by
  intro t ht k hk
  have htable := h.table_eq
  rw [Option.mem_def.mp ht] at htable
  cases hc : w.committed with
  | true =>
    rw [hc, if_pos rfl] at htable
    obtain ⟨f, hf, rfl⟩ := Option.map_eq_some_iff.mp htable.symm
    exact ⟨h.hops (.inl (by rw [hf, Option.isSome_some])) k hk,
      fun m hm => (h.flight f hf).assigns ((h.counts k hk m hm).2 f hf)⟩
  | false =>
    rw [hc, if_neg Bool.false_ne_true] at htable
    obtain ⟨a, ha, rfl⟩ := Option.map_eq_some_iff.mp htable.symm
    exact ⟨h.hops (.inr (by rw [ha, Option.isSome_some])) k hk,
      fun m hm => (h.applied a ha).assigns ((h.counts k hk m hm).1 a ha)⟩

/-- A completion of the nftables lane. -/
theorem Inv.reported (h : w.Inv) {now seq : ℕ} {result : Except String (Option Nft.Table)}
    (hp : w.Permits (.daemon (.nftApplied now seq result))) :
    (w.reported now seq result).Inv := by
  unfold Inv World.reported
  by_cases hseq : ∀ f ∈ w.daemon.nft.flight, f.seq ≠ seq
  · have hall : (w.daemon.nft.flight.all fun f => f.seq ≠ seq) = true := by
      simpa [Option.all_eq_true] using hseq
    rw [w.daemon.core_nftApplied_of_ne hseq, hall, Bool.and_true]
    exact h
  · simp only [not_forall, not_not] at hseq
    obtain ⟨f, hf, rfl⟩ := hseq
    have hcommitted := hp f hf rfl
    rw [w.daemon.core_nftApplied hf, Option.mem_def.mp hf]
    simp only [Option.all_some, ne_eq, not_true_eq_false, decide_false, Bool.and_false]
    cases result with
    | ok listing => exact h.applied_ok hf hcommitted.symm listing
    | error e => exact h.applied_error hcommitted.symm

/-- A pass. -/
theorem Inv.pass (h : w.Inv) {e : PassEnv} (hp : w.Permits (.daemon (.pass e)))
    (hs : w.Steady (.daemon (.pass e))) : (w.pass e).Inv := by
  unfold Inv World.pass
  cases hprep : w.daemon.prepared e with
  | none =>
    dsimp only
    rw [w.daemon.step_of_not_prepared hprep]
    exact h
  | some p =>
    obtain ⟨tables, hcore⟩ := w.daemon.prepared_spec hprep
    have hcfg : p.cfg = w.daemon.cfg := congrArg Core.cfg hcore
    have hnft : p.nft = w.daemon.nft := congrArg Core.nft hcore
    have hshrinks := hp p (Option.mem_def.mpr hprep)
    rw [show p.system = _ from congrArg Core.system hcore] at hshrinks
    have hprepared : Marking p.core w.table w.committed w.members := by
      rw [hcore]
      exact h.environment (h.wellFormed.reread e.now e.dumps tables) hshrinks
    have hsteady : p.nft.applied = none → p.nft.adopted = none →
        ∀ f ∈ p.nft.flight, ∀ a ∈ p.cfg.assignments, a ∈ f.configured := by
      rw [hnft, hcfg]
      exact hs
    dsimp only
    rcases Daemon.step_spec hprep h.heldRules h.heldRoutes _ rfl
      with hstep | ⟨hflight, hpending, hran, seq, attempt, hstep⟩
    · rw [show (w.daemon.step e).system = _ from congrArg Core.system hstep, hstep]
      exact hprepared.pass (Daemon.executed_prefix hprep h.heldRules h.heldRoutes) rfl hsteady
    · rw [show (w.daemon.step e).system = _ from congrArg Core.system hstep, hstep]
      exact hprepared.launch rfl hflight hpending hran seq attempt

/-- **Every event keeps the invariant.** -/
theorem Inv.step (h : w.Inv) {ev : Event} (hp : w.Permits ev) (hs : w.Steady ev) :
    (w.step ev).Inv := by
  cases ev with
  | commit =>
    change w.commit.Inv
    unfold World.commit
    split
    · exact h
    · next f hf => exact Marking.commit h hf
  | daemon ev =>
    cases ev with
    | nftApplied now seq result => exact h.reported hp
    | pass e => exact h.pass hp hs
    | notification now m port flags =>
      change Marking (w.daemon.notification now m port flags).core _ _ _
      rw [w.daemon.core_notification hp.1]
      exact h.environment (h.wellFormed.applyMessage now m) hp.2
    | fullReconciliation e view =>
      change Marking (w.daemon.fullReconciliation e view).core _ _ _
      rw [w.daemon.core_fullReconciliation]
      cases view with
      | none => exact h.environment h.wellFormed (Shrinks.refl _ _ _)
      | some s => exact h.environment (hp s rfl).1 (hp s rfl).2
    | reload new =>
      change Marking (w.daemon.reload new).core _ _ _
      unfold Daemon.reload
      split
      · next hnew => exact h.reloaded hnew.1 hnew.2
      · exact h
    | nftInspected now seq listing =>
      change Marking (w.daemon.nftInspected now seq listing).core _ _ _
      obtain ⟨missing, hcore⟩ := w.daemon.core_nftInspected now seq listing
      rw [hcore]
      exact h.inspected missing
    | routerAdvertisement ifindex =>
      change Marking (w.daemon.routerAdvertisement ifindex).core _ _ _
      rwa [w.daemon.core_routerAdvertisement]
    | round k r =>
      change Marking (w.daemon.round k r).core _ _ _
      rwa [w.daemon.core_round]
    | drain u drain => exact h
    | sysctlsDone now seq scope result recorded =>
      change Marking (w.daemon.sysctlsDone now seq scope result recorded).core _ _ _
      rwa [w.daemon.core_sysctlsDone]
    | handedBack now seq result recorded =>
      change Marking (w.daemon.handedBack now seq result recorded).core _ _ _
      rwa [w.daemon.core_handedBack]

/-- **Marks before membership over whole runs.**  In every run in which passes during a
first application only run with configurations whose assignments it holds, the paths in
the balancing route and in the policy tables have their assignments in the table that
the kernel holds, from the first application on. -/
theorem marked_run {w : World} (h : w.Initial) (events : List Event)
    (hmeets : w.Meets (fun w ev => w.Permits ev ∧ w.Steady ev) events) : (w.run events).Marked := by
  suffices ∀ w : World, w.Inv → Meets (fun w ev => w.Permits ev ∧ w.Steady ev) w events →
      (w.run events).Inv from (this w h.inv hmeets).marked
  clear hmeets h
  induction events with
  | nil => exact fun _ h _ => h
  | cons ev events ih => exact fun w h hmeets => ih _ (h.step hmeets.1.1 hmeets.1.2) hmeets.2

/-- A pass whose dumps fail meets no change by others. -/
theorem permits_of_silent (w : World) {e : PassEnv} (h : ∀ k n, e.dumps k n = none) :
    w.Permits (.daemon (.pass e)) := by
  intro p hp
  obtain ⟨tables, hcore⟩ := w.daemon.prepared_spec hp
  have hsystem : p.system = w.daemon.system :=
    (congrArg Core.system hcore).trans (reread_of_silent e.now _ h _ tables)
  rw [hsystem]
  exact Shrinks.refl _ _ _

end World

namespace Sample

def starting : World := { daemon := Daemon.start single 7 0 network.system none ∅ }

/-- The settings are applied, the first table goes to its lane, the kernel takes it, the
lane reports it and a further pass runs. -/
def installed : List World.Event :=
  [ .daemon (.pass quiet), .daemon (.sysctlsDone 0 1 (.interface "wan1") (.ok ()) []),
    .daemon (.sysctlsDone 0 2 .global (.ok ()) []), .daemon (.pass quiet), .commit,
    .daemon (.nftApplied 0 3 (.ok none)), .daemon (.pass quiet) ]

/-- A reload moves the path while the first table is in flight. -/
def overtaken : List World.Event :=
  [ .daemon (.pass quiet), .daemon (.sysctlsDone 0 1 (.interface "wan1") (.ok ()) []),
    .daemon (.sysctlsDone 0 2 .global (.ok ()) []), .daemon (.pass quiet),
    .daemon (.reload moved), .daemon (.pass quiet),
    .daemon (.sysctlsDone 0 4 (.interface "wan2") (.ok ()) []), .daemon (.pass quiet), .commit ]

theorem starting_initial : starting.Initial where
  valid := by decide
  wellFormed := network.wellFormed
  managed := by decide
  applied := by decide
  flight := rfl
  heldRules := rfl
  heldRoutes := rfl
  table := rfl
  committed := rfl

theorem permits_quiet (w : World) : w.Permits (.daemon (.pass quiet)) :=
  w.permits_of_silent fun _ _ => rfl

/-- What evaluation finds along the first application, in one computation. -/
theorem installed_facts :
    (starting.run (installed.take 3)).daemon.nft.flight = none ∧
      (starting.run (installed.take 5)).committed = true ∧
      (starting.run (installed.take 6)).daemon.nft.flight = none ∧
      (starting.run installed).table = some (Nft.ruleset single) ∧
      ((starting.run installed).members ⟨.v4, 1000⟩).map Member.assignment =
        [⟨⟨id1, .v4⟩, "wan1"⟩] := by
  decide +kernel

theorem overtaken_facts :
    (starting.run overtaken).table = some (Nft.ruleset single) ∧
      (starting.run overtaken).daemon.layout.isTrafficTable 1000 = true ∧
      (⟨⟨⟨id1, .v4⟩, "wan2"⟩, ⟨4, some (.v4 0x0a010001), false, 1⟩⟩ : Member) ∈
        (starting.run overtaken).members ⟨.v4, 1000⟩ ∧
      ((starting.run overtaken).daemon.system.planned 249 ⟨.v4, 1000⟩).map
          (fun r => r.nexthops.map NextHop.ifindex) = some [4] ∧
      (Nft.ruleset single).assigns (starting.run overtaken).daemon.cfg.routing.fwmarkMask
        ⟨⟨id1, .v4⟩, "wan2"⟩ = false := by
  decide +kernel

end Sample

open Sample in
/-- The first application of the sample, with its path in the balancing route. -/
theorem World.marked_run_sample :
    ((starting.run installed).table = some (Nft.ruleset single) ∧
      ((starting.run installed).members ⟨.v4, 1000⟩).map Member.assignment =
        [⟨⟨id1, .v4⟩, "wan1"⟩]) ∧ (starting.run installed).Marked := by
  obtain ⟨hbefore, hcommitted, hafter, hinstalled⟩ := installed_facts
  refine ⟨hinstalled, World.marked_run starting_initial installed ?_⟩
  refine ⟨⟨permits_quiet _, ?_⟩, ⟨trivial, trivial⟩, ⟨trivial, trivial⟩, ⟨permits_quiet _, ?_⟩,
    ⟨trivial, trivial⟩, ⟨fun _ _ _ => hcommitted.symm, trivial⟩, ⟨permits_quiet _, ?_⟩, trivial⟩
  · intro _ _ f hf
    cases hf
  · intro _ _ f hf
    cases hbefore ▸ hf
  · intro _ _ f hf
    cases hafter ▸ hf

open Sample in
/-- A path moved while the first table is in flight becomes a member at once: when the
kernel takes that table, the balancing route uses an interface it does not assign. -/
theorem World.moved_path_unmarked :
    starting.Initial ∧ Meets Permits starting overtaken ∧
      ((starting.run overtaken).daemon.system.planned 249 ⟨.v4, 1000⟩).map
          (fun r => r.nexthops.map NextHop.ifindex) = some [4] ∧
      ¬ (starting.run overtaken).Marked := by
  obtain ⟨htable, htraffic, hmember, hroute, hassigns⟩ := overtaken_facts
  refine ⟨starting_initial, ?_, hroute, fun hmarked => ?_⟩
  · exact ⟨permits_quiet _, trivial, trivial, permits_quiet _, trivial, permits_quiet _, trivial,
      permits_quiet _, trivial, trivial⟩
  · have hassigned := (hmarked _ htable ⟨.v4, 1000⟩ htraffic).2 _ hmember
    rw [hassigns] at hassigned
    cases hassigned

end Polywan
