import Polywan.Daemon.Host
import Polywan.Discover.Congr
import Polywan.Lib.Until

/-!
# Discovery follows the kernel

From a full dump on, the view keeps up with the default routes of the kernel through
notifications and re-reads, and discovery finds what it would find on a fresh dump.  A
reload changes which tables the view keeps and reads none of them: a table that it adds
is seen only as far as later notifications tell of it.

## Main definitions

* `Host.Delivers` — default routes change and are notified; passes read completely.
* `Host.Foreseen` — what a reload adds holds no default route.
* `Host.Discovers` — a pass discovers what it would on a fresh dump.
-/

namespace Polywan

/-- A full dump of a kernel, as far as the scope keeps it. -/
def Fresh (scope : Scope) (K : Kernel) (s : System) : Prop :=
  ∀ (κ : RouteKey) r,
    s.routes[κ]? = some r ↔ r ∈ K ∧ scope.keeps r = true ∧ routeKey scope r = κ

/-- The view that a pass evaluates. -/
def Daemon.evaluated (d : Daemon) (e : PassEnv) : System := ((d.prepared e).getD d).system

namespace Host

variable (h : Host)

/-- The view is a full dump. -/
structure Dumped : Prop where
  valid : h.daemon.cfg.Valid
  wellFormed : h.daemon.system.WellFormed h.daemon.scope
  distinct : h.kernel.Distinct h.daemon.scope
  fresh : Fresh h.daemon.scope h.kernel h.daemon.system

/-- Default routes change and are notified in order; dumps are complete. -/
def Delivers : Event → Prop
  | .changed n m _ =>
    h.now ≤ n.now ∧ n.change.Possible h.daemon.scope h.kernel ∧ n.change.Flagged n.flags ∧
      n.change.route.isDefault = true ∧ ObservedRoute.parse n.now m = some n.change.route
  | .daemon (.pass e) =>
    h.now ≤ e.now ∧ e.dumps.Complete e.now h.kernel fun k =>
      h.daemon.scope.isPolywan k.table = false
  | .interface _ _ _ _ _ | .daemon (.notification _ _ _ _)
  | .daemon (.fullReconciliation _ _) => False
  | .daemon _ => True

/-- A discovery table that a reload adds holds no default route, in the kernel or in the
view; a pass that stops before its re-reads has none to make. -/
def Foreseen : Event → Prop
  | .daemon (.reload c) =>
    c.Valid → c.structural = h.daemon.cfg.structural →
      ∀ t ∈ c.routing.discoveryTables, t ∉ h.daemon.cfg.routing.discoveryTables →
        (∀ r ∈ h.kernel, r.isDefault = true → r.table ≠ t) ∧
          ∀ (κ : RouteKey) v, h.daemon.system.routes[κ]? = some v → v.isDefault = true →
            v.table ≠ t
  | .daemon (.pass e) => h.daemon.prepared e = none → h.daemon.reread = ∅
  | _ => True

/-- The default routes of the discovery tables are the kernel's, and a pass discovers what
it would discover on a full dump, with the expiries already known. -/
structure Discovers (e : PassEnv) : Prop where
  exact : ∀ k : TableKey, k.table ∈ h.daemon.cfg.routing.discoveryTables →
    Exact h.daemon.scope e.now h.kernel (h.daemon.evaluated e) k
  discovered : ∀ s : System, Fresh h.daemon.scope h.kernel s →
    s.links = (h.daemon.evaluated e).links → s.addresses = (h.daemon.evaluated e).addresses →
    s.nexthops = (h.daemon.evaluated e).nexthops →
    discover h.daemon.cfg (h.daemon.evaluated e) h.daemon.protocol e.now =
      discover h.daemon.cfg (s.keepExpiries e.now (h.daemon.evaluated e)) h.daemon.protocol e.now

end Host

/-! ## Scopes -/

section Scope

variable {scope scope' : Scope} {now : ℕ} {K : Kernel} {s : System} {k : TableKey}

theorem keeps_keepExpiry (scope : Scope) (now : ℕ) (old : Option ℕ) (r : ObservedRoute) :
    scope.keeps (keepExpiry now old r) = scope.keeps r := by
  obtain ⟨t, ht⟩ := keepExpiry_eq now old r
  rw [ht]
  rfl

theorem ObservedRoute.Shows.keeps_eq {v r : ObservedRoute} (h : v.Shows now r) (scope : Scope) :
    scope.keeps v = scope.keeps r :=
  (congrArg scope.keeps h).trans (keeps_keepExpiry scope now v.expiresAt r)

theorem routeKey_congr (ht : ∀ t, scope'.isPolywan t = scope.isPolywan t) (r : ObservedRoute) :
    routeKey scope' r = routeKey scope r := by
  rw [routeKey, ht, routeKey]

/-- Keeping less leaves the view exact. -/
theorem Exact.rescope (h : Exact scope now K s k)
    (ht : ∀ t, scope'.isPolywan t = scope.isPolywan t)
    (hK : ∀ r ∈ K, scope'.keeps r = true → scope.keeps r = true)
    (hs : ∀ (κ : RouteKey) v, s.routes[κ]? = some v → scope'.keeps v = true →
      scope.keeps v = true) : Exact scope' now K s k where
  holds := by
    intro r hr hk hkeeps
    rw [routeKey_congr ht]
    exact h.holds r hr hk (hK r hr hkeeps)
  only := by
    intro κ v hv hk hkeeps
    obtain ⟨r, hr, hrkeeps, rfl⟩ := h.only κ v hv hk (hs κ v hv hkeeps)
    obtain ⟨v', hv', hshows⟩ := h.holds r hr hk hrkeeps
    obtain rfl := Option.some.inj (hv.symm.trans hv')
    exact ⟨r, hr, (hshows.keeps_eq scope').symm.trans hkeeps, routeKey_congr ht r⟩

/-- A scope with other discovery tables keeps a route that it kept, or a default route of a
table that is new. -/
theorem keeps_of_tables (ht : ∀ t, scope'.isPolywan t = scope.isPolywan t) {r : ObservedRoute}
    (hr : r.isDefault = true → r.table ∈ scope'.discoveryTables →
      r.table ∈ scope.discoveryTables) (h : scope'.keeps r = true) : scope.keeps r = true := by
  simp only [Scope.keeps, ht, Bool.or_eq_true, Bool.and_eq_true, List.contains_iff_mem] at h ⊢
  rcases h with (h | ⟨hd, hmem⟩) | h
  · exact .inl (.inl h)
  · exact .inl (.inr ⟨hd, hr hd hmem⟩)
  · exact .inr h

/-- The members of a default route are default routes. -/
theorem KernelChange.unmixed_of_isDefault {c : KernelChange} (h : c.route.isDefault = true) :
    c.Unmixed scope := by
  cases c with
  | deleteMember r hop =>
    have hplace : (r.without hop).SamePlace (r.member hop) := ⟨rfl, rfl, rfl⟩
    exact (keeps_congr_of_isDefault hplace h).symm.trans
  | add _ | replace _ _ | append _ _ _ | delete _ => trivial

/-! ## Routes to networks -/

/-- Outside the program's tables the view holds only routes to networks that the scope
keeps. -/
def Networks (scope : Scope) (s : System) : Prop :=
  ∀ (κ : RouteKey) v, s.routes[κ]? = some v → κ.destination.isSome →
    scope.isPolywan κ.table = false → scope.keeps v = true

theorem Networks.applyRoute (h : Networks scope s) (r : ObservedRoute) (deleted : Bool) :
    Networks scope (s.applyRoute now scope r deleted).1 := by
  by_cases hr : scope.keeps r = true
  · intro κ v hv hdest ht
    rw [getElem?_applyRoute hr] at hv
    split at hv
    · split at hv
      · cases hv
      · obtain rfl := Option.some.inj hv
        exact (keeps_keepExpiry scope now _ r).trans hr
    · exact h κ v hv hdest ht
  · rw [applyRoute_of_not_keeps (Bool.eq_false_iff.mpr hr)]
    exact h

theorem Networks.replaceTable (h : Networks scope s) (dump : List RouteNetlinkMessage) :
    Networks scope (s.replaceTable now scope k dump) := by
  intro κ v hv hdest ht
  by_cases hκ : κ.tableKey = k
  · cases hlast : Lib.lastTold (fun m => tellsRoute now scope κ (.route m)) dump with
    | none =>
      rw [getElem?_replaceTable_of_none hκ hlast] at hv
      cases hv
    | some r =>
      rw [getElem?_replaceTable_of_some hκ hlast] at hv
      obtain rfl := Option.some.inj hv
      obtain ⟨m, -, htells⟩ := Lib.mem_of_lastTold hlast
      cases m with
      | newRoute m =>
        obtain ⟨-, hboth⟩ := Option.filter_eq_some_iff.mp htells
        exact (keeps_keepExpiry scope now _ r).trans ((Bool.and_eq_true _ _).mp hboth).1
      | newLink _ | delLink _ | newAddress _ | delAddress _ | delRoute _ | newRule _
      | delRule _ | other _ => cases htells
  · rw [getElem?_replaceTable_of_ne hκ] at hv
    exact h κ v hv hdest ht

theorem Networks.reread (h : Networks scope s) (dumps : Dumps) (tables : List TableKey) :
    Networks scope (Polywan.reread now scope dumps s tables).1 := by
  induction tables generalizing s with
  | nil => exact h
  | cons k tables ih =>
    rw [Polywan.reread]
    split
    · exact h
    · exact ih (h.replaceTable _)

theorem Networks.applyOps {l : Layout} (hc : scope.Covers l) (h : Networks scope s) {protocol : ℕ}
    {ops : List Op} (hops : ∀ op ∈ ops, op.Proper l) :
    Networks scope (Polywan.applyOps now scope protocol s ops) := by
  intro κ v hv hdest ht
  rw [getElem?_applyOps_of_foreign now protocol s hc hops ((hc _).symm.trans ht)] at hv
  exact h κ v hv hdest ht

theorem Networks.rescope (h : Networks scope s)
    (ht : ∀ t, scope'.isPolywan t = scope.isPolywan t) (hw : s.WellFormed scope) :
    Networks scope' s := by
  intro κ v hv hdest htable
  have hv' := h κ v hv hdest ((ht _).symm.trans htable)
  have hdefault : v.isDefault = false := by
    rw [ObservedRoute.isDefault, show v.destination = κ.destination from
      congrArg RouteKey.destination (hw.route_key κ v hv)]
    simpa using hdest
  simp only [Scope.keeps, hdefault, ht] at hv' ⊢
  exact hv'

end Scope

/-! ## Fresh dumps -/

section Fresh

variable {scope : Scope} {now : ℕ} {K : Kernel} {s view : System}

theorem Fresh.exact (h : Fresh scope K s) (k : TableKey) : Exact scope now K s k where
  holds := by
    intro r hr _ hkeeps
    refine ⟨r, (h _ r).mpr ⟨hr, hkeeps, rfl⟩, ?_⟩
    unfold ObservedRoute.Shows keepExpiry
    cases r.expiresAt <;> rfl
  only := by
    intro κ v hv _ hkeeps
    obtain ⟨hmem, -, hkey⟩ := (h κ v).mp hv
    exact ⟨v, hmem, hkeeps, hkey⟩

theorem Fresh.networks (h : Fresh scope K s) : Networks scope s :=
  fun κ v hv _ _ => ((h κ v).mp hv).2.1

theorem Fresh.keyed (h : Fresh scope K s) (now : ℕ) (view : System) :
    (s.keepExpiries now view).Keyed := by
  intro κ r hr
  rw [getElem?_keepExpiries] at hr
  obtain ⟨x, hx, rfl⟩ := Option.map_eq_some_iff.mp hr
  obtain ⟨-, -, rfl⟩ := (h κ x).mp hx
  obtain ⟨t, ht⟩ :=
    keepExpiry_eq now (view.routes[routeKey scope x]?.bind ObservedRoute.expiresAt) x
  rw [ht]
  exact ⟨rfl, rfl, rfl⟩

/-- Where the view is exact, a fresh dump shows the same. -/
theorem Fresh.getElem?_eq (h : Fresh scope K s) {κ : RouteKey}
    (hexact : Exact scope now K view κ.tableKey)
    (hkept : ∀ v, view.routes[κ]? = some v → scope.keeps v = true) :
    view.routes[κ]? = (s.keepExpiries now view).routes[κ]? := by
  rw [getElem?_keepExpiries]
  cases hs : s.routes[κ]? with
  | some r =>
    obtain ⟨hr, hkeeps, rfl⟩ := (h κ r).mp hs
    obtain ⟨v, hv, hshows⟩ := hexact.holds r hr rfl hkeeps
    rw [hv]
    exact congrArg some hshows
  | none =>
    cases hv : view.routes[κ]? with
    | none => rfl
    | some v =>
      obtain ⟨r, hr, hkeeps, hkey⟩ := hexact.only κ v hv rfl (hkept v hv)
      rw [(h κ r).mpr ⟨hr, hkeeps, hkey⟩] at hs
      cases hs

end Fresh

/-! ## Runs -/

namespace Host

/-- Outside the program's tables the view agrees with the kernel or a re-read is
scheduled. -/
structure Follows (h : Host) : Prop where
  valid : h.daemon.cfg.Valid
  wellFormed : h.daemon.system.WellFormed h.daemon.scope
  distinct : h.kernel.Distinct h.daemon.scope
  networks : Networks h.daemon.scope h.daemon.system
  exact : ∀ k : TableKey, h.daemon.scope.isPolywan k.table = false →
    Exact h.daemon.scope h.now h.kernel h.daemon.system k ∨ k ∈ h.daemon.reread

variable {h : Host}

theorem Dumped.follows (hd : h.Dumped) : h.Follows where
  valid := hd.valid
  wellFormed := hd.wellFormed
  distinct := hd.distinct
  networks := hd.fresh.networks
  exact := fun k _ => .inl (hd.fresh.exact k)

namespace Follows

variable (hf : h.Follows)
include hf

/-- The configuration and the view stay, and no re-read is dropped. -/
theorem of_core {d : Daemon} (hcfg : d.cfg = h.daemon.cfg) (hsystem : d.system = h.daemon.system)
    (hkeeps : h.daemon.Keeps d) : Follows { h with daemon := d } := by
  have hscope : d.scope = h.daemon.scope := congrArg Scope.of hcfg
  refine ⟨?_, ?_, ?_, ?_, ?_⟩
  · exact hcfg ▸ hf.valid
  · exact hscope ▸ hsystem ▸ hf.wellFormed
  · exact hscope ▸ hf.distinct
  · exact hscope ▸ hsystem ▸ hf.networks
  · change ∀ k : TableKey, d.scope.isPolywan k.table = false →
      Exact d.scope h.now h.kernel d.system k ∨ k ∈ d.reread
    rw [hscope, hsystem]
    exact fun k hk => (hf.exact k hk).imp_right (hkeeps k)

/-- A change of a default route and its notification. -/
theorem changed {n : Notified} {m : RouteMessage} {port : ℕ}
    (hdelivers : h.Delivers (.changed n m port)) : (h.step (.changed n m port)).Follows := by
  obtain ⟨hnow, hp, hflags, hdefault, hparse⟩ := hdelivers
  -- What the daemon makes of the message.
  generalize hmessage : (if n.change.deleted then .delRoute m else .newRoute m :
    RouteNetlinkMessage) = message
  have happly : (h.daemon.system.apply n.now h.daemon.scope message).1 =
      (h.daemon.system.applyRoute n.now h.daemon.scope n.change.route n.change.deleted).1 := by
    cases hdel : n.change.deleted <;> simp [← hmessage, hdel, System.apply, hparse]
  have hstale : h.daemon.staleTable n.now message n.flags =
      h.daemon.system.staleAfter h.daemon.scope n.change.route n.change.deleted n.flags := by
    cases hdel : n.change.deleted <;>
      simp [← hmessage, hdel, Daemon.staleTable, Daemon.notifiedRoute, hparse]
  obtain ⟨_, _, hcore⟩ := h.daemon.core_notification_of_any n.now (.route message) port n.flags
  have hcfg : (h.daemon.routeNotification n.now message port n.flags).cfg = h.daemon.cfg :=
    congrArg Core.cfg hcore
  have hscope : (h.daemon.routeNotification n.now message port n.flags).scope = h.daemon.scope :=
    congrArg Scope.of hcfg
  have hsystem : (h.daemon.routeNotification n.now message port n.flags).system =
      (h.daemon.system.applyRoute n.now h.daemon.scope n.change.route n.change.deleted).1 :=
    (congrArg Core.system hcore).trans happly
  have hstep : h.step (.changed n m port) =
      { kernel := n.change.after h.kernel
        daemon := h.daemon.routeNotification n.now message port n.flags
        now := n.now } := by
    rw [step, hmessage]
    rfl
  rw [hstep]
  refine ⟨?_, ?_, ?_, ?_, ?_⟩
  · exact hcfg ▸ hf.valid
  · exact hscope ▸ hsystem ▸ hf.wellFormed.applyRoute _ _ _
  · exact hscope ▸ hf.distinct.after hp
  · exact hscope ▸ hsystem ▸ hf.networks.applyRoute _ _
  · change ∀ k : TableKey,
      (h.daemon.routeNotification n.now message port n.flags).scope.isPolywan k.table = false →
        Exact (h.daemon.routeNotification n.now message port n.flags).scope n.now
          (n.change.after h.kernel) (h.daemon.routeNotification n.now message port n.flags).system k
        ∨ k ∈ (h.daemon.routeNotification n.now message port n.flags).reread
    rw [hscope, hsystem]
    intro k hk
    rcases hf.exact k hk with hexact | hmem
    · refine ((hexact.mono hnow).step hf.wellFormed hf.distinct hp hflags
        (KernelChange.unmixed_of_isDefault hdefault)).imp_right fun hk' => ?_
      exact h.daemon.mem_reread_routeNotification n.now message port n.flags
        (.inr (hstale.trans hk'))
    · exact .inr (h.daemon.mem_reread_routeNotification n.now message port n.flags (.inl hmem))

/-- A reload. -/
theorem reload {c : Config} (hforeseen : h.Foreseen (.daemon (.reload c))) :
    (h.step (.daemon (.reload c))).Follows := by
  by_cases hcommit : c.Valid ∧ c.structural = h.daemon.cfg.structural
  · have hnew := hforeseen hcommit.1 hcommit.2
    have hstep : h.step (.daemon (.reload c)) = { h with daemon := h.daemon.commitReload c } := by
      simp only [step, handle, Daemon.handle, Daemon.reload, if_pos hcommit]
    have ht : ∀ t, (Scope.of c).isPolywan t = h.daemon.scope.isPolywan t := by
      intro t
      rw [Scope.covers_of c, Layout.of_structural hcommit.2]
      exact (Scope.covers_of h.daemon.cfg t).symm
    have hK : ∀ r ∈ h.kernel, (Scope.of c).keeps r = true → h.daemon.scope.keeps r = true := by
      refine fun r hr => keeps_of_tables ht fun hdefault hmem => ?_
      by_contra hnot
      exact (hnew r.table hmem hnot).1 r hr hdefault rfl
    have hs : ∀ (κ : RouteKey) v, h.daemon.system.routes[κ]? = some v →
        (Scope.of c).keeps v = true → h.daemon.scope.keeps v = true := by
      refine fun κ v hv => keeps_of_tables ht fun hdefault hmem => ?_
      by_contra hnot
      exact (hnew v.table hmem hnot).2 κ v hv hdefault rfl
    rw [hstep]
    refine ⟨hcommit.1, hf.wellFormed.of_isPolywan ht, ?_, hf.networks.rescope ht hf.wellFormed,
      fun k hk => ?_⟩
    · intro r hr r' hr' hkey
      refine hf.distinct hr hr' ?_
      rw [← routeKey_congr ht, ← routeKey_congr ht]
      exact hkey
    · exact (hf.exact k ((ht k.table).symm.trans hk)).imp_left fun hexact =>
        hexact.rescope ht hK hs
  · have hstep : h.step (.daemon (.reload c)) = h := by
      simp only [step, handle, Daemon.handle, Daemon.reload, if_neg hcommit]
    rw [hstep]
    exact hf

/-- The view of a pass: outside the program's tables it agrees with the kernel. -/
theorem evaluated {e : PassEnv} (hdelivers : h.Delivers (.daemon (.pass e)))
    (hforeseen : h.Foreseen (.daemon (.pass e))) :
    (h.daemon.evaluated e).WellFormed h.daemon.scope ∧
      Networks h.daemon.scope (h.daemon.evaluated e) ∧
      ∀ k : TableKey, h.daemon.scope.isPolywan k.table = false →
        Exact h.daemon.scope e.now h.kernel (h.daemon.evaluated e) k := by
  obtain ⟨hnow, hdumps⟩ := hdelivers
  have hexact : ∀ k : TableKey, h.daemon.scope.isPolywan k.table = false →
      Exact h.daemon.scope e.now h.kernel h.daemon.system k ∨ k ∈ h.daemon.reread :=
    fun k hk => (hf.exact k hk).imp_left fun hexact => hexact.mono hnow
  cases hp : h.daemon.prepared e with
  | none =>
    rw [show h.daemon.evaluated e = h.daemon.system by rw [Daemon.evaluated, hp]; rfl]
    refine ⟨hf.wellFormed, hf.networks, fun k hk => (hexact k hk).resolve_right ?_⟩
    rw [hforeseen hp]
    exact Std.ExtTreeSet.not_mem_empty
  | some p =>
    rw [show h.daemon.evaluated e = p.system by rw [Daemon.evaluated, hp]; rfl]
    refine ⟨Daemon.wellFormed_of_prepared hp hf.wellFormed, ?_,
      Daemon.exact_of_prepared hp hf.distinct hdumps hexact⟩
    rw [(h.daemon.reread_of_prepared hp).2.2]
    exact hf.networks.reread _ _

/-- A pass. -/
theorem pass {e : PassEnv} (hdelivers : h.Delivers (.daemon (.pass e)))
    (hforeseen : h.Foreseen (.daemon (.pass e))) : (h.step (.daemon (.pass e))).Follows := by
  cases hp : h.daemon.prepared e with
  | none =>
    have hcore := h.daemon.step_of_not_prepared hp
    have hidle : h.daemon.executed e = [] := by rw [Daemon.executed, hp]
    have hstep : h.step (.daemon (.pass e)) =
        { { h with daemon := h.daemon.step e } with now := e.now } := by
      simp only [step, handle, hidle]
      rfl
    have hsame := hf.of_core (congrArg Core.cfg hcore) (congrArg Core.system hcore)
      (h.daemon.keeps_step_of_not_prepared hp)
    rw [hstep]
    exact ⟨hsame.valid, hsame.wellFormed, hsame.distinct, hsame.networks, fun k hk =>
      (hsame.exact k hk).imp_left fun hexact => hexact.mono hdelivers.1⟩
  | some p =>
    obtain ⟨hw, hnetworks, hexact⟩ := hf.evaluated hdelivers hforeseen
    rw [show h.daemon.evaluated e = p.system by rw [Daemon.evaluated, hp]; rfl]
      at hw hnetworks hexact
    have hcfg : (h.daemon.step e).cfg = h.daemon.cfg := (h.daemon.lane_step e).1
    have hscope : (h.daemon.step e).scope = h.daemon.scope := congrArg Scope.of hcfg
    have hsystem : (h.daemon.step e).system =
        applyOps e.now h.daemon.scope p.protocol p.system (h.daemon.executed e) := by
      rw [Daemon.system_of_prepared hp, Daemon.scope_of_prepared hp]
    refine ⟨?_, ?_, ?_, ?_, ?_⟩
    · exact hcfg ▸ hf.valid
    · exact hscope ▸ hsystem ▸ hw.applyOps _ _ _
    · exact hscope ▸ hf.distinct.afterOps _
    · exact hscope ▸ hsystem ▸ hnetworks.applyOps (Scope.covers_of h.daemon.cfg)
        (Daemon.executed_proper hp hf.valid)
    · change ∀ k : TableKey, (h.daemon.step e).scope.isPolywan k.table = false →
        Exact (h.daemon.step e).scope e.now _ (h.daemon.step e).system k ∨ _
      rw [hscope]
      exact fun k hk => .inl (Daemon.exact_step hp hf.valid hf.wellFormed hexact k hk)

/-- **One event.** -/
theorem step {ev : Event} (hdelivers : h.Delivers ev) (hforeseen : h.Foreseen ev) :
    (h.step ev).Follows := by
  cases ev with
  | changed n m port => exact hf.changed hdelivers
  | interface lost now m port flags => cases hdelivers
  | daemon ev =>
    have hidle : ev.Idle → (∀ e, ev ≠ .pass e) → Follows { h with daemon := h.daemon.handle ev } :=
      fun hidle hne => hf.of_core (h.daemon.view_of_idle hidle).1 (h.daemon.view_of_idle hidle).2
        (h.daemon.keeps_handle hne)
    cases ev with
    | pass e => exact hf.pass hdelivers hforeseen
    | reload c => exact hf.reload hforeseen
    | notification now m port flags => cases hdelivers
    | fullReconciliation e view => cases hdelivers
    | routerAdvertisement _ | round _ _ | drain _ _ | nftApplied _ _ _ | nftInspected _ _ _
    | sysctlsDone _ _ _ _ _ | handedBack _ _ _ _ => exact hidle trivial nofun

/-- What a pass discovers. -/
theorem discovers {e : PassEnv} (hdelivers : h.Delivers (.daemon (.pass e)))
    (hforeseen : h.Foreseen (.daemon (.pass e))) : h.Discovers e := by
  obtain ⟨hw, hnetworks, hexact⟩ := hf.evaluated hdelivers hforeseen
  have hforeign : ∀ t, t ∈ h.daemon.cfg.routing.discoveryTables ∨ t = tableMain →
      h.daemon.scope.isPolywan t = false := by
    intro t ht
    have hrange : t < h.daemon.cfg.routing.tableBase ∨
        h.daemon.cfg.routing.tableBase + 191 < t := by
      rcases ht with ht | rfl
      · exact hf.valid.discovery_outside t ht
      · have hunreserved := hf.valid.tables_unreserved
        simp only [tableMain]
        omega
    simp only [Daemon.scope, Scope.isPolywan, Scope.of, List.any_cons, List.any_nil, Bool.or_false,
      Bool.and_eq_false_iff, decide_eq_false_iff_not]
    omega
  refine ⟨fun k hk => hexact k (hforeign _ (.inl hk)), fun s hs hlinks haddresses hnexthops => ?_⟩
  refine discover_congr (hs.keyed e.now _) hw.keyed hlinks.symm haddresses.symm hnexthops.symm
    ?_ _ _
  rintro f κ ⟨-, ⟨hdest, ht⟩ | ⟨hdest, ht⟩⟩
  · refine hs.getElem?_eq (hexact κ.tableKey (hforeign _ (.inl ht))) fun v hv => ?_
    have hkey := hw.route_key κ v hv
    have hdefault : v.isDefault = true := by
      rw [ObservedRoute.isDefault, show v.destination = κ.destination from
        congrArg RouteKey.destination hkey, hdest]
      rfl
    have htable : v.table ∈ h.daemon.cfg.routing.discoveryTables := by
      rw [show v.table = κ.table from congrArg RouteKey.table hkey]
      exact ht
    simp [Scope.keeps, hdefault, Daemon.scope, Scope.of, htable]
  · have hmain := hforeign _ (.inr ht)
    exact hs.getElem?_eq (hexact κ.tableKey hmain) fun v hv => hnetworks κ v hv hdest hmain

end Follows

/-- **Discovery follows the kernel** from a full dump on, as long as no reload adds a
discovery table that holds default routes. -/
theorem discovers_run (h : Host) (hdumped : h.Dumped) {events : List Event}
    (hdelivers : Lib.Along step Delivers h events) (hforeseen : Lib.Along step Foreseen h events) :
    ∀ before e after, events = before ++ .daemon (.pass e) :: after →
      (h.run before).Discovers e := by
  rintro before e after rfl
  obtain ⟨hdbefore, hdpass, -⟩ := Lib.along_append.mp hdelivers
  obtain ⟨hfbefore, hfpass, -⟩ := Lib.along_append.mp hforeseen
  have hf : (h.run before).Follows :=
    (Lib.along_and.mpr ⟨hdbefore, hfbefore⟩).invariant
      (fun h ev hf hev => hf.step hev.1 hev.2) hdumped.follows
  exact hf.discovers hdpass hfpass

end Host

namespace Sample

/-- A default route outside the discovery tables. -/
def aside : RouteMessage :=
  { defaultRoute 3 (.v4 0x0a000001) with
    header := { addressFamily := .inet, protocol := 3, table := 200 } }

/-- The configuration that adds its table. -/
def widened : Config := { plain with routing := { routing with discoveryTables := [254, 200] } }

def unroutedView : View (Scope.of plain) :=
  [.newLink (link 3 "wan1"), .newAddress (address 3 (.v4 0x0a000002))].foldl (View.apply 0)
    (View.empty _)

/-- An uplink without a default route in the discovery tables. -/
def unrouted (routes : List RouteMessage) : Host where
  kernel := Kernel.told 0 routes
  daemon := (Daemon.start plain 7 0 unroutedView.system none ∅).run
    [ .pass quiet, .sysctlsDone 0 1 (.interface "wan1") (.ok ()) [],
      .sysctlsDone 0 2 .global (.ok ()) [], .pass quiet ]
  now := 0

theorem unrouted_dumped {routes : List RouteMessage}
    (h : ∀ r ∈ routes.filterMap (ObservedRoute.parse 0), (Scope.of plain).keeps r = false)
    (hd : (Kernel.told 0 routes).Distinct (Scope.of plain)) : (unrouted routes).Dumped := by
  have hempty : (unrouted routes).daemon.system.routes = ∅ :=
    show (unrouted []).daemon.system.routes = ∅ by decide +kernel
  have hscope : (unrouted routes).daemon.scope = Scope.of plain :=
    show (unrouted []).daemon.scope = Scope.of plain by decide +kernel
  refine ⟨show (unrouted []).daemon.cfg.Valid by decide +kernel, ⟨?_, ?_, ?_⟩, ?_, ?_⟩
  · simp [hempty]
  · exact show ∀ o ∈ (unrouted []).daemon.system.rules,
      ObservedRule.parse o.message = some o by decide +kernel
  · exact show (unrouted []).daemon.system.rules.Pairwise fun a b => sameRule a b = false by
      decide +kernel
  · rw [hscope]
    exact hd
  · intro κ r
    rw [hempty, hscope]
    simp only [Std.ExtTreeMap.getElem?_empty, reduceCtorEq, false_iff]
    rintro ⟨hr, hkeeps, -⟩
    rw [h r hr] at hkeeps
    cases hkeeps

/-- The main table gets a default route; a reload adds a table without one. -/
def announced : List Host.Event :=
  [ .changed ⟨0, .add viaFirst, 0⟩ (defaultRoute 3 (.v4 0x0a000001)) 0,
    .daemon (.reload widened) ]

/-- A pass whose dumps list some routes. -/
def reading (routes : List RouteMessage) : PassEnv := { now := 0, dumps := Dumps.told 0 routes }

/-- Whether discovery finds the uplink's path ready. -/
def finds (c : Config) (s : System) : Bool :=
  (discover c s c.routing.routeProtocol 0).toList.any fun e => e.2.ready.isOk

theorem told_singleton {m : RouteMessage} {r : ObservedRoute}
    (h : ObservedRoute.parse 0 m = some r) : Kernel.told 0 [m] = {r} := by
  ext x
  simp [Kernel.told, h]

end Sample

open Sample in
/-- The route is discovered after the reload. -/
theorem Host.discovers_run_sample :
    ((unrouted []).run announced).Discovers (reading [defaultRoute 3 (.v4 0x0a000001)]) ∧
      finds widened (((unrouted []).run announced).daemon.evaluated
        (reading [defaultRoute 3 (.v4 0x0a000001)])) = true := by
  have hkernel : ((unrouted []).run announced).kernel =
      Kernel.told 0 [defaultRoute 3 (.v4 0x0a000001)] := by
    have htold : Kernel.told 0 [defaultRoute 3 (.v4 0x0a000001)] = {viaFirst} :=
      told_singleton (by decide)
    rw [htold]
    ext r
    simp [run, announced, step, handle, KernelChange.after, unrouted, Kernel.told]
  have hdelivers : Lib.Along step Delivers (unrouted [])
      (announced ++ [.daemon (.pass (reading [defaultRoute 3 (.v4 0x0a000001)]))]) := by
    refine Lib.along_append.mpr ⟨⟨⟨Nat.le_refl _, ?_, trivial, rfl, by decide⟩, trivial, trivial⟩,
      ⟨Nat.le_refl _, ?_⟩, trivial⟩
    · simp [KernelChange.Possible, unrouted, Kernel.told]
    · change (Dumps.told 0 _).Complete 0 ((unrouted []).run announced).kernel _
      rw [hkernel]
      exact Dumps.complete_told 0 _ _
  refine ⟨discovers_run (unrouted [])
    (unrouted_dumped (by simp) (by simp [Kernel.told, Kernel.Distinct])) hdelivers ?_
    announced _ [] rfl, by decide +kernel⟩
  refine Lib.along_append.mpr ⟨⟨trivial, fun _ _ t ht hnot => ?_, trivial⟩, fun hnone => ?_,
    trivial⟩
  · -- The kernel and the view have the route of the main table only.
    obtain rfl : t = 200 := by
      have h254 : t ≠ 254 := by
        rintro rfl
        exact hnot (by decide +kernel)
      simpa [widened, h254] using ht
    refine ⟨fun r hr _ => ?_, fun κ v hv _ => ?_⟩
    · have hr : r = viaFirst := by
        simpa [step, KernelChange.after, unrouted, Kernel.told] using hr
      rw [hr]
      decide
    · have hall : ∀ e ∈ ((unrouted []).step (.changed ⟨0, .add viaFirst, 0⟩
          (defaultRoute 3 (.v4 0x0a000001)) 0)).daemon.system.routes.toList, e.2.table ≠ 200 := by
        decide +kernel
      exact hall (κ, v) (Std.ExtTreeMap.mem_toList_iff_getElem?_eq_some.mpr hv)
  · exact absurd hnone (by decide +kernel)

open Sample in
/-- **A table that a reload adds is not read**: the kernel has a default route there, and
the pass after the reload does not discover it. -/
theorem Host.added_table_unread :
    (unrouted [aside]).Dumped ∧
      Lib.Along step Delivers (unrouted [aside])
        [.daemon (.reload widened), .daemon (.pass (reading [aside]))] ∧
      ¬ ((unrouted [aside]).run [.daemon (.reload widened)]).Discovers (reading [aside]) ∧
      finds widened (((unrouted [aside]).run [.daemon (.reload widened)]).daemon.evaluated
        (reading [aside])) = false ∧
      finds widened
        { ((unrouted [aside]).run [.daemon (.reload widened)]).daemon.evaluated
            (reading [aside]) with
          routes := (∅ : Std.ExtTreeMap RouteKey ObservedRoute).insertMany
            (([aside].filterMap (ObservedRoute.parse 0)).map fun r =>
              (routeKey (Scope.of widened) r, r)) } = true := by
  have htold : Kernel.told 0 [aside] = {{ viaFirst with table := 200 }} :=
    told_singleton (by decide)
  refine ⟨unrouted_dumped (by decide) ?_, ⟨trivial, ⟨Nat.le_refl _, ?_⟩, trivial⟩, fun hd => ?_,
    by decide +kernel, by decide +kernel⟩
  · rw [htold]
    exact Set.injOn_singleton _ _
  · exact Dumps.complete_told 0 [aside] _
  · have hmem : ({ viaFirst with table := 200 } : ObservedRoute) ∈
        ((unrouted [aside]).run [.daemon (.reload widened)]).kernel := by
      change _ ∈ Kernel.told 0 [aside]
      rw [htold]
      exact Set.mem_singleton _
    obtain ⟨v, hv, -⟩ := (hd.exact ⟨.v4, 200⟩ (by decide +kernel)).holds _ hmem rfl
      (by decide +kernel)
    have hsome := Option.isSome_iff_exists.mpr ⟨v, hv⟩
    exact absurd hsome (by decide +kernel)

end Polywan
