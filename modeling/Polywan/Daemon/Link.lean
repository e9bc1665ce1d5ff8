import Polywan.Daemon.Run
import Polywan.Lib.Fold
import Polywan.Reconcile.Diff

/-!
# Link notifications that change nothing

A link notification makes the daemon forget the settings it applied to the interface,
also when the link is the one already observed.  From a state that passes leave alone,
such notifications change no path, no active set and no route as long as they concern
interfaces of no uplink, or of uplinks without a ready path.

## Main definitions

* `Daemon.Settled`, `Daemon.Calm` — a state, and a pass, in which there is nothing to do.
* `Daemon.Undisturbed` — notifications that change nothing, passes and completions.
-/

namespace Polywan

namespace Daemon

variable (d : Daemon)

/-- A state with nothing left to do. -/
structure Settled : Prop where
  valid : d.cfg.Valid
  installing : d.installing = false
  fullPass : d.fullPass = false
  applied : ∀ scope, scope ∉ d.sysctls.pending
  flight : d.nft.flight = none
  missing : d.nft.missing = false
  handBack : d.handBack = none
  departed : Sysctl.departed d.sysctls.recorded d.cfg = []

/-- A pass that finds everything as it is: its dumps, its discovery and its comparison. -/
structure Calm (e : PassEnv) : Prop where
  view : ∀ tables, (Polywan.reread e.now d.scope e.dumps d.system tables).1 = d.system
  paths : (d.evaluate e.now).paths = d.paths
  active : (d.evaluate e.now).active = d.active
  routeFailed : (d.evaluate e.now).routeFailed = d.routeFailed
  ops : d.passOps (d.evaluateInput e.now) = []

/-- No path of an uplink is ready. -/
def Idle (id : UplinkId) : Prop :=
  ∀ (k : PathKey) p, k.uplink = id → d.paths[k]? = some p → p.machine.ready = false

/-- What may happen after a settled state: notifications of links as they are already
observed, of no uplink or of an idle one, passes that find everything as it is, and
successful completions. -/
def Undisturbed : Event → Prop
  | .notification _ (.route (.newLink m)) _ _ =>
    ∃ l, ObservedLink.parse m = some l ∧ d.system.links[l.index]? = some l ∧
      ∀ id ∈ d.uplinkOn l.index, d.Idle id
  | .pass e => d.Calm e
  | .sysctlsDone _ _ _ (.ok _) recorded => Sysctl.departed recorded d.cfg = []
  | .handedBack _ _ (.ok _) recorded => Sysctl.departed recorded d.cfg = []
  | .nftApplied _ _ (.ok _) => True
  | .nftInspected _ _ (.ok listing) => listing.isSome ∧ listing = d.nft.listing
  | _ => False

/-- An inspection that lists the table as it was recorded. -/
theorem checkNft_of_same (hsome : d.nft.listing.isSome) (hmissing : d.nft.missing = false)
    (now : ℕ) : d.checkNft now (.ok d.nft.listing) = d := by
  have hnone : d.nft.listing.isNone = false := by simpa using hsome
  unfold checkNft
  split
  · rfl
  · simp only [hnone, ne_eq, not_true_eq_false, decide_false, Bool.and_false, Bool.or_false,
      Bool.false_and, Bool.false_eq_true, if_false]
    rw [← hmissing]

/-! ## What stays -/

/-- The part of the state that stays. -/
structure Face where
  core : Core
  paths : Std.ExtTreeMap PathKey PathRuntime
  active : Std.ExtTreeMap Family (Std.ExtTreeSet UplinkId)
  drained : Std.ExtTreeSet UplinkId
  routeFailed : Std.ExtTreeSet PathKey
  installing : Bool
  fullPass : Bool
  handBack : Option (ℕ × Attempt)

def face : Face where
  core := d.core
  paths := d.paths
  active := d.active
  drained := d.drained
  routeFailed := d.routeFailed
  installing := d.installing
  fullPass := d.fullPass
  handBack := d.handBack

/-- The state `d` differs from `d₀` by settings of idle uplinks to apply. -/
structure Frame (d₀ d : Daemon) : Prop where
  face : d.face = d₀.face
  departed : Sysctl.departed d.sysctls.recorded d.cfg = []
  pending : ∀ scope ∈ d.sysctls.pending, ∃ u ∈ d₀.cfg.uplinks, scope = .interface u.interface ∧
    d₀.Idle u.id

theorem face_dispatched (e : PassEnv) :
    (d.dispatched e).face = d.face ∧ (d.dispatched e).sysctls.pending = d.sysctls.pending ∧
      (d.dispatched e).sysctls.recorded = d.sysctls.recorded := by
  refine d.dispatched_induction (P := fun d' => d'.face = d.face ∧
    d'.sysctls.pending = d.sysctls.pending ∧ d'.sysctls.recorded = d.sysctls.recorded) e
    (fun d' scope h => ?_) ⟨rfl, rfl, rfl⟩
  unfold dispatchScope
  dsimp only
  split <;> exact h

section Frame

variable {d₀ d : Daemon} (hs : d₀.Settled) (hf : d₀.Frame d)
include hf

theorem Frame.cfg : d.cfg = d₀.cfg := congrArg (Core.cfg ∘ Face.core) hf.face

theorem Frame.system : d.system = d₀.system := congrArg (Core.system ∘ Face.core) hf.face

theorem Frame.nft : d.nft = d₀.nft := congrArg (Core.nft ∘ Face.core) hf.face

theorem Frame.paths : d.paths = d₀.paths := congrArg Face.paths hf.face

theorem Frame.active : d.active = d₀.active := congrArg Face.active hf.face

theorem Frame.routeFailed : d.routeFailed = d₀.routeFailed := congrArg Face.routeFailed hf.face

/-- Discovery depends on the configuration and on the view. -/
theorem Frame.discovered (now : ℕ) : d.discovered now = d₀.discovered now := by
  unfold Daemon.discovered Daemon.protocol
  rw [hf.cfg, hf.system]

theorem Frame.unchanged : d.unchanged = d₀.unchanged := by
  funext k raw
  rw [Daemon.unchanged, hf.paths, Daemon.unchanged]

theorem Frame.machineOf (k : PathKey) : d.machineOf k = d₀.machineOf k := by
  rw [Daemon.machineOf, hf.paths, Daemon.machineOf]

include hs

/-- Settings to apply do not concern the uplink of a ready path. -/
theorem Frame.sysctlsUnapplied {k : PathKey} {p : PathRuntime} (hp : d₀.paths[k]? = some p)
    (hready : p.machine.ready = true) {u : Uplink} (hu : d.cfg.uplink k.uplink = some u)
    (family : Option Family) : d.sysctlsUnapplied (.interface u.interface) family = false := by
  have hpending : SysctlScope.interface u.interface ∉ d.sysctls.pending := by
    intro hmem
    obtain ⟨u', hu', hscope, hidle⟩ := hf.pending _ hmem
    have hnodup : (d₀.cfg.uplinks.map Uplink.interface).Nodup :=
      (List.nodup_append.mp hs.valid.nodup_interfaces).2.1
    rw [hf.cfg] at hu
    obtain rfl : u = u' := List.inj_on_of_nodup_map hnodup (List.mem_of_find?_eq_some hu) hu'
      (SysctlScope.interface.inj hscope)
    have hid : u.id = k.uplink := by simpa using List.find?_some hu
    rw [hidle k p hid.symm hp] at hready
    cases hready
  exact d.sysctlsUnapplied_of_not_pending hpending family

/-- **Every path that discovery finds is as ready as before.** -/
theorem Frame.pathReady {e : PassEnv} (hc : d₀.Calm e) {k : PathKey} {raw : Discovered}
    (hraw : (d₀.discovered e.now)[k]? = some raw) : d.pathReady k raw = d₀.pathReady k raw := by
  unfold Daemon.pathReady
  rw [hf.unchanged, hf.routeFailed]
  split
  · rfl
  · next r hr =>
      split
      · rfl
      · next hfailed =>
          -- The path was ready: its uplink has no settings to apply.
          have hok : d₀.pathReady k raw = .ok r := by
            simp [Daemon.pathReady, hr, hfailed,
              d₀.sysctlsUnapplied_of_not_pending (hs.applied _)]
          have hp : d₀.paths[k]? = some ⟨some raw, d₀.evaluateMachine k raw⟩ := by
            rw [← hc.paths, evaluate]
            simp only [Std.ExtTreeMap.getElem?_map, hraw, Option.map_some]
          have hready : (d₀.evaluateMachine k raw).ready = true := by
            simp [evaluateMachine, hok]
          have hnone : ((d.cfg.uplink k.uplink).any fun u =>
              d.sysctlsUnapplied (.interface u.interface) (some k.family)) = false := by
            rw [Option.any_eq_false]
            intro u hu
            simp [hf.sysctlsUnapplied hs hp hready hu]
          rw [hnone, if_neg Bool.false_ne_true]
          simp [d₀.sysctlsUnapplied_of_not_pending (hs.applied _)]

theorem Frame.evaluateMachine {e : PassEnv} (hc : d₀.Calm e) {k : PathKey} {raw : Discovered}
    (hraw : (d₀.discovered e.now)[k]? = some raw) :
    d.evaluateMachine k raw = d₀.evaluateMachine k raw := by
  unfold Daemon.evaluateMachine
  rw [hf.pathReady hs hc hraw, hf.machineOf]

omit hs in
theorem Frame.select (paths : Std.ExtTreeMap PathKey PathInput) (family : Family) :
    d.select paths family = d₀.select paths family := by
  unfold Daemon.select Daemon.candidates
  rw [hf.cfg, hf.active]

/-- The planner gets the same input. -/
theorem Frame.evaluateInput {e : PassEnv} (hc : d₀.Calm e) :
    d.evaluateInput e.now = d₀.evaluateInput e.now := by
  have hpaths : (d.discovered e.now).map (fun k raw => d.evaluatePath k raw) =
      (d₀.discovered e.now).map fun k raw => d₀.evaluatePath k raw := by
    rw [hf.discovered]
    refine Lib.map_congr fun k raw hraw => ?_
    unfold Daemon.evaluatePath
    rw [hf.pathReady hs hc hraw, hf.evaluateMachine hs hc hraw,
      show d.drained = d₀.drained from congrArg Face.drained hf.face]
  unfold Daemon.evaluateInput
  simp only [hpaths, hf.cfg, hf.select]

/-- **Evaluation changes nothing.** -/
theorem Frame.evaluate {e : PassEnv} (hc : d₀.Calm e) : d₀.Frame (d.evaluate e.now) := by
  have hpaths : (d.evaluate e.now).paths = d₀.paths := by
    rw [← hc.paths]
    simp only [Daemon.evaluate, hf.discovered]
    refine Lib.map_congr fun k raw hraw => ?_
    rw [hf.evaluateMachine hs hc hraw]
  have hactive : (d.evaluate e.now).active = d₀.active := by
    rw [← hc.active]
    simp only [Daemon.evaluate, evaluateActive, hf.evaluateInput hs hc, hf.cfg, hf.select,
      hf.active]
  have hfailed : (d.evaluate e.now).routeFailed = d₀.routeFailed := by
    rw [← hc.routeFailed]
    simp only [Daemon.evaluate, hf.discovered, hf.routeFailed, hf.unchanged]
  refine ⟨?_, hf.departed, hf.pending⟩
  have hface := hf.face
  simp only [Daemon.face, Face.mk.injEq] at hface ⊢
  exact ⟨hface.1, hpaths, hactive, hface.2.2.2.1, hfailed, hface.2.2.2.2.2⟩

omit hs in
theorem Frame.passOps (input : Input) : d.passOps input = d₀.passOps input := by
  have hrules : d.heldRules = d₀.heldRules := congrArg (Core.heldRules ∘ Face.core) hf.face
  have hroutes : d.heldRoutes = d₀.heldRoutes := congrArg (Core.heldRoutes ∘ Face.core) hf.face
  simp only [Daemon.passOps, unheld, Daemon.pass, newPaths, nftPending, surviving, managed,
    transaction, protocol, hf.cfg, hf.nft, hf.system, hrules, hroutes]
  rfl

/-- A comparison that finds nothing to do changes nothing. -/
theorem Frame.reconcile {e : PassEnv} {input : Input} (hops : d₀.passOps input = [])
    (waiting : Option Attempt) : d₀.Frame (d.reconcile e waiting input) := by
  have hfull : d.fullPass = false := (congrArg Face.fullPass hf.face).trans hs.fullPass
  have hhand : d.handBack = none := (congrArg Face.handBack hf.face).trans hs.handBack
  have hflight : d.nft.flight = none := by rw [hf.nft, hs.flight]
  have hreleased : d.released = d := by
    unfold released
    rw [hfull]
    simp only [Bool.false_eq_true, if_false]
    rw [← hfull]
  have hdue : d.dueOps input = [] := by
    rw [dueOps, hf.passOps, hops, hflight]
    rfl
  unfold Daemon.reconcile
  dsimp only
  rw [hreleased, hdue]
  split
  · exact hf
  · have hfinish : d.finish e (d.passOps input) = { d with retry := none } := by
      simp [finish, hflight, hhand, hf.departed]
    rw [if_pos List.isEmpty_nil, hfinish]
    exact ⟨hf.face, hf.departed, hf.pending⟩

/-- **A pass changes nothing.** -/
theorem Frame.step {e : PassEnv} (hc : d₀.Calm e) : d₀.Frame (d.step e) := by
  obtain ⟨hface, hpending, hrecorded⟩ := d.face_dispatched e
  have hdispatched : d₀.Frame (d.dispatched e) :=
    ⟨hface.trans hf.face, by
      rw [hrecorded, show (d.dispatched e).cfg = d.cfg from congrArg (Core.cfg ∘ Face.core) hface]
      exact hf.departed, hpending ▸ hf.pending⟩
  have hinstalling : (d.dispatched e).installing = false :=
    (congrArg Face.installing hdispatched.face).trans hs.installing
  have hglobal : (d.dispatched e).installed.awaitsGlobal = false := by
    have hnot : SysctlScope.global ∉ (d.dispatched e).installed.sysctls.pending := by
      intro hmem
      obtain ⟨u, -, hscope, -⟩ := hdispatched.pending _ hmem
      cases hscope
    rw [awaitsGlobal, sysctlsUnapplied_of_not_pending _ hnot, Bool.and_false]
  -- The pass compares, in a state that differs by what is being applied only.
  have hprepared : d.prepared e = some ((d.dispatched e).installed.refreshed e) := by
    rw [prepared, if_neg (by simp [awaitsInstallation, hinstalling]), if_neg (by simp [hglobal])]
  obtain ⟨tables, hcore⟩ := d.prepared_spec hprepared
  have hview : (Polywan.reread e.now d.scope e.dumps d.system tables).1 = d.system := by
    rw [scope, hf.cfg, hf.system]
    exact hc.view tables
  rw [hview] at hcore
  have hrefreshed : d₀.Frame ((d.dispatched e).installed.refreshed e) := by
    refine ⟨?_, hdispatched.departed, hdispatched.pending⟩
    have hface := hdispatched.face
    simp only [Daemon.face, Face.mk.injEq] at hface ⊢
    refine ⟨hcore.trans (congrArg Face.core hf.face), hface.2.1, hface.2.2.1, hface.2.2.2.1,
      hface.2.2.2.2.1, hs.installing.symm, hface.2.2.2.2.2.2⟩
  rw [step_of_prepared d hprepared, hrefreshed.evaluateInput hs hc]
  exact (hrefreshed.evaluate hs hc).reconcile hs hc.ops _

omit hs in
/-- **A link notification that changes nothing observed.** -/
theorem Frame.notification {m : LinkMessage} {l : ObservedLink} (hl : ObservedLink.parse m = some l)
    (hsame : d₀.system.links[l.index]? = some l) (hidle : ∀ id ∈ d₀.uplinkOn l.index, d₀.Idle id)
    (now port : ℕ) (flags : BitVec 16) :
    d₀.Frame (d.notification now (.route (.newLink m)) port flags) := by
  have hlinks : d.system.links.insert l.index l = d.system.links := by
    rw [hf.system]
    apply Std.ExtTreeMap.ext_getElem?
    intro i
    rw [Std.ExtTreeMap.getElem?_insert]
    split
    · next h =>
        obtain rfl := Std.LawfulEqCmp.compare_eq_iff_eq.mp h
        exact hsame.symm
    · rfl
  have hnotification : d.notification now (.route (.newLink m)) port flags =
      { d with reread := d.reread.insertMany [] }.interfaceChanged l.index true := by
    simp [Daemon.notification, routeNotification, System.apply, hl, hlinks, removedRule,
      removedRoute, notifiedRoute, staleTable, react]
  have huplink : { d with reread := d.reread.insertMany [] }.uplinkOn l.index =
      d₀.uplinkOn l.index := by
    simp only [uplinkOn, hf.system, hf.cfg, hf.paths]
  rw [hnotification, interfaceChanged, huplink]
  cases hu : d₀.uplinkOn l.index with
  | none => exact ⟨hf.face, hf.departed, hf.pending⟩
  | some id =>
    have hcfg : d.cfg.uplink id = d₀.cfg.uplink id := by rw [hf.cfg]
    dsimp only
    rw [hcfg]
    cases hup : d₀.cfg.uplink id with
    | none => exact ⟨hf.face, hf.departed, hf.pending⟩
    | some up =>
      refine ⟨hf.face, hf.departed, fun scope hscope => ?_⟩
      rcases Std.ExtTreeSet.mem_insert.mp hscope with h | h
      · obtain rfl := Std.LawfulEqCmp.compare_eq_iff_eq.mp h
        have hid : up.id = id := by simpa using List.find?_some hup
        exact ⟨up, List.mem_of_find?_eq_some hup, rfl, hid ▸ hidle id hu⟩
      · exact hf.pending scope h

omit hs in
theorem Frame.sysctlsDone {recorded : List String} (hr : Sysctl.departed recorded d₀.cfg = [])
    (now seq : ℕ) (scope : SysctlScope) (u : Unit) :
    d₀.Frame (d.sysctlsDone now seq scope (.ok u) recorded) := by
  have hr : Sysctl.departed recorded d.cfg = [] := by rwa [hf.cfg]
  unfold Daemon.sysctlsDone
  dsimp only
  split
  · exact ⟨hf.face, hr, hf.pending⟩
  · exact ⟨hf.face, hr, fun s hmem => hf.pending s (Std.ExtTreeSet.mem_of_mem_erase hmem)⟩

theorem Frame.handedBack {recorded : List String} (hr : Sysctl.departed recorded d₀.cfg = [])
    (now seq : ℕ) (u : Unit) : d₀.Frame (d.handedBack now seq (.ok u) recorded) := by
  have hhand : d.handBack = none := (congrArg Face.handBack hf.face).trans hs.handBack
  have hr : Sysctl.departed recorded d.cfg = [] := by rwa [hf.cfg]
  simp only [Daemon.handedBack, hhand, Option.filter_none]
  exact ⟨hhand ▸ hf.face, hr, hf.pending⟩

theorem Frame.nftInspected {listing : Option Nft.Table} (hsome : listing.isSome)
    (hlisting : listing = d₀.nft.listing) (now seq : ℕ) :
    d₀.Frame (d.nftInspected now seq (.ok listing)) := by
  have hmissing : d.nft.missing = false := by rw [hf.nft, hs.missing]
  have hsame : d.nft.listing = listing := by rw [hf.nft, hlisting]
  unfold Daemon.nftInspected
  split
  · subst hsame
    rw [checkNft_of_same { d with inspection := none } hsome hmissing]
    exact ⟨hf.face, hf.departed, hf.pending⟩
  · exact hf

/-- **No event disturbs the state.** -/
theorem Frame.handle {ev : Event} (hev : d₀.Undisturbed ev) : d₀.Frame (d.handle ev) := by
  match ev, hev with
  | .notification now (.route (.newLink m)) port flags, ⟨l, hl, hsame, hidle⟩ =>
    exact hf.notification hl hsame hidle now port flags
  | .pass e, hc => exact hf.step hs hc
  | .sysctlsDone now seq scope (.ok u) recorded, hr => exact hf.sysctlsDone hr now seq scope u
  | .handedBack now seq (.ok u) recorded, hr => exact hf.handedBack hs hr now seq u
  | .nftApplied now seq (.ok listing), _ =>
    have hflight : d.nft.flight = none := by rw [hf.nft, hs.flight]
    simp only [Daemon.handle, nftApplied, hflight, Option.filter_none]
    exact hf
  | .nftInspected now seq (.ok listing), h => exact hf.nftInspected hs h.1 h.2 now seq

end Frame

/-- **Link notifications that change nothing observed change nothing.**  From a settled
state, with any number of notifications of links as already observed, of no uplink or of
one without a ready path, and any interleaving of passes and successful completions:
paths with their readiness and health, active sets and routes stay. -/
theorem undisturbed_run {d : Daemon} (hs : d.Settled) (events : List Event)
    (hev : ∀ ev ∈ events, d.Undisturbed ev) :
    (d.run events).paths = d.paths ∧ (d.run events).active = d.active ∧
      (d.run events).system.routes = d.system.routes := by
  have hrun : ∀ d', d.Frame d' → d.Frame (d'.run events) := by
    induction events with
    | nil => exact fun _ hf => hf
    | cons ev events ih =>
      intro d' hf
      exact ih (fun ev' hmem => hev ev' (List.mem_cons_of_mem ev hmem)) _
        (hf.handle hs (hev ev List.mem_cons_self))
  have hf := hrun d ⟨rfl, hs.departed, fun scope hmem => absurd hmem (hs.applied scope)⟩
  exact ⟨hf.paths, hf.active, by rw [hf.system]⟩

end Daemon

namespace Sample

/-- The sample with everything applied; its second path has no address. -/
def settled : Daemon :=
  (Daemon.start config 7 0 halfNetwork.system none ∅).run
    [ .pass quiet, .sysctlsDone 0 1 (.interface "wan1") (.ok ()) [],
      .sysctlsDone 0 2 (.interface "wan2") (.ok ()) [], .sysctlsDone 0 3 .global (.ok ()) [],
      .pass quiet, .nftApplied 0 4 (.ok (some (Nft.ruleset config))), .pass quiet ]

/-- What evaluation finds there, in one computation. -/
theorem settled_facts :
    (settled.cfg = config ∧ settled.installing = false ∧ settled.fullPass = false ∧
      settled.sysctls.pending = ∅ ∧ settled.nft.flight = none ∧ settled.nft.missing = false ∧
      settled.handBack = none ∧ settled.sysctls.recorded = []) ∧
    ((settled.evaluate 0).paths = settled.paths ∧ (settled.evaluate 0).active = settled.active ∧
      (settled.evaluate 0).routeFailed = settled.routeFailed ∧
      settled.passOps (settled.evaluateInput 0) = []) ∧
    (∀ entry ∈ settled.paths.toList, entry.1.uplink = id2 → entry.2.machine.ready = false) ∧
    settled.uplinkOn 4 = some id2 ∧
    (ObservedLink.parse (link 4 "wan2")).bind (fun l => settled.system.links[l.index]?) =
      ObservedLink.parse (link 4 "wan2") := by
  decide +kernel

theorem settled_settled : settled.Settled := by
  obtain ⟨⟨hcfg, hinstalling, hfull, hpending, hflight, hmissing, hhand, hrecorded⟩, -⟩ :=
    settled_facts
  refine ⟨hcfg ▸ config_valid, hinstalling, hfull, ?_, hflight, hmissing, hhand, ?_⟩
  · simp [hpending]
  · rw [hcfg, hrecorded]
    decide

theorem settled_calm : settled.Calm quiet := by
  obtain ⟨-, ⟨hpaths, hactive, hfailed, hops⟩, -⟩ := settled_facts
  exact ⟨reread_of_silent 0 _ (fun _ _ => rfl) _, hpaths, hactive, hfailed, hops⟩

/-- The second interface is notified again, twice, and its settings are applied again. -/
def renotified : List Daemon.Event :=
  [ .notification 0 (.route (.newLink (link 4 "wan2"))) 0 0, .pass quiet,
    .sysctlsDone 0 5 (.interface "wan2") (.ok ()) [],
    .notification 0 (.route (.newLink (link 4 "wan2"))) 0 0, .pass quiet ]

theorem renotified_facts :
    settled.sysctls.pending.toList ≠ (settled.run renotified).sysctls.pending.toList ∧
      (settled.system.planned 249 ⟨.v4, 1000⟩).isSome := by
  decide +kernel

theorem withdrawn_facts :
    settled.cfg.routing.manageSysctls = true ∧
      (ObservedLink.parse (link 3 "wan1")).any
        (fun l => settled.system.links[l.index]? = some l) = true ∧
      (settled.paths[(⟨id1, .v4⟩ : PathKey)]?).map (fun p => (p.machine.ready, p.machine.state)) =
        some (true, .up) ∧
      ((settled.run [.notification 0 (.route (.newLink (link 3 "wan1"))) 0 0, .pass quiet]).paths[
          (⟨id1, .v4⟩ : PathKey)]?).map (fun p => (p.machine.ready, p.machine.state)) =
        some (false, .down) ∧
      (settled.system.planned 249 ⟨.v4, 1001⟩).isSome = true ∧
      (settled.run [.notification 0 (.route (.newLink (link 3 "wan1"))) 0 0,
        .pass quiet]).system.planned 249 ⟨.v4, 1001⟩ = none := by
  decide +kernel

end Sample

open Sample in
/-- Notifications of the second interface, whose path is not ready. -/
theorem Daemon.undisturbed_run_sample :
    (settled.sysctls.pending.toList ≠ (settled.run renotified).sysctls.pending.toList ∧
      (settled.system.planned 249 ⟨.v4, 1000⟩).isSome) ∧
      (settled.run renotified).paths = settled.paths ∧
      (settled.run renotified).active = settled.active ∧
      (settled.run renotified).system.routes = settled.system.routes := by
  refine ⟨renotified_facts, Daemon.undisturbed_run settled_settled renotified ?_⟩
  obtain ⟨⟨hcfg, -⟩, -, hidle, hon, hlink⟩ := settled_facts
  have hnotified :
      settled.Undisturbed (.notification 0 (.route (.newLink (link 4 "wan2"))) 0 0) := by
    refine ⟨_, rfl, hlink, fun id hid k p hk hp => ?_⟩
    obtain rfl : id2 = id := Option.some.inj (hon.symm.trans hid)
    exact hidle (k, p) (Std.ExtTreeMap.mem_toList_iff_getElem?_eq_some.mpr hp) hk
  have hdone : Sysctl.departed [] settled.cfg = [] := by
    rw [hcfg]
    decide
  intro ev hev
  simp only [renotified, List.mem_cons, List.not_mem_nil, or_false] at hev
  rcases hev with rfl | rfl | rfl | rfl | rfl
  · exact hnotified
  · exact settled_calm
  · exact hdone
  · exact hnotified
  · exact settled_calm

open Sample in
/-- The same notification of the first interface: the next pass takes the ready path
down and withdraws its routes. -/
theorem Daemon.same_link_withdraws :
    settled.Settled ∧ settled.Calm quiet ∧ settled.cfg.routing.manageSysctls = true ∧
      (ObservedLink.parse (link 3 "wan1")).any
        (fun l => settled.system.links[l.index]? = some l) = true ∧
      (settled.paths[(⟨id1, .v4⟩ : PathKey)]?).map (fun p => (p.machine.ready, p.machine.state)) =
        some (true, .up) ∧
      ((settled.run [.notification 0 (.route (.newLink (link 3 "wan1"))) 0 0, .pass quiet]).paths[
          (⟨id1, .v4⟩ : PathKey)]?).map (fun p => (p.machine.ready, p.machine.state)) =
        some (false, .down) ∧
      (settled.system.planned 249 ⟨.v4, 1001⟩).isSome = true ∧
      (settled.run [.notification 0 (.route (.newLink (link 3 "wan1"))) 0 0,
        .pass quiet]).system.planned 249 ⟨.v4, 1001⟩ = none :=
  ⟨settled_settled, settled_calm, withdrawn_facts⟩

end Polywan
