import Mathlib.Logic.Relation
import Polywan.Reconcile.Pass

/-!
# Passes that are cut off

A pass may stop after any of its operations, and the next one starts from whatever
is there, with another configuration and other inputs.  Every state on the way keeps
the guarantees that the guards give.

## Main definitions

* `Pass.CutOff` — a pass applied up to some point.
* `Guarded` — the invariant of every state reached.
* `RoutedSafely` — what the rules and routes present never do.
-/

namespace Polywan

/-- The pass is for a layout and protocol. -/
structure Pass.For (p : Pass) (l : Layout) (protocol : ℕ) : Prop where
  valid : p.config.Valid
  layout : Layout.of p.config = l
  protocol : p.config.routing.routeProtocol = protocol

/-- A pass, applied up to some point. -/
def Pass.CutOff (p : Pass) (s s' : System) : Prop :=
  ∃ now ops, ops <+: diff s p.diffInput ∧
    s' = applyOps now (Scope.of p.config) p.config.routing.routeProtocol s ops

/-- One state after another, by some pass of the layout and protocol that satisfies
`C`. -/
def PassStep (l : Layout) (protocol : ℕ) (C : Config → Prop) (s s' : System) : Prop :=
  ∃ p : Pass, p.For l protocol ∧ C p.config ∧ p.CutOff s s'

/-- States reached by passes that satisfy `C`. -/
def Later (l : Layout) (protocol : ℕ) (C : Config → Prop) : System → System → Prop :=
  Relation.ReflTransGen (PassStep l protocol C)

/-- Every route present is the planned route of a table. -/
def System.RoutesPlanned (s : System) (protocol : ℕ) : Prop :=
  ∀ κ : RouteKey, κ ∈ s.routes → ∃ k : TableKey, κ = k.routeKey ∧ (s.planned protocol k).isSome

/-- **What the rules and routes present never do.** -/
structure RoutedSafely (l : Layout) (protocol : ℕ) (s : System) : Prop where
  /-- Nothing but rules of the layout and planned routes is present. -/
  rules : ∀ o ∈ s.rules, ∃ r, l.HasRule r ∧ o.is r protocol = true
  routes : s.RoutesPlanned protocol
  /-- A path value uses its path's table. -/
  path : ∀ p rules, s.Order l protocol rules → (l.mask.field p.mark).cls = .path →
    ∀ id, (l.mask.field p.mark).id = some id →
      ∀ r, s.route protocol p rules = some (.route r) → r.table = l.pathTable id
  /-- A policy-block value uses its policy table. -/
  policyBlock : ∀ p rules, s.Order l protocol rules → (l.mask.field p.mark).cls = .policyBlock →
    ∀ r, s.route protocol p rules = some (.route r) →
      ∃ id, (l.mask.field p.mark).id = some id ∧ r.table = l.policyBlockTable id
  /-- A probe uses its path's table. -/
  probe : ∀ p rules, s.Order l protocol rules → (l.mask.field p.mark).cls = .probe →
    ∀ r, s.route protocol p rules = some (.route r) →
      ∃ id, (l.mask.field p.mark).id = some id ∧ r.table = l.pathTable id
  /-- A probe never comes to the main bypass. -/
  bypass : ∀ p rules, s.Order l protocol rules → (l.mask.field p.mark).cls = .probe →
    ¬ Lib.Reaches (Rule.decide (s.planned protocol) p) rules (Role.mainBypass.rule l p.family)
  /-- A source guard comes with a source rule. -/
  source : ∀ f a, s.Holds protocol ((Role.sourceGuard a).rule l f) →
    ∃ id, s.Holds protocol ((Role.sourceLookup id a).rule l f)

/-- The invariant: other rules come only with the class guards, and source guards
only with a source rule. -/
structure Guarded (l : Layout) (protocol : ℕ) (s : System) : Prop where
  wellFormed : ∀ scope : Scope, scope.Covers l → s.WellFormed scope
  rules : ∀ o ∈ s.rules, ∃ r, l.HasRule r ∧ o.is r protocol = true
  routes : s.RoutesPlanned protocol
  guards : ∀ f (ρ γ : Role), γ.IsClassGuard → ¬ ρ.IsClassGuard → s.Holds protocol (ρ.rule l f) →
    s.Holds protocol (γ.rule l f)
  sources : ∀ f a, s.Holds protocol ((Role.sourceGuard a).rule l f) →
    ∃ id, s.Holds protocol ((Role.sourceLookup id a).rule l f)

/-- Operations of a pass leave planned routes only. -/
theorem System.RoutesPlanned.applyOps {l : Layout} {protocol : ℕ} {s : System} {scope : Scope}
    (h : s.RoutesPlanned protocol) (hc : scope.Covers l) (now : ℕ) {ops : List Op}
    (hops : ∀ op ∈ ops, op.Proper l) :
    (applyOps now scope protocol s ops).RoutesPlanned protocol := by
  induction ops generalizing s with
  | nil => exact h
  | cons op ops ih =>
    refine ih ?_ fun op' hop' => hops op' (List.mem_cons_of_mem op hop')
    have hop := hops op List.mem_cons_self
    intro κ hκ
    rw [Std.ExtTreeMap.mem_iff_isSome_getElem?] at hκ
    cases op with
    | replaceRoute r =>
      obtain ⟨t, hroutes⟩ := routes_replaceRoute now protocol s hc hop.1
      rw [hroutes] at hκ
      by_cases hk : r.key.routeKey = κ
      · exact ⟨r.key, hk.symm, by rw [planned_replaceRoute now hc hop.1 hop.2]; simp⟩
      · rw [if_neg hk, ← Std.ExtTreeMap.mem_iff_isSome_getElem?] at hκ
        obtain ⟨k, rfl, hp⟩ := h κ hκ
        refine ⟨k, rfl, ?_⟩
        rwa [planned_replaceRoute now hc hop.1 hop.2, if_neg fun heq => hk (by rw [heq])]
    | deleteRoute f t q =>
      rw [routes_deleteRoute now protocol s hc q hop] at hκ
      by_cases hk : TableKey.routeKey ⟨f, t⟩ = κ
      · simp [hk] at hκ
      · rw [if_neg hk, ← Std.ExtTreeMap.mem_iff_isSome_getElem?] at hκ
        obtain ⟨k, rfl, hp⟩ := h κ hκ
        refine ⟨k, rfl, ?_⟩
        rwa [planned_deleteRoute now hc q hop, if_neg fun heq => hk (by rw [heq])]
    | addRule r | deleteRule o =>
      rw [← Std.ExtTreeMap.mem_iff_isSome_getElem?] at hκ
      simp only [System.planned, routes_addRule, routes_deleteRule] at hκ ⊢
      exact h κ hκ
    | applyNft => exact h κ (Std.ExtTreeMap.mem_iff_isSome_getElem?.mpr hκ)

theorem Guarded.empty (l : Layout) (protocol : ℕ) : Guarded l protocol {} where
  wellFormed scope _ := System.WellFormed.empty scope
  rules := by simp
  routes := by simp [System.RoutesPlanned]
  guards := by simp [System.Holds]
  sources := by simp [System.Holds]

/-! ## One pass -/

section Pass

variable {p : Pass} {s s' : System} {A : List Rule} {D : List ObservedRule}

/-- A pass that is cut off, with the rules it added and deleted. -/
theorem Pass.CutOff.exists_cut (h : p.CutOff s s') (hv : p.config.Valid)
    (hw : s.WellFormed (Scope.of p.config)) : ∃ A D, p.diffInput.Cut s s' A D := by
  obtain ⟨now, ops, hops, rfl⟩ := h
  exact DiffInput.exists_cut hw (Pass.desired_proper hv) now _ hops

variable (hw : s.WellFormed (Scope.of p.config)) (hv : p.config.Valid)
  (hcut : p.diffInput.Cut s s' A D)
include hw hv hcut

/-- Class guards stay as long as anything else of their family. -/
theorem guards_of_cut {f : Family} {ρ γ : Role} (hγ : γ.IsClassGuard) (hρ : ¬ ρ.IsClassGuard)
    (ih : s.Holds p.diffInput.protocol (ρ.rule p.diffInput.layout f) →
      s.Holds p.diffInput.protocol (γ.rule p.diffInput.layout f))
    (h : s'.Holds p.diffInput.protocol (ρ.rule p.diffInput.layout f)) :
    s'.Holds p.diffInput.protocol (γ.rule p.diffInput.layout f) := by
  have hd := Pass.desired_proper hv
  rcases (hcut.holds_iff hw hd (ρ.hasRule _ f)).mp h with ⟨hold, hkept⟩ | hadd
  · by_cases hm : p.config.manages f = true
    · exact hcut.holds_of_desired hw hd (mem_desired.mpr ⟨hm, planned_of_isClassGuard hγ⟩)
        (.inl (ih hold))
    · -- The family is no longer managed: everything goes, the class guards last.
      refine (hcut.holds_iff hw hd (γ.hasRule _ f)).mpr (.inl ⟨ih hold, fun o ho => ?_⟩)
      rw [← Bool.not_eq_true]
      intro his
      obtain ⟨o', ho', his'⟩ := hold
      have hdel := mem_deletions_of_not_desired hv ho' his' (ρ.hasRule _ f)
        fun hdes => hm (mem_desired.mp hdes).1
      have hlt : removalKey p.diffInput.layout o' < removalKey p.diffInput.layout o := by
        rw [removalKey_of_is his, removalKey_of_is his']
        exact removalKey_lt_of_isClassGuard hγ hρ
      have hmem := Lib.mem_prefix_of_key_lt DiffInput.deletions_sorted hcut.deleted ho hdel hlt
      rw [hkept o' hmem] at his'
      cases his'
  · obtain ⟨hm, -⟩ := mem_desired.mp ((DiffInput.mem_additions hd).mp (hcut.added.subset hadd)).1
    have hdes := mem_desired.mpr
      ⟨hm, planned_of_isClassGuard (c := p.config) (i := p.input) (f := f) hγ⟩
    exact hcut.holds_of_desired hw hd hdes
      (hcut.holds_or_added_of_lt hd hdes hadd (installKey_lt_of_isClassGuard hγ hρ))

/-- A source guard stays no longer than the last source rule of its address. -/
theorem sources_of_cut {f : Family} {a : IpAddr}
    (ih : s.Holds p.diffInput.protocol ((Role.sourceGuard a).rule p.diffInput.layout f) →
      ∃ id, s.Holds p.diffInput.protocol ((Role.sourceLookup id a).rule p.diffInput.layout f))
    (h : s'.Holds p.diffInput.protocol ((Role.sourceGuard a).rule p.diffInput.layout f)) :
    ∃ id, s'.Holds p.diffInput.protocol
      ((Role.sourceLookup id a).rule p.diffInput.layout f) := by
  have hd := Pass.desired_proper hv
  have lookup_desired : (Role.sourceGuard a).rule p.diffInput.layout f ∈ p.diffInput.desired.rules →
      ∃ id, (Role.sourceLookup id a).rule p.diffInput.layout f ∈ p.diffInput.desired.rules := by
    intro hdes
    obtain ⟨hm, id, hloc⟩ := mem_desired.mp hdes
    exact ⟨id, mem_desired.mpr ⟨hm, hloc⟩⟩
  have hlt : ∀ id : UplinkId, (Role.sourceLookup id a).offset < (Role.sourceGuard a).offset := by
    intro id
    have := id.num_le
    simp only [Role.offset]
    omega
  rcases (hcut.holds_iff hw hd (Role.hasRule _ f (.sourceGuard a))).mp h with ⟨hold, hkept⟩ | hadd
  · obtain ⟨id, hid⟩ := ih hold
    by_cases hdes : (Role.sourceGuard a).rule p.diffInput.layout f ∈ p.diffInput.desired.rules
    · rcases hcut.order with hD | hA
      · refine ⟨id, (hcut.holds_iff hw hd (Role.hasRule _ f _)).mpr (.inl ⟨hid, ?_⟩)⟩
        simp [hD]
      · -- All additions are there, a desired source rule among them.
        obtain ⟨id', hdes'⟩ := lookup_desired hdes
        refine ⟨id', hcut.holds_of_desired hw hd hdes' ?_⟩
        rw [hA, DiffInput.mem_additions hd]
        tauto
    · refine ⟨id, (hcut.holds_iff hw hd (Role.hasRule _ f _)).mpr (.inl ⟨hid, fun o ho => ?_⟩)⟩
      rw [← Bool.not_eq_true]
      intro his
      obtain ⟨o', ho', his'⟩ := hold
      have hdel := mem_deletions_of_not_desired hv ho' his' (Role.hasRule _ f _) hdes
      have hkey : removalKey p.diffInput.layout o' < removalKey p.diffInput.layout o := by
        rw [removalKey_of_is his, removalKey_of_is his']
        exact removalKey_lt_of_offset_lt Bool.false_ne_true Bool.false_ne_true (hlt id) fun _ => rfl
      have hmem := Lib.mem_prefix_of_key_lt DiffInput.deletions_sorted hcut.deleted ho hdel hkey
      rw [hkept o' hmem] at his'
      cases his'
  · have hdes := ((DiffInput.mem_additions hd).mp (hcut.added.subset hadd)).1
    obtain ⟨id, hdes'⟩ := lookup_desired hdes
    refine ⟨id, hcut.holds_of_desired hw hd hdes' (hcut.holds_or_added_of_lt hd hdes' hadd ?_)⟩
    exact installKey_lt_of_offset_lt Bool.false_ne_true Bool.false_ne_true (hlt id) fun _ => rfl

omit hw in
/-- Only rules of the layout are ever present. -/
theorem rules_of_cut
    (ih : ∀ o ∈ s.rules, ∃ r, p.diffInput.layout.HasRule r ∧ o.is r p.diffInput.protocol = true) :
    ∀ o ∈ s'.rules, ∃ r, p.diffInput.layout.HasRule r ∧ o.is r p.diffInput.protocol = true := by
  intro o ho
  rw [hcut.rules] at ho
  rcases List.mem_append.mp (List.mem_of_mem_filter ho) with ho | ho
  · exact ih o ho
  · obtain ⟨r, hr, rfl⟩ := List.mem_map.mp ho
    have hdes := ((DiffInput.mem_additions (Pass.desired_proper hv)).mp (hcut.added.subset hr)).1
    exact ⟨r, (Pass.desired_proper hv).hasRule r hdes, r.observed_is _⟩

/-- The final guard of a managed family stays. -/
theorem finalGuard_of_cut {f : Family} (hm : p.config.manages f = true)
    (h : s.Holds p.diffInput.protocol (Role.finalGuard.rule p.diffInput.layout f)) :
    s'.Holds p.diffInput.protocol (Role.finalGuard.rule p.diffInput.layout f) :=
  hcut.holds_of_desired hw (Pass.desired_proper hv) (mem_desired.mpr ⟨hm, trivial⟩) (.inl h)

end Pass

/-! ## Whole runs -/

section Run

variable {l : Layout} {protocol : ℕ} {C : Config → Prop} {s s' : System}

theorem Guarded.passStep (h : Guarded l protocol s) (hs : PassStep l protocol C s s') :
    Guarded l protocol s' := by
  obtain ⟨p, ⟨hv, rfl, rfl⟩, -, hcut⟩ := hs
  have hw := h.wellFormed _ (Scope.covers_of p.config)
  obtain ⟨A, D, hAD⟩ := hcut.exists_cut hv hw
  obtain ⟨now, ops, hops, rfl⟩ := hcut
  have hin : ∀ op ∈ ops, op.Proper (Layout.of p.config) := fun op hop =>
    diff_proper (Pass.beforeNft_proper hv) (Pass.desired_proper hv) op (hops.subset hop)
  refine ⟨fun scope hc => ?_, rules_of_cut hv hAD h.rules,
    h.routes.applyOps (Scope.covers_of p.config) now hin,
    fun f ρ γ hγ hρ => guards_of_cut hw hv hAD hγ hρ (h.guards f ρ γ hγ hρ),
    fun f a => sources_of_cut hw hv hAD (h.sources f a)⟩
  rw [applyOps_scope _ _ _ (Scope.covers_of p.config) hc hin]
  exact (h.wellFormed scope hc).applyOps now _ ops

/-- **Every state reached by passes that were cut off is guarded.** -/
theorem Guarded.later (h : Guarded l protocol s) (hs : Later l protocol C s s') :
    Guarded l protocol s' := by
  induction hs with
  | refl => exact h
  | tail _ hstep ih => exact ih.passStep hstep

/-- The final guard of a family stays while the family is managed. -/
theorem finalGuard_later {f : Family} (h : Guarded l protocol s)
    (hf : s.Holds protocol (Role.finalGuard.rule l f))
    (hs : Later l protocol (fun c => c.manages f = true) s s') :
    s'.Holds protocol (Role.finalGuard.rule l f) := by
  induction hs with
  | refl => exact hf
  | tail hbefore hstep ih =>
    have hg := h.later hbefore
    obtain ⟨p, ⟨hv, rfl, rfl⟩, hm, hcut⟩ := hstep
    have hw := hg.wellFormed _ (Scope.covers_of p.config)
    obtain ⟨A, D, hAD⟩ := hcut.exists_cut hv hw
    exact finalGuard_of_cut hw hv hAD hm ih

end Run

/-! ## Packets -/

section Packets

variable {l : Layout} {protocol : ℕ} {s : System} {p : Flow} {rules : List Rule}

/-- A class guard that selects a packet lets nothing behind it decide. -/
theorem Guarded.offset_le_of_guard (h : Guarded l protocol s) {ρ γ : Role}
    (hγ : γ.IsClassGuard) (hρ : ¬ ρ.IsClassGuard) (hold : s.Holds protocol (ρ.rule l p.family))
    (hs : γ.Selects (l.mask.field p.mark) p.source)
    (hmin : ∀ ρ' : Role, s.Holds protocol (ρ'.rule l p.family) → ρ'.offset < ρ.offset →
      ρ'.Selects (l.mask.field p.mark) p.source →
      ρ'.outcome (fun τ => s.planned protocol ⟨p.family, l.tableOf τ⟩) p.covered = none) :
    ρ.offset ≤ γ.offset := by
  by_contra hlt
  have hnone := hmin γ (h.guards _ ρ γ hγ hρ hold) (by omega) hs
  rw [outcome_of_isClassGuard hγ] at hnone
  cases hnone

/-- A route found in a table names the table. -/
theorem Guarded.table_of_planned (h : Guarded l protocol s) {f : Family} {t : ℕ} {r : Route}
    (hr : (s.planned protocol ⟨f, t⟩).map Verdict.route = some (.route r)) : r.table = t := by
  obtain ⟨r', hr', heq⟩ := Option.map_eq_some_iff.mp hr
  obtain rfl := Verdict.route.inj heq
  exact congrArg TableKey.table
    ((h.wellFormed _ (Scope.covers_ofLayouts l)).planned_key hr')

/-- A packet that one of the class guards selects is routed only by its own lookup
rule. -/
theorem Guarded.routed (h : Guarded l protocol s) (ho : s.Order l protocol rules) {r : Route}
    (hr : s.route protocol p rules = some (.route r)) {γ : Role} (hγ : γ.IsClassGuard)
    (hs : γ.Selects (l.mask.field p.mark) p.source) :
    ∃ id, (l.mask.field p.mark).id = some id ∧
      r.table = match (l.mask.field p.mark).cls with
        | .policyBlock => l.policyBlockTable id
        | _ => l.pathTable id := by
  obtain ⟨ρ, hold, -, hsel, hout, hmin⟩ := exists_role_of_route ho hr
  have hρ : ¬ ρ.IsClassGuard := by
    intro hg
    rw [outcome_of_isClassGuard hg] at hout
    cases hout
  have hle := h.offset_le_of_guard hγ hρ hold hs hmin
  cases ρ with
  | probeLookup id | pathLookup id =>
    refine ⟨id, hsel.2, ?_⟩
    rw [hsel.1]
    exact h.table_of_planned hout
  | policyBlockLookup id =>
    refine ⟨id, hsel.2, ?_⟩
    rw [hsel.1, h.table_of_planned hout]
    exact l.tableOf_policyBlock id
  | policyBalanceLookup id =>
    cases γ <;> simp_all [Role.Selects, Role.IsClassGuard, Role.kind, RuleKind.isClassGuard]
  | sourceLookup id a =>
    have hbits := FieldValue.bits_eq_false hsel.1.2
    cases γ <;> simp_all [Role.Selects, Role.IsClassGuard, Role.kind, RuleKind.isClassGuard]
  | balance =>
    -- The balancing rule comes after every class guard.
    cases γ <;> simp_all [Role.offset, Role.IsClassGuard, Role.kind, RuleKind.isClassGuard]
  | mainBypass =>
    simp only [Role.outcome] at hout
    split at hout <;> cases hout
  | probeGuard | pathGuard _ | policyBlockGuard | sourceGuard _ | finalGuard => cases hout

/-- **Guarded states route safely.** -/
theorem Guarded.routedSafely (h : Guarded l protocol s) : RoutedSafely l protocol s where
  rules := h.rules
  routes := h.routes
  path := by
    intro p rules ho hc id hid r hr
    obtain ⟨k, hk⟩ := (FieldValue.exists_bit_iff (l.mask.field p.mark)).mpr (by simp [hid])
    obtain ⟨id', hid', ht⟩ := h.routed ho hr (γ := .pathGuard k) rfl ⟨hc, hk⟩
    rw [hid, Option.some.injEq] at hid'
    rw [ht, hc, hid']
  policyBlock := by
    intro p rules ho hc r hr
    obtain ⟨id, hid, ht⟩ := h.routed ho hr (γ := .policyBlockGuard) rfl hc
    rw [hc] at ht
    exact ⟨id, hid, ht⟩
  probe := by
    intro p rules ho hc r hr
    obtain ⟨id, hid, ht⟩ := h.routed ho hr (γ := .probeGuard) rfl hc
    rw [hc] at ht
    exact ⟨id, hid, ht⟩
  bypass := by
    intro p rules ho hc hreach
    have hmem : Role.mainBypass.rule l p.family ∈ rules := by
      obtain ⟨l₁, l₂, rfl, -⟩ := hreach
      simp
    have hguard := h.guards p.family .mainBypass .probeGuard rfl Bool.false_ne_true
      ((ho.mem_iff _).mp hmem).2
    refine ho.not_reaches (b := Role.probeGuard.rule l p.family) (v := .unreachable)
      ⟨Role.hasRule l _ _, hguard⟩ (Role.decide_rule.mpr ⟨rfl, hc, rfl⟩) ?_ hreach
    simp [Role.offset]
  source := h.sources

end Packets

/-- **Partial application is safe.**  In every state reached from nothing by passes
that were cut off, packets stay on their paths, source guards come with source rules,
and a final guard stays while its family is managed. -/
theorem partial_application_safe {l : Layout} {protocol : ℕ} {s : System}
    (h : Later l protocol (fun _ => True) {} s) :
    RoutedSafely l protocol s ∧
      ∀ f s', s.Holds protocol (Role.finalGuard.rule l f) →
        Later l protocol (fun c => c.manages f = true) s s' →
          s'.Holds protocol (Role.finalGuard.rule l f) := by
  have hg : Guarded l protocol s := (Guarded.empty l protocol).later h
  exact ⟨hg.routedSafely, fun f s' hf hs => finalGuard_later hg hf hs⟩

namespace Sample

/-- The first pass of the sample, its paths without assignments. -/
def pass : Pass where
  config := config
  input := input
  newPaths := ((∅ : Std.ExtTreeSet PathKey).insert ⟨id1, .v4⟩).insert ⟨id2, .v4⟩
  nftPending := true

/-- The view after the first twenty operations of the pass. -/
def cutOff : System :=
  applyOps 0 (Scope.of config) 249 {} ((diff {} pass.diffInput).take 20)

end Sample

/-- The sample, cut off after twenty operations: eighteen rules are there, without the
source guards, the balancing rule and the final guard. -/
theorem partial_application_sample :
    Sample.cutOff.rules.length = 18 ∧
      RoutedSafely (Layout.of Sample.config) 249 Sample.cutOff :=
  ⟨by decide +kernel, (partial_application_safe (Relation.ReflTransGen.single
    ⟨Sample.pass, ⟨Sample.config_valid, rfl, rfl⟩, trivial, 0, _, List.take_prefix 20 _, rfl⟩)).1⟩

end Polywan
