import Polywan.Netlink.Identity
import Polywan.Reconcile

/-!
# What operations do to the view

An operation sends a message and applies it to the view.  This module says what
the view holds afterwards, in the planner's terms: which planned rules it holds
and which planned route stands in a table.

## Main definitions

* `System.Holds` — a planned rule stands in the view.
* `System.planned` — the planned route of a table, as the view shows it.
* `Desired.Proper` — rules and routes that a layout can have.
-/

namespace Polywan

/-! ## Scopes and layouts -/

/-- The routes the cleanup of some layouts keeps. -/
def Scope.ofLayouts (layouts : List Layout) : Scope where
  polywanTables := layouts.map fun l => (l.tableBase, l.tableBase + 191)
  discoveryTables := []

/-- The tables of the scope are those of the layout. -/
def Scope.Covers (scope : Scope) (l : Layout) : Prop := ∀ t, scope.isPolywan t = l.tables t

theorem Scope.covers_of (c : Config) : (Scope.of c).Covers (Layout.of c) := by
  intro t
  simp only [isPolywan, Scope.of, List.any_cons, List.any_nil, Bool.or_false]
  rfl

theorem Scope.covers_ofLayouts (l : Layout) : (Scope.ofLayouts [l]).Covers l := by
  intro t
  simp only [isPolywan, Scope.ofLayouts, List.map_cons, List.map_nil, List.any_cons, List.any_nil,
    Bool.or_false]
  rfl

/-- The key of the only route a table of the program holds. -/
def TableKey.routeKey (k : TableKey) : RouteKey where
  family := k.family
  table := k.table
  destination := none
  metric := routeMetric
  via := .table

theorem TableKey.routeKey_injective : Function.Injective TableKey.routeKey := by
  intro k k' h
  simp only [TableKey.routeKey, RouteKey.mk.injEq, and_true] at h
  exact TableKey.ext h.1 h.2

/-- In the program's tables the next hops are not part of the key. -/
theorem routeKey_of_isPolywan {scope : Scope} {o : ObservedRoute}
    (h : scope.isPolywan o.table = true) :
    routeKey scope o = ⟨o.family, o.table, o.destination, o.metric, .table⟩ := by
  simp only [routeKey, h, if_true]

/-! ## Rules of a layout -/

/-- A rule that some role of the layout installs. -/
def Layout.HasRule (l : Layout) (r : Rule) : Prop := ∃ ρ : Role, r = ρ.rule l r.family

theorem Role.hasRule (l : Layout) (f : Family) (ρ : Role) : l.HasRule (ρ.rule l f) := ⟨ρ, rfl⟩

theorem UplinkId.new_num (id : UplinkId) : UplinkId.new (BitVec.ofNat 8 id.num) = some id := by
  rw [UplinkId.num, BitVec.ofNat_toNat, BitVec.setWidth_eq, UplinkId.new_get]

/-- **The priority of a rule tells its kind.** -/
theorem classify_rule (l : Layout) (f : Family) (ρ : Role) :
    classify l (ρ.rule l f).priority = some ρ.kind := by
  have hlt : ¬ l.priorityBase + ρ.offset < l.priorityBase := by omega
  simp only [classify, Role.rule_priority, hlt, if_false, Nat.add_sub_cancel_left]
  cases ρ with
  | probeLookup id | pathLookup id | policyBalanceLookup id | policyBlockLookup id
  | sourceLookup id _ =>
    have h1 := id.num_pos
    have h2 := id.num_le
    simp (disch := omega) only [Role.offset, Role.kind, if_neg, if_pos, Nat.sub_zero,
      Nat.add_sub_cancel_left, UplinkId.new_num, Option.map_some]
  | _ => rfl

theorem Layout.HasRule.classify {l : Layout} {r : Rule} (h : l.HasRule r) :
    Polywan.classify l r.priority = some r.kind := by
  obtain ⟨ρ, hr⟩ := h
  rw [hr]
  exact classify_rule l r.family ρ

theorem Layout.HasRule.priorities {l : Layout} {r : Rule} (h : l.HasRule r) :
    l.priorities r.priority = true := by
  obtain ⟨ρ, hr⟩ := h
  have := ρ.offset_le
  rw [hr]
  simp [Layout.priorities]
  omega

/-- **Rules of a layout are told apart by what the kernel shows.** -/
theorem Layout.HasRule.eq_of_identity {l : Layout} {r r' : Rule} (h : l.HasRule r)
    (h' : l.HasRule r') {protocol : ℕ} (heq : r.identity protocol = r'.identity protocol) :
    r = r' := by
  obtain ⟨-, hf, hp, hm, hs, ha⟩ := Rule.identity_eq_iff.mp heq
  have hkind : some r.kind = some r'.kind := by rw [← h.classify, ← h'.classify, hp]
  exact Rule.ext hf hp hm hs ha (Option.some.inj hkind)

/-- Rules and routes that a layout can have. -/
structure Desired.Proper (l : Layout) (d : Desired) : Prop where
  hasRule : ∀ r ∈ d.rules, l.HasRule r
  route_key : ∀ (k : TableKey) r, d.routes[k]? = some r → r.key = k
  route_table : ∀ (k : TableKey) r, d.routes[k]? = some r → l.tables k.table = true
  route_shaped : ∀ (k : TableKey) r, d.routes[k]? = some r → r.Shaped

theorem Layout.tables_tableOf (l : Layout) (τ : TableRole) : l.tables (l.tableOf τ) = true := by
  cases τ with
  | balancing => simp [tables, tableOf, TableRole.offset]
  | path id | policyBalance id | policyBlock id =>
    have := id.num_le
    simp [tables, tableOf, TableRole.offset]
    omega

/-- **What the planner wants is proper.** -/
theorem plan_proper {c : Config} (hv : c.Valid) (i : Input) :
    (plan c i).Proper (Layout.of c) where
  hasRule := by
    intro r hr
    obtain ⟨-, ρ, -, hrule⟩ := mem_plan_rules.mp hr
    exact ⟨ρ, hrule⟩
  route_key := by
    intro k r h
    obtain ⟨τ, hτ, hk⟩ := plan_routes.mp h
    rw [tableRoute_key hτ, ← hk]
  route_table := by
    intro k r h
    obtain ⟨τ, -, hk⟩ := plan_routes.mp h
    rw [hk]
    exact Layout.tables_tableOf _ τ
  route_shaped := fun _ _ h => plan_routes_shaped hv h

/-! ## One operation -/

/-- A planned route as the view holds it, with the expiry it had before. -/
def Route.held (r : Route) (protocol : ℕ) (expiry : Option ℕ) : ObservedRoute :=
  { r.observed protocol with expiresAt := expiry }

theorem Route.asPlanned_held {r : Route} (h : r.Shaped) (protocol : ℕ) (expiry : Option ℕ) :
    (r.held protocol expiry).asPlanned = some r :=
  r.asPlanned_observed h protocol

theorem exists_keepExpiry_eq_held (now : ℕ) (old : Option ℕ) (r : Route) (protocol : ℕ) :
    ∃ t, keepExpiry now old (r.observed protocol) = r.held protocol t :=
  keepExpiry_eq now old (r.observed protocol)

section Op

variable {l : Layout} {scope : Scope} (now protocol : ℕ) (s : System)

theorem applyOp_addRule (r : Rule) :
    applyOp now scope protocol s (.addRule r) = s.addRule (r.observed protocol) := by
  simp [applyOp, netlinkOp, System.apply, parse_ruleMessage]

theorem applyOp_deleteRule {o : ObservedRule} (h : ObservedRule.parse o.message = some o) :
    applyOp now scope protocol s (.deleteRule o) = s.removeRule o := by
  simp [applyOp, netlinkOp, System.apply, h]

theorem applyOp_replaceRoute (hc : scope.Covers l) {r : Route} (ht : l.tables r.table = true) :
    applyOp now scope protocol s (.replaceRoute r) =
      { s with routes := s.routes.insert r.key.routeKey (keepExpiry now
          (s.routes[r.key.routeKey]?.bind ObservedRoute.expiresAt) (r.observed protocol)) } := by
  have hp : scope.isPolywan (r.observed protocol).table = true := by rw [hc]; exact ht
  have hk : scope.keeps (r.observed protocol) = true := by simp [Scope.keeps, hp]
  have hkey : routeKey scope (r.observed protocol) = r.key.routeKey := routeKey_of_isPolywan hp
  simp [applyOp, netlinkOp, System.apply, parse_routeMessage, System.applyRoute, hk, hkey]

/-- The deletion of the route of a table of the program. -/
theorem applyOp_deleteRoute_of_isPolywan {f : Family} {t : ℕ} (p : ℕ)
    (ht : scope.isPolywan t = true) :
    applyOp now scope protocol s (.deleteRoute f t p) =
      { s with routes := s.routes.erase (TableKey.routeKey ⟨f, t⟩) } := by
  obtain ⟨o, ho, hkey⟩ : ∃ o, ObservedRoute.parse now (routeDeleteKey f t p) = some o ∧
      (o.family = f ∧ o.table = t ∧ o.destination = none ∧ o.metric = routeMetric) := by
    simp [ObservedRoute.parse, routeDeleteKey, family_addressFamily, ObservedRoute.readAttribute]
  obtain ⟨hf, htab, hd, hm⟩ := hkey
  have hp : scope.isPolywan o.table = true := by rw [htab]; exact ht
  have hk : scope.keeps o = true := by simp [Scope.keeps, hp]
  have hroute : routeKey scope o = TableKey.routeKey ⟨f, t⟩ := by
    rw [routeKey_of_isPolywan hp, hf, htab, hd, hm]
    rfl
  simp [applyOp, netlinkOp, System.apply, ho, System.applyRoute, hk, hroute]

theorem applyOp_deleteRoute (hc : scope.Covers l) {f : Family} {t : ℕ} (p : ℕ)
    (ht : l.tables t = true) :
    applyOp now scope protocol s (.deleteRoute f t p) =
      { s with routes := s.routes.erase (TableKey.routeKey ⟨f, t⟩) } :=
  applyOp_deleteRoute_of_isPolywan now protocol s p ((hc t).trans ht)

theorem routes_replaceRoute (hc : scope.Covers l) {r : Route} (ht : l.tables r.table = true) :
    ∃ t, ∀ κ : RouteKey, (applyOp now scope protocol s (.replaceRoute r)).routes[κ]? =
      if r.key.routeKey = κ then some (r.held protocol t) else s.routes[κ]? := by
  obtain ⟨t, hheld⟩ := exists_keepExpiry_eq_held now
    (s.routes[r.key.routeKey]?.bind ObservedRoute.expiresAt) r protocol
  refine ⟨t, fun κ => ?_⟩
  rw [applyOp_replaceRoute now protocol s hc ht, hheld]
  simp [Std.ExtTreeMap.getElem?_insert]

theorem routes_deleteRoute (hc : scope.Covers l) {f : Family} {t : ℕ} (p : ℕ)
    (ht : l.tables t = true) (κ : RouteKey) :
    (applyOp now scope protocol s (.deleteRoute f t p)).routes[κ]? =
      if TableKey.routeKey ⟨f, t⟩ = κ then none else s.routes[κ]? := by
  rw [applyOp_deleteRoute now protocol s hc p ht]
  simp [Std.ExtTreeMap.getElem?_erase]

theorem routes_addRule (r : Rule) :
    (applyOp now scope protocol s (.addRule r)).routes = s.routes := by
  rw [applyOp_addRule]
  rfl

theorem routes_deleteRule (o : ObservedRule) :
    (applyOp now scope protocol s (.deleteRule o)).routes = s.routes := by
  simp only [applyOp, netlinkOp, System.apply]
  split <;> rfl

theorem applyOps_append (ops ops' : List Op) :
    applyOps now scope protocol s (ops ++ ops') =
      applyOps now scope protocol (applyOps now scope protocol s ops) ops' :=
  List.foldl_append

/-- An operation on the layout's tables, with a route of the planned shape. -/
def Op.Proper (l : Layout) : Op → Prop
  | .replaceRoute r => l.tables r.table = true ∧ r.Shaped
  | .deleteRoute _ t _ => l.tables t = true
  | .addRule _ | .deleteRule _ | .applyNft => True

/-- Operations on the layout's tables leave the other tables alone. -/
theorem getElem?_applyOps_of_foreign (hc : scope.Covers l) {ops : List Op}
    (hops : ∀ op ∈ ops, op.Proper l) {κ : RouteKey} (hκ : l.tables κ.table = false) :
    (applyOps now scope protocol s ops).routes[κ]? = s.routes[κ]? := by
  induction ops generalizing s with
  | nil => rfl
  | cons op ops ih =>
    obtain ⟨hop, hops⟩ := List.forall_mem_cons.mp hops
    have hne : ∀ k : TableKey, l.tables k.table = true → k.routeKey ≠ κ := by
      rintro k hk rfl
      rw [show l.tables k.routeKey.table = l.tables k.table from rfl, hk] at hκ
      cases hκ
    refine (ih _ hops).trans ?_
    cases op with
    | replaceRoute r =>
      obtain ⟨t, ht⟩ := routes_replaceRoute now protocol s hc hop.1
      rw [ht, if_neg (hne r.key hop.1)]
    | deleteRoute f t p => rw [routes_deleteRoute now protocol s hc p hop, if_neg (hne ⟨f, t⟩ hop)]
    | addRule r => rw [routes_addRule]
    | deleteRule o => rw [routes_deleteRule]
    | applyNft => rfl

/-- What else the scope keeps does not matter. -/
theorem applyOps_scope {scope' : Scope} (hc : scope.Covers l) (hc' : scope'.Covers l)
    {ops : List Op} (hops : ∀ op ∈ ops, op.Proper l) :
    applyOps now scope protocol s ops = applyOps now scope' protocol s ops := by
  induction ops generalizing s with
  | nil => rfl
  | cons op ops ih =>
    have hop : applyOp now scope protocol s op = applyOp now scope' protocol s op := by
      have hin := hops op List.mem_cons_self
      cases op with
      | replaceRoute r =>
        rw [applyOp_replaceRoute _ _ _ hc hin.1, applyOp_replaceRoute _ _ _ hc' hin.1]
      | deleteRoute f t p =>
        rw [applyOp_deleteRoute _ _ _ hc p hin, applyOp_deleteRoute _ _ _ hc' p hin]
      | addRule r | deleteRule o | applyNft => rfl
    rw [applyOps, applyOps, List.foldl_cons, List.foldl_cons, hop]
    exact ih _ fun op' hop' => hops op' (List.mem_cons_of_mem op hop')

theorem System.WellFormed.applyOps {s : System} (h : s.WellFormed scope) (ops : List Op) :
    (applyOps now scope protocol s ops).WellFormed scope := by
  induction ops generalizing s with
  | nil => exact h
  | cons op ops ih =>
    refine ih ?_
    unfold applyOp
    split
    · exact h.apply now _
    · exact h

end Op

/-! ## Rules in the view -/

theorem sameRule_iff_identity {a b : ObservedRule} (ha : a.foreignSelectors = false)
    (hb : b.foreignSelectors = false) : sameRule a b = true ↔ a.identity = b.identity := by
  simp only [sameRule, ha, hb, Bool.or_self, Bool.false_eq_true, if_false, Bool.and_eq_true,
    decide_eq_true_eq, ObservedRule.identity, RuleIdentity.mk.injEq]
  tauto

/-- The view takes a rule for the planned one exactly when it is the planned one. -/
theorem sameRule_observed {o : ObservedRule} (hp : ObservedRule.parse o.message = some o)
    (r : Rule) (protocol : ℕ) :
    sameRule o (r.observed protocol) = true ↔ o.is r protocol = true := by
  rw [ObservedRule.is_iff]
  cases hf : o.foreignSelectors with
  | false =>
    simpa [Rule.observed_identity] using
      sameRule_iff_identity hf (b := r.observed protocol) rfl
  | true =>
    -- A foreign rule has the message of a planned one only if it is not foreign.
    simp only [sameRule, hf, Bool.true_or, if_true, decide_eq_true_eq, Bool.true_eq_false,
      false_and, iff_false]
    intro hm
    rw [hm, Rule.observed, parse_ruleMessage] at hp
    have := congrArg ObservedRule.foreignSelectors (Option.some.inj hp)
    simp [Rule.observed, hf] at this

/-- A planned rule stands in the view. -/
def System.Holds (s : System) (protocol : ℕ) (r : Rule) : Prop :=
  ∃ o ∈ s.rules, o.is r protocol = true

theorem System.WellFormed.eq_of_sameRule {scope : Scope} {s : System} (h : s.WellFormed scope)
    {a b : ObservedRule} (ha : a ∈ s.rules) (hb : b ∈ s.rules) (hab : sameRule a b = true) :
    a = b := by
  by_contra hne
  have : Std.Symm fun a b : ObservedRule => sameRule a b = false :=
    ⟨fun a b h => (sameRule_comm b a).trans h⟩
  have := h.distinct.forall ha hb hne
  simp [hab] at this

theorem System.WellFormed.nodup_rules {scope : Scope} {s : System} (h : s.WellFormed scope) :
    s.rules.Nodup :=
  h.distinct.imp fun hab heq => by simp [heq] at hab

/-- The view holds a planned rule once. -/
theorem System.WellFormed.eq_of_is {scope : Scope} {s : System} (h : s.WellFormed scope)
    {a b : ObservedRule} {r : Rule} {protocol : ℕ} (ha : a ∈ s.rules) (hb : b ∈ s.rules)
    (har : a.is r protocol = true) (hbr : b.is r protocol = true) : a = b := by
  obtain ⟨hfa, hia⟩ := (ObservedRule.is_iff _ _ _).mp har
  obtain ⟨hfb, hib⟩ := (ObservedRule.is_iff _ _ _).mp hbr
  exact h.eq_of_sameRule ha hb ((sameRule_iff_identity hfa hfb).mpr (hia.trans hib.symm))

/-- What an operation does to the rules; the routes play no part in it. -/
def ruleStep (protocol : ℕ) (rules : List ObservedRule) : Op → List ObservedRule
  | .addRule r =>
    rules.filter (fun o => !sameRule o (r.observed protocol)) ++ [r.observed protocol]
  | .deleteRule o =>
    match ObservedRule.parse o.message with
    | some r => rules.filter fun o => !sameRule o r
    | none => rules
  | .replaceRoute _ | .applyNft | .deleteRoute _ _ _ => rules

/-- Whether an operation is about a rule. -/
def Op.isRule : Op → Bool
  | .addRule _ | .deleteRule _ => true
  | .replaceRoute _ | .applyNft | .deleteRoute _ _ _ => false

theorem System.applyRoute_rules (now : ℕ) (scope : Scope) (s : System) (r : ObservedRoute)
    (deleted : Bool) : (s.applyRoute now scope r deleted).1.rules = s.rules := by
  unfold System.applyRoute
  split <;> rfl

section Rules

variable (now protocol : ℕ) (scope : Scope)

theorem applyOp_rules (s : System) (op : Op) :
    (applyOp now scope protocol s op).rules = ruleStep protocol s.rules op := by
  cases op with
  | addRule r =>
    rw [applyOp_addRule]
    rfl
  | deleteRule o =>
    simp only [applyOp, netlinkOp, System.apply, ruleStep]
    cases ObservedRule.parse o.message <;> rfl
  | replaceRoute r =>
    simp only [applyOp, netlinkOp, System.apply, ruleStep, parse_routeMessage]
    exact System.applyRoute_rules ..
  | deleteRoute f t p =>
    simp only [applyOp, netlinkOp, System.apply, ruleStep]
    split
    · exact System.applyRoute_rules ..
    · rfl
  | applyNft => rfl

/-- **The rules change by the rule operations alone.** -/
theorem applyOps_rules (s : System) (ops : List Op) :
    (applyOps now scope protocol s ops).rules =
      (ops.filter Op.isRule).foldl (ruleStep protocol) s.rules := by
  induction ops generalizing s with
  | nil => rfl
  | cons op ops ih =>
    rw [applyOps, List.foldl_cons]
    refine (ih _).trans ?_
    rw [applyOp_rules]
    cases op <;> rfl

end Rules

section Batches

variable {protocol : ℕ} {rules : List ObservedRule}

/-- New rules are appended. -/
theorem foldl_addRule {A : List Rule}
    (hnew : ∀ r ∈ A, ∀ o ∈ rules, sameRule o (r.observed protocol) = false)
    (hdist : A.Pairwise fun r r' => sameRule (r.observed protocol) (r'.observed protocol) = false) :
    (A.map Op.addRule).foldl (ruleStep protocol) rules =
      rules ++ A.map (Rule.observed · protocol) := by
  induction A generalizing rules with
  | nil => simp
  | cons r A ih =>
    obtain ⟨hr, hA⟩ := List.pairwise_cons.mp hdist
    have hfilter : rules.filter (fun o => !sameRule o (r.observed protocol)) = rules := by
      refine List.filter_eq_self.mpr fun o ho => ?_
      simp [hnew r List.mem_cons_self o ho]
    rw [List.map_cons, List.foldl_cons, ruleStep, hfilter, ih ?_ hA]
    · simp
    · intro r' hr' o ho
      rcases List.mem_append.mp ho with ho | ho
      · exact hnew r' (List.mem_cons_of_mem r hr') o ho
      · obtain rfl := List.mem_singleton.mp ho
        exact hr r' hr'

/-- Deleted rules go, and nothing else. -/
theorem foldl_deleteRule {D : List ObservedRule}
    (hparsed : ∀ d ∈ D, ObservedRule.parse d.message = some d)
    (hsame : ∀ o ∈ rules, ∀ d ∈ D, sameRule o d = true → o = d) :
    (D.map Op.deleteRule).foldl (ruleStep protocol) rules = rules.filter (· ∉ D) := by
  induction D generalizing rules with
  | nil => simp
  | cons d D ih =>
    have hd : ruleStep protocol rules (.deleteRule d) = rules.filter (· ≠ d) := by
      simp only [ruleStep, hparsed d List.mem_cons_self]
      refine List.filter_congr fun o ho => ?_
      by_cases heq : o = d
      · simp [heq]
      · have : sameRule o d = false := by
          by_contra hs
          exact heq (hsame o ho d List.mem_cons_self (by simpa using hs))
        simp [heq, this]
    rw [List.map_cons, List.foldl_cons, hd, ih, List.filter_filter]
    · refine List.filter_congr fun o _ => ?_
      simp [List.mem_cons, Bool.and_comm]
    · exact fun d' hd' => hparsed d' (List.mem_cons_of_mem d hd')
    · exact fun o ho d' hd' => hsame o (List.mem_of_mem_filter ho) d' (List.mem_cons_of_mem d hd')

end Batches

end Polywan
