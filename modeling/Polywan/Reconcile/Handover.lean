import Polywan.Reconcile.Pass

/-!
# Installation and cleanup

While the rules of a plan go in, and while they are taken out again, every packet is
treated as by the complete plan or not at all; a packet with a mark may also be
rejected by a class guard.

## Main definitions

* `HandsOver` — what holds at every point of an installation or a cleanup.
* `Staged` — the part of a plan that is present.
* `Installed` — the plan is present completely.
-/

namespace Polywan

/-- A class guard rejects the packet. -/
def System.RejectedByGuard (s : System) (protocol : ℕ) (p : Flow) (rules : List Rule) : Prop :=
  ∃ r : Rule, r.kind.isClassGuard = true ∧
    Lib.Reaches (Rule.decide (s.planned protocol) p) rules r ∧
    r.decide (s.planned protocol) p = some .unreachable

/-- **What becomes of packets by the rules and routes present**, against the complete
plan: the same, or nothing; with a mark, also a rejection by a class guard. -/
structure HandsOver (c : Config) (i : Input) (s : System) : Prop where
  zero : ∀ p rules full, s.Order (Layout.of c) c.routing.routeProtocol rules →
    (plan c i).Order full → (Layout.of c).mask.field p.mark = .none →
      s.route c.routing.routeProtocol p rules = Lib.walk (Rule.decide (plan c i).table p) full ∨
        s.route c.routing.routeProtocol p rules = none
  marked : ∀ p rules full, s.Order (Layout.of c) c.routing.routeProtocol rules →
    (plan c i).Order full → (Layout.of c).mask.field p.mark ≠ .none →
      s.route c.routing.routeProtocol p rules = Lib.walk (Rule.decide (plan c i).table p) full ∨
        s.route c.routing.routeProtocol p rules = none ∨
        s.RejectedByGuard c.routing.routeProtocol p rules

/-- The part of a plan that is present is closed under what stands before it in the
walk, and its routes are there. -/
structure Staged (c : Config) (i : Input) (s : System) : Prop where
  planned : ∀ f (ρ : Role), s.Holds c.routing.routeProtocol (ρ.rule (Layout.of c) f) →
    c.manages f = true ∧ ρ.Planned c i f
  guards : ∀ f (ρ γ : Role), ¬ ρ.IsClassGuard → γ.IsClassGuard →
    s.Holds c.routing.routeProtocol (ρ.rule (Layout.of c) f) →
      s.Holds c.routing.routeProtocol (γ.rule (Layout.of c) f)
  closed : ∀ f (ρ ρ' : Role), ¬ ρ.IsClassGuard → ¬ ρ'.IsClassGuard → ρ'.Planned c i f →
    ρ'.offset < ρ.offset →
    (installRank ρ'.kind = installRank ρ.kind → ρ'.source = ρ.source) →
    s.Holds c.routing.routeProtocol (ρ.rule (Layout.of c) f) →
      s.Holds c.routing.routeProtocol (ρ'.rule (Layout.of c) f)
  routes : ∀ f (ρ : Role), s.Holds c.routing.routeProtocol (ρ.rule (Layout.of c) f) →
    ∀ k : TableKey, (Layout.of c).tables k.table = true →
      s.planned c.routing.routeProtocol k = (plan c i).routes[k]?

/-- Without any rule there is nothing to close. -/
theorem Staged.of_not_holds {c : Config} {i : Input} {s : System}
    (h : ∀ f (ρ : Role), ¬ s.Holds c.routing.routeProtocol (ρ.rule (Layout.of c) f)) :
    Staged c i s :=
  ⟨fun f ρ hold => absurd hold (h f ρ), fun f ρ _ _ _ hold => absurd hold (h f ρ),
    fun f ρ _ _ _ _ _ _ hold => absurd hold (h f ρ), fun f ρ hold => absurd hold (h f ρ)⟩

namespace Role

variable {ρ ρ' : Role} {v : FieldValue} {source : IpAddr}

/-- Rules of one rank that select a packet select by the same source. -/
theorem source_eq_of_selects (hs : ρ.Selects v source) (hs' : ρ'.Selects v source)
    (hrank : installRank ρ.kind = installRank ρ'.kind) : ρ.source = ρ'.source := by
  have hsource : ∀ ρ : Role, ρ.Selects v source →
      ρ.source = if installRank ρ.kind = 5 then some source else none := by
    intro ρ hs
    cases ρ with
    | sourceLookup id a | sourceGuard a => rw [hs.2]; rfl
    | _ => rfl
  rw [hsource ρ hs, hsource ρ' hs', hrank]

/-- Two roles at one place of the walk that select a packet are one role, class guards
apart. -/
theorem eq_of_offset_eq (h : ¬ ρ.IsClassGuard) (hs : ρ.Selects v source)
    (hs' : ρ'.Selects v source) (ho : ρ.offset = ρ'.offset) : ρ = ρ' := by
  have hkind : ρ.kind = ρ'.kind := by
    have hc := classify_rule ⟨0, 0, FwMask.default⟩ .v4 ρ
    have hc' := classify_rule ⟨0, 0, FwMask.default⟩ .v4 ρ'
    rw [rule_priority, ho] at hc
    exact Option.some.inj (hc.symm.trans hc')
  have hsource := source_eq_of_selects hs hs' (by rw [hkind])
  cases ρ with
  | pathGuard k => exact absurd rfl h
  | _ => cases ρ' <;> simp_all [kind, Role.source]

/-- No other rule stands at the place of a class guard. -/
theorem offset_ne_of_isClassGuard (h : ρ.IsClassGuard) (h' : ¬ ρ'.IsClassGuard) :
    ρ.offset ≠ ρ'.offset := by
  intro ho
  have hc := classify_rule ⟨0, 0, FwMask.default⟩ .v4 ρ
  have hc' := classify_rule ⟨0, 0, FwMask.default⟩ .v4 ρ'
  rw [rule_priority, ho] at hc
  have hkind := Option.some.inj (hc.symm.trans hc')
  rw [IsClassGuard, ← hkind] at h'
  exact h' h

end Role

section Staged

variable {c : Config} {i : Input} {s : System} {p : Flow} {full : List Rule}

/-- A rule other than a class guard decides as in the complete plan. -/
theorem Staged.walk_eq (h : Staged c i s) (hfull : (plan c i).Order full) {ρ : Role} {v : Verdict}
    (hρ : ¬ ρ.IsClassGuard) (hold : s.Holds c.routing.routeProtocol (ρ.rule (Layout.of c) p.family))
    (hs : ρ.Selects ((Layout.of c).mask.field p.mark) p.source)
    (hout : ρ.outcome (fun τ => s.planned c.routing.routeProtocol
      ⟨p.family, (Layout.of c).tableOf τ⟩) p.covered = some v)
    (hmin : ∀ ρ' : Role, s.Holds c.routing.routeProtocol (ρ'.rule (Layout.of c) p.family) →
      ρ'.offset < ρ.offset → ρ'.Selects ((Layout.of c).mask.field p.mark) p.source →
      ρ'.outcome (fun τ => s.planned c.routing.routeProtocol
        ⟨p.family, (Layout.of c).tableOf τ⟩) p.covered = none) :
    Lib.walk (Rule.decide (plan c i).table p) full = some v := by
  have htables : (fun τ => s.planned c.routing.routeProtocol
      ⟨p.family, (Layout.of c).tableOf τ⟩) = tableRoute c i p.family := by
    funext τ
    rw [h.routes _ ρ hold _ (Layout.tables_tableOf _ τ), plan_routes_tableOf]
  rw [htables] at hout hmin
  obtain ⟨hm, hplanned⟩ := h.planned _ ρ hold
  refine walk_eq_of_role hm hfull hplanned hs hout ?_
  intro ρ' hplanned' hle hs' v' hv'
  -- Everything before `ρ` in the walk is present and does not decide.
  have hpresent : ρ'.offset < ρ.offset →
      s.Holds c.routing.routeProtocol (ρ'.rule (Layout.of c) p.family) := by
    intro hlt
    by_cases hρ' : ρ'.IsClassGuard
    · exact h.guards _ ρ ρ' hρ hρ' hold
    · exact h.closed _ ρ ρ' hρ hρ' hplanned' hlt (Role.source_eq_of_selects hs' hs) hold
  rcases hle.lt_or_eq with hlt | heq
  · rw [hmin ρ' (hpresent hlt) hlt hs'] at hv'
    cases hv'
  · have hρ' : ¬ ρ'.IsClassGuard := fun hg => Role.offset_ne_of_isClassGuard hg hρ heq
    rw [Role.eq_of_offset_eq hρ' hs' hs heq, hout] at hv'
    exact (Option.some.inj hv').symm

/-- A class guard does not select a zero field. -/
theorem field_ne_none_of_guard {γ : Role} (hγ : γ.IsClassGuard) {v : FieldValue} {source : IpAddr}
    (hs : γ.Selects v source) : v ≠ .none := by
  intro hv
  obtain ⟨hc, hid⟩ := v.eq_none_iff.mp hv
  have hbits := FieldValue.bits_eq_false hid
  cases γ <;> simp_all [Role.Selects, Role.IsClassGuard, Role.kind, RuleKind.isClassGuard]

/-- **A staged part of a plan hands over.** -/
theorem Staged.handsOver (h : Staged c i s) : HandsOver c i s := by
  have key : ∀ p rules full, s.Order (Layout.of c) c.routing.routeProtocol rules →
      (plan c i).Order full →
      s.route c.routing.routeProtocol p rules = Lib.walk (Rule.decide (plan c i).table p) full ∨
        s.route c.routing.routeProtocol p rules = none ∨
        (Layout.of c).mask.field p.mark ≠ .none ∧
          s.RejectedByGuard c.routing.routeProtocol p rules := by
    intro p rules full ho hfull
    cases hr : s.route c.routing.routeProtocol p rules with
    | none => exact .inr (.inl rfl)
    | some v =>
      obtain ⟨ρ, hold, hreach, hs, hout, hmin⟩ := exists_role_of_route ho hr
      by_cases hρ : ρ.IsClassGuard
      · refine .inr (.inr ⟨field_ne_none_of_guard hρ hs,
          ρ.rule (Layout.of c) p.family, hρ, hreach, ?_⟩)
        exact Role.decide_rule.mpr ⟨rfl, hs, outcome_of_isClassGuard hρ _ _⟩
      · exact .inl (h.walk_eq hfull hρ hold hs hout hmin).symm
  refine ⟨fun p rules full ho hfull hz => ?_, fun p rules full ho hfull _ => ?_⟩
  · rcases key p rules full ho hfull with h | h | ⟨hne, -⟩
    · exact .inl h
    · exact .inr h
    · exact absurd hz hne
  · rcases key p rules full ho hfull with h | h | ⟨-, h⟩
    · exact .inl h
    · exact .inr (.inl h)
    · exact .inr (.inr h)

end Staged

/-! ## Installation -/

theorem isRule_routeOps {s : System} {d : DiffInput} :
    ∀ op ∈ d.routeOps s, op.isRule = false := by
  intro op hop
  simp only [DiffInput.routeOps, DiffInput.replacements, List.mem_append, List.mem_map] at hop
  rcases hop with ⟨r, -, rfl⟩ | ⟨k, -, rfl⟩ <;> rfl

section Install

variable {c : Config} (i : Input) (nftPending : Bool) (now : ℕ)

/-- With nothing there before, a settled pass has nothing to do after the step. -/
theorem lastOps_settled_empty :
    (Pass.settled c i nftPending).diffInput.lastOps {} = [] := by
  rw [DiffInput.lastOps, DiffInput.lateReplacements_eq_nil (Pass.settled_beforeNft c i nftPending)]
  rfl

variable (hv : c.Valid)
include hv

/-- The routes are all there once the route operations are done. -/
theorem planned_settled_append {q : List Op}
    (hq : q <+: ((Pass.settled c i nftPending).diffInput.additions {}).map .addRule ++
      (if nftPending then [.applyNft] else [])) {k : TableKey}
    (ht : (Layout.of c).tables k.table = true) :
    (applyOps now (Scope.of c) c.routing.routeProtocol {}
        ((Pass.settled c i nftPending).diffInput.routeOps {} ++ q)).planned
      c.routing.routeProtocol k = (plan c i).routes[k]? := by
  have hrules : ∀ op ∈ q, op.isRule = true ∨ op = .applyNft := by
    intro op hop
    rcases List.mem_append.mp (hq.subset hop) with h | h
    · obtain ⟨r, -, rfl⟩ := List.mem_map.mp h
      exact .inl rfl
    · split at h
      · exact .inr (List.mem_singleton.mp h)
      · cases h
  have hempty : (Pass.settled c i nftPending).diffInput.early {} ++
      (Pass.settled c i nftPending).diffInput.withdrawn {} = [] := rfl
  have hnone : ({} : System).planned c.routing.routeProtocol k = none := by
    simp [System.planned]
  rw [applyOps_append, System.planned_congr (routes_applyOps now _ _ hrules)]
  refine (DiffInput.planned_routeOps (System.WellFormed.empty (Scope.of c))
    (Scope.covers_of c) now (Pass.proper (p := Pass.settled c i nftPending) hv) ht).trans ?_
  rw [hempty, if_neg List.not_mem_nil, Pass.settled_beforeNft]
  exact (congrArg _ hnone).trans Option.or_none

/-- The routes are all there before the first rule is. -/
theorem planned_of_settled {ops : List Op}
    (hops : ops <+: diff {} (Pass.settled c i nftPending).diffInput) {r : Rule}
    (hold : (applyOps now (Scope.of c) c.routing.routeProtocol {} ops).Holds
      c.routing.routeProtocol r) {k : TableKey} (ht : (Layout.of c).tables k.table = true) :
    (applyOps now (Scope.of c) c.routing.routeProtocol {} ops).planned c.routing.routeProtocol k =
      (plan c i).routes[k]? := by
  rw [DiffInput.diff_eq_append, lastOps_settled_empty, List.append_nil] at hops
  rcases Lib.prefix_append_cases hops with hroute | ⟨q, hq, rfl⟩
  · -- Only route operations: no rule is present.
    obtain ⟨o, ho, -⟩ := hold
    have hnone : ops.filter Op.isRule = [] :=
      List.filter_eq_nil_iff.mpr fun op hop => by simp [isRule_routeOps op (hroute.subset hop)]
    rw [applyOps_rules, hnone] at ho
    cases ho
  · exact planned_settled_append i nftPending now hv hq ht

/-- **Every part of an installation is staged.** -/
theorem staged_of_diff {ops : List Op}
    (hops : ops <+: diff {} (Pass.settled c i nftPending).diffInput) :
    Staged c i (applyOps now (Scope.of c) c.routing.routeProtocol {} ops) := by
  have hw := System.WellFormed.empty (Scope.of c)
  have hd := Pass.desired_proper (p := Pass.settled c i nftPending) hv
  obtain ⟨A, D, hcut⟩ := DiffInput.exists_cut hw hd now (Scope.of c) hops
  -- What is present has been added.
  have hadded : ∀ f (ρ : Role), (applyOps now (Scope.of c) c.routing.routeProtocol {} ops).Holds
      c.routing.routeProtocol (ρ.rule (Layout.of c) f) →
      ρ.rule (Layout.of c) f ∈ A ∧ c.manages f = true ∧ ρ.Planned c i f := by
    intro f ρ h
    rcases (hcut.holds_iff hw hd (ρ.hasRule _ f)).mp h with ⟨⟨o, ho, -⟩, -⟩ | hA
    · cases ho
    · exact ⟨hA, mem_desired.mp ((DiffInput.mem_additions hd).mp (hcut.added.subset hA)).1⟩
  have hbefore : ∀ f (ρ ρ' : Role), ρ'.Planned c i f →
      installKey (ρ'.rule (Layout.of c) f) < installKey (ρ.rule (Layout.of c) f) →
      (applyOps now (Scope.of c) c.routing.routeProtocol {} ops).Holds
        c.routing.routeProtocol (ρ.rule (Layout.of c) f) →
      (applyOps now (Scope.of c) c.routing.routeProtocol {} ops).Holds
        c.routing.routeProtocol (ρ'.rule (Layout.of c) f) := by
    intro f ρ ρ' hplanned hlt h
    obtain ⟨hA, hm, -⟩ := hadded f ρ h
    have hdes := (mem_desired (p := Pass.settled c i nftPending)).mpr ⟨hm, hplanned⟩
    exact hcut.holds_of_desired hw hd hdes (hcut.holds_or_added_of_lt hd hdes hA hlt)
  refine ⟨fun f ρ h => (hadded f ρ h).2, fun f ρ γ hρ hγ h => ?_,
    fun f ρ ρ' hρ hρ' hplanned hlt hsource h => ?_,
    fun f ρ h k ht => planned_of_settled i nftPending now hv hops h ht⟩
  · exact hbefore f ρ γ (planned_of_isClassGuard hγ) (installKey_lt_of_isClassGuard hγ hρ) h
  · exact hbefore f ρ ρ' hplanned (installKey_lt_of_offset_lt hρ' hρ hlt hsource) h

end Install

/-! ## Cleanup -/

/-- The plan is present completely; other programs' rules and routes may be as well. -/
structure Installed (c : Config) (i : Input) (s : System) : Prop where
  wellFormed : s.WellFormed (Scope.ofLayouts [Layout.of c])
  rules : ∀ o ∈ observedRules s (Layout.of c) c.routing.routeProtocol,
    ∃ r ∈ (plan c i).rules, o.is r c.routing.routeProtocol = true
  holds : ∀ r ∈ (plan c i).rules, s.Holds c.routing.routeProtocol r
  routes : ∀ k : TableKey, (Layout.of c).tables k.table = true →
    s.planned c.routing.routeProtocol k = (plan c i).routes[k]?

section Teardown

variable {l : Layout} {protocol : ℕ} {s : System}

theorem ownerLayout_singleton (o : ObservedRule) :
    ownerLayout [(l, protocol)] o =
      if o.protocol = protocol ∧ l.priorities o.priority = true then some l else none := by
  simp only [ownerLayout, List.filter_cons, List.filter_nil, Bool.and_eq_true, decide_eq_true_eq]
  split_ifs
  · cases hr : hasRole l o <;> simp [List.find?, hr]
  · rfl

theorem mem_teardownRules {o : ObservedRule} :
    o ∈ teardownRules s [(l, protocol)] ↔ o ∈ observedRules s l protocol := by
  simp only [teardownRules, List.mem_map, (List.perm_insertionSort _ _).mem_iff,
    List.mem_filterMap, ownerLayout_singleton, mem_observedRules]
  constructor
  · rintro ⟨⟨κ, o'⟩, ⟨o'', ho, h⟩, rfl⟩
    obtain ⟨l', hl, heq⟩ := Option.map_eq_some_iff.mp h
    obtain ⟨-, rfl⟩ := Prod.mk.inj heq
    split at hl
    · next hin => exact ⟨ho, hin⟩
    · cases hl
  · rintro ⟨ho, hin⟩
    exact ⟨(removalKey l o, o), ⟨o, ho, by rw [if_pos hin, Option.map_some]⟩, rfl⟩

theorem teardownRules_sorted :
    (teardownRules s [(l, protocol)]).Pairwise fun o o' => removalKey l o ≤ removalKey l o' := by
  have hkey : ∀ e ∈ (s.rules.filterMap fun o => (ownerLayout [(l, protocol)] o).map
      fun l => (removalKey l o, o)), e.1 = removalKey l e.2 := by
    intro e he
    obtain ⟨o, -, h⟩ := List.mem_filterMap.mp he
    rw [ownerLayout_singleton] at h
    split at h
    · obtain rfl := Option.some.inj h
      rfl
    · cases h
  refine List.pairwise_map.mpr ((Lib.pairwise_insertionSort_key Prod.fst _).imp_of_mem ?_)
  intro a b ha hb hle
  rw [← hkey a ((List.perm_insertionSort _ _).mem_iff.mp ha),
    ← hkey b ((List.perm_insertionSort _ _).mem_iff.mp hb)]
  exact hle

end Teardown

section Cleanup

variable {c : Config} {i : Input} {s : System} (h : Installed c i s) (now : ℕ)
include h

/-- A planned rule of the view, as the view shows it. -/
theorem Installed.planned_of_holds {f : Family} {ρ : Role}
    (hold : s.Holds c.routing.routeProtocol (ρ.rule (Layout.of c) f)) :
    c.manages f = true ∧ ρ.Planned c i f := by
  obtain ⟨o, ho, his⟩ := hold
  obtain ⟨r, hr, hisr⟩ := h.rules o (mem_observedRules_of_is ho (ρ.hasRule _ f) his)
  obtain ⟨-, ρ', -, hrole⟩ := mem_plan_rules.mp hr
  rw [Layout.HasRule.eq_of_is ⟨ρ', hrole⟩ (ρ.hasRule _ f) hisr his] at hr
  exact rule_mem_plan_iff.mp hr

/-- The rules when a cleanup is cut off. -/
theorem Installed.rules_of_teardown {D : List ObservedRule}
    (hD : D <+: teardownRules s [(Layout.of c, c.routing.routeProtocol)]) :
    (D.map Op.deleteRule).foldl (ruleStep c.routing.routeProtocol) s.rules =
      s.rules.filter (· ∉ D) := by
  have hmem : ∀ o ∈ D, o ∈ s.rules := fun o ho =>
    (mem_observedRules.mp (mem_teardownRules.mp (hD.subset ho))).1
  exact foldl_deleteRule (fun o ho => h.wellFormed.rule_parsed o (hmem o ho))
    fun o ho o' ho' => h.wellFormed.eq_of_sameRule ho (hmem o' ho')

/-- **What is left of a plan when a cleanup is cut off among the rules is staged.** -/
theorem Installed.staged {D : List ObservedRule} {s' : System}
    (hD : D <+: teardownRules s [(Layout.of c, c.routing.routeProtocol)])
    (hrules : s'.rules = s.rules.filter (· ∉ D)) (hroutes : s'.routes = s.routes) :
    Staged c i s' := by
  have hleft : ∀ {r}, s'.Holds c.routing.routeProtocol r → s.Holds c.routing.routeProtocol r := by
    rintro r ⟨o, ho, his⟩
    rw [hrules] at ho
    exact ⟨o, List.mem_of_mem_filter ho, his⟩
  -- What is removed later than something left is left.
  have hlater : ∀ f (ρ ρ' : Role), ρ'.Planned c i f →
      removalKey (Layout.of c) ((ρ.rule (Layout.of c) f).observed c.routing.routeProtocol) <
        removalKey (Layout.of c) ((ρ'.rule (Layout.of c) f).observed c.routing.routeProtocol) →
      s'.Holds c.routing.routeProtocol (ρ.rule (Layout.of c) f) →
        s'.Holds c.routing.routeProtocol (ρ'.rule (Layout.of c) f) := by
    intro f ρ ρ' hplanned hlt hold
    have hm := (h.planned_of_holds (hleft hold)).1
    obtain ⟨o', ho', his'⟩ := h.holds _ (rule_mem_plan hm hplanned)
    obtain ⟨o, ho, his⟩ := hold
    rw [hrules, List.mem_filter, decide_eq_true_iff] at ho
    refine ⟨o', ?_, his'⟩
    rw [hrules, List.mem_filter, decide_eq_true_iff]
    refine ⟨ho', fun hmem => ho.2 ?_⟩
    refine Lib.mem_prefix_of_key_lt teardownRules_sorted hD hmem ?_ ?_
    · exact mem_teardownRules.mpr (mem_observedRules_of_is ho.1 (ρ.hasRule _ f) his)
    · rwa [removalKey_of_is his, removalKey_of_is his']
  refine ⟨fun f ρ hold => h.planned_of_holds (hleft hold), fun f ρ γ hρ hγ hold => ?_,
    fun f ρ ρ' hρ hρ' hplanned hlt hsource hold => ?_, fun f ρ hold k ht => ?_⟩
  · exact hlater f ρ γ (planned_of_isClassGuard hγ) (removalKey_lt_of_isClassGuard hγ hρ) hold
  · exact hlater f ρ ρ' hplanned (removalKey_lt_of_offset_lt hρ' hρ hlt hsource) hold
  · rw [System.planned_congr hroutes]
    exact h.routes k ht

/-- **Every part of a cleanup is staged.** -/
theorem Installed.staged_of_teardown (scope : Scope) {ops : List Op}
    (hops : ops <+: teardown s [(Layout.of c, c.routing.routeProtocol)]) :
    Staged c i (applyOps now scope c.routing.routeProtocol s ops) := by
  rcases Lib.prefix_append_cases hops with hrule | ⟨q, hq, rfl⟩
  · obtain ⟨D, hD, rfl⟩ := List.prefix_map_iff.mp hrule
    refine h.staged hD ?_ (routes_applyOps now _ _ ?_)
    · rw [applyOps_rules, DiffInput.filter_isRule_deleteRule, h.rules_of_teardown hD]
    · intro op hop
      obtain ⟨o, -, rfl⟩ := List.mem_map.mp hop
      exact .inl rfl
  · -- The rules are gone: nothing of the plan is present any more.
    have hfilter : ((teardownRules s [(Layout.of c, c.routing.routeProtocol)]).map Op.deleteRule ++
        q).filter Op.isRule =
        (teardownRules s [(Layout.of c, c.routing.routeProtocol)]).map Op.deleteRule := by
      have hq' : q.filter Op.isRule = [] := by
        refine List.filter_eq_nil_iff.mpr fun op hop => ?_
        obtain ⟨e, -, rfl⟩ := List.mem_map.mp (hq.subset hop)
        exact Bool.false_ne_true
      rw [List.filter_append, hq', List.append_nil, DiffInput.filter_isRule_deleteRule]
    refine Staged.of_not_holds fun f ρ hold => ?_
    obtain ⟨o, ho, his⟩ := hold
    rw [applyOps_rules, hfilter, h.rules_of_teardown List.prefix_rfl, List.mem_filter,
      decide_eq_true_iff] at ho
    exact ho.2 (mem_teardownRules.mpr (mem_observedRules_of_is ho.1 (ρ.hasRule _ f) his))

end Cleanup

/-- The first installation leaves the plan present. -/
theorem installed_of_diff {c : Config} (hv : c.Valid) (i : Input) (nftPending : Bool) (now : ℕ) :
    Installed c i (applyOps now (Scope.of c) c.routing.routeProtocol {}
      (diff {} (Pass.settled c i nftPending).diffInput)) := by
  have hw := System.WellFormed.empty (Scope.of c)
  have hp := Pass.proper (p := Pass.settled c i nftPending) hv
  have hcut := DiffInput.cut_diff hw hp.desired now (Scope.of c)
  refine ⟨?_, ?_, ?_, ?_⟩
  · have hops := diff_proper (s := {}) hp.beforeNft hp.desired
    rw [applyOps_scope _ _ _ (Scope.covers_of c) (Scope.covers_ofLayouts (Layout.of c)) hops]
    exact (System.WellFormed.empty _).applyOps now _ _
  · intro o ho
    have ho := (mem_observedRules.mp ho).1
    have hrules := hcut.rules
    rw [show (Pass.settled c i nftPending).diffInput.protocol = c.routing.routeProtocol from rfl]
      at hrules
    rw [hrules] at ho
    rcases List.mem_append.mp (List.mem_of_mem_filter ho) with ho | ho
    · cases ho
    · obtain ⟨r, hr, rfl⟩ := List.mem_map.mp ho
      exact ⟨r, ((DiffInput.mem_additions hp.desired).mp hr).1, r.observed_is _⟩
  · intro r hr
    refine hcut.holds_of_desired hw hp.desired hr (.inr ?_)
    refine (DiffInput.mem_additions hp.desired).mpr ⟨hr, ?_⟩
    rintro ⟨o, ho, -⟩
    cases ho
  · intro k ht
    rw [DiffInput.diff_eq_append, lastOps_settled_empty, List.append_nil]
    exact planned_settled_append i nftPending now hv List.prefix_rfl ht

/-- **Installation and cleanup hand traffic over cleanly.**  At every point of an
installation from nothing, and of a cleanup from the installed plan, packets are
decided as by the complete plan or fall through; those with a mark may be rejected by
a class guard. -/
theorem handover {c : Config} (hv : c.Valid) (i : Input) (nftPending : Bool) :
    (∀ now ops, ops <+: diff {} (Pass.settled c i nftPending).diffInput →
      HandsOver c i (applyOps now (Scope.of c) c.routing.routeProtocol {} ops)) ∧
    (∀ now, Installed c i (applyOps now (Scope.of c) c.routing.routeProtocol {}
      (diff {} (Pass.settled c i nftPending).diffInput))) ∧
    ∀ s, Installed c i s → ∀ now ops,
      ops <+: teardown s [(Layout.of c, c.routing.routeProtocol)] →
      HandsOver c i (applyOps now (Scope.ofLayouts [Layout.of c]) c.routing.routeProtocol s ops) :=
  ⟨fun now _ hops => (staged_of_diff i nftPending now hv hops).handsOver,
    fun now => installed_of_diff hv i nftPending now,
    fun _ hs now _ hops => (hs.staged_of_teardown now _ hops).handsOver⟩

/-- Half of the sample's installation hands over. -/
theorem handover_sample :
    (applyOps 0 (Scope.of Sample.config) 249 {}
      ((diff {} (Pass.settled Sample.config Sample.input true).diffInput).take 20)).rules.length =
        13 ∧
    HandsOver Sample.config Sample.input (applyOps 0 (Scope.of Sample.config) 249 {}
      ((diff {} (Pass.settled Sample.config Sample.input true).diffInput).take 20)) :=
  ⟨by decide +kernel, (handover Sample.config_valid Sample.input true).1 0 _
    (List.take_prefix 20 _)⟩

end Polywan
