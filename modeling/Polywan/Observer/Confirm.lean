import Polywan.Kernel
import Polywan.Lib.Told
import Polywan.Observer

/-!
# Absence needs confirmation

What a resynchronisation or a re-read leaves in the view is decided by the last entry
about it that the first or the confirming read returned.  An entry of the old view goes
only when neither returned it, and the confirming read is then always made.

## Main definitions

* `tellsRoute`, `tellsRule`, `tellsAddress`, `tellsNexthop` — what a message tells of an
  entry.
* `asked` — the entries that the dumps of a read return.
* `Resynced`, `Reread` — what the two procedures guarantee.
-/

namespace Polywan

/-! ## What messages tell -/

/-- The route of an identity, within the scope. -/
def tellsRoute (now : ℕ) (scope : Scope) (κ : RouteKey) : Message → Option ObservedRoute
  | .route (.newRoute m) =>
    (ObservedRoute.parse now m).filter fun r => scope.keeps r && routeKey scope r = κ
  | _ => none

/-- The rule of an identity. -/
def tellsRule (o : ObservedRule) : Message → Option ObservedRule
  | .route (.newRule m) => (ObservedRule.parse m).filter fun r => sameRule r o
  | _ => none

def tellsAddress (k : AddressKey) : Message → Option ObservedAddress
  | .route (.newAddress m) =>
    (ObservedAddress.parse m).filter fun a => (⟨a.index, a.address⟩ : AddressKey) = k
  | _ => none

def tellsNexthop (id : ℕ) : Message → Option NexthopMessage
  | .newNexthop n => if n.id = id then some n else none
  | _ => none

/-- An entry of a dump. -/
def Message.Listed (m : Message) : Prop := ∃ (f : Filter) (e : f.Entry), m = f.message e

theorem Dump.listed {f : Filter} (d : Dump f) : ∀ m ∈ d.messages, m.Listed := by
  intro m hm
  obtain ⟨e, -, rfl⟩ := List.mem_map.mp hm
  exact ⟨f, e, rfl⟩

section Decides

variable (now : ℕ) (scope : Scope)

theorem ObservedRoute.Shows.keepExpiry {now : ℕ} {v r : ObservedRoute} (h : v.Shows now r)
    (old : Option ℕ) : (Polywan.keepExpiry now old v).Shows now r := by
  cases hv : v.expiresAt with
  | some t =>
    have hkeep : Polywan.keepExpiry now old v = v := by simp [Polywan.keepExpiry, hv]
    rw [hkeep]
    exact h
  | none =>
    have hr : v = r := by
      rw [Shows, hv] at h
      rw [h]
      cases hr : r.expiresAt <;> simp [Polywan.keepExpiry, hr]
    rw [hr]
    exact shows_keepExpiry (Nat.le_refl now) old r

/-- Two views differ at most in the part that a dump is about. -/
def Filter.Changes : Filter → System → System → Prop
  | links, s, s' => ∃ links, s' = { s with links }
  | nexthops, s, s' => ∃ nexthops, s' = { s with nexthops }
  | addresses _, s, s' => ∃ addresses, s' = { s with addresses }
  | rules _, s, s' => ∃ rules, s' = { s with rules }
  | routes _ _, s, s' => ∃ routes, s' = { s with routes }

/-- An entry changes the part of the view that it belongs to. -/
theorem changes_applyMessage (s : System) (f : Filter) (e : f.Entry) :
    f.Changes s (s.applyMessage now scope (f.message e)).1 := by
  cases f with
  | links =>
    simp only [Filter.message, System.applyMessage, System.apply]
    split
    · exact ⟨_, rfl⟩
    · exact ⟨s.links, rfl⟩
  | nexthops => exact ⟨_, rfl⟩
  | addresses family =>
    simp only [Filter.message, System.applyMessage, System.apply]
    split
    · split
      · exact ⟨s.addresses, rfl⟩
      · exact ⟨_, rfl⟩
    · exact ⟨s.addresses, rfl⟩
  | rules family =>
    simp only [Filter.message, System.applyMessage, System.apply]
    split
    · exact ⟨_, rfl⟩
    · exact ⟨s.rules, rfl⟩
  | routes family table =>
    simp only [Filter.message, System.applyMessage, System.apply]
    split
    · simp only [System.applyRoute]
      split
      · exact ⟨s.routes, rfl⟩
      · exact ⟨_, rfl⟩
    · exact ⟨s.routes, rfl⟩

/-- A route of the view. -/
theorem decides_route (κ : RouteKey) :
    Lib.Decides (fun s m => (System.applyMessage now scope s m).1) (fun _ => True) Message.Listed
      (fun s => s.routes[κ]?) (tellsRoute now scope κ)
      (fun r x => ∃ v, x = some v ∧ v.Shows now r) where
  keeps := fun _ _ _ _ => trivial
  silent := by
    rintro s _ - ⟨f, e, rfl⟩ htells
    have honly := changes_applyMessage now scope s f e
    cases f with
    | links | nexthops | addresses family | rules family =>
      obtain ⟨part, hpart⟩ := honly
      rw [hpart]
    | routes family table =>
      simp only [Filter.message, System.applyMessage, System.apply]
      simp only [Filter.message, tellsRoute] at htells
      split
      · next r hr =>
          rw [hr] at htells
          by_cases hkeeps : scope.keeps r = true
          · rw [getElem?_applyRoute hkeeps, if_neg]
            simpa [hkeeps] using htells
          · rw [applyRoute_of_not_keeps (Bool.eq_false_iff.mpr hkeeps)]
      · rfl
  told := by
    rintro s _ r - ⟨f, e, rfl⟩ htells
    cases f with
    | links | nexthops | addresses family | rules family => cases htells
    | routes family table =>
      simp only [Filter.message, System.applyMessage, System.apply]
      simp only [Filter.message, tellsRoute] at htells
      obtain ⟨hr, hboth⟩ := Option.filter_eq_some_iff.mp htells
      obtain ⟨hkeeps, hkey⟩ := (Bool.and_eq_true _ _).mp hboth
      rw [hr]
      dsimp only
      rw [getElem?_applyRoute hkeeps, if_pos (of_decide_eq_true hkey)]
      exact ⟨_, rfl, shows_keepExpiry (Nat.le_refl now) _ r⟩

/-- An address of the view. -/
theorem decides_address (k : AddressKey) :
    Lib.Decides (fun s m => (System.applyMessage now scope s m).1) (fun _ => True) Message.Listed
      (fun s => s.addresses[k]?) (tellsAddress k) (fun a x => x = some a) where
  keeps := fun _ _ _ _ => trivial
  silent := by
    rintro s _ - ⟨f, e, rfl⟩ htells
    have honly := changes_applyMessage now scope s f e
    cases f with
    | links | nexthops | rules family | routes family table =>
      obtain ⟨part, hpart⟩ := honly
      rw [hpart]
    | addresses family =>
      simp only [Filter.message, System.applyMessage, System.apply]
      simp only [Filter.message, tellsAddress] at htells
      split
      · next a ha =>
          rw [ha] at htells
          have hne : (⟨a.index, a.address⟩ : AddressKey) ≠ k := by simpa using htells
          split
          · rfl
          · simp [Std.ExtTreeMap.getElem?_insert, hne]
      · rfl
  told := by
    rintro s _ a - ⟨f, e, rfl⟩ htells
    cases f with
    | links | nexthops | rules family | routes family table => cases htells
    | addresses family =>
      simp only [Filter.message, System.applyMessage, System.apply]
      simp only [Filter.message, tellsAddress] at htells
      obtain ⟨ha, hk⟩ := Option.filter_eq_some_iff.mp htells
      obtain rfl := of_decide_eq_true hk
      rw [ha]
      dsimp only
      split
      · next hsame => exact hsame
      · simp

/-- A nexthop object of the view. -/
theorem decides_nexthop (id : ℕ) :
    Lib.Decides (fun s m => (System.applyMessage now scope s m).1) (fun _ => True) Message.Listed
      (fun s => s.nexthops[id]?) (tellsNexthop id) (fun n x => x = some n) where
  keeps := fun _ _ _ _ => trivial
  silent := by
    rintro s _ - ⟨f, e, rfl⟩ htells
    have honly := changes_applyMessage now scope s f e
    cases f with
    | links | addresses family | rules family | routes family table =>
      obtain ⟨part, hpart⟩ := honly
      rw [hpart]
    | nexthops =>
      simp only [Filter.message, tellsNexthop] at htells
      split at htells
      · cases htells
      · next hne => exact Std.ExtTreeMap.getElem?_insert.trans (if_neg (by simpa using hne))
  told := by
    rintro s _ n - ⟨f, e, rfl⟩ htells
    cases f with
    | links | addresses family | rules family | routes family table => cases htells
    | nexthops =>
      simp only [Filter.message, tellsNexthop] at htells
      split at htells
      · next heq =>
          obtain rfl := Option.some.inj htells
          exact Std.ExtTreeMap.getElem?_insert.trans (if_pos (by simpa using heq))
      · cases htells

/-! ### Rules -/

/-- A rule is what its message says. -/
def ObservedRule.Parsed (o : ObservedRule) : Prop := ObservedRule.parse o.message = some o

/-- Rules with one message are one. -/
theorem ObservedRule.Parsed.eq_of_message {a b : ObservedRule} (ha : a.Parsed) (hb : b.Parsed)
    (h : a.message = b.message) : a = b := by
  rw [Parsed, h] at ha
  exact Option.some.inj (ha.symm.trans hb)

theorem sameRule_trans {a b c : ObservedRule} (ha : a.Parsed) (hb : b.Parsed) (hc : c.Parsed)
    (hab : sameRule a b = true) (hbc : sameRule b c = true) : sameRule a c = true := by
  by_cases hfab : (a.foreignSelectors || b.foreignSelectors) = true
  · rw [sameRule, if_pos hfab] at hab
    rw [ha.eq_of_message hb (of_decide_eq_true hab)]
    exact hbc
  · by_cases hfbc : (b.foreignSelectors || c.foreignSelectors) = true
    · rw [sameRule, if_pos hfbc] at hbc
      rw [← hb.eq_of_message hc (of_decide_eq_true hbc)]
      exact hab
    · simp only [Bool.or_eq_true, not_or, Bool.not_eq_true] at hfab hfbc
      simp only [sameRule, hfab, hfbc, Bool.or_self, Bool.false_eq_true, if_false,
        Bool.and_eq_true, decide_eq_true_eq] at hab hbc ⊢
      obtain ⟨⟨⟨⟨⟨h₁, h₂⟩, h₃⟩, h₄⟩, h₅⟩, h₆⟩ := hab
      rw [h₁, h₂, h₃, h₄, h₅, h₆]
      exact hbc

/-- The rules of an identity in the view. -/
theorem decides_rule {o : ObservedRule} (ho : o.Parsed) :
    Lib.Decides (fun s m => (System.applyMessage now scope s m).1)
      (fun s => ∀ x ∈ s.rules, x.Parsed) Message.Listed
      (fun s => s.rules.filter fun x => sameRule x o) (tellsRule o) (fun r l => l = [r]) where
  keeps := by
    rintro s _ hs ⟨f, e, rfl⟩
    have honly := changes_applyMessage now scope s f e
    cases f with
    | links | nexthops | addresses family | routes family table =>
      obtain ⟨part, hpart⟩ := honly
      rw [hpart]
      exact hs
    | rules family =>
      simp only [Filter.message, System.applyMessage, System.apply]
      split
      · next r hr =>
          intro x hx
          rcases List.mem_append.mp hx with hx | hx
          · exact hs x (List.mem_of_mem_filter hx)
          · rw [List.mem_singleton.mp hx, ObservedRule.Parsed, ObservedRule.message_of_parse hr]
            exact hr
      · exact hs
  silent := by
    rintro s _ hs ⟨f, e, rfl⟩ htells
    have honly := changes_applyMessage now scope s f e
    cases f with
    | links | nexthops | addresses family | routes family table =>
      obtain ⟨part, hpart⟩ := honly
      rw [hpart]
    | rules family =>
      simp only [Filter.message, System.applyMessage, System.apply]
      simp only [Filter.message, tellsRule] at htells
      split
      · next r hr =>
          rw [hr] at htells
          have hro : sameRule r o = false := by simpa using htells
          have hp : r.Parsed := by
            rw [ObservedRule.Parsed, ObservedRule.message_of_parse hr]
            exact hr
          simp only [System.addRule, List.filter_append, List.filter_filter, List.filter_cons, hro,
            Bool.false_eq_true, if_false, List.filter_nil, List.append_nil]
          refine List.filter_congr fun x hx => ?_
          -- What goes is of the rule's identity, so it is not of the other.
          by_cases hxo : sameRule x o = true
          · have hxr : sameRule x r = false := by
              refine Bool.eq_false_iff.mpr fun hxr => ?_
              rw [sameRule_comm] at hxr
              rw [sameRule_trans hp (hs x hx) ho hxr hxo] at hro
              cases hro
            simp [hxo, hxr]
          · simp [Bool.eq_false_iff.mpr hxo]
      · rfl
  told := by
    rintro s _ r hs ⟨f, e, rfl⟩ htells
    cases f with
    | links | nexthops | addresses family | routes family table => cases htells
    | rules family =>
      simp only [Filter.message, System.applyMessage, System.apply]
      simp only [Filter.message, tellsRule] at htells
      obtain ⟨hr, hro⟩ := Option.filter_eq_some_iff.mp htells
      have hp : r.Parsed := by
        rw [ObservedRule.Parsed, ObservedRule.message_of_parse hr]
        exact hr
      rw [hr]
      simp only [System.addRule, List.filter_append, List.filter_filter, List.filter_cons, hro,
        if_true, List.filter_nil]
      refine (List.append_left_eq_self.mpr ?_)
      refine List.filter_eq_nil_iff.mpr fun x hx hboth => ?_
      obtain ⟨hxo, hxr⟩ := (Bool.and_eq_true _ _).mp hboth
      rw [sameRule_comm] at hro
      rw [sameRule_trans (hs x hx) ho hp hxo hro] at hxr
      cases hxr

end Decides

/-! ## Resynchronisation -/

/-- The entries that the answered dumps of a read return. -/
def asked (ask : Answers) (fs : List Filter) : List Message :=
  fs.flatMap fun f => ((ask f).map Dump.messages).getD []

/-- The strict dump of a table. -/
def Filter.ofTable (k : TableKey) : Filter := .routes k.family (some k.table)

/-- What a new view holds of an old one and of two reads.  An entry goes only when neither
read returned it and the confirming one was made; every entry that a read returned is
there as the later read returned it. -/
structure Resynced (now : ℕ) (scope : Scope) (old new : System) (first : List Message)
    (confirming : List Filter) (second : List Message) : Prop where
  route_dropped : ∀ κ : RouteKey, κ ∈ old.routes → κ ∉ new.routes →
    (∀ m ∈ first, tellsRoute now scope κ m = none) ∧
      Filter.ofTable κ.tableKey ∈ confirming ∧ ∀ m ∈ second, tellsRoute now scope κ m = none
  rule_dropped : ∀ o ∈ old.rules, (∀ n ∈ new.rules, sameRule n o = false) →
    (∀ m ∈ first, tellsRule o m = none) ∧
      (∀ f, .rules f ∈ confirming) ∧ ∀ m ∈ second, tellsRule o m = none
  address_dropped : ∀ k : AddressKey, k ∈ old.addresses → k ∉ new.addresses →
    (∀ m ∈ first, tellsAddress k m = none) ∧
      (∀ f, .addresses f ∈ confirming) ∧ ∀ m ∈ second, tellsAddress k m = none
  nexthop_dropped : ∀ id : ℕ, id ∈ old.nexthops → id ∉ new.nexthops →
    (∀ m ∈ first, tellsNexthop id m = none) ∧
      .nexthops ∈ confirming ∧ ∀ m ∈ second, tellsNexthop id m = none
  route_read : ∀ κ r, (Lib.lastTold (tellsRoute now scope κ) second).or
    (Lib.lastTold (tellsRoute now scope κ) first) = some r →
      ∃ v, new.routes[κ]? = some v ∧ v.Shows now r
  rule_read : ∀ o : ObservedRule, o.Parsed → ∀ r,
    (Lib.lastTold (tellsRule o) second).or (Lib.lastTold (tellsRule o) first) = some r →
      r ∈ new.rules
  address_read : ∀ k a, (Lib.lastTold (tellsAddress k) second).or
    (Lib.lastTold (tellsAddress k) first) = some a → new.addresses[k]? = some a
  nexthop_read : ∀ id n, (Lib.lastTold (tellsNexthop id) second).or
    (Lib.lastTold (tellsNexthop id) first) = some n → new.nexthops[id]? = some n

section Stages

variable {now : ℕ} {scope : Scope} {ask : Answers} {old : System}

theorem asked_listed (fs : List Filter) : ∀ m ∈ asked ask fs, m.Listed := by
  intro m hm
  obtain ⟨f, -, hm⟩ := List.mem_flatMap.mp hm
  cases hf : ask f with
  | none => simp [hf] at hm
  | some d => exact d.listed m (by simpa [hf] using hm)

theorem applyAll_append (s : System) (ms ms' : List Message) :
    s.applyAll now scope (ms ++ ms') = (s.applyAll now scope ms).applyAll now scope ms' :=
  List.foldl_append

/-- Dumps applied one after the other. -/
theorem foldlM_asked {σ : Type} (look : σ → System) (step : σ → (f : Filter) → Dump f → σ)
    {fs : List Filter} (hstep : ∀ v, ∀ f ∈ fs, ∀ d : Dump f,
      look (step v f d) = (look v).applyAll now scope d.messages) {v v' : σ}
    (h : fs.foldlM (fun v f => (ask f).map (step v f)) v = some v') :
    (∀ f ∈ fs, (ask f).isSome) ∧ look v' = (look v).applyAll now scope (asked ask fs) := by
  induction fs generalizing v with
  | nil =>
    obtain rfl : v = v' := Option.some.inj h
    exact ⟨by simp, rfl⟩
  | cons f fs ih =>
    rw [List.foldlM_cons] at h
    cases hask : ask f with
    | none => simp [hask] at h
    | some d =>
      simp only [hask, Option.map_some, Option.bind_eq_bind, Option.bind_some] at h
      obtain ⟨hsome, hlook⟩ := ih (fun v g hg => hstep v g (List.mem_cons_of_mem f hg)) h
      refine ⟨List.forall_mem_cons.mpr ⟨by simp [hask], hsome⟩, ?_⟩
      rw [hlook, hstep v f List.mem_cons_self d, ← applyAll_append]
      simp [asked, hask]

/-- The first read. -/
theorem full_eq {v : DumpedView} (h : full now scope ask = some v) :
    v.system = ({} : System).applyAll now scope (asked ask fullFilters) :=
  (foldlM_asked DumpedView.system _ (fun _ _ _ _ => rfl) h).2

/-- The dumps of everything but nexthop objects are of route netlink messages. -/
theorem Dump.messages_eq {f : Filter} (d : Dump f) (hf : f ≠ .nexthops) :
    d.messages = d.routing.map .route := by
  unfold Dump.routing Dump.messages
  rw [List.filterMap_map, List.map_filterMap]
  cases f with
  | nexthops => exact absurd rfl hf
  | links | addresses family | rules family | routes family table =>
    simp [Filter.message]

theorem foldl_routing {f : Filter} (d : Dump f) (hf : f ≠ .nexthops) (s : System) :
    d.routing.foldl (fun s m => (s.apply now scope m).1) s = s.applyAll now scope d.messages := by
  rw [System.applyAll, d.messages_eq hf, List.foldl_map]
  rfl

/-- A strict dump lists routes. -/
theorem foldl_newRoute {k : TableKey} (d : Dump (Filter.ofTable k)) (s : System) :
    d.routing.foldl (fun s m => match m with
      | .newRoute _ => (s.apply now scope m).1
      | _ => s) s = s.applyAll now scope d.messages := by
  rw [← foldl_routing d (by simp [Filter.ofTable])]
  refine List.foldl_ext _ _ s fun s m hm => ?_
  obtain ⟨m', hm', heq⟩ := List.mem_filterMap.mp hm
  obtain ⟨e, -, rfl⟩ := List.mem_map.mp hm'
  obtain rfl : RouteNetlinkMessage.newRoute e = m := Option.some.inj heq
  rfl

theorem confirmRoutes_eq {new s : System} (h : confirmRoutes now scope ask old new = some s) :
    (∀ f ∈ (missingTables old new).map Filter.ofTable, (ask f).isSome) ∧
      s = new.applyAll now scope (asked ask ((missingTables old new).map Filter.ofTable)) := by
  refine foldlM_asked id (fun s f d => d.routing.foldl (fun s m => match m with
      | .newRoute _ => (s.apply now scope m).1
      | _ => s) s) ?_ (by rw [List.foldlM_map]; exact h)
  intro v f hf d
  obtain ⟨k, -, rfl⟩ := List.mem_map.mp hf
  exact foldl_newRoute d v

/-- The dumps of the families that a missing entry asks for. -/
def confirmFilters (missing : Bool) (fs : List Filter) : List Filter := if missing then fs else []

theorem confirmRules_eq {new s : System} (h : confirmRules now scope ask old new = some s) :
    let fs := confirmFilters
      (old.rules.any fun o => !new.rules.any fun n => n.message = o.message)
      (Family.all.map .rules)
    (∀ f ∈ fs, (ask f).isSome) ∧ s = new.applyAll now scope (asked ask fs) := by
  unfold confirmRules at h
  split at h
  · next hmissing =>
      simp only [confirmFilters, hmissing, if_true]
      refine foldlM_asked id (fun s f d =>
        d.routing.foldl (fun s m => (s.apply now scope m).1) s) ?_
          (by rw [List.foldlM_map]; exact h)
      intro v f hf d
      obtain ⟨family, -, rfl⟩ := List.mem_map.mp hf
      exact foldl_routing d (by simp) v
  · next hmissing =>
      simp only [confirmFilters, hmissing, Bool.false_eq_true, if_false]
      obtain rfl := Option.some.inj h
      exact ⟨by simp, rfl⟩

theorem confirmNexthops_eq {new v : DumpedView}
    (h : confirmNexthops now scope ask old new = some v) :
    let fs := confirmFilters (old.nexthops.keys.any fun id => !new.system.nexthops.contains id)
      [.nexthops]
    (∀ f ∈ fs, (ask f).isSome) ∧ v.system = new.system.applyAll now scope (asked ask fs) := by
  unfold confirmNexthops at h
  split at h
  · next hmissing =>
      simp only [confirmFilters, hmissing, if_true]
      obtain ⟨d, hd, rfl⟩ := Option.map_eq_some_iff.mp h
      simp [hd, asked]
  · next hmissing =>
      simp only [confirmFilters, hmissing, Bool.false_eq_true, if_false]
      obtain rfl := Option.some.inj h
      exact ⟨by simp, rfl⟩

theorem confirmAddresses_eq {new v : DumpedView}
    (h : confirmAddresses now scope ask old new = some v) :
    let fs := confirmFilters (old.addresses.keys.any fun k => !new.system.addresses.contains k)
      (Family.all.map .addresses)
    (∀ f ∈ fs, (ask f).isSome) ∧ v.system = new.system.applyAll now scope (asked ask fs) := by
  unfold confirmAddresses at h
  split at h
  · next hmissing =>
      simp only [confirmFilters, hmissing, if_true]
      refine foldlM_asked DumpedView.system (fun v f d =>
        ⟨d.routing.foldl (fun s m => (s.apply now scope m).1) v.system,
          v.interrupted || d.interrupted⟩) ?_ (by rw [List.foldlM_map]; exact h)
      intro v f hf d
      obtain ⟨family, -, rfl⟩ := List.mem_map.mp hf
      exact foldl_routing d (by simp) v.system
  · next hmissing =>
      simp only [confirmFilters, hmissing, Bool.false_eq_true, if_false]
      obtain rfl := Option.some.inj h
      exact ⟨by simp, rfl⟩

end Stages

section Views

variable (now : ℕ) (scope : Scope)

/-- The view of a list of entries. -/
def viewOf (ms : List Message) : System := ({} : System).applyAll now scope ms

variable {now scope} {ms : List Message} (hms : ∀ m ∈ ms, m.Listed)
include hms

theorem viewOf_route {κ : RouteKey} :
    (∀ r, Lib.lastTold (tellsRoute now scope κ) ms = some r →
      ∃ v, (viewOf now scope ms).routes[κ]? = some v ∧ v.Shows now r) ∧
    (Lib.lastTold (tellsRoute now scope κ) ms = none → κ ∉ (viewOf now scope ms).routes) := by
  refine ⟨fun r hr => (decides_route now scope κ).foldl_of_some hms trivial hr, fun hnone => ?_⟩
  have hlook := (decides_route now scope κ).foldl_of_none hms (s := {}) trivial hnone
  rw [Std.ExtTreeMap.mem_iff_isSome_getElem?]
  simpa [viewOf, System.applyAll] using hlook

theorem viewOf_address {k : AddressKey} :
    (∀ a, Lib.lastTold (tellsAddress k) ms = some a →
      (viewOf now scope ms).addresses[k]? = some a) ∧
    (Lib.lastTold (tellsAddress k) ms = none → k ∉ (viewOf now scope ms).addresses) := by
  refine ⟨fun a ha => (decides_address now scope k).foldl_of_some hms trivial ha, fun hnone => ?_⟩
  have hlook := (decides_address now scope k).foldl_of_none hms (s := {}) trivial hnone
  rw [Std.ExtTreeMap.mem_iff_isSome_getElem?]
  simpa [viewOf, System.applyAll] using hlook

theorem viewOf_nexthop {id : ℕ} :
    (∀ n, Lib.lastTold (tellsNexthop id) ms = some n →
      (viewOf now scope ms).nexthops[id]? = some n) ∧
    (Lib.lastTold (tellsNexthop id) ms = none → id ∉ (viewOf now scope ms).nexthops) := by
  refine ⟨fun n hn => (decides_nexthop now scope id).foldl_of_some hms trivial hn, fun hnone => ?_⟩
  have hlook := (decides_nexthop now scope id).foldl_of_none hms (s := {}) trivial hnone
  rw [Std.ExtTreeMap.mem_iff_isSome_getElem?]
  simpa [viewOf, System.applyAll] using hlook

theorem viewOf_rule {o : ObservedRule} (ho : o.Parsed) :
    (∀ r, Lib.lastTold (tellsRule o) ms = some r → r ∈ (viewOf now scope ms).rules ∧
      sameRule r o = true) ∧
    (Lib.lastTold (tellsRule o) ms = none →
      ∀ n ∈ (viewOf now scope ms).rules, sameRule n o = false) := by
  have hempty : ∀ x ∈ ({} : System).rules, x.Parsed := by simp
  constructor
  · intro r hr
    have hlook := (decides_rule now scope ho).foldl_of_some hms hempty hr
    exact List.mem_filter.mp (hlook ▸ List.mem_singleton_self r)
  · intro hnone n hn
    have hlook := (decides_rule now scope ho).foldl_of_none hms hempty hnone
    exact Bool.eq_false_iff.mpr (List.filter_eq_nil_iff.mp hlook n hn)

/-- An old rule whose identity is missing is missing by its message. -/
theorem any_missing_rule {old : System} {o : ObservedRule} (ho : o.Parsed) (hmem : o ∈ old.rules)
    (hnone : Lib.lastTold (tellsRule o) ms = none) :
    (old.rules.any fun o => !(viewOf now scope ms).rules.any fun n => n.message = o.message) =
      true := by
  refine List.any_eq_true.mpr ⟨o, hmem, ?_⟩
  simp only [Bool.not_eq_true', List.any_eq_false, decide_eq_true_eq]
  intro n hn hmessage
  have hparsed : n.Parsed :=
    (decides_rule now scope ho).inv_foldl hms (s := {}) (by simp) n hn
  have hdiffer := (viewOf_rule hms ho).2 hnone n hn
  rw [hparsed.eq_of_message ho hmessage, sameRule_self] at hdiffer
  cases hdiffer

end Views

section Resync

variable {now : ℕ} {scope : Scope} {ask : ℕ → Answers} {old : System}

theorem asked_append (ask : Answers) (fs gs : List Filter) :
    asked ask (fs ++ gs) = asked ask fs ++ asked ask gs :=
  List.flatMap_append

theorem mem_missingTables {new : System} {κ : RouteKey} (h : κ ∈ old.routes)
    (hnew : κ ∉ new.routes) : κ.tableKey ∈ missingTables old new := by
  unfold missingTables
  rw [Std.ExtTreeSet.mem_toList, Std.ExtTreeSet.mem_ofList, List.contains_iff_mem]
  refine List.mem_map_of_mem (List.mem_filter.mpr ⟨Std.ExtTreeMap.mem_keys.mpr h, ?_⟩)
  rw [Bool.not_eq_true', ← Bool.not_eq_true, Std.ExtTreeMap.contains_iff_mem]
  exact hnew

/-- The entries of the first read. -/
def firstRead (ask : ℕ → Answers) : List Message := asked (ask 0) fullFilters

/-- The entries of the first read and of the confirming reads. -/
def bothReads (ask : ℕ → Answers) (fs : List Filter) : List Message :=
  firstRead ask ++ asked (ask 1) fs

/-- The confirming reads that are made, one kind after the other: each depends on what the
reads before it left missing. -/
structure Stages (now : ℕ) (scope : Scope) (ask : ℕ → Answers) (old new : System)
    (routes rules nexthops addresses : List Filter) : Prop where
  answered : ∀ f ∈ routes ++ rules ++ nexthops ++ addresses, (ask 1 f).isSome
  new_eq : new = (viewOf now scope
    (bothReads ask (routes ++ rules ++ nexthops ++ addresses))).keepExpiries now old
  routes_eq : routes =
    (missingTables old (viewOf now scope (firstRead ask))).map Filter.ofTable
  rules_eq : rules = confirmFilters (old.rules.any fun o =>
    !(viewOf now scope (bothReads ask routes)).rules.any fun n =>
      n.message = o.message) (Family.all.map .rules)
  nexthops_eq : nexthops = confirmFilters (old.nexthops.keys.any fun id =>
    !(viewOf now scope (bothReads ask (routes ++ rules))).nexthops.contains id)
    [.nexthops]
  addresses_eq : addresses = confirmFilters (old.addresses.keys.any fun k =>
    !(viewOf now scope (bothReads ask (routes ++ rules ++ nexthops))).addresses.contains k)
    (Family.all.map .addresses)

theorem stages_of_resync {v : DumpedView} (h : resync now scope old ask = some v) :
    ∃ routes rules nexthops addresses,
      Stages now scope ask old v.system routes rules nexthops addresses := by
  simp only [resync, Option.bind_eq_bind, Option.bind_eq_some_iff] at h
  obtain ⟨v₀, hfull, s₁, hroutes, s₂, hrules, v₃, hnexthops, v₄, haddresses, hv⟩ := h
  obtain rfl := Option.some.inj hv
  have hs₀ : v₀.system = viewOf now scope (firstRead ask) := full_eq hfull
  -- Each stage applies the entries of its dumps after those before.
  have hstage : ∀ fs gs : List Filter,
      (viewOf now scope (bothReads ask fs)).applyAll now scope (asked (ask 1) gs) =
        viewOf now scope (bothReads ask (fs ++ gs)) := by
    intro fs gs
    rw [bothReads, bothReads, asked_append, ← List.append_assoc]
    exact (applyAll_append _ _ _).symm
  obtain ⟨hsome₁, hs₁⟩ := confirmRoutes_eq hroutes
  rw [hs₀] at hsome₁ hs₁
  have hs₁ : s₁ = viewOf now scope (bothReads ask _) :=
    hs₁.trans (applyAll_append _ _ _).symm
  obtain ⟨hsome₂, hs₂⟩ := confirmRules_eq hrules
  rw [hs₁] at hsome₂ hs₂
  rw [hstage] at hs₂
  obtain ⟨hsome₃, hs₃⟩ := confirmNexthops_eq hnexthops
  simp only [hs₂] at hsome₃ hs₃
  rw [hstage] at hs₃
  obtain ⟨hsome₄, hs₄⟩ := confirmAddresses_eq haddresses
  rw [hs₃] at hsome₄ hs₄
  rw [hstage] at hs₄
  refine ⟨_, _, _, _, ?_, congrArg (fun s => s.keepExpiries now old) hs₄, rfl, rfl, rfl, rfl⟩
  simp only [List.forall_mem_append]
  exact ⟨⟨⟨hsome₁, hsome₂⟩, hsome₃⟩, hsome₄⟩

theorem getElem?_keepExpiries (s : System) (κ : RouteKey) :
    (s.keepExpiries now old).routes[κ]? = s.routes[κ]?.map fun r =>
      keepExpiry now (old.routes[κ]?.bind ObservedRoute.expiresAt) r := by
  rw [System.keepExpiries, Std.ExtTreeMap.getElem?_map]

/-- What is told nowhere in a list is told nowhere in its parts. -/
theorem lastTold_append_eq_none {γ : Type} {tells : Message → Option γ} {ms ms' : List Message}
    (h : Lib.lastTold tells (ms ++ ms') = none) :
    (∀ m ∈ ms, tells m = none) ∧ ∀ m ∈ ms', tells m = none :=
  List.forall_mem_append.mp (Lib.lastTold_eq_none.mp h)

theorem mem_confirmFilters {missing : Bool} {fs : List Filter} (h : missing = true) {f : Filter}
    (hf : f ∈ fs) : f ∈ confirmFilters missing fs := by
  rw [confirmFilters, if_pos h]
  exact hf

theorem reads_listed (fs : List Filter) : ∀ m ∈ bothReads ask fs, m.Listed :=
  List.forall_mem_append.mpr ⟨asked_listed _, asked_listed fs⟩

/-- The reads of a stage are among those of all stages. -/
theorem lastTold_stage {γ : Type} {tells : Message → Option γ} {fs all : List Filter}
    (hfs : fs <+: all) (hnone : Lib.lastTold tells (bothReads ask all) = none) :
    Lib.lastTold tells (bothReads ask fs) = none := by
  obtain ⟨gs, rfl⟩ := hfs
  obtain ⟨hnone₁, hnone₂⟩ := lastTold_append_eq_none hnone
  rw [asked_append] at hnone₂
  exact Lib.lastTold_eq_none.mpr
    (List.forall_mem_append.mpr ⟨hnone₁, (List.forall_mem_append.mp hnone₂).1⟩)

namespace Stages

variable {new : System} {routes rules nexthops addresses : List Filter}
  (h : Stages now scope ask old new routes rules nexthops addresses)
include h

theorem route_read {κ : RouteKey} {r : ObservedRoute}
    (hr : Lib.lastTold (tellsRoute now scope κ)
      (bothReads ask (routes ++ rules ++ nexthops ++ addresses)) = some r) :
    ∃ v, new.routes[κ]? = some v ∧ v.Shows now r := by
  obtain ⟨o, ho, hshows⟩ := (viewOf_route (reads_listed _)).1 r hr
  rw [h.new_eq, getElem?_keepExpiries, ho]
  exact ⟨_, rfl, hshows.keepExpiry _⟩

theorem rule_read {o : ObservedRule} (ho : o.Parsed) {r : ObservedRule}
    (hr : Lib.lastTold (tellsRule o)
      (bothReads ask (routes ++ rules ++ nexthops ++ addresses)) = some r) :
    r ∈ new.rules ∧ sameRule r o = true := by
  rw [h.new_eq]
  exact (viewOf_rule (reads_listed _) ho).1 r hr

theorem address_read {k : AddressKey} {a : ObservedAddress}
    (ha : Lib.lastTold (tellsAddress k)
      (bothReads ask (routes ++ rules ++ nexthops ++ addresses)) = some a) :
    new.addresses[k]? = some a := by
  rw [h.new_eq]
  exact (viewOf_address (reads_listed _)).1 a ha

theorem nexthop_read {id : ℕ} {n : NexthopMessage}
    (hn : Lib.lastTold (tellsNexthop id)
      (bothReads ask (routes ++ rules ++ nexthops ++ addresses)) = some n) :
    new.nexthops[id]? = some n := by
  rw [h.new_eq]
  exact (viewOf_nexthop (reads_listed _)).1 n hn

theorem route_confirmed {κ : RouteKey} (hκ : κ ∈ old.routes)
    (hnone : Lib.lastTold (tellsRoute now scope κ)
      (bothReads ask (routes ++ rules ++ nexthops ++ addresses)) = none) :
    Filter.ofTable κ.tableKey ∈ routes := by
  have hnone₁ := (lastTold_append_eq_none hnone).1
  have habsent := (viewOf_route (asked_listed _)).2 (Lib.lastTold_eq_none.mpr hnone₁)
  rw [h.routes_eq]
  exact List.mem_map_of_mem (mem_missingTables hκ habsent)

theorem rule_confirmed {o : ObservedRule} (hp : o.Parsed) (ho : o ∈ old.rules)
    (hnone : Lib.lastTold (tellsRule o)
      (bothReads ask (routes ++ rules ++ nexthops ++ addresses)) = none) (f : Family) :
    .rules f ∈ rules := by
  rw [h.rules_eq]
  refine mem_confirmFilters (any_missing_rule (reads_listed routes) hp ho (lastTold_stage ?_ hnone))
    (List.mem_map_of_mem (by cases f <;> decide))
  simp only [List.append_assoc]
  exact List.prefix_append _ _

theorem nexthop_confirmed {id : ℕ} (hid : id ∈ old.nexthops)
    (hnone : Lib.lastTold (tellsNexthop id)
      (bothReads ask (routes ++ rules ++ nexthops ++ addresses)) = none) :
    .nexthops ∈ nexthops := by
  have hprefix : routes ++ rules <+: routes ++ rules ++ nexthops ++ addresses := by
    rw [List.append_assoc (routes ++ rules)]
    exact List.prefix_append _ _
  rw [h.nexthops_eq]
  refine mem_confirmFilters (List.any_eq_true.mpr ⟨id, Std.ExtTreeMap.mem_keys.mpr hid, ?_⟩)
    (List.mem_singleton_self _)
  rw [Bool.not_eq_true', ← Bool.not_eq_true, Std.ExtTreeMap.contains_iff_mem]
  exact (viewOf_nexthop (reads_listed _)).2 (lastTold_stage hprefix hnone)

theorem address_confirmed {k : AddressKey} (hk : k ∈ old.addresses)
    (hnone : Lib.lastTold (tellsAddress k)
      (bothReads ask (routes ++ rules ++ nexthops ++ addresses)) = none) (f : Family) :
    .addresses f ∈ addresses := by
  rw [h.addresses_eq]
  refine mem_confirmFilters (List.any_eq_true.mpr ⟨k, Std.ExtTreeMap.mem_keys.mpr hk, ?_⟩)
    (List.mem_map_of_mem (by cases f <;> decide))
  rw [Bool.not_eq_true', ← Bool.not_eq_true, Std.ExtTreeMap.contains_iff_mem]
  exact (viewOf_address (reads_listed _)).2 (lastTold_stage (List.prefix_append _ _) hnone)

/-- **A resynchronisation confirms absences.** -/
theorem resynced (hold : ∀ o ∈ old.rules, o.Parsed) :
    Resynced now scope old new (firstRead ask) (routes ++ rules ++ nexthops ++ addresses)
      (asked (ask 1) (routes ++ rules ++ nexthops ++ addresses)) where
  route_read := fun κ r hr => h.route_read ((Lib.lastTold_append _ _ _).trans hr)
  rule_read := fun o ho r hr => (h.rule_read ho ((Lib.lastTold_append _ _ _).trans hr)).1
  address_read := fun k a ha => h.address_read ((Lib.lastTold_append _ _ _).trans ha)
  nexthop_read := fun id n hn => h.nexthop_read ((Lib.lastTold_append _ _ _).trans hn)
  route_dropped := by
    intro κ hκ hnew
    have hnone : Lib.lastTold (tellsRoute now scope κ)
        (bothReads ask (routes ++ rules ++ nexthops ++ addresses)) = none := by
      refine Option.eq_none_iff_forall_ne_some.mpr fun r hr => hnew ?_
      obtain ⟨v, hv, -⟩ := h.route_read hr
      exact Std.ExtTreeMap.mem_iff_isSome_getElem?.mpr (by simp [hv])
    have hmem := h.route_confirmed hκ hnone
    exact ⟨(lastTold_append_eq_none hnone).1, by simp [hmem], (lastTold_append_eq_none hnone).2⟩
  rule_dropped := by
    intro o ho hnew
    have hnone : Lib.lastTold (tellsRule o)
        (bothReads ask (routes ++ rules ++ nexthops ++ addresses)) = none := by
      refine Option.eq_none_iff_forall_ne_some.mpr fun r hr => ?_
      obtain ⟨hmem, hsame⟩ := h.rule_read (hold o ho) hr
      rw [hnew r hmem] at hsame
      cases hsame
    have hmem := h.rule_confirmed (hold o ho) ho hnone
    exact ⟨(lastTold_append_eq_none hnone).1, fun f => by simp [hmem f],
      (lastTold_append_eq_none hnone).2⟩
  nexthop_dropped := by
    intro id hid hnew
    have hnone : Lib.lastTold (tellsNexthop id)
        (bothReads ask (routes ++ rules ++ nexthops ++ addresses)) = none := by
      refine Option.eq_none_iff_forall_ne_some.mpr fun n hn => hnew ?_
      exact Std.ExtTreeMap.mem_iff_isSome_getElem?.mpr (by simp [h.nexthop_read hn])
    have hmem := h.nexthop_confirmed hid hnone
    exact ⟨(lastTold_append_eq_none hnone).1, by simp [hmem], (lastTold_append_eq_none hnone).2⟩
  address_dropped := by
    intro k hk hnew
    have hnone : Lib.lastTold (tellsAddress k)
        (bothReads ask (routes ++ rules ++ nexthops ++ addresses)) = none := by
      refine Option.eq_none_iff_forall_ne_some.mpr fun a ha => hnew ?_
      exact Std.ExtTreeMap.mem_iff_isSome_getElem?.mpr (by simp [h.address_read ha])
    have hmem := h.address_confirmed hk hnone
    exact ⟨(lastTold_append_eq_none hnone).1, fun f => by simp [hmem f],
      (lastTold_append_eq_none hnone).2⟩

end Stages

end Resync

/-! ## Re-reads -/

/-- What a re-read of tables guarantees: a route goes only when both reads of its table
lack it, the routes of the tables read are as the later read returned them, and nothing
else changes. -/
structure Reread (now : ℕ) (scope : Scope) (dumps : Dumps) (old new : System)
    (tables : List TableKey) : Prop where
  dropped : ∀ κ : RouteKey, κ ∈ old.routes → κ ∉ new.routes →
    ∃ first second, dumps κ.tableKey 0 = some first ∧ dumps κ.tableKey 1 = some second ∧
      ∀ m ∈ first ++ second, tellsRoute now scope κ (.route m) = none
  read : ∀ k ∈ readTables now scope dumps old tables,
    ∃ dump, readTable now scope dumps old k = some dump ∧
      ∀ κ : RouteKey, κ.tableKey = k → ∀ r,
        Lib.lastTold (fun m => tellsRoute now scope κ (.route m)) dump = some r →
          ∃ v, new.routes[κ]? = some v ∧ v.Shows now r
  others : ∀ κ : RouteKey, κ.tableKey ∉ tables → new.routes[κ]? = old.routes[κ]?
  frame : { new with routes := old.routes } = old

section Reread

variable {now : ℕ} {scope : Scope} {s : System} {k : TableKey} {κ : RouteKey}

/-- A route of the table that is read. -/
theorem decides_readRoute (hκ : κ.tableKey = k) :
    Lib.Decides (System.readRoute now scope s k) (fun _ => True) (fun _ => True)
      (fun routes => routes[κ]?) (fun m => tellsRoute now scope κ (.route m))
      (fun r x => x =
        some (keepExpiry now (s.routes[κ]?.bind ObservedRoute.expiresAt) r)) where
  keeps := fun _ _ _ _ => trivial
  silent := by
    intro routes m _ _ htells
    unfold System.readRoute
    split
    · next m =>
        split
        · next r hr =>
            split
            · next hread =>
                simp only [tellsRoute, hr, Option.filter_some] at htells
                have hkeeps : scope.keeps r = true := ((Bool.and_eq_true _ _).mp hread).2
                have hne : routeKey scope r ≠ κ := by simpa [hkeeps] using htells
                simp [Std.ExtTreeMap.getElem?_insert, hne]
            · rfl
        · rfl
    · rfl
  told := by
    intro routes m r _ _ htells
    cases m with
    | newRoute m =>
      obtain ⟨hr, hboth⟩ := Option.filter_eq_some_iff.mp htells
      obtain ⟨hkeeps, hkey⟩ := (Bool.and_eq_true _ _).mp hboth
      obtain rfl := of_decide_eq_true hkey
      have hread : (r.family = k.family && r.table = k.table && scope.keeps r) = true := by
        simp [← hκ, routeKey, RouteKey.tableKey, hkeeps]
      simp only [System.readRoute, hr, hread, if_true]
      simp
    | newLink _ | delLink _ | newAddress _ | delAddress _ | delRoute _ | newRule _ | delRule _
    | other _ => cases htells

theorem getElem?_replaceTable_of_ne (h : κ.tableKey ≠ k) (dump : List RouteNetlinkMessage) :
    (s.replaceTable now scope k dump).routes[κ]? = s.routes[κ]? := by
  suffices hread : ∀ routes : Std.ExtTreeMap RouteKey ObservedRoute,
      (dump.foldl (System.readRoute now scope s k) routes)[κ]? = routes[κ]? by
    rw [System.replaceTable, hread, Std.ExtTreeMap.getElem?_filter']
    cases s.routes[κ]? <;> simp [h]
  induction dump with
  | nil => exact fun _ => rfl
  | cons m dump ih =>
    intro routes
    rw [List.foldl_cons, ih]
    unfold System.readRoute
    split
    · split
      · next r _ =>
          split
          · next hread =>
              have hne : routeKey scope r ≠ κ := by
                rintro rfl
                simp only [Bool.and_eq_true, decide_eq_true_eq] at hread
                exact h (by rw [tableKey_routeKey, ObservedRoute.tableKey, hread.1.1, hread.1.2])
              simp [Std.ExtTreeMap.getElem?_insert, hne]
          · rfl
      · rfl
    · rfl

variable (hκ : κ.tableKey = k) {dump : List RouteNetlinkMessage}
include hκ

theorem getElem?_replaceTable_of_some {r : ObservedRoute}
    (h : Lib.lastTold (fun m => tellsRoute now scope κ (.route m)) dump = some r) :
    (s.replaceTable now scope k dump).routes[κ]? =
      some (keepExpiry now (s.routes[κ]?.bind ObservedRoute.expiresAt) r) :=
  (decides_readRoute hκ).foldl_of_some (fun _ _ => trivial) trivial h

theorem getElem?_replaceTable_of_none
    (h : Lib.lastTold (fun m => tellsRoute now scope κ (.route m)) dump = none) :
    (s.replaceTable now scope k dump).routes[κ]? = none := by
  refine ((decides_readRoute hκ).foldl_of_none (fun _ _ => trivial) trivial h).trans ?_
  rw [Std.ExtTreeMap.getElem?_filter']
  cases s.routes[κ]? <;> simp [hκ]

end Reread

section Tables

variable {now : ℕ} {scope : Scope} {dumps : Dumps}

/-- Whether a route is missing depends on the table alone. -/
theorem missing_congr {s s' : System} {k : TableKey}
    (h : ∀ κ : RouteKey, κ.tableKey = k → s'.routes[κ]? = s.routes[κ]?)
    (dump : List RouteNetlinkMessage) :
    missing now scope s' k dump = missing now scope s k dump := by
  have hmem : ∀ κ : RouteKey, κ.tableKey = k → (κ ∈ s'.routes ↔ κ ∈ s.routes) := by
    intro κ hκ
    rw [Std.ExtTreeMap.mem_iff_isSome_getElem?, Std.ExtTreeMap.mem_iff_isSome_getElem?, h κ hκ]
  unfold missing
  dsimp only
  rw [Bool.eq_iff_iff]
  simp only [List.any_eq_true, Std.ExtTreeMap.mem_keys, Bool.and_eq_true, decide_eq_true_eq]
  constructor
  · rintro ⟨κ, hκ, htable, hseen⟩
    exact ⟨κ, (hmem κ htable).mp hκ, htable, hseen⟩
  · rintro ⟨κ, hκ, htable, hseen⟩
    exact ⟨κ, (hmem κ htable).mpr hκ, htable, hseen⟩

theorem readTable_congr {s s' : System} {k : TableKey}
    (h : ∀ κ : RouteKey, κ.tableKey = k → s'.routes[κ]? = s.routes[κ]?) :
    readTable now scope dumps s' k = readTable now scope dumps s k := by
  unfold readTable
  split
  · rfl
  · rw [missing_congr h]

/-- A route that a table's reads lack, although the view held it, was looked for twice. -/
theorem readTable_of_dropped {s : System} {κ : RouteKey} (hκ : κ ∈ s.routes)
    {dump : List RouteNetlinkMessage} (hread : readTable now scope dumps s κ.tableKey = some dump)
    (hnone : Lib.lastTold (fun m => tellsRoute now scope κ (.route m)) dump = none) :
    ∃ first second, dumps κ.tableKey 0 = some first ∧ dumps κ.tableKey 1 = some second ∧
      ∀ m ∈ first ++ second, tellsRoute now scope κ (.route m) = none := by
  unfold readTable at hread
  split at hread
  · cases hread
  · next first hfirst =>
      split at hread
      · obtain ⟨second, hsecond, rfl⟩ := Option.map_eq_some_iff.mp hread
        exact ⟨first, second, hfirst, hsecond, Lib.lastTold_eq_none.mp hnone⟩
      · next hmissing =>
          obtain rfl := Option.some.inj hread
          -- The first read lacks the route, so a second one is made.
          refine absurd (List.any_eq_true.mpr ⟨κ, Std.ExtTreeMap.mem_keys.mpr hκ, ?_⟩) hmissing
          have habsent := getElem?_replaceTable_of_none (s := {}) rfl hnone
          have hseen : (({} : System).replaceTable now scope κ.tableKey first).routes.contains κ =
              false := by
            rw [← Bool.not_eq_true, Std.ExtTreeMap.contains_iff_mem,
              Std.ExtTreeMap.mem_iff_isSome_getElem?, habsent]
            simp
          simp [hseen]

/-- **A re-read confirms absences and leaves everything else alone.** -/
theorem reread_spec {tables : List TableKey} (hnodup : tables.Nodup) (s : System) :
    Reread now scope dumps s (reread now scope dumps s tables).1 tables := by
  induction tables generalizing s with
  | nil =>
    exact ⟨fun κ hκ hnew => absurd hκ hnew, by simp [readTables], fun _ _ => rfl, rfl⟩
  | cons k tables ih =>
    obtain ⟨hk, hnodup⟩ := List.nodup_cons.mp hnodup
    rw [reread]
    cases hread : readTable now scope dumps s k with
    | none =>
      exact ⟨fun κ hκ hnew => absurd hκ hnew, by simp [readTables, hread], fun _ _ => rfl, rfl⟩
    | some dump =>
      dsimp only
      -- The tables after this one find their routes as they were.
      have hrest := ih hnodup (s.replaceTable now scope k dump)
      have hother : ∀ κ : RouteKey, κ.tableKey ≠ k →
          (s.replaceTable now scope k dump).routes[κ]? = s.routes[κ]? :=
        fun κ hκ => getElem?_replaceTable_of_ne hκ dump
      have hown : ∀ κ : RouteKey, κ.tableKey = k →
          (reread now scope dumps (s.replaceTable now scope k dump) tables).1.routes[κ]? =
            (s.replaceTable now scope k dump).routes[κ]? :=
        fun κ hκ => hrest.others κ (hκ ▸ hk)
      refine ⟨?_, ?_, ?_, ?_⟩
      · intro κ hκ hnew
        by_cases htable : κ.tableKey = k
        · subst htable
          refine readTable_of_dropped hκ hread (Option.eq_none_iff_forall_ne_some.mpr ?_)
          intro r hr
          refine hnew (Std.ExtTreeMap.mem_iff_isSome_getElem?.mpr ?_)
          rw [hown κ rfl, getElem?_replaceTable_of_some rfl hr]
          rfl
        · refine hrest.dropped κ ?_ hnew
          rw [Std.ExtTreeMap.mem_iff_isSome_getElem?, hother κ htable]
          exact Std.ExtTreeMap.mem_iff_isSome_getElem?.mp hκ
      · intro k' hk'
        rw [readTables, hread] at hk'
        rcases List.mem_cons.mp hk' with rfl | hk'
        · refine ⟨dump, hread, fun κ hκ r hr => ?_⟩
          rw [hown κ hκ, getElem?_replaceTable_of_some hκ hr]
          exact ⟨_, rfl, shows_keepExpiry (Nat.le_refl now) _ r⟩
        · obtain ⟨dump', hdump', hall⟩ := hrest.read k' hk'
          refine ⟨dump', ?_, hall⟩
          rw [← hdump']
          have hne : k' ≠ k := by
            rintro rfl
            exact hk (readTables_subset hk')
          exact (readTable_congr fun κ hκ => hother κ (hκ ▸ hne)).symm
      · intro κ hκ
        rw [List.mem_cons, not_or] at hκ
        obtain ⟨hne, hnot⟩ := hκ
        rw [hrest.others κ hnot, hother κ hne]
      · exact congrArg (fun t : System => { t with routes := s.routes }) hrest.frame

end Tables

end Polywan
