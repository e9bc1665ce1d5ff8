import Polywan.Lib.Agree
import Polywan.Lib.Until
import Polywan.System

/-!
# Replaying notifications

A message overwrites part of the view: a link, an address, a route, the rules of one identity.
Deleting a link overwrites its addresses too, and a route may take over the expiry known
before.  What a message overwrites does not depend on the view, so that messages that come
again change nothing.

## Main definitions

* `System.Footprint`, `System.footprint` — what a message overwrites.
* `System.Same` — views that differ there only.
* `System.Represented` — every entry stands under its identity.

## Main results

* `System.Same.keep` — messages keep the parts that agree.
* `System.replay_harmless` — replays, and the representation of every view.
-/

namespace Polywan.System

open Lib

/-! ## Footprints -/

/-- The expiry that a route without one takes over. -/
def inherited (now : ℕ) (old : Option ObservedRoute) : Option ℕ :=
  (old.bind ObservedRoute.expiresAt).filter (· ≤ now + 1000000000)

theorem keepExpiry_inherited (now : ℕ) (old : Option ObservedRoute) (r : ObservedRoute) :
    keepExpiry now (old.bind ObservedRoute.expiresAt) r =
      { r with expiresAt := r.expiresAt.or (inherited now old) } := by
  obtain ⟨family, table, protocol, metric, destination, kind, source, nexthops, nexthopId,
    preference, expiresAt⟩ := r
  cases expiresAt with
  | some t => rfl
  | none =>
    simp only [keepExpiry, inherited, Option.none_or]
    cases old.bind ObservedRoute.expiresAt with
    | none => rfl
    | some t =>
      rw [Option.filter_some]
      simp only [decide_eq_true_eq]
      split <;> rfl

/-- A part of the view. -/
structure Footprint where
  link : ℕ → Bool := fun _ => false
  address : AddressKey → Bool := fun _ => false
  route : RouteKey → Bool := fun _ => false
  /-- The expiry known before is taken over. -/
  inherits : Bool := false
  rule : ObservedRule → Bool := fun _ => false
  nexthop : ℕ → Bool := fun _ => false

/-- What a message overwrites. -/
def footprint (now : ℕ) (scope : Scope) : Message → Footprint
  | .route (.newLink m) =>
    (ObservedLink.parse m).elim {} fun l => { link := fun i => i = l.index }
  | .route (.delLink m) =>
    { link := fun i => i = m.index, address := fun k => k.index = m.index }
  | .route (.newAddress m) =>
    (ObservedAddress.parse m).elim {} fun a => { address := fun k => k = ⟨a.index, a.address⟩ }
  | .route (.delAddress m) =>
    (ObservedAddress.parse m).elim {} fun a => { address := fun k => k = ⟨a.index, a.address⟩ }
  | .route (.newRoute m) =>
    (ObservedRoute.parse now m).elim {} fun r =>
      if scope.keeps r then
        { route := fun k => k = routeKey scope r, inherits := r.expiresAt.isNone }
      else {}
  | .route (.delRoute m) =>
    (ObservedRoute.parse now m).elim {} fun r =>
      if scope.keeps r then { route := fun k => k = routeKey scope r } else {}
  | .route (.newRule m) =>
    (ObservedRule.parse m).elim {} fun r => { rule := fun o => sameRule o r }
  | .route (.delRule m) =>
    (ObservedRule.parse m).elim {} fun r => { rule := fun o => sameRule o r }
  | .newNexthop n => { nexthop := fun id => id = n.id }
  | .delNexthop n => { nexthop := fun id => id = n.id }
  | _ => {}

/-- Two views that differ in a part only. -/
structure Same (now : ℕ) (p : Footprint) (s s' : System) : Prop where
  links : ∀ i : ℕ, p.link i = false → s.links[i]? = s'.links[i]?
  addresses : ∀ k : AddressKey, p.address k = false → s.addresses[k]? = s'.addresses[k]?
  routes : ∀ k : RouteKey, p.route k = false → s.routes[k]? = s'.routes[k]?
  expiries : p.inherits = true → ∀ k : RouteKey, p.route k = true →
    inherited now s.routes[k]? = inherited now s'.routes[k]?
  rules : (s.rules.filter fun o => !p.rule o) = s'.rules.filter fun o => !p.rule o
  nexthops : ∀ id : ℕ, p.nexthop id = false → s.nexthops[id]? = s'.nexthops[id]?

variable {now : ℕ} {scope : Scope} {p : Footprint} {s s' : System}

theorem Same.refl (s : System) : Same now p s s :=
  ⟨fun _ _ => rfl, fun _ _ => rfl, fun _ _ => rfl, fun _ _ _ => rfl, rfl, fun _ _ => rfl⟩

section

variable (h : Same now p s s')

include h

theorem Same.links_eq (hp : p.link = fun _ => false) : s.links = s'.links :=
  Std.ExtTreeMap.ext_getElem? fun i => h.links i (congrFun hp i)

theorem Same.addresses_eq (hp : p.address = fun _ => false) : s.addresses = s'.addresses :=
  Std.ExtTreeMap.ext_getElem? fun k => h.addresses k (congrFun hp k)

theorem Same.routes_eq (hp : p.route = fun _ => false) : s.routes = s'.routes :=
  Std.ExtTreeMap.ext_getElem? fun k => h.routes k (congrFun hp k)

theorem Same.rules_eq (hp : p.rule = fun _ => false) : s.rules = s'.rules := by
  simpa [hp] using h.rules

theorem Same.nexthops_eq (hp : p.nexthop = fun _ => false) : s.nexthops = s'.nexthops :=
  Std.ExtTreeMap.ext_getElem? fun id => h.nexthops id (congrFun hp id)

end

/-! ## Messages -/

/-- The view after a message. -/
def next (now : ℕ) (scope : Scope) (s : System) (m : Message) : System :=
  (s.applyMessage now scope m).1

/-- The same address again is no exception. -/
theorem next_newAddress {m : AddressMessage} {a : ObservedAddress}
    (h : ObservedAddress.parse m = some a) :
    next now scope s (.route (.newAddress m)) =
      { s with addresses := s.addresses.insert ⟨a.index, a.address⟩ a } := by
  simp only [next, applyMessage, apply, h]
  split
  · next hsame =>
      have hinsert : s.addresses.insert ⟨a.index, a.address⟩ a = s.addresses := by
        apply Std.ExtTreeMap.ext_getElem?
        intro k
        rw [Std.ExtTreeMap.getElem?_insert]
        split
        · next heq =>
            rw [← Std.LawfulEqCmp.compare_eq_iff_eq.mp heq]
            exact hsame.symm
        · rfl
      rw [hinsert]
  · rfl

theorem next_newRoute {m : RouteMessage} {r : ObservedRoute}
    (h : ObservedRoute.parse now m = some r) :
    next now scope s (.route (.newRoute m)) =
      if scope.keeps r then
        { s with
          routes := s.routes.insert (routeKey scope r)
            ({ r with expiresAt := r.expiresAt.or (inherited now s.routes[routeKey scope r]?) }) }
      else s := by
  simp only [next, applyMessage, apply, h, applyRoute, keepExpiry_inherited]
  cases scope.keeps r <;> rfl

theorem next_delRoute {m : RouteMessage} {r : ObservedRoute}
    (h : ObservedRoute.parse now m = some r) :
    next now scope s (.route (.delRoute m)) =
      if scope.keeps r then { s with routes := s.routes.erase (routeKey scope r) } else s := by
  simp only [next, applyMessage, apply, h, applyRoute]
  cases scope.keeps r <;> rfl

/-- Rules of one identity are replaced in both views. -/
theorem Same.removeRule (h : Same now p s s') (r : ObservedRule) :
    Same now p (s.removeRule r) (s'.removeRule r) := by
  refine ⟨h.links, h.addresses, h.routes, h.expiries, ?_, h.nexthops⟩
  have hcomm : ∀ rules : List ObservedRule,
      ((rules.filter fun o => !sameRule o r).filter fun o => !p.rule o) =
        (rules.filter fun o => !p.rule o).filter fun o => !sameRule o r := by
    intro rules
    simp only [List.filter_filter, Bool.and_comm]
  simp only [System.removeRule, hcomm, h.rules]

theorem Same.addRule (h : Same now p s s') (r : ObservedRule) :
    Same now p (s.addRule r) (s'.addRule r) := by
  have hremoved := (h.removeRule r).rules
  simp only [System.removeRule] at hremoved
  refine ⟨h.links, h.addresses, h.routes, h.expiries, ?_, h.nexthops⟩
  simp only [System.addRule, List.filter_append, hremoved]

/-- A route is added to both views, and takes over what each knows. -/
theorem Same.insertRoute (h : Same now p s s') (r : ObservedRoute) (k : RouteKey) :
    Same now p
      { s with
        routes := s.routes.insert k
          ({ r with expiresAt := r.expiresAt.or (inherited now s.routes[k]?) }) }
      { s' with
        routes := s'.routes.insert k
          ({ r with expiresAt := r.expiresAt.or (inherited now s'.routes[k]?) }) } := by
  refine ⟨h.links, h.addresses, fun κ hκ => ?_, fun hinherits κ hκ => ?_, h.rules, h.nexthops⟩
  · simp only [Std.ExtTreeMap.getElem?_insert, Std.LawfulEqCmp.compare_eq_iff_eq]
    by_cases heq : k = κ
    · rw [if_pos heq, if_pos heq, heq, h.routes κ hκ]
    · rw [if_neg heq, if_neg heq, h.routes κ hκ]
  · simp only [Std.ExtTreeMap.getElem?_insert, Std.LawfulEqCmp.compare_eq_iff_eq]
    by_cases heq : k = κ
    · rw [if_pos heq, if_pos heq, heq, h.expiries hinherits κ hκ]
    · rw [if_neg heq, if_neg heq]
      exact h.expiries hinherits κ hκ

theorem Same.eraseRoute (h : Same now p s s') (k : RouteKey) :
    Same now p { s with routes := s.routes.erase k } { s' with routes := s'.routes.erase k } := by
  refine ⟨h.links, h.addresses, getElem?_erase_congr h.routes k, fun hinherits κ hκ => ?_, h.rules,
    h.nexthops⟩
  simp only [Std.ExtTreeMap.getElem?_erase, Std.LawfulEqCmp.compare_eq_iff_eq]
  by_cases heq : k = κ
  · rw [if_pos heq, if_pos heq]
  · rw [if_neg heq, if_neg heq]
    exact h.expiries hinherits κ hκ

/-- **Messages keep the parts that agree.** -/
theorem Same.keep (h : Same now p s s') (m : Message) :
    Same now p (next now scope s m) (next now scope s' m) := by
  cases m with
  | route m =>
    cases m with
    | newLink m =>
      simp only [next, applyMessage, apply]
      split
      · exact ⟨getElem?_insert_congr h.links _ _, h.addresses, h.routes, h.expiries, h.rules,
          h.nexthops⟩
      · exact h
    | delLink m =>
      refine ⟨getElem?_erase_congr h.links _, fun k hk => ?_, h.routes, h.expiries, h.rules,
        h.nexthops⟩
      simp only [next, applyMessage, apply, Std.ExtTreeMap.getElem?_filter',
        h.addresses k hk]
    | newAddress m =>
      cases hparse : ObservedAddress.parse m with
      | none =>
        simp only [next, applyMessage, apply, hparse]
        exact h
      | some a =>
        rw [next_newAddress hparse, next_newAddress hparse]
        exact ⟨h.links, getElem?_insert_congr h.addresses _ _, h.routes, h.expiries, h.rules,
          h.nexthops⟩
    | delAddress m =>
      simp only [next, applyMessage, apply]
      split
      · exact ⟨h.links, getElem?_erase_congr h.addresses _, h.routes, h.expiries, h.rules,
          h.nexthops⟩
      · exact h
    | newRoute m =>
      cases hparse : ObservedRoute.parse now m with
      | none =>
        simp only [next, applyMessage, apply, hparse]
        exact h
      | some r =>
        rw [next_newRoute hparse, next_newRoute hparse]
        split
        · exact h.insertRoute r _
        · exact h
    | delRoute m =>
      cases hparse : ObservedRoute.parse now m with
      | none =>
        simp only [next, applyMessage, apply, hparse]
        exact h
      | some r =>
        rw [next_delRoute hparse, next_delRoute hparse]
        split
        · exact h.eraseRoute _
        · exact h
    | newRule m =>
      simp only [next, applyMessage, apply]
      split
      · exact h.addRule _
      · exact h
    | delRule m =>
      simp only [next, applyMessage, apply]
      split
      · exact h.removeRule _
      · exact h
    | other n => exact h
  | newNexthop n =>
    exact ⟨h.links, h.addresses, h.routes, h.expiries, h.rules,
      getElem?_insert_congr h.nexthops _ _⟩
  | delNexthop n =>
    exact ⟨h.links, h.addresses, h.routes, h.expiries, h.rules,
      getElem?_erase_congr h.nexthops _⟩
  | getNexthops => exact h

/-- What is taken over once is taken over again. -/
theorem inherited_inherited (old : Option ObservedRoute) {r : ObservedRoute}
    (hr : r.expiresAt = none) :
    inherited now (some { r with expiresAt := r.expiresAt.or (inherited now old) }) =
      inherited now old := by
  simp only [hr, Option.none_or]
  simp [inherited, Option.filter_filter]

/-- A message changes only what it overwrites. -/
theorem same_next (s : System) (m : Message) :
    Same now (footprint now scope m) (next now scope s m) s := by
  cases m with
  | route m =>
    cases m with
    | newLink m =>
      simp only [next, applyMessage, apply, footprint]
      cases ObservedLink.parse m with
      | none => exact Same.refl s
      | some l =>
        exact { Same.refl s with links := getElem?_insert_of_out s.links _ _ }
    | delLink m =>
      refine { Same.refl s with
        links := getElem?_erase_of_out s.links _, addresses := fun k hk => ?_ }
      have hindex : k.index ≠ m.index := of_decide_eq_false hk
      simp only [next, applyMessage, apply, Std.ExtTreeMap.getElem?_filter']
      rw [decide_eq_true hindex]
      cases s.addresses[k]? <;> rfl
    | newAddress m =>
      cases hparse : ObservedAddress.parse m with
      | none =>
        simp only [next, applyMessage, apply, hparse]
        exact Same.refl s
      | some a =>
        rw [next_newAddress hparse]
        simp only [footprint, hparse]
        exact { Same.refl s with addresses := getElem?_insert_of_out s.addresses _ _ }
    | delAddress m =>
      simp only [next, applyMessage, apply, footprint]
      cases ObservedAddress.parse m with
      | none => exact Same.refl s
      | some a =>
        exact { Same.refl s with addresses := getElem?_erase_of_out s.addresses _ }
    | newRoute m =>
      cases hparse : ObservedRoute.parse now m with
      | none =>
        simp only [next, applyMessage, apply, hparse]
        exact Same.refl s
      | some r =>
        rw [next_newRoute hparse]
        simp only [footprint, hparse, Option.elim]
        split
        · refine ⟨fun _ _ => rfl, fun _ _ => rfl, getElem?_insert_of_out s.routes _ _,
            fun hinherits k hk => ?_, rfl, fun _ _ => rfl⟩
          rw [of_decide_eq_true hk, Std.ExtTreeMap.getElem?_insert_self]
          exact inherited_inherited _ (Option.isNone_iff_eq_none.mp hinherits)
        · exact Same.refl s
    | delRoute m =>
      cases hparse : ObservedRoute.parse now m with
      | none =>
        simp only [next, applyMessage, apply, hparse]
        exact Same.refl s
      | some r =>
        rw [next_delRoute hparse]
        simp only [footprint, hparse, Option.elim]
        split
        · exact ⟨fun _ _ => rfl, fun _ _ => rfl, getElem?_erase_of_out s.routes _,
            fun hinherits => absurd hinherits Bool.false_ne_true, rfl, fun _ _ => rfl⟩
        · exact Same.refl s
    | newRule m =>
      simp only [next, applyMessage, apply, footprint]
      cases ObservedRule.parse m with
      | none => exact Same.refl s
      | some r =>
        refine { Same.refl s with rules := ?_ }
        simp [addRule]
    | delRule m =>
      simp only [next, applyMessage, apply, footprint]
      cases ObservedRule.parse m with
      | none => exact Same.refl s
      | some r =>
        refine { Same.refl s with rules := ?_ }
        simp [removeRule]
    | other n => exact Same.refl s
  | newNexthop n =>
    exact { Same.refl s with nexthops := getElem?_insert_of_out s.nexthops _ _ }
  | delNexthop n =>
    exact { Same.refl s with nexthops := getElem?_erase_of_out s.nexthops _ }
  | getNexthops => exact Same.refl s

/-- Views that differ nowhere. -/
theorem Same.eq (h : Same now {} s s') : s = s' := by
  have hlinks := h.links_eq rfl
  have haddresses := h.addresses_eq rfl
  have hroutes := h.routes_eq rfl
  have hrules := h.rules_eq rfl
  have hnexthops := h.nexthops_eq rfl
  cases s
  cases s'
  simp_all

/-- What a message overwrites does not matter. -/
theorem next_congr {m : Message} (h : Same now (footprint now scope m) s s') :
    next now scope s m = next now scope s' m := by
  cases m with
  | route m =>
    cases m with
    | newLink m =>
      simp only [next, applyMessage, apply, footprint] at h ⊢
      cases hparse : ObservedLink.parse m with
      | none => exact (hparse ▸ h).eq
      | some l =>
        rw [hparse] at h
        simp only [h.addresses_eq rfl, h.routes_eq rfl, h.rules_eq rfl, h.nexthops_eq rfl,
          insert_eq_of_agree h.links l]
    | delLink m =>
      have haddresses : (s.addresses.filter fun k _ => k.index ≠ m.index) =
          s'.addresses.filter fun k _ => k.index ≠ m.index := by
        apply Std.ExtTreeMap.ext_getElem?
        intro k
        rw [Std.ExtTreeMap.getElem?_filter', Std.ExtTreeMap.getElem?_filter']
        by_cases hk : k.index = m.index
        · rw [Option.filter_eq_none_iff.mpr (by simp [hk]),
            Option.filter_eq_none_iff.mpr (by simp [hk])]
        · rw [h.addresses k (decide_eq_false hk)]
      simp only [next, applyMessage, apply, haddresses, h.routes_eq rfl, h.rules_eq rfl,
        h.nexthops_eq rfl, erase_eq_of_agree h.links]
    | newAddress m =>
      cases hparse : ObservedAddress.parse m with
      | none =>
        simp only [next, applyMessage, apply, footprint, hparse] at h ⊢
        exact h.eq
      | some a =>
        simp only [footprint, hparse] at h
        rw [next_newAddress hparse, next_newAddress hparse, h.links_eq rfl, h.routes_eq rfl,
          h.rules_eq rfl, h.nexthops_eq rfl, insert_eq_of_agree h.addresses a]
    | delAddress m =>
      simp only [next, applyMessage, apply, footprint] at h ⊢
      cases hparse : ObservedAddress.parse m with
      | none => exact (hparse ▸ h).eq
      | some a =>
        rw [hparse] at h
        simp only [h.links_eq rfl, h.routes_eq rfl, h.rules_eq rfl, h.nexthops_eq rfl,
          erase_eq_of_agree h.addresses]
    | newRoute m =>
      cases hparse : ObservedRoute.parse now m with
      | none =>
        simp only [next, applyMessage, apply, footprint, hparse] at h ⊢
        exact h.eq
      | some r =>
        simp only [footprint, hparse, Option.elim] at h
        rw [next_newRoute hparse, next_newRoute hparse]
        by_cases hkeeps : scope.keeps r = true
        · rw [if_pos hkeeps] at h ⊢
          rw [if_pos hkeeps]
          have hvalue : r.expiresAt.or (inherited now s.routes[routeKey scope r]?) =
              r.expiresAt.or (inherited now s'.routes[routeKey scope r]?) := by
            cases hexpires : r.expiresAt with
            | some t => rfl
            | none => rw [h.expiries (by rw [hexpires]; rfl) _ (decide_eq_true rfl)]
          rw [hvalue, h.links_eq rfl, h.addresses_eq rfl, h.rules_eq rfl, h.nexthops_eq rfl,
            insert_eq_of_agree h.routes]
        · rw [if_neg hkeeps] at h ⊢
          rw [if_neg hkeeps]
          exact h.eq
    | delRoute m =>
      cases hparse : ObservedRoute.parse now m with
      | none =>
        simp only [next, applyMessage, apply, footprint, hparse] at h ⊢
        exact h.eq
      | some r =>
        simp only [footprint, hparse, Option.elim] at h
        rw [next_delRoute hparse, next_delRoute hparse]
        by_cases hkeeps : scope.keeps r = true
        · rw [if_pos hkeeps] at h ⊢
          rw [if_pos hkeeps, h.links_eq rfl, h.addresses_eq rfl, h.rules_eq rfl,
            h.nexthops_eq rfl, erase_eq_of_agree h.routes]
        · rw [if_neg hkeeps] at h ⊢
          rw [if_neg hkeeps]
          exact h.eq
    | newRule m =>
      simp only [next, applyMessage, apply, footprint] at h ⊢
      cases hparse : ObservedRule.parse m with
      | none => exact (hparse ▸ h).eq
      | some r =>
        rw [hparse] at h
        have hrules : (s.rules.filter fun o => !sameRule o r) =
          s'.rules.filter fun o => !sameRule o r := h.rules
        simp only [addRule, h.links_eq rfl, h.addresses_eq rfl, h.routes_eq rfl, hrules,
          h.nexthops_eq rfl]
    | delRule m =>
      simp only [next, applyMessage, apply, footprint] at h ⊢
      cases hparse : ObservedRule.parse m with
      | none => exact (hparse ▸ h).eq
      | some r =>
        rw [hparse] at h
        have hrules : (s.rules.filter fun o => !sameRule o r) =
          s'.rules.filter fun o => !sameRule o r := h.rules
        simp only [removeRule, h.links_eq rfl, h.addresses_eq rfl, h.routes_eq rfl, hrules,
          h.nexthops_eq rfl]
    | other n => exact h.eq
  | newNexthop n =>
    simp only [next, applyMessage, h.links_eq rfl, h.addresses_eq rfl, h.routes_eq rfl,
      h.rules_eq rfl, insert_eq_of_agree h.nexthops n]
  | delNexthop n =>
    simp only [next, applyMessage, h.links_eq rfl, h.addresses_eq rfl, h.routes_eq rfl,
      h.rules_eq rfl, erase_eq_of_agree h.nexthops]
  | getNexthops => exact h.eq

/-- **Messages that come again change nothing.** -/
theorem foldl_next_replay (now : ℕ) (scope : Scope) (s : System) (l : List Message) :
    l.foldl (next now scope) (l.foldl (next now scope) s) = l.foldl (next now scope) s :=
  foldl_replay (R := fun m => Same now (footprint now scope m)) same_next
    (fun _ m _ _ h => h.keep m) (fun _ _ _ h => next_congr h) l s

/-! ## Representation -/

/-- Every entry stands under its identity, and every route is one that the scope keeps. -/
structure Represented (scope : Scope) (s : System) : Prop extends s.WellFormed scope where
  link_key : ∀ (i : ℕ) l, s.links[i]? = some l → l.index = i
  address_key : ∀ (k : AddressKey) a, s.addresses[k]? = some a → ⟨a.index, a.address⟩ = k
  nexthop_key : ∀ (id : ℕ) n, s.nexthops[id]? = some n → n.id = id
  kept : ∀ (k : RouteKey) r, s.routes[k]? = some r → scope.keeps r = true

theorem Represented.empty (scope : Scope) : ({} : System).Represented scope where
  toWellFormed := WellFormed.empty scope
  link_key := by simp
  address_key := by simp
  nexthop_key := by simp
  kept := by simp

/-- A change of the view: a message, or a table that is read again. -/
inductive Update where
  | message (m : Message)
  | table (k : TableKey) (dump : List RouteNetlinkMessage)

/-- The view after a change. -/
def update (scope : Scope) (s : System) : ℕ × Update → System
  | (now, .message m) => next now scope s m
  | (now, .table k dump) => s.replaceTable now scope k dump

/-- The view after a history. -/
def view (scope : Scope) (history : List (ℕ × Update)) : System :=
  history.foldl (update scope) {}

theorem view_concat (history : List (ℕ × Update)) (u : ℕ × Update) :
    view scope (history ++ [u]) = update scope (view scope history) u := by
  rw [view, List.foldl_concat, view]

/-- A message about an address, or about its link. -/
def Update.about (k : AddressKey) : Update → Bool
  | .message (.route (.newLink m)) => m.index = k.index
  | .message (.route (.delLink m)) => m.index = k.index
  | .message (.route (.newAddress m)) =>
    (ObservedAddress.parse m).any fun a => k = ⟨a.index, a.address⟩
  | .message (.route (.delAddress m)) =>
    (ObservedAddress.parse m).any fun a => k = ⟨a.index, a.address⟩
  | _ => false

/-- The last message about an address, or about its link. -/
def lastAbout (k : AddressKey) (history : List (ℕ × Update)) : Option Update :=
  (history.map Prod.snd).reverse.find? (Update.about k)

/-- **Every message keeps the representation.** -/
theorem Represented.next (h : s.Represented scope) (m : Message) :
    (System.next now scope s m).Represented scope := by
  have hwell : (System.next now scope s m).WellFormed scope := h.toWellFormed.applyMessage now m
  cases m with
  | route m =>
    cases m with
    | newLink m =>
      simp only [System.next, applyMessage, apply]
      split
      · exact { h with link_key := forall_insert h.link_key rfl }
      · exact h
    | delLink m =>
      refine { h with link_key := forall_erase h.link_key _, address_key := fun k a ha => ?_ }
      simp only [System.next, applyMessage, apply, Std.ExtTreeMap.getElem?_filter'] at ha
      exact h.address_key k a (Option.filter_eq_some_iff.mp ha).1
    | newAddress m =>
      cases hparse : ObservedAddress.parse m with
      | none =>
        simp only [System.next, applyMessage, apply, hparse]
        exact h
      | some a =>
        rw [next_newAddress hparse]
        exact { h with address_key := forall_insert h.address_key rfl }
    | delAddress m =>
      simp only [System.next, applyMessage, apply]
      split
      · exact { h with address_key := forall_erase h.address_key _ }
      · exact h
    | newRoute m =>
      cases hparse : ObservedRoute.parse now m with
      | none =>
        simp only [System.next, applyMessage, apply, hparse]
        exact h
      | some r =>
        rw [next_newRoute hparse] at hwell ⊢
        split
        · next hkeeps =>
            rw [if_pos hkeeps] at hwell
            exact ⟨hwell, h.link_key, h.address_key, h.nexthop_key,
              forall_insert h.kept hkeeps⟩
        · exact h
    | delRoute m =>
      cases hparse : ObservedRoute.parse now m with
      | none =>
        simp only [System.next, applyMessage, apply, hparse]
        exact h
      | some r =>
        rw [next_delRoute hparse] at hwell ⊢
        split
        · next hkeeps =>
            rw [if_pos hkeeps] at hwell
            exact ⟨hwell, h.link_key, h.address_key, h.nexthop_key, forall_erase h.kept _⟩
        · exact h
    | newRule m | delRule m =>
      simp only [System.next, applyMessage, apply] at hwell ⊢
      split
      · next hparse =>
          rw [hparse] at hwell
          exact ⟨hwell, h.link_key, h.address_key, h.nexthop_key, h.kept⟩
      · exact h
    | other n => exact h
  | newNexthop n => exact { h with nexthop_key := forall_insert h.nexthop_key rfl }
  | delNexthop n => exact { h with nexthop_key := forall_erase h.nexthop_key _ }
  | getNexthops => exact h

/-- The routes of a dump that are read are kept ones. -/
theorem kept_readRoute {routes : Std.ExtTreeMap RouteKey ObservedRoute} (k : TableKey)
    (h : ∀ (κ : RouteKey) r, routes[κ]? = some r → scope.keeps r = true)
    (m : RouteNetlinkMessage) (κ : RouteKey) (r : ObservedRoute)
    (hr : (readRoute now scope s k routes m)[κ]? = some r) : scope.keeps r = true := by
  unfold readRoute at hr
  split at hr
  · split at hr
    · next o _ =>
        split at hr
        · next hread =>
            rw [keepExpiry_inherited] at hr
            refine forall_insert (P := fun _ r => scope.keeps r = true) h ?_ κ r hr
            exact (Bool.and_eq_true_iff.mp hread).2
        · exact h κ r hr
    · exact h κ r hr
  · exact h κ r hr

/-- A re-read keeps the representation. -/
theorem Represented.replaceTable (h : s.Represented scope) (k : TableKey)
    (dump : List RouteNetlinkMessage) : (s.replaceTable now scope k dump).Represented scope := by
  refine ⟨h.toWellFormed.replaceTable now k dump, h.link_key, h.address_key, h.nexthop_key, ?_⟩
  have hdump : ∀ routes : Std.ExtTreeMap RouteKey ObservedRoute,
      (∀ (κ : RouteKey) r, routes[κ]? = some r → scope.keeps r = true) →
      ∀ (κ : RouteKey) r, (dump.foldl (readRoute now scope s k) routes)[κ]? = some r →
        scope.keeps r = true := by
    induction dump with
    | nil => exact fun routes hroutes => hroutes
    | cons m dump ih => exact fun routes hroutes => ih _ (kept_readRoute k hroutes m)
  refine hdump _ fun κ r hr => h.kept κ r ?_
  rw [Std.ExtTreeMap.getElem?_filter'] at hr
  exact (Option.filter_eq_some_iff.mp hr).1

theorem Represented.update (h : s.Represented scope) (u : ℕ × Update) :
    (System.update scope s u).Represented scope := by
  obtain ⟨now, u⟩ := u
  cases u with
  | message m => exact h.next m
  | table k dump => exact h.replaceTable k dump

/-! ## Addresses of deleted links -/

/-- What is not about an address leaves it alone. -/
theorem address_update_of_not_about {k : AddressKey} {u : Update} (hu : u.about k = false) :
    (update scope s (now, u)).addresses[k]? = s.addresses[k]? := by
  cases u with
  | table κ dump => rfl
  | message m =>
    -- The footprint of a message that is not about an address leaves it out.
    refine (same_next s m).addresses k ?_
    cases m with
    | route m =>
      cases m with
      | delLink m =>
        have hindex : m.index ≠ k.index := of_decide_eq_false hu
        exact decide_eq_false (Ne.symm hindex)
      | newAddress m | delAddress m =>
        simp only [Update.about, footprint] at hu ⊢
        cases hparse : ObservedAddress.parse m with
        | none => rfl
        | some a =>
          rw [hparse] at hu
          exact hu
      | newLink m =>
        simp only [footprint]
        cases ObservedLink.parse m <;> rfl
      | newRoute m | delRoute m =>
        simp only [footprint]
        cases ObservedRoute.parse now m with
        | none => rfl
        | some r =>
          simp only [Option.elim]
          split <;> rfl
      | newRule m | delRule m =>
        simp only [footprint]
        cases ObservedRule.parse m <;> rfl
      | other n => rfl
    | newNexthop n | delNexthop n => rfl
    | getNexthops => rfl

/-- An address is not one of a link that is gone. -/
theorem lastAbout_ne_delLink (history : List (ℕ × Update)) (k : AddressKey) (a : ObservedAddress)
    (ha : (view scope history).addresses[k]? = some a) (m : LinkMessage) :
    lastAbout k history ≠ some (.message (.route (.delLink m))) := by
  induction history using List.reverseRecOn with
  | nil => simp [lastAbout]
  | append_singleton history u ih =>
    obtain ⟨now, u⟩ := u
    rw [view_concat] at ha
    have hlast : lastAbout k (history ++ [(now, u)]) =
        if u.about k then some u else lastAbout k history := by
      simp only [lastAbout, List.map_append, List.reverse_append, List.map_cons, List.map_nil,
        List.reverse_singleton, List.singleton_append, List.find?_cons]
      cases u.about k <;> rfl
    rw [hlast]
    by_cases hu : u.about k = true
    · rw [if_pos hu]
      intro heq
      obtain rfl := Option.some.inj heq
      -- The deletion of the link takes its addresses along.
      have hindex : m.index = k.index := of_decide_eq_true hu
      simp only [update, next, applyMessage, apply, Std.ExtTreeMap.getElem?_filter'] at ha
      obtain ⟨-, hother⟩ := Option.filter_eq_some_iff.mp ha
      exact of_decide_eq_true hother hindex.symm
    · rw [if_neg hu]
      rw [address_update_of_not_about (Bool.eq_false_iff.mpr hu)] at ha
      exact ih ha

/-- **Replaying notifications is harmless**, and the view keeps its representation. -/
theorem replay_harmless (scope : Scope) (history : List (ℕ × Update)) :
    (∀ (now : ℕ) (l : List Message),
      (l ++ l).foldl (next now scope) (view scope history) =
        l.foldl (next now scope) (view scope history)) ∧
    (view scope history).Represented scope ∧
    ∀ (k : AddressKey) a, (view scope history).addresses[k]? = some a →
      ∀ m, lastAbout k history ≠ some (.message (.route (.delLink m))) := by
  refine ⟨fun now l => ?_, ?_, lastAbout_ne_delLink history⟩
  · rw [List.foldl_append]
    exact foldl_next_replay now scope _ l
  · induction history using List.reverseRecOn with
    | nil => exact Represented.empty scope
    | append_singleton history u ih =>
      rw [view_concat]
      exact ih.update u

end Polywan.System
