import Polywan.Netlink.Msg

/-!
# The observed system

Links, addresses, routes and rules as the kernel reports them through dumps and
notifications.  The current instant is an argument wherever the source reads the
clock.

## Main definitions

* `RouteKey`, `routeKey` — a route's identity in the view.
* `Scope` — which routes the view keeps.
* `System.apply` — a dumped or notified message.
* `System.WellFormed` — what every view built from messages satisfies; a `View` is
  a system that carries it.
-/

namespace Polywan

/-- The next-hop part of a route's identity. -/
inductive Via where
  /-- The program's tables hold one route each. -/
  | table
  | object (id : ℕ)
  | hop (ifindex : ℕ) (gateway : Option IpAddr)
  /-- Several next hops, or none. -/
  | other

namespace Via

def index : Via → ℕ ×ₗ ℕ ×ₗ WithBot IpAddr
  | table => toLex (0, toLex (0, ⊥))
  | object id => toLex (1, toLex (id, ⊥))
  | hop ifindex gateway => toLex (2, toLex (ifindex, noneFirst gateway))
  | other => toLex (3, toLex (0, ⊥))

theorem index_injective : Function.Injective index := by
  intro a b h
  cases a <;> cases b <;> simp_all [index]

instance : LinearOrder Via := LinearOrder.lift' index index_injective

end Via

/-- A route's identity in the kernel. -/
@[ext] structure RouteKey where
  family : Family
  table : ℕ
  destination : Option (IpAddr × ℕ)
  metric : ℕ
  via : Via

namespace RouteKey

def index (k : RouteKey) : Family ×ₗ ℕ ×ₗ WithBot (IpAddr ×ₗ ℕ) ×ₗ ℕ ×ₗ Via :=
  toLex (k.family, toLex (k.table,
    toLex (noneFirst (k.destination.map toLex), toLex (k.metric, k.via))))

theorem index_injective : Function.Injective index := by
  rintro ⟨f, t, d, m, v⟩ ⟨f', t', d', m', v'⟩ h
  simp only [index, toLex_inj, Prod.mk.injEq, noneFirst_inj] at h
  obtain ⟨rfl, rfl, hd, rfl, rfl⟩ := h
  obtain rfl := Option.map_injective toLex.injective hd
  rfl

instance : LinearOrder RouteKey := LinearOrder.lift' index index_injective

instance : Std.TransCmp (compare : RouteKey → RouteKey → Ordering) := inferInstance

/-- The table of a route. -/
def tableKey (k : RouteKey) : TableKey := ⟨k.family, k.table⟩

end RouteKey

/-- An interface and an address on it. -/
structure AddressKey where
  index : ℕ
  address : IpAddr

namespace AddressKey

def lex (k : AddressKey) : ℕ ×ₗ IpAddr := toLex (k.index, k.address)

theorem lex_injective : Function.Injective lex := by
  rintro ⟨i, a⟩ ⟨j, b⟩ h
  simpa [lex] using h

instance : LinearOrder AddressKey := LinearOrder.lift' lex lex_injective

instance : Std.TransCmp (compare : AddressKey → AddressKey → Ordering) := inferInstance

end AddressKey

/-- Which routes the view keeps. -/
structure Scope where
  /-- The program's table ranges, first to last. -/
  polywanTables : List (ℕ × ℕ)
  discoveryTables : List ℕ
deriving DecidableEq

namespace Scope

/-- The routes a daemon with this configuration keeps. -/
def of (c : Config) : Scope where
  polywanTables := [(c.routing.tableBase, c.routing.tableBase + 191)]
  discoveryTables := c.routing.discoveryTables

def isPolywan (s : Scope) (table : ℕ) : Bool :=
  s.polywanTables.any fun t => t.1 ≤ table && table ≤ t.2

def keeps (s : Scope) (r : ObservedRoute) : Bool :=
  s.isPolywan r.table
    || (r.isDefault && s.discoveryTables.contains r.table)
    || (r.table = tableMain && !r.isDefault && r.nexthops.all fun h => h.gateway.isNone)

end Scope

/-- A nexthop object. -/
structure NexthopMessage where
  id : ℕ
  /-- The members of a group; empty for a single object. -/
  group : List ℕ
  blackhole : Bool
  fdb : Bool
  ifindex : Option ℕ
  gateway : Option IpAddr
  onlink : Bool
  dead : Bool
  linkdown : Bool
deriving DecidableEq

/-- A route netlink message. -/
inductive RouteNetlinkMessage where
  | newLink (m : LinkMessage)
  | delLink (m : LinkMessage)
  | newAddress (m : AddressMessage)
  | delAddress (m : AddressMessage)
  | newRoute (m : RouteMessage)
  | delRoute (m : RouteMessage)
  | newRule (m : RuleMessage)
  | delRule (m : RuleMessage)
  | other (n : ℕ)
deriving DecidableEq

/-- A route netlink message or a change of a nexthop object. -/
inductive Message where
  | route (m : RouteNetlinkMessage)
  | newNexthop (m : NexthopMessage)
  | delNexthop (m : NexthopMessage)
  | getNexthops
deriving DecidableEq

/-- The view. -/
structure System where
  links : Std.ExtTreeMap ℕ ObservedLink := ∅
  addresses : Std.ExtTreeMap AddressKey ObservedAddress := ∅
  routes : Std.ExtTreeMap RouteKey ObservedRoute := ∅
  rules : List ObservedRule := []
  nexthops : Std.ExtTreeMap ℕ NexthopMessage := ∅
deriving DecidableEq

/-- What a notification changed. -/
inductive Change where
  | link (index : ℕ)
  | address (index : ℕ)
  | route (family : Family) (table : ℕ) (removed : Bool)
  | rule (family : Family) (removed : Bool)
  | nexthop (removed : Bool)
  | none
deriving DecidableEq

def routeKey (scope : Scope) (r : ObservedRoute) : RouteKey where
  family := r.family
  table := r.table
  destination := r.destination
  metric := r.metric
  via :=
    if scope.isPolywan r.table then .table
    else match r.nexthopId, r.nexthops with
      | some id, _ => .object id
      | none, [h] => .hop h.ifindex h.gateway
      | none, _ => .other

/-- A route read again within a second of the expiry already known keeps it. -/
def keepExpiry (now : ℕ) (old : Option ℕ) (new : ObservedRoute) : ObservedRoute :=
  match new.expiresAt, old with
  | none, some t => if t ≤ now + 1000000000 then { new with expiresAt := some t } else new
  | _, _ => new

/-- Rule identity: the fields the program's rules use, plus the protocol; rules with
other selectors are compared by their whole message. -/
def sameRule (a b : ObservedRule) : Bool :=
  if a.foreignSelectors || b.foreignSelectors then a.message = b.message
  else
    a.family = b.family && a.priority = b.priority && a.protocol = b.protocol
      && a.fwmark = b.fwmark && a.source = b.source && a.action = b.action

namespace System

def linkByName (s : System) (name : String) : Option ObservedLink :=
  (s.links.toList.map Prod.snd).find? fun l => l.name = name

/-- A parsed route, dumped or notified: an addition, or a deletion. -/
def applyRoute (now : ℕ) (scope : Scope) (s : System) (r : ObservedRoute) (deleted : Bool) :
    System × Change :=
  if !scope.keeps r then (s, .none)
  else
    let key := routeKey scope r
    let routes :=
      if deleted then s.routes.erase key
      else s.routes.insert key (keepExpiry now (s.routes[key]?.bind ObservedRoute.expiresAt) r)
    ({ s with routes }, .route r.family r.table deleted)

/-- One entry per identity, whatever the message it came from. -/
def addRule (s : System) (r : ObservedRule) : System :=
  { s with rules := s.rules.filter (fun o => !sameRule o r) ++ [r] }

def removeRule (s : System) (r : ObservedRule) : System :=
  { s with rules := s.rules.filter fun o => !sameRule o r }

/-- A dumped or notified route netlink message. -/
def apply (now : ℕ) (scope : Scope) (s : System) : RouteNetlinkMessage → System × Change
  | .newLink m =>
    match ObservedLink.parse m with
    | some l => ({ s with links := s.links.insert l.index l }, .link l.index)
    | none => (s, .none)
  | .delLink m =>
    ({ s with links := s.links.erase m.index,
              addresses := s.addresses.filter fun k _ => k.index ≠ m.index }, .link m.index)
  | .newAddress m =>
    match ObservedAddress.parse m with
    | some a =>
      -- The same address again: nothing that is observed changed.
      if s.addresses[(⟨a.index, a.address⟩ : AddressKey)]? = some a then (s, .none)
      else ({ s with addresses := s.addresses.insert ⟨a.index, a.address⟩ a }, .address a.index)
    | none => (s, .none)
  | .delAddress m =>
    match ObservedAddress.parse m with
    | some a => ({ s with addresses := s.addresses.erase ⟨a.index, a.address⟩ }, .address a.index)
    | none => (s, .none)
  | .newRoute m =>
    match ObservedRoute.parse now m with
    | some r => s.applyRoute now scope r false
    | none => (s, .none)
  | .delRoute m =>
    match ObservedRoute.parse now m with
    | some r => s.applyRoute now scope r true
    | none => (s, .none)
  | .newRule m =>
    match ObservedRule.parse m with
    | some r => (s.addRule r, .rule r.family false)
    | none => (s, .none)
  | .delRule m =>
    match ObservedRule.parse m with
    | some r => (s.removeRule r, .rule r.family true)
    | none => (s, .none)
  | .other _ => (s, .none)

/-- A dumped or notified message, nexthop objects included. -/
def applyMessage (now : ℕ) (scope : Scope) (s : System) : Message → System × Change
  | .route m => s.apply now scope m
  | .newNexthop n => ({ s with nexthops := s.nexthops.insert n.id n }, .nexthop false)
  | .delNexthop n => ({ s with nexthops := s.nexthops.erase n.id }, .nexthop true)
  | .getNexthops => (s, .none)

/-- The routes of a table. -/
def routesIn (s : System) (family : Family) (table : ℕ) : List ObservedRoute :=
  (s.routes.toList.map Prod.snd).filter fun r => r.family = family && r.table = table

/-- One message of a dump of a table, after those before it. -/
def readRoute (now : ℕ) (scope : Scope) (s : System) (k : TableKey)
    (routes : Std.ExtTreeMap RouteKey ObservedRoute) :
    RouteNetlinkMessage → Std.ExtTreeMap RouteKey ObservedRoute
  | .newRoute m =>
    match ObservedRoute.parse now m with
    | some r =>
      if r.family = k.family && r.table = k.table && scope.keeps r then
        routes.insert (routeKey scope r)
          (keepExpiry now (s.routes[routeKey scope r]?.bind ObservedRoute.expiresAt) r)
      else routes
    | none => routes
  | _ => routes

/-- Replaces every route of a table with a fresh dump. -/
def replaceTable (now : ℕ) (scope : Scope) (s : System) (k : TableKey)
    (dump : List RouteNetlinkMessage) : System :=
  let kept := s.routes.filter fun key _ => key.tableKey ≠ k
  { s with routes := dump.foldl (readRoute now scope s k) kept }

/-- `NLM_F_REPLACE` -/
def nlmFReplace : BitVec 16 := 0x100

/-- `NLM_F_APPEND` -/
def nlmFAppend : BitVec 16 := 0x800

/-- The table to re-read after a route notification that can leave a stale entry in
the view, outside the program's tables. -/
def staleAfter (s : System) (scope : Scope) (r : ObservedRoute) (deleted : Bool)
    (flags : BitVec 16) : Option TableKey :=
  if scope.isPolywan r.table then none
  else
    let key := routeKey scope r
    let stale :=
      if deleted then scope.keeps r && !s.routes.contains key
      else if flags &&& nlmFAppend ≠ 0 then scope.keeps r
      else if flags &&& nlmFReplace ≠ 0 then
        -- Only an entry of the new route's identity is replaced exactly.
        s.routes.keys.any fun k =>
          k.family = key.family && k.table = key.table && k.destination = key.destination
            && k.metric = key.metric && (k ≠ key || !scope.keeps r)
      else false
    if stale then some ⟨r.family, r.table⟩ else none

/-- The table of every route that uses a nexthop object, directly or through a group
that the view knows contains it. -/
def nexthopUsers (s : System) (id : ℕ) : List TableKey :=
  ((s.routes.toList.map Prod.snd).filter fun r => r.nexthopId.any fun n =>
    n = id || (s.nexthops[n]?).any fun g => g.group.contains id).map fun r =>
      ⟨r.family, r.table⟩

end System

/-! ## Views built from messages -/

theorem sameRule_comm (a b : ObservedRule) : sameRule a b = sameRule b a := by
  simp only [sameRule, Bool.or_comm, eq_comm]

@[simp] theorem sameRule_self (a : ObservedRule) : sameRule a a = true := by
  simp [sameRule]

theorem ObservedRule.message_of_parse {m : RuleMessage} {o : ObservedRule}
    (h : ObservedRule.parse m = some o) : o.message = m := by
  obtain ⟨f, -, rfl⟩ := Option.map_eq_some_iff.mp h
  rfl

theorem keepExpiry_eq (now : ℕ) (old : Option ℕ) (r : ObservedRoute) :
    ∃ t, keepExpiry now old r = { r with expiresAt := t } := by
  unfold keepExpiry
  split
  · split
    · exact ⟨_, rfl⟩
    · exact ⟨r.expiresAt, rfl⟩
  · exact ⟨r.expiresAt, rfl⟩

/-- What every view built from messages satisfies: a route stands under its own key;
a rule is what its message says; no rule stands twice. -/
structure System.WellFormed (scope : Scope) (s : System) : Prop where
  route_key : ∀ (k : RouteKey) r, s.routes[k]? = some r → routeKey scope r = k
  rule_parsed : ∀ o ∈ s.rules, ObservedRule.parse o.message = some o
  distinct : s.rules.Pairwise fun a b => sameRule a b = false

/-- A view: a system built from the messages of a scope. -/
structure View (scope : Scope) where
  system : System
  wellFormed : system.WellFormed scope

namespace System

variable {scope : Scope} {s : System} (now : ℕ)

theorem WellFormed.empty (scope : Scope) : ({} : System).WellFormed scope where
  route_key := by simp
  rule_parsed := by simp
  distinct := List.Pairwise.nil

/-- Only the routes and the rules matter. -/
theorem WellFormed.congr (h : s.WellFormed scope) {s' : System} (hroutes : s'.routes = s.routes)
    (hrules : s'.rules = s.rules) : s'.WellFormed scope where
  route_key := by rw [hroutes]; exact h.route_key
  rule_parsed := by rw [hrules]; exact h.rule_parsed
  distinct := by rw [hrules]; exact h.distinct

/-- Which foreign routes a scope keeps does not matter. -/
theorem WellFormed.of_isPolywan (h : s.WellFormed scope) {scope' : Scope}
    (ht : ∀ t, scope'.isPolywan t = scope.isPolywan t) : s.WellFormed scope' where
  route_key := fun k r hr => by
    rw [← h.route_key k r hr, routeKey, routeKey, ht]
  rule_parsed := h.rule_parsed
  distinct := h.distinct

theorem WellFormed.applyRoute (h : s.WellFormed scope) (r : ObservedRoute) (deleted : Bool) :
    (s.applyRoute now scope r deleted).1.WellFormed scope := by
  unfold System.applyRoute
  by_cases hk : scope.keeps r = true
  · obtain ⟨t, ht⟩ := keepExpiry_eq now (s.routes[routeKey scope r]?.bind ObservedRoute.expiresAt) r
    simp only [hk, Bool.not_true, Bool.false_eq_true, if_false, ht]
    cases deleted with
    | true =>
      have herase : ∀ (k : RouteKey) o, (s.routes.erase (routeKey scope r))[k]? = some o →
          s.routes[k]? = some o := by
        intro k o ho
        rw [Std.ExtTreeMap.getElem?_erase] at ho
        split at ho
        · cases ho
        · exact ho
      exact ⟨fun k o ho => h.route_key k o (herase k o ho), h.rule_parsed, h.distinct⟩
    | false =>
      refine ⟨fun k o ho => ?_, h.rule_parsed, h.distinct⟩
      simp only [Bool.false_eq_true, if_false, Std.ExtTreeMap.getElem?_insert,
        Std.LawfulEqCmp.compare_eq_iff_eq] at ho
      split at ho
      · next heq =>
          obtain rfl := Option.some.inj ho
          exact heq
      · exact h.route_key k o ho
  · simp only [hk, Bool.not_false, if_true]
    exact h

theorem WellFormed.removeRule (h : s.WellFormed scope) (o : ObservedRule) :
    (s.removeRule o).WellFormed scope :=
  ⟨h.route_key, fun o' ho' => h.rule_parsed o' (List.mem_of_mem_filter ho'), h.distinct.filter _⟩

theorem WellFormed.addRule (h : s.WellFormed scope) {m : RuleMessage} {o : ObservedRule}
    (ho : ObservedRule.parse m = some o) : (s.addRule o).WellFormed scope := by
  refine ⟨h.route_key, ?_, ?_⟩
  · intro o' ho'
    rcases List.mem_append.mp ho' with ho' | ho'
    · exact h.rule_parsed o' (List.mem_of_mem_filter ho')
    · obtain rfl := List.mem_singleton.mp ho'
      rw [ObservedRule.message_of_parse ho]
      exact ho
  · refine List.pairwise_append.mpr ⟨h.distinct.filter _, List.pairwise_singleton _ _, ?_⟩
    intro a ha b hb
    obtain rfl := List.mem_singleton.mp hb
    simpa using (List.mem_filter.mp ha).2

/-- **Every message keeps the view well formed.** -/
theorem WellFormed.apply (h : s.WellFormed scope) (m : RouteNetlinkMessage) :
    (s.apply now scope m).1.WellFormed scope := by
  cases m with
  | newLink m =>
    simp only [System.apply]
    split
    · exact h.congr rfl rfl
    · exact h
  | delLink m => exact h.congr rfl rfl
  | newAddress m =>
    simp only [System.apply]
    split
    · split
      · exact h
      · exact h.congr rfl rfl
    · exact h
  | delAddress m =>
    simp only [System.apply]
    split
    · exact h.congr rfl rfl
    · exact h
  | newRoute m | delRoute m =>
    simp only [System.apply]
    split
    · exact h.applyRoute now _ _
    · exact h
  | newRule m =>
    simp only [System.apply]
    split
    · next ho => exact h.addRule ho
    · exact h
  | delRule m =>
    simp only [System.apply]
    split
    · exact h.removeRule _
    · exact h
  | other n => exact h

theorem WellFormed.applyMessage (h : s.WellFormed scope) (m : Message) :
    (s.applyMessage now scope m).1.WellFormed scope := by
  cases m with
  | route m => exact h.apply now m
  | newNexthop n | delNexthop n => exact h.congr rfl rfl
  | getNexthops => exact h

/-- A re-read keeps the view well formed. -/
theorem WellFormed.replaceTable (h : s.WellFormed scope) (k : TableKey)
    (dump : List RouteNetlinkMessage) : (s.replaceTable now scope k dump).WellFormed scope := by
  refine ⟨?_, h.rule_parsed, h.distinct⟩
  -- Every entry stands under its own key after each message of the dump.
  suffices hread : ∀ routes : Std.ExtTreeMap RouteKey ObservedRoute,
      (∀ (κ : RouteKey) r, routes[κ]? = some r → routeKey scope r = κ) →
      ∀ (κ : RouteKey) r, (dump.foldl (readRoute now scope s k) routes)[κ]? = some r →
        routeKey scope r = κ by
    refine hread _ fun κ r hr => h.route_key κ r ?_
    rw [Std.ExtTreeMap.getElem?_filter] at hr
    obtain ⟨hold, -⟩ := Option.pfilter_eq_some_iff.mp hr
    exact hold
  induction dump with
  | nil => exact fun routes hroutes => hroutes
  | cons m dump ih =>
    intro routes hroutes
    refine ih _ fun κ r hr => ?_
    unfold readRoute at hr
    split at hr
    · split at hr
      · next o _ =>
          split at hr
          · obtain ⟨t, ht⟩ := keepExpiry_eq now
              (s.routes[routeKey scope o]?.bind ObservedRoute.expiresAt) o
            simp only [ht, Std.ExtTreeMap.getElem?_insert,
              Std.LawfulEqCmp.compare_eq_iff_eq] at hr
            split at hr
            · next heq =>
                obtain rfl := Option.some.inj hr
                exact heq
            · exact hroutes κ r hr
          · exact hroutes κ r hr
      · exact hroutes κ r hr
    · exact hroutes κ r hr

end System

/-- The view before the first message. -/
def View.empty (scope : Scope) : View scope := ⟨{}, System.WellFormed.empty scope⟩

/-- A message applied to a view. -/
def View.apply {scope : Scope} (now : ℕ) (v : View scope) (m : RouteNetlinkMessage) : View scope :=
  ⟨(v.system.apply now scope m).1, v.wellFormed.apply now m⟩

end Polywan
