import Mathlib.Data.Set.Basic
import Polywan.System

/-!
# The kernel's routes

The view follows the kernel's route tables from notifications, each of which tells of one
route.  Outside the program's tables a notification does not always tell what the kernel
dropped, and `System.staleAfter` returns the table to read again.

A kernel is a set of routes no two of which have one identity.  Its changes are those of
`KernelChange`; a `Mirror` is a kernel with a view that follows it.

## Main definitions

* `Kernel`, `KernelChange` — routes, and what happens to them.
* `Exact` — the view agrees with the kernel on a table.
* `Mirror.run` — a history of changes, each notified.
-/

namespace Polywan

namespace ObservedRoute

def tableKey (r : ObservedRoute) : TableKey := ⟨r.family, r.table⟩

/-- Routes that can replace each other: one table, destination and metric. -/
def SamePlace (r r' : ObservedRoute) : Prop :=
  r.tableKey = r'.tableKey ∧ r.destination = r'.destination ∧ r.metric = r'.metric

/-- One member of a multipath route, as the kernel tells of its deletion. -/
def member (r : ObservedRoute) (h : ObservedHop) : ObservedRoute := { r with nexthops := [h] }

/-- What is left without a member. -/
def without (r : ObservedRoute) (h : ObservedHop) : ObservedRoute :=
  { r with nexthops := r.nexthops.erase h }

/-- The view shows a route as it is, but for an expiry within a second that it knew and
the last message no longer told. -/
def Shows (now : ℕ) (v r : ObservedRoute) : Prop := v = keepExpiry now v.expiresAt r

end ObservedRoute

/-- The routes of the kernel. -/
abbrev Kernel := Set ObservedRoute

namespace Kernel

/-- No two routes have one identity. -/
def Distinct (scope : Scope) (K : Kernel) : Prop := Set.InjOn (routeKey scope) K

end Kernel

/-- What happens to the routes of the kernel. -/
inductive KernelChange where
  | add (r : ObservedRoute)
  /-- Any route of the same place goes. -/
  | replace (old new : ObservedRoute)
  /-- The new route is merged into an old one. -/
  | append (old new merged : ObservedRoute)
  | delete (r : ObservedRoute)
  | deleteMember (r : ObservedRoute) (h : ObservedHop)

namespace KernelChange

/-- The route that is notified. -/
def route : KernelChange → ObservedRoute
  | add r => r
  | replace _ new => new
  | append _ new _ => new
  | delete r => r
  | deleteMember r h => r.member h

/-- Whether it is notified as deleted. -/
def deleted : KernelChange → Bool
  | add _ | replace _ _ | append _ _ _ => false
  | delete _ | deleteMember _ _ => true

/-- The flags of the notification. -/
def Flagged (flags : BitVec 16) : KernelChange → Prop
  | replace _ _ => flags &&& System.nlmFReplace ≠ 0 ∧ flags &&& System.nlmFAppend = 0
  | append _ _ _ => flags &&& System.nlmFAppend ≠ 0
  | add _ | delete _ | deleteMember _ _ => True

/-- The routes afterwards. -/
def after (K : Kernel) : KernelChange → Kernel
  | add r => insert r K
  | replace old new => insert new (K \ {old})
  | append old _ merged => insert merged (K \ {old})
  | delete r => K \ {r}
  | deleteMember r h => insert (r.without h) (K \ {r})

/-- The changes a kernel can make: a route takes an identity that no other has, and
merging and deleting members happen outside the program's tables. -/
def Possible (scope : Scope) (K : Kernel) : KernelChange → Prop
  | add r => ∀ x ∈ K, routeKey scope x ≠ routeKey scope r
  | replace old new =>
    old ∈ K ∧ old.SamePlace new ∧ ∀ x ∈ K, routeKey scope x = routeKey scope new → x = old
  | append old new merged =>
    scope.isPolywan new.table = false ∧ new.isDefault = true ∧ old ∈ K ∧ old.SamePlace new
      ∧ merged.SamePlace new ∧ ∀ x ∈ K, routeKey scope x = routeKey scope merged → x = old
  | delete r => r ∈ K
  | deleteMember r h =>
    scope.isPolywan r.table = false ∧ r ∈ K ∧ r.nexthopId = none ∧ 2 ≤ r.nexthops.length
      ∧ h ∈ r.nexthops ∧ (∀ x ∈ K, routeKey scope x ≠ routeKey scope (r.member h))
      ∧ ∀ x ∈ K, routeKey scope x = routeKey scope (r.without h) → x = r

/-- A deleted member of which the scope keeps the rest of its route is kept itself: it is
not the only one with a gateway of a route to a network in the main table. -/
def Unmixed (scope : Scope) : KernelChange → Prop
  | deleteMember r h => scope.keeps (r.without h) = true → scope.keeps (r.member h) = true
  | add _ | replace _ _ | append _ _ _ | delete _ => True

end KernelChange

/-- The routes of a table that the view holds and the scope keeps are those of the kernel
that it keeps. -/
structure Exact (scope : Scope) (now : ℕ) (K : Kernel) (s : System) (k : TableKey) : Prop where
  holds : ∀ r ∈ K, r.tableKey = k → scope.keeps r = true →
    ∃ v, s.routes[routeKey scope r]? = some v ∧ v.Shows now r
  only : ∀ (κ : RouteKey) v, s.routes[κ]? = some v → κ.tableKey = k → scope.keeps v = true →
    ∃ r ∈ K, scope.keeps r = true ∧ routeKey scope r = κ

/-- A kernel and a view that follows it, with the instant of the last notification and the
tables returned for a re-read. -/
structure Mirror where
  kernel : Kernel
  view : System
  now : ℕ
  stale : List TableKey := []

/-- A change that is notified. -/
structure Notified where
  now : ℕ
  change : KernelChange
  flags : BitVec 16

namespace Mirror

variable (scope : Scope) (m : Mirror)

/-- A change and its notification. -/
def next (n : Notified) : Mirror where
  kernel := n.change.after m.kernel
  view := (m.view.applyRoute n.now scope n.change.route n.change.deleted).1
  now := n.now
  stale := m.stale ++ (m.view.staleAfter scope n.change.route n.change.deleted n.flags).toList

def run (history : List Notified) : Mirror := history.foldl (next scope) m

/-- A history that the kernel can have. -/
def Valid : Mirror → List Notified → Prop
  | _, [] => True
  | m, n :: history =>
    m.now ≤ n.now ∧ n.change.Possible scope m.kernel ∧ n.change.Flagged n.flags ∧
      Valid (m.next scope n) history

end Mirror

/-! ## One notification -/

theorem tableKey_routeKey (scope : Scope) (r : ObservedRoute) :
    (routeKey scope r).tableKey = r.tableKey := rfl

theorem keepExpiry_eq_of_le {now now' : ℕ} (h : now ≤ now') (old : Option ℕ) (r : ObservedRoute) :
    keepExpiry now' (keepExpiry now old r).expiresAt r = keepExpiry now old r := by
  cases hr : r.expiresAt with
  | some t => simp [keepExpiry, hr]
  | none =>
    cases old with
    | none => simp [keepExpiry, hr]
    | some t =>
      by_cases ht : t ≤ now + 1000000000
      · have ht' : t ≤ now' + 1000000000 := by omega
        simp [keepExpiry, hr, ht, ht']
      · simp [keepExpiry, hr, ht]

theorem shows_keepExpiry {now now' : ℕ} (h : now ≤ now') (old : Option ℕ) (r : ObservedRoute) :
    (keepExpiry now old r).Shows now' r := (keepExpiry_eq_of_le h old r).symm

theorem ObservedRoute.Shows.mono {now now' : ℕ} {v r : ObservedRoute} (hv : v.Shows now r)
    (h : now ≤ now') : v.Shows now' r := by
  rw [Shows] at hv
  rw [hv]
  exact shows_keepExpiry h _ r

section Apply

variable {now : ℕ} {scope : Scope} {s : System} {r : ObservedRoute}

theorem applyRoute_of_not_keeps (h : scope.keeps r = false) (deleted : Bool) :
    (s.applyRoute now scope r deleted).1 = s := by
  simp [System.applyRoute, h]

theorem getElem?_applyRoute (h : scope.keeps r = true) (deleted : Bool) (κ : RouteKey) :
    (s.applyRoute now scope r deleted).1.routes[κ]? =
      if routeKey scope r = κ then
        if deleted then none
        else some (keepExpiry now (s.routes[routeKey scope r]?.bind ObservedRoute.expiresAt) r)
      else s.routes[κ]? := by
  cases deleted with
  | true =>
    simp [System.applyRoute, h, Std.ExtTreeMap.getElem?_erase]
  | false =>
    simp [System.applyRoute, h, Std.ExtTreeMap.getElem?_insert]

end Apply

/-! ## What the scope keeps -/

section Keeps

variable {scope : Scope} {r r' : ObservedRoute}

theorem keeps_of_isPolywan (h : scope.isPolywan r.table = true) : scope.keeps r = true := by
  simp [Scope.keeps, h]

/-- Default routes of one table are kept alike. -/
theorem keeps_congr_of_isDefault (h : r.SamePlace r') (hdefault : r'.isDefault = true) :
    scope.keeps r = scope.keeps r' := by
  obtain ⟨htable, hdest, -⟩ := h
  have htable : r.table = r'.table := congrArg TableKey.table htable
  have hdefault' : r.isDefault = true := by
    rw [ObservedRoute.isDefault, hdest]
    exact hdefault
  simp [Scope.keeps, hdefault, hdefault', htable]

/-- The members of a route that is kept are kept. -/
theorem keeps_member {h : ObservedHop} (hmem : h ∈ r.nexthops) (hr : scope.keeps r = true) :
    scope.keeps (r.member h) = true := by
  simp only [Scope.keeps, ObservedRoute.member, ObservedRoute.isDefault, Bool.or_eq_true,
    Bool.and_eq_true, List.all_eq_true] at hr ⊢
  rcases hr with hr | ⟨htable, hall⟩
  · exact .inl hr
  · exact .inr ⟨htable, by simpa using hall h hmem⟩

/-- Routes of one identity with a single next hop are kept alike. -/
theorem keeps_of_member {h : ObservedHop} (hid : r.nexthopId = none)
    (ht : scope.isPolywan r.table = false) {v : ObservedRoute}
    (hkey : routeKey scope v = routeKey scope (r.member h))
    (hr : scope.keeps (r.member h) = true) : scope.keeps v = true := by
  obtain ⟨hf, htable, hdest, -, hvia⟩ := RouteKey.mk.inj hkey
  have hvt : v.table = r.table := htable
  have hvd : v.destination = r.destination := hdest
  have hgateway : (v.nexthops.all fun h => h.gateway.isNone) = h.gateway.isNone := by
    simp only [ObservedRoute.member, ht, hid, hvt, Bool.false_eq_true, if_false] at hvia
    split at hvia
    · cases hvia
    · next h' _ hv =>
        obtain ⟨-, hg⟩ := Via.hop.inj hvia
        simp [hv, hg]
    · cases hvia
  have hall : ((r.member h).nexthops.all fun h => h.gateway.isNone) = h.gateway.isNone := by
    simp [ObservedRoute.member]
  rw [Scope.keeps, ObservedRoute.isDefault, hall] at hr
  rw [Scope.keeps, ObservedRoute.isDefault, hgateway, hvt, hvd]
  exact hr

/-- In a table of the program an identity is a place. -/
theorem routeKey_eq_of_isPolywan (h : r.SamePlace r') (ht : scope.isPolywan r'.table = true) :
    routeKey scope r = routeKey scope r' := by
  obtain ⟨htable, hdest, hmetric⟩ := h
  obtain ⟨hfamily, htable⟩ := TableKey.mk.inj htable
  simp [routeKey, hfamily, htable, hdest, hmetric, ht]

end Keeps

namespace Exact

variable {scope : Scope} {now : ℕ} {K K' : Kernel} {s s' : System} {k : TableKey}
  {r : ObservedRoute}

theorem mono (h : Exact scope now K s k) {now' : ℕ} (hnow : now ≤ now') :
    Exact scope now' K s k where
  holds := by
    intro r hr hk hkeeps
    obtain ⟨v, hv, hshows⟩ := h.holds r hr hk hkeeps
    exact ⟨v, hv, hshows.mono hnow⟩
  only := h.only

/-- Nothing that the scope keeps changed in the table. -/
theorem frame (h : Exact scope now K s k)
    (hK : ∀ x, x.tableKey = k → scope.keeps x = true → (x ∈ K' ↔ x ∈ K))
    (hs : ∀ κ : RouteKey, κ.tableKey = k → s'.routes[κ]? = s.routes[κ]?) :
    Exact scope now K' s' k where
  holds := by
    intro x hx hk hkeeps
    rw [hs (routeKey scope x) hk]
    exact h.holds x ((hK x hk hkeeps).mp hx) hk hkeeps
  only := by
    intro κ v hv hk hkeeps
    rw [hs κ hk] at hv
    obtain ⟨x, hx, hkeeps, rfl⟩ := h.only κ v hv hk hkeeps
    exact ⟨x, (hK x hk hkeeps).mpr hx, hkeeps, rfl⟩

section Kept

variable (h : Exact scope now K s r.tableKey) (hr : scope.keeps r = true)
  (hothers : ∀ x, scope.keeps x = true → routeKey scope x ≠ routeKey scope r →
    (x ∈ K' ↔ x ∈ K))
include h hr hothers

/-- The kernel holds the notified route, and no other of its identity. -/
theorem added (hmem : r ∈ K') (hown : ∀ x ∈ K', routeKey scope x = routeKey scope r → x = r) :
    Exact scope now K' (s.applyRoute now scope r false).1 r.tableKey where
  holds := by
    intro x hx hk hkeeps
    rw [getElem?_applyRoute hr]
    by_cases hkey : routeKey scope r = routeKey scope x
    · rw [if_pos hkey, hown x hx hkey.symm]
      exact ⟨_, rfl, shows_keepExpiry (Nat.le_refl now) _ _⟩
    · rw [if_neg hkey]
      exact h.holds x ((hothers x hkeeps (Ne.symm hkey)).mp hx) hk hkeeps
  only := by
    intro κ v hv hk hkeeps
    rw [getElem?_applyRoute hr] at hv
    split at hv
    · next hkey => exact ⟨r, hmem, hr, hkey⟩
    · next hkey =>
        obtain ⟨x, hx, hkeeps, rfl⟩ := h.only κ v hv hk hkeeps
        exact ⟨x, (hothers x hkeeps (Ne.symm hkey)).mpr hx, hkeeps, rfl⟩

/-- The kernel holds no route of the identity notified as deleted. -/
theorem removed (hown : ∀ x ∈ K', routeKey scope x ≠ routeKey scope r) :
    Exact scope now K' (s.applyRoute now scope r true).1 r.tableKey where
  holds := by
    intro x hx hk hkeeps
    rw [getElem?_applyRoute hr, if_neg (Ne.symm (hown x hx))]
    exact h.holds x ((hothers x hkeeps (hown x hx)).mp hx) hk hkeeps
  only := by
    intro κ v hv hk hkeeps
    rw [getElem?_applyRoute hr] at hv
    split at hv
    · cases hv
    · next hkey =>
        obtain ⟨x, hx, hkeeps, rfl⟩ := h.only κ v hv hk hkeeps
        exact ⟨x, (hothers x hkeeps (Ne.symm hkey)).mpr hx, hkeeps, rfl⟩

end Kept

end Exact

/-! ## What is returned for a re-read -/

section Stale

variable {scope : Scope} {s : System} {r : ObservedRoute} {flags : BitVec 16}
  (ht : scope.isPolywan r.table = false)
include ht

theorem staleAfter_of_deleted (hr : scope.keeps r = true) (h : routeKey scope r ∉ s.routes) :
    s.staleAfter scope r true flags = some r.tableKey := by
  have hcontains : s.routes.contains (routeKey scope r) = false := by
    rw [← Bool.not_eq_true, Std.ExtTreeMap.contains_iff_mem]
    exact h
  simp [System.staleAfter, ht, hr, hcontains, ObservedRoute.tableKey]

theorem staleAfter_of_append (hr : scope.keeps r = true) (h : flags &&& System.nlmFAppend ≠ 0) :
    s.staleAfter scope r false flags = some r.tableKey := by
  rw [System.staleAfter, if_neg (by simp [ht])]
  dsimp only
  rw [if_neg Bool.false_ne_true, if_pos h, if_pos hr]
  rfl

/-- A replacement next to another kept route of the same place, or of the route itself by
one that is not kept. -/
theorem staleAfter_of_replace (h : flags &&& System.nlmFReplace ≠ 0)
    (hnot : flags &&& System.nlmFAppend = 0) {old : ObservedRoute} (hplace : old.SamePlace r)
    (hmem : routeKey scope old ∈ s.routes)
    (hne : routeKey scope old ≠ routeKey scope r ∨ scope.keeps r = false) :
    s.staleAfter scope r false flags = some r.tableKey := by
  obtain ⟨htable, hdest, hmetric⟩ := hplace
  obtain ⟨hfamily, htable⟩ := TableKey.mk.inj htable
  have hany : (s.routes.keys.any fun κ => κ.family = (routeKey scope r).family
      && κ.table = (routeKey scope r).table && κ.destination = (routeKey scope r).destination
      && κ.metric = (routeKey scope r).metric
      && (κ ≠ routeKey scope r || !scope.keeps r)) = true := by
    refine List.any_eq_true.mpr ⟨routeKey scope old, Std.ExtTreeMap.mem_keys.mpr hmem, ?_⟩
    have hlast : (decide (routeKey scope old ≠ routeKey scope r) || !scope.keeps r) = true := by
      simpa using hne
    rw [hlast]
    simp [routeKey, hfamily, htable, hdest, hmetric]
  rw [System.staleAfter, if_neg (by simp [ht])]
  dsimp only
  rw [if_neg Bool.false_ne_true, if_neg (not_not_intro hnot), if_pos h, if_pos hany]
  rfl

end Stale

/-! ## Histories -/

section Step

variable {scope : Scope} {K : Kernel} {s : System} {k : TableKey} {c : KernelChange}

/-- A change concerns the table of the route it notifies. -/
theorem mem_after_of_ne (hp : c.Possible scope K) {x : ObservedRoute}
    (hx : x.tableKey ≠ c.route.tableKey) : x ∈ c.after K ↔ x ∈ K := by
  have hne : ∀ y : ObservedRoute, y.tableKey = c.route.tableKey → x ≠ y := by
    rintro y hy rfl
    exact hx hy
  cases c with
  | add r => simp [KernelChange.after, hne r rfl]
  | replace old new =>
    obtain ⟨-, hplace, -⟩ := hp
    simp [KernelChange.after, hne new rfl, hne old hplace.1]
  | append old new merged =>
    obtain ⟨-, -, -, hplace, hmerged, -⟩ := hp
    simp [KernelChange.after, hne merged hmerged.1, hne old hplace.1]
  | delete r => simp [KernelChange.after, hne r rfl]
  | deleteMember r h => simp [KernelChange.after, hne r rfl, hne (r.without h) rfl]

/-- A change keeps identities distinct. -/
theorem Kernel.Distinct.after (hd : K.Distinct scope) (hp : c.Possible scope K) :
    (c.after K).Distinct scope := by
  -- A new route, once those of its identity are gone.
  have hinsert : ∀ (r : ObservedRoute) (gone : Set ObservedRoute),
      (∀ x ∈ K, routeKey scope x = routeKey scope r → x ∈ gone) →
      Kernel.Distinct scope (insert r (K \ gone)) := by
    rintro r gone hown x (rfl | ⟨hx, hxgone⟩) y (rfl | ⟨hy, hygone⟩) hkey
    · rfl
    · exact absurd (hown y hy hkey.symm) hygone
    · exact absurd (hown x hx hkey) hxgone
    · exact hd hx hy hkey
  cases c with
  | add r => simpa [KernelChange.after] using hinsert r ∅ fun x hx hkey => absurd hkey (hp x hx)
  | replace old new =>
    obtain ⟨-, -, hown⟩ := hp
    exact hinsert new {old} hown
  | append old new merged =>
    obtain ⟨-, -, -, -, -, hown⟩ := hp
    exact hinsert merged {old} hown
  | delete r => exact hd.mono Set.sdiff_subset
  | deleteMember r h =>
    obtain ⟨-, -, -, -, -, -, hown⟩ := hp
    exact hinsert (r.without h) {r} hown

variable {now : ℕ} {flags : BitVec 16}

section Own

variable (h : Exact scope now K s c.route.tableKey)
include h

/-- A notified route that is not kept, next to changes of others that are not. -/
theorem Exact.unkept (hr : scope.keeps c.route = false)
    (hK : ∀ x, scope.keeps x = true → (x ∈ c.after K ↔ x ∈ K)) :
    Exact scope now (c.after K) (s.applyRoute now scope c.route c.deleted).1 c.route.tableKey := by
  rw [applyRoute_of_not_keeps hr]
  exact h.frame (fun x _ hkeeps => hK x hkeeps) fun _ _ => rfl

/-- **One change in its own table**: the view follows it, or the table is returned. -/
theorem Exact.own (hw : s.WellFormed scope) (hd : K.Distinct scope) (hp : c.Possible scope K)
    (hf : c.Flagged flags) (hu : c.Unmixed scope) :
    Exact scope now (c.after K) (s.applyRoute now scope c.route c.deleted).1 c.route.tableKey ∨
      s.staleAfter scope c.route c.deleted flags = some c.route.tableKey := by
  -- A route that is not kept differs from one that is.
  have hne : ∀ {x y : ObservedRoute}, scope.keeps x = true → scope.keeps y = false → x ≠ y := by
    rintro x y hx hy rfl
    rw [hx] at hy
    cases hy
  cases c with
  | add r =>
    refine .inl ?_
    by_cases hr : scope.keeps r = true
    · refine h.added hr (fun x _ hkey => ?_) (Set.mem_insert r K) fun x hx hkey => ?_
      · simp [KernelChange.after, show x ≠ r from fun hxr => hkey (hxr ▸ rfl)]
      · rcases Set.mem_insert_iff.mp hx with rfl | hx
        · rfl
        · exact absurd hkey (hp x hx)
    · refine h.unkept (Bool.eq_false_iff.mpr hr) fun x hx => ?_
      simp [KernelChange.after, hne hx (Bool.eq_false_iff.mpr hr)]
  | replace old new =>
    obtain ⟨hmem, hplace, hown⟩ := hp
    by_cases hexact : scope.keeps old = false ∨
        routeKey scope old = routeKey scope new ∧ scope.keeps new = true
    · refine .inl ?_
      by_cases hr : scope.keeps new = true
      · refine h.added hr (fun x hx hkey => ?_) (Set.mem_insert new _) fun x hx hkey => ?_
        · have hold : x ≠ old := by
            rintro rfl
            rcases hexact with hold | ⟨hold, -⟩
            · exact hne hx hold rfl
            · exact hkey hold
          simp [KernelChange.after, hold, show x ≠ new from fun hxr => hkey (hxr ▸ rfl)]
        · rcases Set.mem_insert_iff.mp hx with rfl | ⟨hx, hxold⟩
          · rfl
          · exact absurd (hown x hx hkey) hxold
      · have hr : scope.keeps new = false := Bool.eq_false_iff.mpr hr
        have hold : scope.keeps old = false := by
          rcases hexact with hold | ⟨-, hnew⟩
          · exact hold
          · rw [hr] at hnew
            cases hnew
        refine h.unkept hr fun x hx => ?_
        simp [KernelChange.after, hne hx hr, hne hx hold]
    · refine .inr ?_
      push Not at hexact
      obtain ⟨hold, hnew⟩ := hexact
      have hold : scope.keeps old = true := Bool.not_eq_false _ ▸ hold
      obtain ⟨v, hv, -⟩ := h.holds old hmem hplace.1 hold
      have ht : scope.isPolywan new.table = false := by
        refine Bool.eq_false_iff.mpr fun ht => ?_
        exact hnew (routeKey_eq_of_isPolywan hplace ht) (keeps_of_isPolywan ht)
      refine staleAfter_of_replace ht hf.1 hf.2 hplace ?_ ?_
      · exact Std.ExtTreeMap.mem_iff_isSome_getElem?.mpr (by simp [hv])
      · by_cases hkey : routeKey scope old = routeKey scope new
        · exact .inr (Bool.eq_false_iff.mpr (hnew hkey))
        · exact .inl hkey
  | append old new merged =>
    obtain ⟨ht, hdefault, -, hplace, hmerged, -⟩ := hp
    by_cases hr : scope.keeps new = true
    · exact .inr (staleAfter_of_append ht hr hf)
    · have hr : scope.keeps new = false := Bool.eq_false_iff.mpr hr
      have hold : scope.keeps old = false := (keeps_congr_of_isDefault hplace hdefault).trans hr
      have hnew : scope.keeps merged = false :=
        (keeps_congr_of_isDefault hmerged hdefault).trans hr
      refine .inl (h.unkept hr fun x hx => ?_)
      simp [KernelChange.after, hne hx hold, hne hx hnew]
  | delete r =>
    refine .inl ?_
    by_cases hr : scope.keeps r = true
    · refine h.removed hr (fun x _ hkey => ?_) fun x hx hkey => ?_
      · simp [KernelChange.after, show x ≠ r from fun hxr => hkey (hxr ▸ rfl)]
      · exact hx.2 (hd hx.1 hp hkey)
    · have hr : scope.keeps r = false := Bool.eq_false_iff.mpr hr
      refine h.unkept hr fun x hx => ?_
      simp [KernelChange.after, hne hx hr]
  | deleteMember r hop =>
    obtain ⟨ht, -, hid, -, hhop, hown, -⟩ := hp
    by_cases hr : scope.keeps (r.member hop) = true
    · refine .inr (staleAfter_of_deleted ht hr fun hmem => ?_)
      -- The view holds a route of the member's identity, so the kernel does.
      obtain ⟨v, hv⟩ := Option.isSome_iff_exists.mp
        (Std.ExtTreeMap.mem_iff_isSome_getElem?.mp hmem)
      have hkeeps := keeps_of_member hid ht (hw.route_key _ v hv) hr
      obtain ⟨x, hx, -, hkey⟩ := h.only _ v hv rfl hkeeps
      exact hown x hx hkey
    · have hwhole : scope.keeps r = false :=
        Bool.eq_false_iff.mpr fun hwhole => hr (keeps_member hhop hwhole)
      have hrest : scope.keeps (r.without hop) = false :=
        Bool.eq_false_iff.mpr fun hrest => hr (hu hrest)
      refine .inl (h.unkept (Bool.eq_false_iff.mpr hr) fun x hx => ?_)
      simp [KernelChange.after, hne hx hwhole, hne hx hrest]

end Own

/-- One change and any table. -/
theorem Exact.step (h : Exact scope now K s k) (hw : s.WellFormed scope) (hd : K.Distinct scope)
    (hp : c.Possible scope K) (hf : c.Flagged flags) (hu : c.Unmixed scope) :
    Exact scope now (c.after K) (s.applyRoute now scope c.route c.deleted).1 k ∨
      s.staleAfter scope c.route c.deleted flags = some k := by
  by_cases hk : k = c.route.tableKey
  · subst hk
    exact h.own hw hd hp hf hu
  · refine .inl (h.frame (fun x hx _ => mem_after_of_ne hp (hx ▸ hk)) fun κ hκ => ?_)
    by_cases hr : scope.keeps c.route = true
    · rw [getElem?_applyRoute hr, if_neg]
      rintro rfl
      exact hk hκ.symm
    · rw [applyRoute_of_not_keeps (Bool.eq_false_iff.mpr hr)]

end Step

namespace Mirror

variable {scope : Scope} {m : Mirror}

/-- The tables returned earlier stay. -/
theorem mem_stale_run {k : TableKey} (h : k ∈ m.stale) (history : List Notified) :
    k ∈ (m.run scope history).stale := by
  induction history generalizing m with
  | nil => exact h
  | cons n history ih => exact ih (List.mem_append_left _ h)

/-- The program's tables are never returned. -/
theorem staleAfter_ne_of_isPolywan {s : System} {r : ObservedRoute} {deleted : Bool}
    {flags : BitVec 16} {k : TableKey} (ht : scope.isPolywan k.table = true) :
    s.staleAfter scope r deleted flags ≠ some k := by
  intro h
  unfold System.staleAfter at h
  split at h
  · cases h
  · next hr =>
      dsimp only at h
      obtain ⟨-, hk⟩ := Option.ite_none_right_eq_some.mp h
      obtain rfl := Option.some.inj hk
      exact hr ht

/-- A table of which the view is exact stays so, or is returned. -/
theorem exact_run {k : TableKey} (hw : m.view.WellFormed scope) (hd : m.kernel.Distinct scope)
    (h : Exact scope m.now m.kernel m.view k) {history : List Notified}
    (hvalid : m.Valid scope history) (hu : ∀ n ∈ history, n.change.Unmixed scope) :
    Exact scope (m.run scope history).now (m.run scope history).kernel
        (m.run scope history).view k ∨
      k ∈ (m.run scope history).stale ∧ scope.isPolywan k.table = false := by
  induction history generalizing m with
  | nil => exact .inl h
  | cons n history ih =>
    obtain ⟨hn, hu⟩ := List.forall_mem_cons.mp hu
    obtain ⟨hnow, hp, hf, hvalid⟩ := hvalid
    rcases (h.mono hnow).step hw hd hp hf hn with hnext | hstale
    · exact ih (m := m.next scope n) (hw.applyRoute _ _ _) (hd.after hp) hnext hvalid hu
    · refine .inr ⟨mem_stale_run (m := m.next scope n) ?_ history, ?_⟩
      · simp [next, hstale]
      · exact Bool.eq_false_iff.mpr fun ht => staleAfter_ne_of_isPolywan ht hstale

variable (scope m) in
/-- The view agrees with the kernel or the table was returned, and agrees on the
program's tables. -/
def Faithful : Prop :=
  ∀ k, (Exact scope m.now m.kernel m.view k ∨ k ∈ m.stale) ∧
    (scope.isPolywan k.table = true → Exact scope m.now m.kernel m.view k)

/-- **The view follows the kernel's tables, or knows that it does not.** -/
theorem faithful_run {K : Kernel} (hd : K.Distinct scope) (v : View scope) {now : ℕ}
    (h : ∀ k, Exact scope now K v.system k) {history : List Notified}
    (hvalid : Valid scope { kernel := K, view := v.system, now } history)
    (hu : ∀ n ∈ history, n.change.Unmixed scope) :
    Faithful scope (Mirror.run scope { kernel := K, view := v.system, now } history) := by
  intro k
  rcases exact_run v.wellFormed hd (h k) hvalid hu with hexact | ⟨hstale, ht⟩
  · exact ⟨.inl hexact, fun _ => hexact⟩
  · refine ⟨.inr hstale, fun ht' => ?_⟩
    rw [ht] at ht'
    cases ht'

end Mirror

namespace Sample

/-- A next hop of the sample. -/
def observedHop (ifindex : ℕ) (gateway : Option IpAddr) : ObservedHop where
  ifindex := ifindex
  gateway := gateway
  weight := 1
  onlink := false
  dead := false
  linkdown := false

/-- A route of the main table. -/
def mainRoute (destination : Option (IpAddr × ℕ)) (nexthops : List ObservedHop) :
    ObservedRoute where
  family := .v4
  table := 254
  protocol := 3
  metric := 0
  destination := destination
  kind := .unicast
  source := none
  nexthops := nexthops
  nexthopId := none
  preference := 0
  expiresAt := none

/-- A default route, and the same through another gateway. -/
def viaFirst : ObservedRoute := mainRoute none [observedHop 3 (some (.v4 0x0a000001))]

def viaSecond : ObservedRoute := mainRoute none [observedHop 3 (some (.v4 0x0a000002))]

/-- The default route is added, then replaced by the other. -/
def rerouted : List Notified := [⟨0, .add viaFirst, 0⟩, ⟨0, .replace viaFirst viaSecond, 0x100⟩]

/-- A route to a network, through a gateway and directly. -/
def mixed : ObservedRoute :=
  mainRoute (some (.v4 0x0a020000, 16))
    [observedHop 3 (some (.v4 0x0a000001)), observedHop 4 none]

/-- Its member with the gateway is deleted. -/
def unmixed : List Notified :=
  [⟨0, .deleteMember mixed (observedHop 3 (some (.v4 0x0a000001))), 0⟩]

end Sample

open Sample in
/-- The replacement of another identity is returned. -/
theorem Mirror.faithful_run_sample :
    (Mirror.run (Scope.of config)
        { kernel := ∅, view := (View.empty (Scope.of config)).system, now := 0 }
        rerouted).stale = [⟨.v4, 254⟩] ∧
      Faithful (Scope.of config)
        (Mirror.run (Scope.of config)
          { kernel := ∅, view := (View.empty (Scope.of config)).system, now := 0 } rerouted) := by
  refine ⟨by decide +kernel, faithful_run (Set.injOn_empty _) (View.empty _) ?_ ?_ ?_⟩
  · exact fun k => ⟨by simp, by simp [View.empty]⟩
  · refine ⟨Nat.le_refl _, by simp [KernelChange.Possible], trivial, Nat.le_refl _,
      ⟨?_, ⟨rfl, rfl, rfl⟩, ?_⟩, ⟨by decide, by decide⟩, trivial⟩
    · simp [next, KernelChange.after]
    · simp [next, KernelChange.after]
  · simp [rerouted, KernelChange.Unmixed]

open Sample in
/-- What is left of the route is a direct one, which the scope keeps; the member deleted is
not, and nothing is returned. -/
theorem Mirror.unmixed_unfaithful :
    (∀ k, Exact (Scope.of config) 0 {mixed} {} k) ∧
      Valid (Scope.of config) { kernel := {mixed}, view := {}, now := 0 } unmixed ∧
      ¬ Faithful (Scope.of config)
        (Mirror.run (Scope.of config) { kernel := {mixed}, view := {}, now := 0 } unmixed) := by
  refine ⟨fun k => ⟨?_, by simp⟩, ⟨Nat.le_refl _, ?_, trivial, trivial⟩, fun hfaithful => ?_⟩
  · intro r hr _ hkeeps
    rw [Set.mem_singleton_iff.mp hr] at hkeeps
    exact absurd hkeeps (by decide)
  · refine ⟨by decide, rfl, rfl, by decide, by decide, ?_, ?_⟩
    · intro x hx
      rw [Set.mem_singleton_iff.mp hx]
      decide
    · intro x hx _
      exact hx
  · rcases (hfaithful ⟨.v4, 254⟩).1 with hexact | hstale
    · obtain ⟨v, hv, -⟩ := hexact.holds (mixed.without (observedHop 3 (some (.v4 0x0a000001))))
        (Set.mem_insert _ _) rfl (by decide)
      have hsome := Option.isSome_iff_exists.mpr ⟨v, hv⟩
      exact absurd hsome (by decide +kernel)
    · exact absurd hstale (by decide +kernel)

end Polywan
