import Polywan.Discover
import Polywan.Lib.Until
import Polywan.Observer.Confirm

/-!
# A known near expiry

Within the last clock tick before its expiry the kernel reports a route as if it had none.
A report without an expiry therefore keeps the one that is known, when that is due within a
second.  Notifications and resynchronisations look it up in the view that they build; a
re-read of a table looks it up in the view before it, and so forgets an expiry that the same
re-read reported first.

## Main definitions

* `reports`, `remember` — what messages report of an identity, and what is known after it.
* `Watch`, `Watch.step` — the view, with the near expiry that is known of each identity.
* `Watch.Kept` — the view has every near expiry that is known.
* `Agrees` — a re-read forgets nothing that it reported itself.

## Main results

* `Watch.kept_iff` — the view keeps the near expiries of a run exactly when every re-read
  agrees with the view before it.
-/

namespace Polywan

/-! ## Reports -/

/-- Expiries up to a second ahead are near. -/
def Near (now t : ℕ) : Prop := t ≤ now + 1000000000

instance (now t : ℕ) : Decidable (Near now t) := inferInstanceAs (Decidable (_ ≤ _))

theorem Near.mono {now now' t : ℕ} (h : Near now t) (hle : now ≤ now') : Near now' t := by
  unfold Near at *
  omega

/-- What messages report of an identity, in order. -/
def reports (now : ℕ) (scope : Scope) (κ : RouteKey) (ms : List Message) : List ObservedRoute :=
  ms.filterMap (tellsRoute now scope κ)

/-- A notification that an identity is deleted. -/
def deletes (now : ℕ) (scope : Scope) (κ : RouteKey) : Message → Bool
  | .route (.delRoute m) =>
    (ObservedRoute.parse now m).any fun r => scope.keeps r && routeKey scope r = κ
  | _ => false

/-- The near expiry known after a report: without one, that from before. -/
def remember (now : ℕ) (known : Option ℕ) (r : ObservedRoute) : Option ℕ :=
  match r.expiresAt with
  | some t => if Near now t then some t else none
  | none => known

/-- The expiry that the view has for an identity. -/
def System.expiry (s : System) (κ : RouteKey) : Option ℕ :=
  s.routes[κ]?.bind ObservedRoute.expiresAt

section Reports

variable {now : ℕ} {scope : Scope} {κ : RouteKey} {known : Option ℕ} {r : ObservedRoute}

theorem reports_append (ms ms' : List Message) :
    reports now scope κ (ms ++ ms') = reports now scope κ ms ++ reports now scope κ ms' :=
  List.filterMap_append

theorem expiresAt_keepExpiry (old : Option ℕ) (r : ObservedRoute) :
    (keepExpiry now old r).expiresAt
      = r.expiresAt.or (old.filter fun t => decide (Near now t)) := by
  unfold keepExpiry Near
  cases hr : r.expiresAt with
  | some t => simp [hr]
  | none =>
    cases old with
    | none => simp [hr]
    | some t =>
      by_cases ht : t ≤ now + 1000000000
      · simp [ht, Option.filter_some]
      · simp [ht, hr, Option.filter_some]

theorem near_remember (hknown : ∀ t, known = some t → Near now t) {t : ℕ}
    (h : remember now known r = some t) : Near now t := by
  unfold remember at h
  split at h
  · split at h
    · next hnear =>
        obtain rfl := Option.some.inj h
        exact hnear
    · cases h
  · exact hknown t h

theorem near_foldl_remember {l : List ObservedRoute} (hknown : ∀ t, known = some t → Near now t)
    {t : ℕ} (h : l.foldl (remember now) known = some t) : Near now t := by
  induction l generalizing known with
  | nil => exact hknown t h
  | cons r l ih => exact ih (fun t ht => near_remember hknown ht) h

/-- Without an expiry in the reports what was known stays known; with one it no longer
matters. -/
theorem foldl_remember_cases (now : ℕ) (l : List ObservedRoute) :
    (∀ r ∈ l, r.expiresAt = none) ∧ (∀ known, l.foldl (remember now) known = known) ∨
      ∀ known, l.foldl (remember now) known = l.foldl (remember now) none := by
  induction l using List.reverseRecOn with
  | nil => exact .inl ⟨nofun, fun _ => rfl⟩
  | append_singleton l r ih =>
    simp only [List.foldl_append, List.foldl_cons, List.foldl_nil]
    cases hr : r.expiresAt with
    | some t => exact .inr fun known => by simp only [remember, hr]
    | none =>
      have hremember : ∀ known, remember now known r = known :=
        fun known => by simp [remember, hr]
      simp only [hremember]
      refine ih.imp_left fun ⟨hnone, hknown⟩ => ⟨fun x hx => ?_, hknown⟩
      rcases List.mem_append.mp hx with hx | hx
      · exact hnone x hx
      · rwa [List.mem_singleton.mp hx]

/-- **What a message does to a route**: a deletion drops it, a report replaces it, keeping
a near expiry. -/
theorem getElem?_applyMessage (s : System) (m : Message) :
    (s.applyMessage now scope m).1.routes[κ]? =
      if deletes now scope κ m then none
      else ((tellsRoute now scope κ m).map (keepExpiry now (s.expiry κ))).or s.routes[κ]? := by
  have hother : ∀ s' : System, s'.routes = s.routes →
      s'.routes[κ]? = if false then none
        else ((none : Option ObservedRoute).map (keepExpiry now (s.expiry κ))).or s.routes[κ]? := by
    intro s' hs'
    rw [hs']
    rfl
  cases m with
  | newNexthop n => exact hother _ rfl
  | delNexthop n => exact hother _ rfl
  | getNexthops => exact hother _ rfl
  | route m =>
    cases m with
    | newRoute m =>
      simp only [System.applyMessage, System.apply, tellsRoute, deletes]
      cases ObservedRoute.parse now m with
      | none => rfl
      | some r =>
        by_cases hkeeps : scope.keeps r = true
        · by_cases hkey : routeKey scope r = κ
          · subst hkey
            simp [getElem?_applyRoute hkeeps, hkeeps, System.expiry, Option.filter_some]
          · simp [getElem?_applyRoute hkeeps, hkey, Option.filter_some]
        · rw [Bool.not_eq_true] at hkeeps
          simp [applyRoute_of_not_keeps hkeeps, hkeeps, Option.filter_some]
    | delRoute m =>
      simp only [System.applyMessage, System.apply, tellsRoute, deletes]
      split
      · next r hr =>
          by_cases hkeeps : scope.keeps r = true
          · by_cases hkey : routeKey scope r = κ
            · simp [hr, getElem?_applyRoute hkeeps, hkeeps, hkey]
            · simp [hr, getElem?_applyRoute hkeeps, hkey]
          · rw [Bool.not_eq_true] at hkeeps
            simp [hr, applyRoute_of_not_keeps hkeeps, hkeeps]
      · next hr => simp [hr]
    | newLink m | delLink m | newAddress m | delAddress m | newRule m | delRule m | other n =>
      refine hother _ ?_
      simp only [System.applyMessage, System.apply]
      repeat' split
      all_goals rfl

end Reports

/-! ## The view and what is known -/

/-- What is known after a read: of an identity that it lacks, nothing. -/
def knownAfter (now : ℕ) (scope : Scope) (known : RouteKey → Option ℕ) (ms : List Message)
    (κ : RouteKey) : Option ℕ :=
  if reports now scope κ ms = [] then none
  else (reports now scope κ ms).foldl (remember now) (known κ)

/-- The entries that a resynchronisation reads of routes: the full dump, then the tables of
the routes that it lacks. -/
def resyncReads (now : ℕ) (scope : Scope) (old : System) (ask : ℕ → Answers) : List Message :=
  bothReads ask ((missingTables old (viewOf now scope (firstRead ask))).map Filter.ofTable)

/-- The view, with the near expiry that is known of each identity. -/
structure Watch where
  system : System
  known : RouteKey → Option ℕ := fun _ => none
  now : ℕ := 0

namespace Watch

/-- What the observer does. -/
inductive Action where
  | notification (m : Message)
  | reread (dumps : Dumps) (k : TableKey)
  | resync (ask : ℕ → Answers)

/-- An action and how much later it is. -/
structure Event where
  elapsed : ℕ
  action : Action

variable (scope : Scope) (w : Watch)

def step (e : Event) : Watch :=
  let now := w.now + e.elapsed
  match e.action with
  | .notification m =>
    { system := (w.system.applyMessage now scope m).1
      known := fun κ =>
        if deletes now scope κ m then none
        else (reports now scope κ [m]).foldl (remember now) (w.known κ)
      now }
  | .reread dumps k =>
    match readTable now scope dumps w.system k with
    | none => { w with now }
    | some dump =>
      { system := w.system.replaceTable now scope k dump
        known := fun κ =>
          if κ.tableKey = k then knownAfter now scope w.known (dump.map .route) κ else w.known κ
        now }
  | .resync ask =>
    match resync now scope w.system ask with
    | none => { w with now }
    | some v =>
      { system := v.system
        known := knownAfter now scope w.known (resyncReads now scope w.system ask)
        now }

def run (events : List Event) : Watch := events.foldl (step scope) w

/-- The view has every near expiry that is known. -/
def Kept : Prop := ∀ κ t, w.known κ = some t → w.system.expiry κ = some t

/-- What is known is near. -/
def AllNear : Prop := ∀ κ t, w.known κ = some t → Near w.now t

end Watch

/-- A re-read that reports a near expiry of an identity and then the identity without one
finds that expiry in the view. -/
def Agrees (now : ℕ) (scope : Scope) (s : System) (k : TableKey)
    (dump : List RouteNetlinkMessage) : Prop :=
  ∀ κ t, κ.tableKey = k →
    (reports now scope κ (dump.map .route)).foldl (remember now) none = some t →
    (reports now scope κ (dump.map .route)).getLast?.bind ObservedRoute.expiresAt = none →
    s.expiry κ = some t

/-- The re-reads of a run agree with the view. -/
def Watch.Admits (scope : Scope) (w : Watch) (e : Watch.Event) : Prop :=
  match e.action with
  | .reread dumps k => ∀ dump,
      readTable (w.now + e.elapsed) scope dumps w.system k = some dump →
        Agrees (w.now + e.elapsed) scope w.system k dump
  | _ => True

/-! ## One action -/

section Steps

variable {now : ℕ} {scope : Scope} {s : System} {κ : RouteKey} {known : Option ℕ}

/-- A message that does not delete an identity keeps what is known of it. -/
theorem expiry_applyMessage (hknown : ∀ t, known = some t → Near now t ∧ s.expiry κ = some t)
    {m : Message} (hm : deletes now scope κ m = false) {t : ℕ}
    (ht : (reports now scope κ [m]).foldl (remember now) known = some t) :
    (s.applyMessage now scope m).1.expiry κ = some t := by
  rw [System.expiry, getElem?_applyMessage, hm, if_neg Bool.false_ne_true]
  cases htells : tellsRoute now scope κ m with
  | none =>
    simp only [reports, List.filterMap_cons, htells, List.filterMap_nil, List.foldl_nil] at ht
    exact (hknown t ht).2
  | some r =>
    simp only [reports, List.filterMap_cons, htells, List.filterMap_nil, List.foldl_cons,
      List.foldl_nil] at ht
    simp only [Option.map_some, Option.some_or, Option.bind_some, expiresAt_keepExpiry]
    cases hr : r.expiresAt with
    | some t' =>
      simp only [remember, hr] at ht
      split at ht
      · exact ht
      · cases ht
    | none =>
      simp only [remember, hr] at ht
      obtain ⟨hnear, hexpiry⟩ := hknown t ht
      simp [hexpiry, hnear, Option.filter_some]

/-- **Entries of dumps keep what is known.** -/
theorem expiry_applyAll (hknown : ∀ t, known = some t → Near now t ∧ s.expiry κ = some t)
    {ms : List Message} (hms : ∀ m ∈ ms, m.Listed) {t : ℕ}
    (ht : (reports now scope κ ms).foldl (remember now) known = some t) :
    (s.applyAll now scope ms).expiry κ = some t := by
  induction ms generalizing s known with
  | nil => exact (hknown t ht).2
  | cons m ms ih =>
    obtain ⟨hm, hms⟩ := List.forall_mem_cons.mp hms
    have hdeletes : deletes now scope κ m = false := by
      obtain ⟨f, e, rfl⟩ := hm
      cases f <;> rfl
    have hsplit : reports now scope κ (m :: ms)
        = reports now scope κ [m] ++ reports now scope κ ms := reports_append [m] ms
    rw [hsplit, List.foldl_append] at ht
    refine ih (fun t' ht' => ⟨?_, expiry_applyMessage hknown hdeletes ht'⟩) hms ht
    exact near_foldl_remember (fun t'' h'' => (hknown t'' h'').1) ht'

/-- Reports without an expiry leave none. -/
theorem expiry_applyAll_eq_none (hs : s.expiry κ = none) {ms : List Message}
    (hms : ∀ r ∈ reports now scope κ ms, r.expiresAt = none) :
    (s.applyAll now scope ms).expiry κ = none := by
  induction ms generalizing s with
  | nil => exact hs
  | cons m ms ih =>
    have hsplit : reports now scope κ (m :: ms)
        = reports now scope κ [m] ++ reports now scope κ ms := reports_append [m] ms
    rw [hsplit] at hms
    obtain ⟨hm, hms⟩ := List.forall_mem_append.mp hms
    refine ih ?_ hms
    rw [System.expiry, getElem?_applyMessage]
    split
    · rfl
    · cases htells : tellsRoute now scope κ m with
      | none => exact hs
      | some r =>
        have hr : r.expiresAt = none := hm r (by simp [reports, htells])
        simp [expiresAt_keepExpiry, hr, hs]

/-- A re-read leaves what its last report says, with the near expiry of the view. -/
theorem expiry_replaceTable {k : TableKey} (hκ : κ.tableKey = k)
    (dump : List RouteNetlinkMessage) :
    (s.replaceTable now scope k dump).expiry κ
      = (reports now scope κ (dump.map .route)).getLast?.bind fun r =>
          (keepExpiry now (s.expiry κ) r).expiresAt := by
  have hlast : Lib.lastTold (fun m => tellsRoute now scope κ (.route m)) dump
      = (reports now scope κ (dump.map .route)).getLast? := by
    rw [Lib.lastTold_eq_getLast?, reports, List.filterMap_map]
    rfl
  cases hreport : (reports now scope κ (dump.map .route)).getLast? with
  | none =>
    rw [System.expiry, getElem?_replaceTable_of_none hκ (hlast.trans hreport)]
    rfl
  | some r =>
    rw [System.expiry, getElem?_replaceTable_of_some hκ (hlast.trans hreport)]
    rfl

/-- **A re-read keeps what is known** exactly when it agrees with the view. -/
theorem expiry_replaceTable_iff {k : TableKey} (hκ : κ.tableKey = k)
    {known : RouteKey → Option ℕ}
    (hknown : ∀ t, known κ = some t → Near now t ∧ s.expiry κ = some t)
    (dump : List RouteNetlinkMessage) :
    (∀ t, knownAfter now scope known (dump.map .route) κ = some t →
      (s.replaceTable now scope k dump).expiry κ = some t) ↔
    ∀ t, (reports now scope κ (dump.map .route)).foldl (remember now) none = some t →
      (reports now scope κ (dump.map .route)).getLast?.bind ObservedRoute.expiresAt = none →
      s.expiry κ = some t := by
  rw [expiry_replaceTable hκ, knownAfter]
  generalize reports now scope κ (dump.map .route) = l
  rcases List.eq_nil_or_concat l with rfl | ⟨l, r, rfl⟩
  · simp
  · rw [List.concat_eq_append]
    simp only [List.append_eq_nil_iff, List.cons_ne_nil, and_false, if_false, List.foldl_append,
      List.foldl_cons, List.foldl_nil, List.getLast?_append, List.getLast?_singleton,
      Option.some_or, Option.bind_some, expiresAt_keepExpiry]
    cases hr : r.expiresAt with
    | some t' =>
      -- The last report has an expiry of its own.
      simp only [remember, hr, Option.some_or, reduceCtorEq, false_implies, implies_true,
        iff_true]
      intro t ht
      split at ht
      · exact ht
      · cases ht
    | none =>
      have hremember : ∀ x, remember now x r = x := fun x => by simp only [remember, hr]
      simp only [hremember, Option.none_or, true_implies]
      rcases foldl_remember_cases now l with ⟨-, hnone⟩ | hsame
      · -- No report has one: what was known stays.
        simp only [hnone, reduceCtorEq, false_implies, implies_true, iff_true]
        intro t ht
        obtain ⟨hnear, hexpiry⟩ := hknown t ht
        simp [hexpiry, hnear, Option.filter_some]
      · -- An earlier report has one, which the last report does not look at.
        rw [hsame]
        have hempty : ∀ t, (none : Option ℕ) = some t → Near now t := nofun
        have hnear : ∀ t, l.foldl (remember now) none = some t → Near now t :=
          fun t ht => near_foldl_remember hempty ht
        refine forall_congr' fun t => imp_congr_right fun ht => ?_
        simp [Option.filter_eq_some_iff, hnear t ht]

/-- The confirming reads of rules, nexthop objects and addresses report no route. -/
theorem reports_asked {fs : List Filter} (hfs : ∀ f ∈ fs, ∀ family table, f ≠ .routes family table)
    (ask : Answers) : reports now scope κ (asked ask fs) = [] := by
  rw [reports, List.filterMap_eq_nil_iff]
  intro m hm
  obtain ⟨f, hf, hm⟩ := List.mem_flatMap.mp hm
  cases hask : ask f with
  | none =>
    rw [hask] at hm
    cases hm
  | some d =>
    rw [hask] at hm
    obtain ⟨e, -, rfl⟩ := List.mem_map.mp hm
    cases f with
    | routes family table => exact absurd rfl (hfs _ hf family table)
    | _ => rfl

theorem reports_resyncReads {ask : ℕ → Answers} {new : System}
    {routes rules nexthops addresses : List Filter}
    (h : Stages now scope ask s new routes rules nexthops addresses) :
    reports now scope κ (bothReads ask (routes ++ rules ++ nexthops ++ addresses))
      = reports now scope κ (resyncReads now scope s ask) := by
  have hother : ∀ f ∈ rules ++ nexthops ++ addresses, ∀ family table,
      f ≠ .routes family table := by
    rw [h.rules_eq, h.nexthops_eq, h.addresses_eq]
    simp only [confirmFilters]
    intro f hf family table
    rintro rfl
    simp only [List.mem_append] at hf
    rcases hf with (hf | hf) | hf <;> split at hf <;> simp at hf
  rw [resyncReads, ← h.routes_eq, bothReads, bothReads, List.append_assoc, List.append_assoc,
    asked_append, ← List.append_assoc, reports_append, ← List.append_assoc rules,
    reports_asked hother, List.append_nil]

/-- **A resynchronisation keeps what is known.** -/
theorem expiry_resync {known : RouteKey → Option ℕ}
    (hknown : ∀ t, known κ = some t → Near now t ∧ s.expiry κ = some t) {ask : ℕ → Answers}
    {v : DumpedView} (hv : resync now scope s ask = some v) {t : ℕ}
    (ht : knownAfter now scope known (resyncReads now scope s ask) κ = some t) :
    v.system.expiry κ = some t := by
  obtain ⟨routes, rules, nexthops, addresses, hstages⟩ := stages_of_resync hv
  have hreports := reports_resyncReads (κ := κ) hstages
  set reads := bothReads ask (routes ++ rules ++ nexthops ++ addresses) with hreads
  have hlisted : ∀ m ∈ reads, m.Listed := reads_listed _
  rw [knownAfter, ← hreports] at ht
  rw [System.expiry, hstages.new_eq, getElem?_keepExpiries, ← hreads]
  split at ht
  · cases ht
  · next hreported =>
      -- A read reported the identity, so the new view has it.
      obtain ⟨r, hr⟩ : ∃ r, (viewOf now scope reads).routes[κ]? = some r := by
        have hlast := List.getLast?_eq_some_getLast hreported
        obtain ⟨r, hr, -⟩ := (viewOf_route hlisted).1 _ ((Lib.lastTold_eq_getLast? _ _).trans hlast)
        exact ⟨r, hr⟩
      rw [hr, Option.map_some, Option.bind_some, expiresAt_keepExpiry]
      have hview : (({} : System).applyAll now scope reads).expiry κ = r.expiresAt := by
        rw [System.expiry, show ({} : System).applyAll now scope reads = viewOf now scope reads
          from rfl, hr, Option.bind_some]
      rw [← hview]
      rcases foldl_remember_cases now (reports now scope κ reads) with ⟨hnone, hkeeps⟩ | hsame
      · -- No read reported an expiry: the old view has the one that is known.
        have hempty : ({} : System).expiry κ = none := by simp [System.expiry]
        rw [hkeeps] at ht
        obtain ⟨hnear, hexpiry⟩ := hknown t ht
        rw [expiry_applyAll_eq_none hempty hnone, Option.none_or,
          show s.routes[κ]?.bind ObservedRoute.expiresAt = some t from hexpiry]
        simp [hnear, Option.filter_some]
      · have hempty : ∀ t, (none : Option ℕ) = some t →
            Near now t ∧ ({} : System).expiry κ = some t := nofun
        rw [hsame] at ht
        rw [expiry_applyAll hempty hlisted ht, Option.some_or]

end Steps

/-! ## Runs -/

namespace Watch

variable {scope : Scope} {w : Watch}

theorem near_knownAfter {now : ℕ} {known : RouteKey → Option ℕ} {ms : List Message} {κ : RouteKey}
    (hknown : ∀ t, known κ = some t → Near now t) {t : ℕ}
    (ht : knownAfter now scope known ms κ = some t) : Near now t := by
  rw [knownAfter] at ht
  split at ht
  · cases ht
  · exact near_foldl_remember hknown ht

/-- What is known stays near. -/
theorem AllNear.step (h : w.AllNear) (e : Event) : (w.step scope e).AllNear := by
  have hlater : ∀ κ t, w.known κ = some t → Near (w.now + e.elapsed) t :=
    fun κ t ht => (h κ t ht).mono (Nat.le_add_right _ _)
  obtain ⟨elapsed, action⟩ := e
  intro κ t
  cases action with
  | notification m =>
    simp only [Watch.step]
    intro ht
    split at ht
    · cases ht
    · exact near_foldl_remember (hlater κ) ht
  | reread dumps k =>
    simp only [Watch.step]
    cases readTable (w.now + elapsed) scope dumps w.system k with
    | none => exact hlater κ t
    | some dump =>
      dsimp only
      split
      · exact near_knownAfter (hlater κ)
      · exact hlater κ t
  | resync ask =>
    simp only [Watch.step]
    cases resync (w.now + elapsed) scope w.system ask with
    | none => exact hlater κ t
    | some v => exact near_knownAfter (hlater κ)

/-- **An action keeps what is known** exactly when its re-read agrees with the view. -/
theorem kept_step_iff (hnear : w.AllNear) (h : w.Kept) (e : Event) :
    (w.step scope e).Kept ↔ w.Admits scope e := by
  have hknown : ∀ κ t, w.known κ = some t →
      Near (w.now + e.elapsed) t ∧ w.system.expiry κ = some t :=
    fun κ t ht => ⟨(hnear κ t ht).mono (Nat.le_add_right _ _), h κ t ht⟩
  obtain ⟨elapsed, action⟩ := e
  cases action with
  | notification m =>
    refine iff_of_true (fun κ t ht => ?_) trivial
    simp only [step] at ht ⊢
    split at ht
    · cases ht
    · next hm => exact expiry_applyMessage (hknown κ) (Bool.eq_false_iff.mpr hm) ht
  | reread dumps k =>
    simp only [Kept, Admits, step]
    cases hread : readTable (w.now + elapsed) scope dumps w.system k with
    | none => exact iff_of_true h nofun
    | some dump =>
      simp only [Option.some.injEq, forall_eq', Agrees]
      refine forall_congr' fun κ => ?_
      by_cases hκ : κ.tableKey = k
      · simp only [hκ, if_true, true_implies]
        exact expiry_replaceTable_iff hκ (hknown κ) dump
      · simp only [hκ, if_false, false_implies, implies_true, iff_true]
        intro t ht
        rw [System.expiry, getElem?_replaceTable_of_ne hκ]
        exact h κ t ht
  | resync ask =>
    refine iff_of_true ?_ trivial
    simp only [Kept, step]
    cases hv : resync (w.now + elapsed) scope w.system ask with
    | none => exact h
    | some v => exact fun κ t ht => expiry_resync (hknown κ) hv ht

/-- Discovery stops using a route whose expiry has passed. -/
theorem kept_iff_unused :
    w.Kept ↔ ∀ κ t, w.known κ = some t → ∃ r, w.system.routes[κ]? = some r ∧
      r.expiresAt = some t ∧ ∀ ownProtocol family table later, t ≤ later →
        r ∉ Discover.candidates w.system ownProtocol family table later := by
  refine forall_congr' fun κ => forall_congr' fun t => imp_congr_right fun _ => ?_
  rw [System.expiry, Option.bind_eq_some_iff]
  refine exists_congr fun r => and_congr_right fun _ => ?_
  refine ⟨fun hr => ⟨hr, fun ownProtocol family table later hle hmem => ?_⟩, fun hr => hr.1⟩
  have hexpired : r.expired later = true := by simp [ObservedRoute.expired, hr, hle]
  have hcandidate := (List.mem_filter.mp hmem).2
  simp [hexpired] at hcandidate

/-- **A known near expiry is kept**, in every state of a run, exactly when each re-read that
reports a near expiry of an identity and then the identity without one finds that expiry in
the view. -/
theorem kept_iff (scope : Scope) (s : System) (now : ℕ) (events : List Event) :
    (∀ before after, events = before ++ after →
      ∀ κ t, (run scope { system := s, now } before).known κ = some t →
        ∃ r, (run scope { system := s, now } before).system.routes[κ]? = some r ∧
          r.expiresAt = some t ∧ ∀ ownProtocol family table later, t ≤ later →
            r ∉ Discover.candidates (run scope { system := s, now } before).system ownProtocol
              family table later) ↔
    Lib.Along (step scope) (Admits scope) { system := s, now } events := by
  have hstep : ∀ (w : Watch) (e : Event), w.AllNear ∧ w.Kept →
      ((w.step scope e).AllNear ∧ (w.step scope e).Kept ↔ w.Admits scope e) :=
    fun w e h => by rw [kept_step_iff h.1 h.2 e, and_iff_right (h.1.step e)]
  have hstart : ({ system := s, now } : Watch).AllNear ∧ ({ system := s, now } : Watch).Kept :=
    ⟨nofun, nofun⟩
  rw [← Lib.forall_prefix_iff_along hstep hstart]
  refine forall_congr' fun before => forall_congr' fun after => imp_congr_right fun _ => ?_
  have hnear : (run scope { system := s, now } before).AllNear :=
    List.foldlRecOn before _ hstart.1 fun w hw e _ => hw.step e
  rw [← kept_iff_unused]
  exact (and_iff_right hnear).symm

end Watch

namespace Sample

/-- A default route of the main table through a router, with what is left of it in clock
ticks. -/
def advertised (index : ℕ) (ticks : BitVec 32) : RouteMessage where
  header := { addressFamily := .inet6, protocol := 9, table := 254 }
  attributes := [.oif index, .gateway (.ip (.v6 0xfe800000000000000000000000000001)),
    .priority 1024, .cacheInfo ticks]

/-- The scope of the main table. -/
def mainScope : Scope := ⟨[], [254]⟩

/-- The view has a route through the second interface alone. -/
def beforeReread : Watch :=
  { system := (({} : System).apply 0 mainScope (.newRoute (advertised 4 100000))).1 }

/-- The first read has the route through the first interface, due in 20 ms, and lacks the
other one; the confirming read has both, the first without an expiry. -/
def tickReads : Dumps := fun _ n =>
  if n = 0 then some [.newRoute (advertised 3 2)]
  else some [.newRoute (advertised 3 0), .newRoute (advertised 4 100000)]

/-- The identity of the route through the first interface. -/
def advertisedKey : RouteKey where
  family := .v6
  table := 254
  destination := none
  metric := 1024
  via := .hop 3 (some (.v6 0xfe800000000000000000000000000001))

end Sample

open Sample in
/-- Both reads of one re-read: the expiry is known, the view has none, and discovery still
considers the route once it has passed. -/
theorem Watch.forgets_tickReads :
    (run mainScope beforeReread [⟨0, .reread tickReads ⟨.v6, 254⟩⟩]).known advertisedKey
      = some 20000000 ∧
    ∃ r, (run mainScope beforeReread [⟨0, .reread tickReads ⟨.v6, 254⟩⟩]).system.routes[
        advertisedKey]? = some r ∧
      r.expiresAt = none ∧
      r ∈ Discover.candidates
        (run mainScope beforeReread [⟨0, .reread tickReads ⟨.v6, 254⟩⟩]).system 4 .v6 254
          20000000 := by
  have hknown : (run mainScope beforeReread [⟨0, .reread tickReads ⟨.v6, 254⟩⟩]).known
      advertisedKey = some 20000000 := by decide +kernel
  have hroute : (run mainScope beforeReread [⟨0, .reread tickReads ⟨.v6, 254⟩⟩]).system.routes[
      advertisedKey]? = ObservedRoute.parse 0 (advertised 3 0) := by decide +kernel
  refine ⟨hknown, _, hroute, ?_, ?_⟩
  · decide +kernel
  · decide +kernel

end Polywan
