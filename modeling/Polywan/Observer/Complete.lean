import Polywan.Observer.Confirm

/-!
# Complete dumps

A dump that lists exactly what the kernel holds in a table makes the view exact there.

## Main definitions

* `Lists` — a dump is complete for a table.
* `Dumps.Complete` — all dumps of a set of tables are answered and complete.
-/

namespace Polywan

/-- A dump lists the routes of a table. -/
def Lists (now : ℕ) (K : Kernel) (k : TableKey) (dump : List RouteNetlinkMessage) : Prop :=
  ∀ r : ObservedRoute, r.tableKey = k →
    (r ∈ K ↔ ∃ m, .newRoute m ∈ dump ∧ ObservedRoute.parse now m = some r)

/-- The dumps are answered, those of the tables in `P` completely. -/
def Dumps.Complete (dumps : Dumps) (now : ℕ) (K : Kernel) (P : TableKey → Prop) : Prop :=
  ∀ k n, ∃ dump, dumps k n = some dump ∧ (P k → Lists now K k dump)

theorem Dumps.Complete.answered {dumps : Dumps} {now : ℕ} {K : Kernel} {P : TableKey → Prop}
    (h : dumps.Complete now K P) : dumps.Answered := by
  intro k n
  obtain ⟨dump, hdump, -⟩ := h k n
  simp [hdump]

section Exact

variable {now : ℕ} {scope : Scope} {K : Kernel} {k : TableKey} {dump : List RouteNetlinkMessage}

theorem Lists.append {dump' : List RouteNetlinkMessage} (h : Lists now K k dump)
    (h' : Lists now K k dump') : Lists now K k (dump ++ dump') := by
  intro r hr
  constructor
  · intro hK
    obtain ⟨m, hm, hparse⟩ := (h r hr).mp hK
    exact ⟨m, List.mem_append_left _ hm, hparse⟩
  · rintro ⟨m, hm, hparse⟩
    rcases List.mem_append.mp hm with hm | hm
    · exact (h r hr).mpr ⟨m, hm, hparse⟩
    · exact (h' r hr).mpr ⟨m, hm, hparse⟩

/-- What a complete dump tells of an identity is what the kernel holds. -/
theorem Lists.lastTold_eq_some (h : Lists now K k dump) (hd : K.Distinct scope) {κ : RouteKey}
    (hκ : κ.tableKey = k) {r : ObservedRoute} :
    Lib.lastTold (fun m => tellsRoute now scope κ (.route m)) dump = some r ↔
      r ∈ K ∧ scope.keeps r = true ∧ routeKey scope r = κ := by
  have htold : ∀ r', Lib.lastTold (fun m => tellsRoute now scope κ (.route m)) dump = some r' →
      r' ∈ K ∧ scope.keeps r' = true ∧ routeKey scope r' = κ := by
    intro r' hr'
    obtain ⟨m, hm, htells⟩ := Lib.mem_of_lastTold hr'
    cases m with
    | newRoute m =>
      obtain ⟨hparse, hboth⟩ := Option.filter_eq_some_iff.mp htells
      obtain ⟨hkeeps, hkey⟩ := (Bool.and_eq_true _ _).mp hboth
      obtain rfl := of_decide_eq_true hkey
      exact ⟨(h r' hκ).mpr ⟨m, hm, hparse⟩, hkeeps, rfl⟩
    | newLink _ | delLink _ | newAddress _ | delAddress _ | delRoute _ | newRule _ | delRule _
    | other _ => cases htells
  refine ⟨htold r, ?_⟩
  rintro ⟨hK, hkeeps, rfl⟩
  obtain ⟨m, hm, hparse⟩ := (h r hκ).mp hK
  cases hlast : Lib.lastTold (fun m => tellsRoute now scope (routeKey scope r) (.route m)) dump with
  | none =>
    have hnone := Lib.lastTold_eq_none.mp hlast _ hm
    simp [tellsRoute, hparse, hkeeps] at hnone
  | some r' =>
    obtain ⟨hK', -, hkey⟩ := htold r' hlast
    rw [hd hK' hK hkey]

/-- **A complete dump makes the view exact.** -/
theorem Lists.exact_replaceTable (h : Lists now K k dump) (hd : K.Distinct scope) (s : System) :
    Exact scope now K (s.replaceTable now scope k dump) k where
  holds := by
    intro r hr hk hkeeps
    have hκ : (routeKey scope r).tableKey = k := hk
    rw [getElem?_replaceTable_of_some hκ ((h.lastTold_eq_some hd hκ).mpr ⟨hr, hkeeps, rfl⟩)]
    exact ⟨_, rfl, shows_keepExpiry (Nat.le_refl now) _ r⟩
  only := by
    intro κ v hv hκ _
    cases hlast : Lib.lastTold (fun m => tellsRoute now scope κ (.route m)) dump with
    | none =>
      rw [getElem?_replaceTable_of_none hκ hlast] at hv
      cases hv
    | some r =>
      obtain ⟨hr, hkeeps, hkey⟩ := (h.lastTold_eq_some hd hκ).mp hlast
      exact ⟨r, hr, hkeeps, hkey⟩

variable {dumps : Dumps} {P : TableKey → Prop}

theorem Dumps.Complete.readTable (h : dumps.Complete now K P) (scope : Scope) (s : System)
    (hk : P k) :
    ∃ dump, Polywan.readTable now scope dumps s k = some dump ∧ Lists now K k dump := by
  obtain ⟨first, hfirst, hlists⟩ := h k 0
  obtain ⟨second, hsecond, hlists'⟩ := h k 1
  rw [Polywan.readTable, hfirst]
  dsimp only
  split
  · exact ⟨first ++ second, by rw [hsecond]; rfl, (hlists hk).append (hlists' hk)⟩
  · exact ⟨first, rfl, hlists hk⟩

/-- **Re-reads with complete dumps make the view exact**, on the tables read and on those
where it was. -/
theorem Dumps.Complete.exact_reread (h : dumps.Complete now K P) (hd : K.Distinct scope)
    {tables : List TableKey} {s : System} (hs : ∀ k, P k → k ∉ tables → Exact scope now K s k) :
    ∀ k, P k → Exact scope now K (reread now scope dumps s tables).1 k := by
  induction tables generalizing s with
  | nil => exact fun k hk => hs k hk List.not_mem_nil
  | cons k' tables ih =>
    obtain ⟨dump, hdump⟩ := Option.isSome_iff_exists.mp
      (readTable_isSome now scope h.answered s k')
    rw [reread, hdump]
    refine ih fun k hk hnot => ?_
    by_cases heq : k = k'
    · subst heq
      obtain ⟨dump', hdump', hlists⟩ := h.readTable scope s hk
      obtain rfl := Option.some.inj (hdump.symm.trans hdump')
      exact hlists.exact_replaceTable hd s
    · refine (hs k hk (by simp [heq, hnot])).frame (fun _ _ _ => Iff.rfl) fun κ hκ => ?_
      exact getElem?_replaceTable_of_ne (hκ ▸ heq) dump

end Exact

end Polywan
