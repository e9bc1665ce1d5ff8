import Polywan.Daemon.Run
import Polywan.Lib.Until
import Polywan.Observer.Confirm

/-!
# The tables scheduled for a re-read

A notification, a failed installation, an expired route or a Router Advertisement
schedules tables; the next pass that plans takes the whole list and reads the tables up
to the first dump that fails.  What is left of the list is forgotten, so a table stays
scheduled until it is read as long as dumps are answered.

## Main definitions

* `Daemon.scheduled` — the tables a pass has to read first.
* `Daemon.reads` — those it reads.
* `Daemon.Retained` — along a run, no scheduled table is lost.
* `ConfirmsAbsence` — what re-reads and resynchronisations may drop.
-/

namespace Polywan

namespace Daemon

variable (d : Daemon)

/-- The tables a pass at an instant has to read first, those of expired routes
included. -/
def scheduled (now : ℕ) : Std.ExtTreeSet TableKey := (d.rereadExpired now).reread

/-- The tables that a pass reads. -/
def reads (e : PassEnv) : List TableKey :=
  if (d.prepared e).isSome then
    readTables e.now d.scope e.dumps d.system (d.scheduled e.now).toList
  else []

/-- An event reads a table. -/
def Reads (k : TableKey) (ev : Event) : Prop := ∃ e, ev = .pass e ∧ k ∈ d.reads e

/-- **No re-read is lost.**  A table scheduled in a state of the run stays scheduled until
it is read; a pass that plans has read the tables of expired routes, and those scheduled
before unless the view was resynchronised since. -/
structure Retained (events : List Event) : Prop where
  kept : ∀ before middle after, events = before ++ middle ++ after →
    ∀ k ∈ (d.run before).reread, k ∈ ((d.run before).run middle).reread ∨
      Lib.EndedBy handle (fun d ev => d.Reads k ev) (d.run before) middle
  planned : ∀ before middle e after, events = before ++ middle ++ .pass e :: after →
    (((d.run before).run middle).prepared e).isSome →
    ∀ k ∈ (d.run before).reread,
      Lib.EndedBy handle (fun d ev => d.Reads k ev) (d.run before) (middle ++ [.pass e]) ∨
        ∃ e' view, .fullReconciliation e' (some view) ∈ middle
  expired : ∀ before e after, events = before ++ .pass e :: after →
    ((d.run before).prepared e).isSome →
    ∀ k ∈ (d.run before).scheduled e.now, k ∈ (d.run before).reads e

/-! ## What schedules and what reads -/

/-- Everything scheduled in one state is scheduled in another. -/
def Keeps (d d' : Daemon) : Prop := ∀ k ∈ d.reread, k ∈ d'.reread

theorem Keeps.refl : d.Keeps d := fun _ hk => hk

/-- Without a change of the list. -/
theorem Keeps.of_eq {d d' : Daemon} (h : d'.reread = d.reread) : d.Keeps d' := fun _ hk =>
  h ▸ hk

theorem Keeps.trans {d₁ d₂ d₃ : Daemon} (h : d₁.Keeps d₂) (h' : d₂.Keeps d₃) : d₁.Keeps d₃ :=
  fun k hk => h' k (h k hk)

/-- Scheduling more tables. -/
theorem Keeps.of_insertMany {d d' : Daemon} {tables : List TableKey}
    (h : d'.reread = d.reread.insertMany tables) : d.Keeps d' := by
  intro k hk
  rw [h, Std.ExtTreeSet.mem_insertMany_list]
  exact .inl hk

theorem keeps_failed (now : ℕ) (op : Option Op) (attempt : Attempt) :
    d.Keeps (d.failed now op attempt) := Keeps.of_insertMany rfl

theorem keeps_interfaceChanged (ifindex : ℕ) (link : Bool) :
    d.Keeps (d.interfaceChanged ifindex link) := by
  unfold interfaceChanged
  split
  · exact Keeps.of_eq rfl
  · dsimp only
    split <;> exact Keeps.of_insertMany rfl

theorem keeps_react (change : Change) : d.Keeps (d.react change) := by
  cases change with
  | link i | address i => exact d.keeps_interfaceChanged i _
  | route _ _ _ | rule _ _ | nexthop _ | none => exact Keeps.of_eq rfl

/-- A notification schedules the table that it may leave stale. -/
theorem mem_reread_routeNotification (now : ℕ) (m : RouteNetlinkMessage) (port : ℕ)
    (flags : BitVec 16) {k : TableKey}
    (hk : k ∈ d.reread ∨ d.staleTable now m flags = some k) :
    k ∈ (d.routeNotification now m port flags).reread := by
  have hrule : ∀ (d : Daemon) (r : Option ObservedRule),
      (r.elim d (d.ruleRemoved now)).reread = d.reread := by
    intro d r
    cases r with
    | none => rfl
    | some r =>
      simp only [Option.elim_some, ruleRemoved]
      split <;> rfl
  have hroute : ∀ (d : Daemon) (k : Option TableKey),
      (k.elim d (d.routeRemoved now)).reread = d.reread := by
    intro d k
    cases k with
    | none => rfl
    | some k =>
      simp only [Option.elim_some, routeRemoved]
      split <;> rfl
  refine keeps_react _ _ k ?_
  rw [hroute, hrule]
  simpa [Std.ExtTreeSet.mem_insertMany_list] using hk

theorem keeps_notification (now : ℕ) (m : Message) (port : ℕ) (flags : BitVec 16) :
    d.Keeps (d.notification now m port flags) := by
  have hnexthop : ∀ id deleted, d.Keeps (d.nexthopNotification now id deleted m) := by
    intro id deleted
    unfold nexthopNotification
    dsimp only
    split
    · exact Keeps.of_eq rfl
    · cases deleted with
      | true => exact Keeps.of_insertMany rfl
      | false => exact Keeps.of_eq rfl
  unfold notification
  split
  · exact fun k hk => d.mem_reread_routeNotification now _ port flags (.inl hk)
  · exact hnexthop _ _
  · exact hnexthop _ _
  · exact Keeps.refl d

theorem keeps_routerAdvertisement (ifindex : ℕ) : d.Keeps (d.routerAdvertisement ifindex) := by
  unfold routerAdvertisement
  split
  · exact Keeps.refl d
  · dsimp only
    split
    · exact Keeps.refl d
    · exact Keeps.of_insertMany rfl

theorem reread_dispatched (e : PassEnv) :
    (d.dispatched e).reread = d.reread ∧ (d.dispatched e).expiryChecked = d.expiryChecked := by
  refine d.dispatched_induction
    (P := fun d' => d'.reread = d.reread ∧ d'.expiryChecked = d.expiryChecked) e ?_ ⟨rfl, rfl⟩
  intro d' scope h
  unfold dispatchScope
  dsimp only
  split <;> exact h

/-- The view and the list that a pass which compares has. -/
theorem reread_of_prepared {e : PassEnv} {p : Daemon} (h : d.prepared e = some p) :
    p.cfg = d.cfg ∧ p.reread = ∅ ∧
      p.system = (Polywan.reread e.now d.scope e.dumps d.system (d.scheduled e.now).toList).1 := by
  have hcore := d.core_dispatched e
  obtain ⟨hreread, hchecked⟩ := d.reread_dispatched e
  have hcfg : (d.dispatched e).cfg = d.cfg := congrArg Core.cfg hcore
  have hsystem : (d.dispatched e).system = d.system := congrArg Core.system hcore
  unfold prepared at h
  split at h
  · cases h
  · split at h
    · cases h
    · obtain rfl := Option.some.inj h
      refine ⟨hcfg, rfl, ?_⟩
      simp only [refreshed, installed, rereadExpired, scheduled, discoveryDefaults, Daemon.scope,
        Daemon.protocol, hcfg, hsystem, hreread, hchecked]
      rfl

section Prepared

variable {d} {p : Daemon} {e : PassEnv} (hp : d.prepared e = some p)
include hp

theorem scope_of_prepared : p.scope = d.scope :=
  congrArg Scope.of (d.reread_of_prepared hp).1

theorem protocol_of_prepared : p.protocol = d.protocol :=
  congrArg (fun c : Config => c.routing.routeProtocol) (d.reread_of_prepared hp).1

theorem wellFormed_of_prepared (hw : d.system.WellFormed d.scope) :
    p.system.WellFormed d.scope := by
  rw [(d.reread_of_prepared hp).2.2]
  exact hw.reread _ _ _

end Prepared

/-- A pass that does not plan leaves the list alone. -/
theorem keeps_step_of_not_prepared {e : PassEnv} (h : d.prepared e = none) :
    d.Keeps (d.step e) := by
  refine Keeps.of_eq ((?_ : _ = _).trans (d.reread_dispatched e).1)
  unfold prepared at h
  unfold step
  dsimp only
  split at h
  · next hi => rw [if_pos hi]
  · next hi =>
      rw [if_neg hi]
      split at h
      · next hg =>
          rw [if_pos hg]
          rfl
      · cases h

/-- An event other than a pass drops nothing. -/
theorem keeps_handle {ev : Event} (h : ∀ e, ev ≠ .pass e) : d.Keeps (d.handle ev) := by
  cases ev with
  | notification now m port flags => exact d.keeps_notification now m port flags
  | routerAdvertisement i => exact d.keeps_routerAdvertisement i
  | round k r =>
    refine Keeps.of_eq ?_
    simp only [handle, round]
    split <;> rfl
  | drain u drain => exact Keeps.of_eq rfl
  | reload c =>
    refine Keeps.of_eq ?_
    simp only [handle, reload]
    split <;> rfl
  | fullReconciliation e view =>
    refine Keeps.of_eq ?_
    simp only [handle, fullReconciliation]
    split
    · rfl
    · split <;> rfl
  | nftApplied now seq result =>
    simp only [handle, nftApplied]
    split
    · exact Keeps.refl d
    · next f _ =>
        cases result with
        | ok listing => exact Keeps.of_eq rfl
        | error s => exact Keeps.trans (Keeps.of_eq rfl) (keeps_failed _ now none (.ops f.attempt))
  | nftInspected now seq listing =>
    refine Keeps.of_eq ?_
    simp only [handle, nftInspected, checkNft]
    split
    · split
      · rfl
      · split
        · rfl
        · split <;> rfl
    · rfl
  | sysctlsDone now seq scope result recorded =>
    simp only [handle, sysctlsDone]
    split
    · exact Keeps.of_eq rfl
    · split
      · exact Keeps.of_eq rfl
      · exact Keeps.of_eq rfl
      · exact Keeps.trans (Keeps.of_eq rfl) (keeps_failed _ now none .sysctls)
  | handedBack now seq result recorded =>
    simp only [handle, handedBack]
    split
    · exact Keeps.of_eq rfl
    · next attempt _ =>
        split
        · exact Keeps.of_eq rfl
        · exact Keeps.trans (Keeps.of_eq rfl) (keeps_failed _ now none attempt)
  | pass e => exact absurd rfl (h e)

/-! ## Runs whose dumps answer -/

/-- No dump of the event fails. -/
def Event.Answered (ev : Event) : Prop := ∀ e, ev = .pass e → e.dumps.Answered

/-- A pass that plans reads every table scheduled. -/
theorem mem_reads {e : PassEnv} (h : e.dumps.Answered) (hp : (d.prepared e).isSome) {k : TableKey}
    (hk : k ∈ d.scheduled e.now) : k ∈ d.reads e := by
  rw [reads, if_pos hp, (readTables_eq_iff _ _ _ _ _).mpr (reread_succeeds _ _ h _ _)]
  exact Std.ExtTreeSet.mem_toList.mpr hk

/-- The tables of expired routes come on top. -/
theorem mem_scheduled {k : TableKey} (hk : k ∈ d.reread) (now : ℕ) : k ∈ d.scheduled now := by
  rw [scheduled, rereadExpired, Std.ExtTreeSet.mem_insertMany_list]
  exact .inl hk

/-- One event: a table scheduled stays so, or is read. -/
theorem mem_reread_handle {ev : Event} (h : ev.Answered) {k : TableKey} (hk : k ∈ d.reread) :
    k ∈ (d.handle ev).reread ∨ d.Reads k ev := by
  by_cases hpass : ∃ e, ev = .pass e
  · obtain ⟨e, rfl⟩ := hpass
    cases hp : d.prepared e with
    | none => exact .inl (d.keeps_step_of_not_prepared hp k hk)
    | some p =>
      exact .inr ⟨e, rfl, d.mem_reads (h e rfl) (by simp [hp]) (d.mem_scheduled hk e.now)⟩
  · exact .inl (d.keeps_handle (fun e he => hpass ⟨e, he⟩) k hk)

/-- **In every run whose dumps answer, no re-read is lost.** -/
theorem retained_run (events : List Event) (h : ∀ ev ∈ events, ev.Answered) :
    d.Retained events := by
  have hkept : ∀ before middle after, events = before ++ middle ++ after →
      ∀ k ∈ (d.run before).reread, k ∈ ((d.run before).run middle).reread ∨
        Lib.EndedBy handle (fun d ev => d.Reads k ev) (d.run before) middle := by
    intro before middle after hevents k hk
    have hstep : ∀ (d : Daemon) (ev : Event), ev.Answered → k ∈ d.reread →
        k ∈ (d.handle ev).reread ∨ d.Reads k ev :=
      fun d ev hev hk => d.mem_reread_handle hev hk
    refine Lib.pending_or_endedBy hstep (fun ev hev => h ev ?_) hk
    rw [hevents]
    exact List.mem_append_left _ (List.mem_append_right _ hev)
  refine ⟨hkept, ?_, ?_⟩
  · intro before middle e after hevents hp k hk
    have hanswered : e.dumps.Answered := h (.pass e) (by simp [hevents]) e rfl
    rcases hkept before middle (.pass e :: after) hevents k hk with hpending | hended
    · refine .inl ⟨middle, .pass e, [], rfl, e, rfl, ?_⟩
      exact mem_reads _ hanswered hp (mem_scheduled _ hpending e.now)
    · obtain ⟨a, ev, b, rfl, hread⟩ := hended
      exact .inl ⟨a, ev, b ++ [.pass e], by simp, hread⟩
  · intro before e after hevents hp k hk
    exact mem_reads _ (h (.pass e) (by simp [hevents]) e rfl) hp hk

end Daemon

/-! ## Resynchronisation -/

/-- After an old view and for given answers of the kernel: a resynchronisation or a re-read
drops an entry only when both reads lack it, and a resynchronisation of which a dump fails
leaves the old view in force. -/
structure ConfirmsAbsence (now : ℕ) (scope : Scope) (ask : ℕ → Answers) (dumps : Dumps)
    (old : System) : Prop where
  resynced : ∀ v, resync now scope old ask = some v →
    ∃ confirming, (∀ f ∈ confirming, (ask 1 f).isSome) ∧
      Resynced now scope old v.system (firstRead ask) confirming (asked (ask 1) confirming)
  reread : ∀ tables : Std.ExtTreeSet TableKey,
    Reread now scope dumps old (Polywan.reread now scope dumps old tables.toList).1 tables.toList
  failed : ∀ d : Daemon, d.system = old → resync now scope old ask = none → ∀ e,
    (d.fullReconciliation e ((resync now scope old ask).map DumpedView.system)).system = old

namespace Sample

/-- A second address of the first interface. -/
def readdressed : Daemon.Event :=
  .notification 0 (.route (.newAddress (address 3 (.v4 0x0a000003)))) 0 0

/-- A pass whose dumps answer with the route of the network. -/
def answered : PassEnv :=
  { now := 0
    dumps := fun k _ => some (if k = ⟨.v4, 254⟩ then
      [.newRoute (defaultRoute 3 (.v4 0x0a000001)), .newRoute (defaultRoute 4 (.v4 0x0a010001))]
      else []) }

/-- What the new address leads to, in one computation. -/
theorem readdressed_facts :
    (⟨.v4, 254⟩ : TableKey) ∈ ((alone ∅).run [readdressed]).reread ∧
      (((alone ∅).run [readdressed]).prepared quiet).isSome ∧
      ((alone ∅).run [readdressed]).reads quiet = [] ∧
      ((alone ∅).run [readdressed, .pass quiet]).reread = ∅ ∧
      ((alone ∅).run [readdressed, .pass answered]).reread = ∅ := by
  decide +kernel

end Sample

open Sample in
/-- With dumps that answer, the table of the gateway is read by the pass. -/
theorem Daemon.retained_run_sample :
    ((⟨.v4, 254⟩ : TableKey) ∈ ((alone ∅).run [readdressed]).reread ∧
      ((alone ∅).run [readdressed, .pass answered]).reread = ∅) ∧
      (alone ∅).Retained [readdressed, .pass answered] := by
  obtain ⟨hscheduled, -, -, -, hempty⟩ := readdressed_facts
  refine ⟨⟨hscheduled, hempty⟩, Daemon.retained_run _ _ fun ev hev e he k n => ?_⟩
  subst he
  simp only [readdressed, List.mem_cons, reduceCtorEq, Daemon.Event.pass.injEq, List.not_mem_nil,
    or_false, false_or] at hev
  rw [hev]
  rfl

open Sample in
/-- The first dump of the pass fails: it plans without a re-read, and the tables that the
new address scheduled are forgotten. -/
theorem Daemon.failed_dump_forgets :
    ((⟨.v4, 254⟩ : TableKey) ∈ ((alone ∅).run [readdressed]).reread ∧
      (((alone ∅).run [readdressed]).prepared quiet).isSome ∧
      ((alone ∅).run [readdressed]).reads quiet = [] ∧
      ((alone ∅).run [readdressed, .pass quiet]).reread = ∅) ∧
      ¬ (alone ∅).Retained [readdressed, .pass quiet] := by
  obtain ⟨hscheduled, hprepared, hreads, hempty, -⟩ := readdressed_facts
  refine ⟨⟨hscheduled, hprepared, hreads, hempty⟩, fun hretained => ?_⟩
  have hkept := hretained.kept [readdressed] [.pass quiet] [] rfl ⟨.v4, 254⟩ hscheduled
  rcases hkept with hkept | ⟨before, ev, after, hsplit, e, rfl, hread⟩
  · have hmem : (⟨.v4, 254⟩ : TableKey) ∈ ((alone ∅).run [readdressed, .pass quiet]).reread := hkept
    rw [hempty] at hmem
    simp at hmem
  · rcases List.append_eq_singleton_iff.mp hsplit.symm with ⟨rfl, hcons⟩ | ⟨-, hcons⟩
    · obtain rfl := Daemon.Event.pass.inj (List.cons.inj hcons).1
      have hmem : (⟨.v4, 254⟩ : TableKey) ∈ ((alone ∅).run [readdressed]).reads quiet := hread
      rw [hreads] at hmem
      cases hmem
    · cases hcons

end Polywan
