import Mathlib.Data.List.Nodup
import Polywan.Api.Sockets

/-!
# What the manager serves and publishes

The manager starts with the sockets of the configuration, then a reload prepares, commits or
takes back.  Each command leaves a record of the published sockets.  Between commands,
anything else may put an object at a path or remove it.

## Main definitions

* `Api.Service`, `Api.Service.step` — the manager with its record and its surroundings.
* `Api.Tracks` — the sockets at their paths are those of the listeners.
* `Api.Manager.Ready` — a preparation can be committed.
* `Api.Service.Orderly` — what a step may change.

## Main results

* `Api.Manager.mem_serving_commit` — what a commit serves.
* `Api.Service.Sound.step` — every command keeps listeners, files and record in agreement.
* `Api.Service.orderly_run` — listeners change by commits only.
-/

namespace Polywan.Api

/-! ## Places -/

/-- The place of a listener: a path, or an address and its port. -/
def Address.place : Address → String ⊕ (IpAddr × BitVec 16)
  | .unix path _ => .inl path
  | .tcp address port => .inr (address, port)

theorem Address.samePlace_iff {a b : Address} : a.samePlace b = true ↔ a.place = b.place := by
  cases a <;> cases b <;> simp [Address.samePlace, Address.place]

/-- The place of an endpoint. -/
def Endpoint.place (e : Endpoint) : String ⊕ (IpAddr × BitVec 16) := e.address.place

namespace Listener

def place (l : Listener) : String ⊕ (IpAddr × BitVec 16) := l.endpoint.place

/-- The socket of a listener is at its path. -/
def Placed (l : Listener) : Prop := ∀ p, l.published = some p → l.place = .inl p.path

end Listener

/-- The sockets of listeners. -/
def sockets (ls : List Listener) : List Published := ls.filterMap Listener.published

theorem mem_sockets {ls : List Listener} {p : Published} :
    p ∈ sockets ls ↔ ∃ l ∈ ls, l.published = some p := List.mem_filterMap

/-! ## Files -/

/-- The files at the paths: of the sockets that were published (`all`), those still there are
the ones of the listeners (`held`), but for what something else took away. -/
structure Tracks (files : Std.ExtTreeMap String ℕ) (inode : ℕ)
    (held all taken : List Published) : Prop where
  subset : ∀ p ∈ held, p ∈ all
  all_le : ∀ p ∈ all, p.inode ≤ inode
  taken_le : ∀ p ∈ taken, p.inode ≤ inode
  files_le : ∀ (k : String) i, files[k]? = some i → i ≤ inode
  present : ∀ p, p ∈ all ∧ files[p.path]? = some p.inode ↔ p ∈ held ∧ p ∉ taken

section Tracks

variable {files : Std.ExtTreeMap String ℕ} {inode : ℕ} {held held' all taken : List Published}

/-- A socket is published at a path that no listener has. -/
theorem Tracks.publish (h : Tracks files inode held all taken) {path : String}
    (hpath : ∀ p ∈ held, p.path ≠ path) :
    Tracks (files.insert path (inode + 1)) (inode + 1) (held ++ [⟨path, inode + 1⟩])
      (all ++ [⟨path, inode + 1⟩]) taken where
  subset p hp := by
    rcases List.mem_append.mp hp with hp | hp
    · exact List.mem_append_left _ (h.subset p hp)
    · exact List.mem_append_right _ hp
  all_le p hp := by
    rcases List.mem_append.mp hp with hp | hp
    · exact (h.all_le p hp).trans (Nat.le_succ _)
    · obtain rfl := List.mem_singleton.mp hp
      exact le_rfl
  taken_le p hp := (h.taken_le p hp).trans (Nat.le_succ _)
  files_le k i hi := by
    rw [Std.ExtTreeMap.getElem?_insert] at hi
    split at hi
    · exact (Option.some.inj hi).ge
    · exact (h.files_le k i hi).trans (Nat.le_succ _)
  present p := by
    simp only [List.mem_append, List.mem_singleton, Std.ExtTreeMap.getElem?_insert,
      Std.compare_eq_iff_eq]
    by_cases hnew : p = ⟨path, inode + 1⟩
    · subst hnew
      have hfree : (⟨path, inode + 1⟩ : Published) ∉ taken := fun hp => by
        have : inode + 1 ≤ inode := h.taken_le _ hp
        omega
      simp [hfree]
    · simp only [hnew, or_false]
      by_cases heq : path = p.path
      · -- The path has a new object.
        have hfile : ¬ (p ∈ all ∧ some (inode + 1) = some p.inode) := by
          rintro ⟨hp, hinode⟩
          have := h.all_le p hp
          have : inode + 1 = p.inode := Option.some.inj hinode
          omega
        simp only [heq, if_true]
        exact iff_of_false hfile fun hp => hpath p hp.1 heq.symm
      · simp only [heq, if_false]
        exact h.present p

/-- Some listeners remove their sockets. -/
theorem Tracks.unpublish (h : Tracks files inode held all taken) (gone : List Listener)
    (hheld : ∀ p, p ∈ held' ↔ p ∈ held ∧ p ∉ sockets gone) :
    Tracks (gone.foldl Api.unpublish files) inode held' all taken := by
  have hfiles : ∀ (k : String) i, (gone.foldl Api.unpublish files)[k]? = some i ↔
      files[k]? = some i ∧ (⟨k, i⟩ : Published) ∉ sockets gone := by
    intro k i
    rw [getElem?_foldl_unpublish, Option.filter_eq_some_iff]
    simp [mem_sockets]
  refine ⟨fun p hp => h.subset p ((hheld p).mp hp).1, h.all_le, h.taken_le, fun k i hi => ?_,
    fun p => ?_⟩
  · exact h.files_le k i ((hfiles k i).mp hi).1
  · rw [hfiles, hheld, ← and_assoc, h.present, and_right_comm]

/-- Something else puts an object at a path, or removes the one there. -/
theorem Tracks.disturb (h : Tracks files inode held all taken) (path : String) (object : Bool) :
    Tracks (if object then files.insert path (inode + 1) else files.erase path) (inode + 1)
      held all (taken ++ (files[path]?).toList.map (⟨path, ·⟩)) := by
  have hfiles : ∀ (k : String) i, k ≠ path →
      ((if object then files.insert path (inode + 1) else files.erase path)[k]? = some i ↔
        files[k]? = some i) := by
    intro k i hk
    cases object <;>
      simp [Std.ExtTreeMap.getElem?_insert, Std.ExtTreeMap.getElem?_erase, Ne.symm hk]
  have hpath : ∀ i, (if object then files.insert path (inode + 1) else files.erase path)[path]? =
      some i → i = inode + 1 := by
    intro i hi
    cases object with
    | false => simp at hi
    | true => simpa using hi.symm
  refine ⟨h.subset, fun p hp => (h.all_le p hp).trans (Nat.le_succ _), fun p hp => ?_,
    fun k i hi => ?_, fun p => ?_⟩
  · rcases List.mem_append.mp hp with hp | hp
    · exact (h.taken_le p hp).trans (Nat.le_succ _)
    · obtain ⟨i, hi, rfl⟩ := List.mem_map.mp hp
      exact (h.files_le path i (Option.mem_toList.mp hi)).trans (Nat.le_succ _)
  · by_cases hk : k = path
    · subst hk
      exact (hpath i hi).le
    · exact (h.files_le k i ((hfiles k i hk).mp hi)).trans (Nat.le_succ _)
  · have hpresent := h.present p
    by_cases hk : p.path = path
    · -- What was there is gone, and what is there now was not published.
      refine iff_of_false ?_ ?_
      · rintro ⟨hp, hfile⟩
        rw [hk] at hfile
        have := hpath _ hfile
        have := h.all_le p hp
        omega
      · rintro ⟨hp, htaken⟩
        rw [List.mem_append, not_or] at htaken
        have hfile := (hpresent.mpr ⟨hp, htaken.1⟩).2
        refine htaken.2 (List.mem_map.mpr ⟨p.inode, ?_, ?_⟩)
        · rw [← hk, hfile]
          simp
        · rw [← hk]
    · have hother : p ∉ (files[path]?).toList.map (⟨path, ·⟩ : ℕ → Published) := by
        intro hp
        obtain ⟨i, -, rfl⟩ := List.mem_map.mp hp
        exact hk rfl
      rw [hfiles _ _ hk, hpresent, List.mem_append, not_or]
      simp [hother]

end Tracks

/-! ## Commands -/

namespace Manager

variable {m m' : Manager} {o : Outcomes} {all taken : List Published}

/-- The listeners, served or prepared. -/
def listeners (m : Manager) : List Listener := m.serving ++ m.prepared

/-- Listeners at different places, and their sockets. -/
structure Holds (m : Manager) (all taken : List Published) : Prop where
  places : (m.listeners.map Listener.place).Nodup
  placed : ∀ l ∈ m.listeners, l.Placed
  tracks : Tracks m.files m.inode (sockets m.listeners) all taken

theorem Holds.eq_of_place (h : m.Holds all taken) {l l' : Listener} (hl : l ∈ m.listeners)
    (hl' : l' ∈ m.listeners) (hplace : l.place = l'.place) : l = l' :=
  List.inj_on_of_nodup_map h.places hl hl' hplace

/-- A socket belongs to one listener. -/
theorem Holds.eq_of_published (h : m.Holds all taken) {l l' : Listener} (hl : l ∈ m.listeners)
    (hl' : l' ∈ m.listeners) {p : Published} (hp : l.published = some p)
    (hp' : l'.published = some p) : l = l' :=
  h.eq_of_place hl hl' ((h.placed l hl p hp).trans (h.placed l' hl' p hp').symm)

/-- The places of the listeners that stay. -/
theorem sublist_places (keep : Listener → Option Listener)
    (hkeep : ∀ l l', keep l = some l' → l'.place = l.place) (ls : List Listener) :
    ((ls.filterMap keep).map Listener.place).Sublist (ls.map Listener.place) := by
  induction ls with
  | nil => exact List.Sublist.refl _
  | cons l ls ih =>
    cases hk : keep l with
    | none =>
      rw [List.filterMap_cons_none hk]
      exact ih.cons _
    | some l' =>
      rw [List.filterMap_cons_some hk, List.map_cons, List.map_cons, hkeep l l' hk]
      exact ih.cons_cons _

/-- Some listeners are closed; the others stay, perhaps with another access. -/
theorem Holds.close (h : m.Holds all taken) (keep : Listener → Option Listener)
    (hm' : m'.listeners = m.listeners.filterMap keep)
    (hkeep : ∀ l l', keep l = some l' → l'.published = l.published ∧ l'.place = l.place)
    (hinode : m'.inode = m.inode)
    (hfiles : m'.files = (m.listeners.filter fun l => (keep l).isNone).foldl unpublish m.files) :
    m'.Holds all taken := by
  have hmem : ∀ l' ∈ m'.listeners, ∃ l ∈ m.listeners, keep l = some l' := by
    intro l' hl'
    rw [hm', List.mem_filterMap] at hl'
    exact hl'
  refine ⟨?_, fun l' hl' p hp => ?_, ?_⟩
  · rw [hm']
    exact h.places.sublist (sublist_places keep (fun l l' hk => (hkeep l l' hk).2) _)
  · obtain ⟨l, hl, hk⟩ := hmem l' hl'
    obtain ⟨hpublished, hplace⟩ := hkeep l l' hk
    rw [hplace]
    exact h.placed l hl p (hpublished ▸ hp)
  · rw [hinode, hfiles]
    refine h.tracks.unpublish _ fun p => ?_
    simp only [mem_sockets, List.mem_filter, not_exists, not_and, and_imp]
    constructor
    · rintro ⟨l', hl', hp⟩
      obtain ⟨l, hl, hk⟩ := hmem l' hl'
      have hpublished := (hkeep l l' hk).1
      refine ⟨⟨l, hl, hpublished ▸ hp⟩, fun g hg hnone hgp => ?_⟩
      obtain rfl := h.eq_of_published hl hg (hpublished ▸ hp) hgp
      rw [hk] at hnone
      cases hnone
    · rintro ⟨⟨l, hl, hp⟩, hgone⟩
      cases hk : keep l with
      | none => exact absurd hp (hgone l hl (by rw [hk]; rfl))
      | some l' =>
        refine ⟨l', ?_, (hkeep l l' hk).1.trans hp⟩
        rw [hm', List.mem_filterMap]
        exact ⟨l, hl, hk⟩

/-- What was prepared is taken back. -/
theorem Holds.discard (h : m.Holds all taken) : m.discard.Holds all taken := by
  have hfirst : ∀ l ∈ m.serving, (if l ∈ m.serving then some l else none) = some l :=
    fun l hl => if_pos hl
  have hsecond : ∀ l ∈ m.prepared, (if l ∈ m.serving then some l else none) = none := by
    intro l hl
    refine if_neg fun hserving => ?_
    have hnodup := h.places
    rw [listeners, List.map_append] at hnodup
    exact List.disjoint_of_nodup_append hnodup (List.mem_map_of_mem hserving)
      (List.mem_map_of_mem hl)
  refine h.close (fun l => if l ∈ m.serving then some l else none) ?_ (fun l l' hk => ?_) rfl ?_
  · have hlisteners : m.listeners = m.serving ++ m.prepared := rfl
    rw [hlisteners, List.filterMap_append, List.filterMap_congr hfirst,
      List.filterMap_congr hsecond]
    simp [listeners, Manager.discard]
  · obtain ⟨-, hsame⟩ := Option.ite_none_right_eq_some.mp hk
    obtain rfl := Option.some.inj hsame
    exact ⟨rfl, rfl⟩
  · have hnone : (m.serving.filter fun l => (if l ∈ m.serving then some l else none).isNone) = [] :=
      List.filter_eq_nil_iff.mpr fun l hl => by rw [hfirst l hl]; simp
    have hall : (m.prepared.filter fun l => (if l ∈ m.serving then some l else none).isNone) =
        m.prepared := List.filter_eq_self.mpr fun l hl => by rw [hsecond l hl]; rfl
    rw [listeners, List.filter_append, hnone, hall, List.nil_append]
    rfl

theorem sockets_append (ls : List Listener) (b : Listener) :
    sockets (ls ++ [b]) = sockets ls ++ b.published.toList := by
  rw [sockets, sockets, List.filterMap_append]
  cases hb : b.published <;> simp [hb]

/-- A listener at a new place. -/
theorem Holds.add (h : m.Holds all taken) {b : Listener}
    (hm' : m'.listeners = m.listeners ++ [b]) (hnew : ∀ l ∈ m.listeners, l.place ≠ b.place)
    (hplaced : b.Placed)
    (htracks : Tracks m'.files m'.inode (sockets m.listeners ++ b.published.toList)
      (all ++ b.published.toList) taken) :
    m'.Holds (all ++ b.published.toList) taken := by
  refine ⟨?_, fun l hl => ?_, ?_⟩
  · rw [hm', List.map_append, List.nodup_append]
    refine ⟨h.places, List.nodup_singleton _, fun x hx y hy => ?_⟩
    obtain ⟨l, hl, rfl⟩ := List.mem_map.mp hx
    obtain rfl := List.mem_singleton.mp hy
    exact hnew l hl
  · rw [hm'] at hl
    rcases List.mem_append.mp hl with hl | hl
    · exact h.placed l hl
    · obtain rfl := List.mem_singleton.mp hl
      exact hplaced
  · rw [hm', sockets_append]
    exact htracks

/-- The socket of a new listener. -/
theorem Holds.publish (h : m.Holds all taken) {e : Endpoint} {path : String} {access : Access}
    (haddress : e.address = .unix path access) (hnew : ∀ l ∈ m.listeners, l.place ≠ e.place)
    (hlisteners : m'.listeners = m.listeners ++ [⟨e, some ⟨path, m.inode + 1⟩⟩])
    (hfiles : m'.files = m.files.insert path (m.inode + 1)) (hinode : m'.inode = m.inode + 1) :
    m'.Holds (all ++ [⟨path, m.inode + 1⟩]) taken := by
  have hplace : e.place = .inl path := by rw [Endpoint.place, haddress]; rfl
  refine h.add hlisteners hnew (fun p hp => ?_) ?_
  · obtain rfl := Option.some.inj hp
    exact hplace
  · rw [hfiles, hinode]
    refine h.tracks.publish fun p hp hpath => ?_
    obtain ⟨l, hl, hlp⟩ := mem_sockets.mp hp
    exact hnew l hl (by rw [h.placed l hl p hlp, hplace, hpath])

/-- A new listener without a socket file. -/
theorem Holds.listen (h : m.Holds all taken) {e : Endpoint}
    (hnew : ∀ l ∈ m.listeners, l.place ≠ e.place)
    (hlisteners : m'.listeners = m.listeners ++ [⟨e, none⟩]) (hfiles : m'.files = m.files)
    (hinode : m'.inode = m.inode) : m'.Holds all taken := by
  have hadd := h.add hlisteners hnew (fun p hp => by cases hp)
    (by rw [hfiles, hinode]; simpa using h.tracks)
  simpa using hadd

/-- An endpoint of a new place is bound. -/
theorem Holds.bind (h : m.Holds all taken) {e : Endpoint}
    (hnew : ∀ l ∈ m.listeners, l.place ≠ e.place) (hbind : m.bind o e = some m') :
    ∃ b, b.endpoint = e ∧ m'.serving = m.serving ∧ m'.prepared = m.prepared ++ [b] ∧
      m'.Holds (all ++ b.published.toList) taken ∧
      ∀ (k : String) i, m.files[k]? = some i → m'.files[k]? = some i := by
  simp only [Manager.bind] at hbind
  split at hbind
  · cases hbind
  · split at hbind
    · next path access haddress =>
        split at hbind
        · cases hbind
        · next hfree =>
            obtain rfl := Option.some.inj hbind
            refine ⟨⟨e, some ⟨path, m.inode + 1⟩⟩, rfl, rfl, rfl, ?_, fun k i hi => ?_⟩
            · exact h.publish haddress hnew (by simp [listeners]) rfl rfl
            · -- The path was free.
              have hk : path ≠ k := by
                rintro rfl
                have hnone : m.files[path]? = none := by simpa using hfree
                rw [hnone] at hi
                cases hi
              simpa [Std.ExtTreeMap.getElem?_insert, hk] using hi
    · obtain rfl := Option.some.inj hbind
      refine ⟨⟨e, none⟩, rfl, rfl, rfl, ?_, fun k i hi => hi⟩
      rw [Option.toList_none, List.append_nil]
      refine h.listen hnew ?_ rfl rfl
      simp [listeners]

/-- What can be committed: the endpoints of a preparation are served or prepared, and no
listener changes its role. -/
structure Ready (m : Manager) (wanted : List Endpoint) : Prop where
  places : (wanted.map Endpoint.place).Nodup
  covers : ∀ e ∈ wanted, (∃ l ∈ m.serving, l.place = e.place ∧ l.endpoint.role = e.role) ∨
    ∃ b ∈ m.prepared, b.endpoint = e
  prepared : ∀ b ∈ m.prepared, b.endpoint ∈ wanted

/-- What a preparation binds. -/
structure Bound (m m' : Manager) (ok : Bool) (all taken : List Published)
    (endpoints : List Endpoint) : Prop where
  serving : m'.serving = m.serving
  holds : m'.Holds (all ++ sockets m'.prepared) taken
  files : ∀ (k : String) i, m.files[k]? = some i → m'.files[k]? = some i
  grows : ∀ b ∈ m.prepared, b ∈ m'.prepared
  prepared : ∀ b ∈ m'.prepared, b ∈ m.prepared ∨ b.endpoint ∈ endpoints
  covers : ok = true → ∀ e ∈ endpoints,
    (∃ l ∈ m.serving, l.place = e.place ∧ l.endpoint.role = e.role) ∨
      ∃ b ∈ m'.prepared, b.endpoint = e

theorem bound_bindAll (o : Outcomes) {endpoints : List Endpoint}
    (hplaces : (endpoints.map Endpoint.place).Nodup)
    (hnew : ∀ b ∈ m.prepared, ∀ e ∈ endpoints, b.place ≠ e.place)
    (h : m.Holds (all ++ sockets m.prepared) taken) :
    Bound m (m.bindAll o endpoints).1 (m.bindAll o endpoints).2 all taken endpoints := by
  induction endpoints generalizing m with
  | nil =>
    exact ⟨rfl, h, fun _ _ hi => hi, fun _ hb => hb, fun _ hb => .inl hb,
      fun _ _ he => by cases he⟩
  | cons e rest ih =>
    rw [List.map_cons, List.nodup_cons] at hplaces
    have hrest : ∀ b ∈ m.prepared, ∀ e ∈ rest, b.place ≠ e.place :=
      fun b hb e' he' => hnew b hb e' (List.mem_cons_of_mem e he')
    have hstop : Bound m m false all taken (e :: rest) :=
      ⟨rfl, h, fun _ _ hi => hi, fun _ hb => hb, fun _ hb => .inl hb, fun hfalse => by cases hfalse⟩
    simp only [bindAll]
    split
    · next l hfind =>
        split
        · exact hstop
        · next hrole =>
            have hbound := ih hplaces.2 hrest h
            refine ⟨hbound.serving, hbound.holds, hbound.files, hbound.grows,
              fun b hb => (hbound.prepared b hb).imp_right (List.mem_cons_of_mem e), ?_⟩
            intro hok e' he'
            rcases List.mem_cons.mp he' with rfl | he'
            · have hplace := List.find?_some hfind
              exact .inl ⟨l, List.mem_of_find?_eq_some hfind, Address.samePlace_iff.mp hplace,
                not_not.mp hrole⟩
            · exact hbound.covers hok e' he'
    · next hfind =>
        split
        · next m₁ hbind =>
            have hfree : ∀ l ∈ m.listeners, l.place ≠ e.place := by
              intro l hl heq
              rcases List.mem_append.mp hl with hl | hl
              · have hnone := List.find?_eq_none.mp hfind l hl
                exact hnone (Address.samePlace_iff.mpr heq)
              · exact hnew l hl e List.mem_cons_self heq
            obtain ⟨b, rfl, hserving, hprepared, hholds, hfiles⟩ := h.bind hfree hbind
            rw [List.append_assoc, ← sockets_append, ← hprepared] at hholds
            have hnew₁ : ∀ b' ∈ m₁.prepared, ∀ e ∈ rest, b'.place ≠ e.place := by
              intro b' hb' e' he'
              rw [hprepared] at hb'
              rcases List.mem_append.mp hb' with hb' | hb'
              · exact hrest b' hb' e' he'
              · obtain rfl := List.mem_singleton.mp hb'
                intro heq
                exact hplaces.1 (List.mem_map.mpr ⟨e', he', heq.symm⟩)
            have hbound := ih hplaces.2 hnew₁ hholds
            have hin : b ∈ m₁.prepared := by rw [hprepared]; simp
            refine ⟨hbound.serving.trans hserving, hbound.holds,
              fun k i hi => hbound.files k i (hfiles k i hi),
              fun b' hb' => hbound.grows b' (by rw [hprepared]; simp [hb']), fun b' hb' => ?_,
              fun hok e' he' => ?_⟩
            · rcases hbound.prepared b' hb' with hb' | hb'
              · rw [hprepared] at hb'
                rcases List.mem_append.mp hb' with hb' | hb'
                · exact .inl hb'
                · obtain rfl := List.mem_singleton.mp hb'
                  exact .inr List.mem_cons_self
              · exact .inr (List.mem_cons_of_mem _ hb')
            · rcases List.mem_cons.mp he' with rfl | he'
              · exact .inr ⟨b, hbound.grows b hin, rfl⟩
              · have := hbound.covers hok e' he'
                rwa [hserving] at this
        · exact hstop

/-! ## Commits -/

/-- The only endpoint at a place. -/
theorem find?_samePlace {wanted : List Endpoint} (hplaces : (wanted.map Endpoint.place).Nodup)
    {e : Endpoint} (he : e ∈ wanted) {a : Address} (hplace : e.place = a.place) :
    (wanted.find? fun e => e.address.samePlace a) = some e := by
  cases hfind : wanted.find? fun e => e.address.samePlace a with
  | none =>
    have hnone := List.find?_eq_none.mp hfind e he
    exact absurd (Address.samePlace_iff.mpr hplace) hnone
  | some e' =>
    have hplace' := List.find?_some hfind
    have heq : e'.place = e.place := (Address.samePlace_iff.mp hplace').trans hplace.symm
    rw [List.inj_on_of_nodup_map hplaces (List.mem_of_find?_eq_some hfind) he heq]

theorem kept_eq_some {wanted : List Endpoint} {l l' : Listener} (h : kept o wanted l = some l') :
    l'.published = l.published ∧ l'.place = l.place ∧ l'.endpoint ∈ wanted := by
  simp only [kept] at h
  split at h
  · cases h
  · next e hfind =>
      have hmem := List.mem_of_find?_eq_some hfind
      have hsame := List.find?_some hfind
      have hplace : e.place = l.place := Address.samePlace_iff.mp hsame
      split at h
      · next heq =>
          obtain rfl := Option.some.inj h
          exact ⟨rfl, rfl, heq ▸ hmem⟩
      · split at h
        · obtain ⟨-, hl'⟩ := Option.ite_none_right_eq_some.mp h
          obtain rfl := Option.some.inj hl'
          exact ⟨rfl, hplace, hmem⟩
        · obtain rfl := Option.some.inj h
          exact ⟨rfl, hplace, hmem⟩

/-- An existing listener is to change its access, and that fails. -/
def Refused (m : Manager) (o : Outcomes) (e : Endpoint) : Prop :=
  ∃ l ∈ m.serving, l.place = e.place ∧ l.endpoint ≠ e ∧ o.access e = false

section Ready

variable {wanted : List Endpoint}

theorem Ready.kept_prepared (h : m.Ready wanted) {b : Listener} (hb : b ∈ m.prepared) :
    kept o wanted b = some b := by
  simp only [kept, find?_samePlace h.places (h.prepared b hb) rfl, if_true]

/-- No listener changes its role. -/
theorem Ready.role (h : m.Ready wanted) (hholds : m.Holds all taken) {e : Endpoint}
    (he : e ∈ wanted) {l : Listener} (hl : l ∈ m.serving) (hplace : l.place = e.place) :
    l.endpoint.role = e.role := by
  rcases h.covers e he with ⟨l', hl', hplace', hrole⟩ | ⟨b, hb, rfl⟩
  · rwa [hholds.eq_of_place (List.mem_append_left _ hl) (List.mem_append_left _ hl')
      (hplace.trans hplace'.symm)]
  · rw [hholds.eq_of_place (List.mem_append_left _ hl) (List.mem_append_right _ hb) hplace]

theorem Ready.kept_same (h : m.Ready wanted) {l : Listener} (hl : l.endpoint ∈ wanted) :
    kept o wanted l = some l := by
  simp only [kept, find?_samePlace h.places hl rfl, if_true]

/-- Only the access of a listener changes. -/
theorem Ready.kept_changed (h : m.Ready wanted) (hholds : m.Holds all taken) {e : Endpoint}
    (he : e ∈ wanted) {l : Listener} (hl : l ∈ m.serving) (hplace : l.place = e.place)
    (hne : l.endpoint ≠ e) :
    kept o wanted l = if o.access e then some { l with endpoint := e } else none := by
  have hrole := h.role hholds he hl hplace
  simp only [kept, find?_samePlace h.places he hplace.symm, if_neg (Ne.symm hne)]
  cases haddress : e.address with
  | unix path access => rfl
  | tcp address port =>
    -- The same address and the same role: nothing changed.
    refine absurd ?_ hne
    have hsame : l.endpoint.address = e.address := by
      simp only [Listener.place, Endpoint.place, haddress] at hplace
      cases hother : l.endpoint.address with
      | unix path access =>
        rw [hother] at hplace
        cases hplace
      | tcp address' port' =>
        rw [hother] at hplace
        simp only [Address.place, Sum.inr.injEq, Prod.mk.injEq] at hplace
        rw [haddress, hplace.1, hplace.2]
    calc l.endpoint = ⟨l.endpoint.role, l.endpoint.address⟩ := rfl
      _ = ⟨e.role, e.address⟩ := by rw [hrole, hsame]

end Ready

variable {wanted : List Endpoint}

theorem listeners_commit (hnext : m.next = some wanted) (h : m.Ready wanted) :
    (m.commit o).listeners = m.listeners.filterMap (kept o wanted) := by
  have hprepared : m.prepared.filterMap (kept o wanted) = m.prepared := by
    rw [List.filterMap_congr fun b hb => h.kept_prepared hb, List.filterMap_some]
  simp [listeners, commit, hnext, hprepared]

theorem Holds.commit (h : m.Holds all taken) (hnext : m.next = some wanted)
    (hready : m.Ready wanted) : (m.commit o).Holds all taken := by
  refine h.close (kept o wanted) (listeners_commit hnext hready) (fun l l' hk => ?_) ?_ ?_
  · exact ⟨(kept_eq_some hk).1, (kept_eq_some hk).2.1⟩
  · simp only [Manager.commit, hnext]
  · have hnone : (m.prepared.filter fun l => (kept o wanted l).isNone) = [] :=
      List.filter_eq_nil_iff.mpr fun b hb => by rw [hready.kept_prepared hb]; simp
    simp only [Manager.commit, hnext, listeners, List.filter_append, hnone, List.append_nil]

/-- **What a commit serves**: the prepared endpoints, but for those whose change of access
failed. -/
theorem mem_serving_commit (h : m.Holds all taken) (hnext : m.next = some wanted)
    (hready : m.Ready wanted) (e : Endpoint) :
    e ∈ (m.commit o).serving.map Listener.endpoint ↔ e ∈ wanted ∧ ¬ m.Refused o e := by
  simp only [commit, hnext, List.mem_map, List.mem_append, List.mem_filterMap]
  constructor
  · rintro ⟨l', ⟨l, hl, hk⟩ | hb, rfl⟩
    · obtain ⟨-, hplace, hwanted⟩ := kept_eq_some hk
      refine ⟨hwanted, ?_⟩
      rintro ⟨l₂, hl₂, hplace₂, hne, hrefused⟩
      obtain rfl := h.eq_of_place (List.mem_append_left _ hl) (List.mem_append_left _ hl₂)
        (hplace.symm.trans hplace₂.symm)
      rw [hready.kept_changed h hwanted hl hplace₂ hne, hrefused] at hk
      cases hk
    · refine ⟨hready.prepared l' hb, ?_⟩
      rintro ⟨l₂, hl₂, hplace₂, hne, -⟩
      exact hne (congrArg Listener.endpoint
        (h.eq_of_place (List.mem_append_left _ hl₂) (List.mem_append_right _ hb) hplace₂))
  · rintro ⟨hwanted, hrefused⟩
    rcases hready.covers e hwanted with ⟨l, hl, hplace, -⟩ | ⟨b, hb, rfl⟩
    · by_cases heq : l.endpoint = e
      · exact ⟨l, .inl ⟨l, hl, hready.kept_same (heq ▸ hwanted)⟩, heq⟩
      · have haccess : o.access e = true := by
          by_contra hfalse
          exact hrefused ⟨l, hl, hplace, heq, Bool.not_eq_true _ ▸ hfalse⟩
        refine ⟨{ l with endpoint := e }, .inl ⟨l, hl, ?_⟩, rfl⟩
        rw [hready.kept_changed h hwanted hl hplace heq, if_pos haccess]
    · exact ⟨b, .inr hb, rfl⟩

/-- A listener at the place of an earlier one has its role. -/
theorem role_commit (h : m.Holds all taken) (hnext : m.next = some wanted)
    (hready : m.Ready wanted) {l l' : Listener} (hl : l ∈ m.serving)
    (hl' : l' ∈ (m.commit o).serving) (hplace : l.place = l'.place) :
    l.endpoint.role = l'.endpoint.role := by
  have hwanted : l'.endpoint ∈ wanted := by
    simp only [commit, hnext, List.mem_append, List.mem_filterMap] at hl'
    rcases hl' with ⟨l₀, -, hk⟩ | hb
    · exact (kept_eq_some hk).2.2
    · exact hready.prepared l' hb
  exact hready.role h hwanted hl hplace

/-! ## Preparations -/

/-- What is removed, and what stays at its path. -/
theorem getElem?_foldl_unpublish_of_notMem {ls : List Listener} {files : Std.ExtTreeMap String ℕ}
    {k : String} {i : ℕ} (hi : files[k]? = some i) (hp : (⟨k, i⟩ : Published) ∉ sockets ls) :
    (ls.foldl unpublish files)[k]? = some i := by
  rw [getElem?_foldl_unpublish, hi, Option.filter_some, if_pos]
  simpa [mem_sockets] using hp

/-- What a preparation does. -/
theorem prepare_spec (h : m.Holds all taken) (o : Outcomes) {endpoints : List Endpoint}
    (hplaces : (endpoints.map Endpoint.place).Nodup) :
    (m.prepare o endpoints).1.Holds
        (all ++ sockets (m.discard.bindAll o endpoints).1.prepared) taken ∧
      (∀ wanted, (m.prepare o endpoints).1.next = some wanted ↔
        endpoints = wanted ∧ (m.prepare o endpoints).2 = true) ∧
      ((m.prepare o endpoints).2 = true → (m.prepare o endpoints).1.Ready endpoints) ∧
      ∀ (k : String) i, m.files[k]? = some i → (⟨k, i⟩ : Published) ∉ sockets m.prepared →
        (m.prepare o endpoints).1.files[k]? = some i := by
  have hdiscard : m.discard.Holds (all ++ sockets m.discard.prepared) taken := by
    simpa [discard, sockets] using h.discard
  have hbound := bound_bindAll o hplaces (fun b hb => by cases hb) hdiscard
  have hfiles : ∀ (k : String) i, m.files[k]? = some i → (⟨k, i⟩ : Published) ∉ sockets m.prepared →
      m.discard.files[k]? = some i := fun k i hi hp => getElem?_foldl_unpublish_of_notMem hi hp
  cases hok : (m.discard.bindAll o endpoints).2 with
  | true =>
    simp only [prepare, hok, if_true]
    refine ⟨⟨hbound.holds.places, hbound.holds.placed, hbound.holds.tracks⟩, fun wanted => ?_,
      fun _ => ?_, fun k i hi hp => hbound.files k i (hfiles k i hi hp)⟩
    · simp
    · refine ⟨hplaces, fun e he => ?_, fun b hb => ?_⟩
      · have hcovers := hbound.covers hok e he
        rwa [← hbound.serving] at hcovers
      · exact (hbound.prepared b hb).resolve_left fun hfalse => by cases hfalse
  | false =>
    have htaken := hbound.holds.discard
    simp only [prepare, hok, Bool.false_eq_true, if_false]
    refine ⟨⟨htaken.places, htaken.placed, htaken.tracks⟩, fun wanted => by simp,
      fun hfalse => hfalse.elim, fun k i hi hp => ?_⟩
    -- What was bound is removed again.
    have hback := (m.discard.bindAll_frame o endpoints).1
    have hsame : (m.discard.bindAll o endpoints).1.discard.files = m.discard.files := by
      rw [hback]
      rfl
    rw [hsame]
    exact hfiles k i hi hp

end Manager

/-! ## The service -/

namespace Manager

variable (o : Outcomes)

/-- Binds an endpoint at startup: a socket that the record knows is replaced. -/
def bindKnown (known : List Published) (m : Manager) (e : Endpoint) : Option Manager :=
  if !o.bind e then none
  else match e.address with
    | .unix path _ =>
      if (m.files[path]?).all fun i => (⟨path, i⟩ : Published) ∈ known then
        some { m with
          serving := m.serving ++ [⟨e, some ⟨path, m.inode + 1⟩⟩]
          files := m.files.insert path (m.inode + 1)
          inode := m.inode + 1 }
      else none
    | .tcp _ _ => some { m with serving := m.serving ++ [⟨e, none⟩] }

/-- The sockets that a command publishes, also those that it removes again. -/
def publishes (m : Manager) : Command → List Published
  | .prepare _ endpoints => sockets (m.discard.bindAll o endpoints).1.prepared
  | _ => []

/-- A commit of nothing leaves the record alone. -/
def saves (m : Manager) : Command → Bool
  | .commit => m.next.isSome
  | _ => true

end Manager

/-- The manager with its record and what happened. -/
structure Service where
  manager : Manager
  /-- The record of the published sockets. -/
  record : List Published
  /-- The last write of the record succeeded. -/
  written : Bool
  /-- Every socket published so far. -/
  published : List Published
  /-- What something else replaced or removed. -/
  taken : List Published := []
  /-- The commands and their answers. -/
  log : List (Command × Option (ℕ × Bool)) := []

namespace Service

/-- The manager as it starts; it does not when a bind fails. -/
def start (o : Outcomes) (known : List Published) (files : Std.ExtTreeMap String ℕ)
    (endpoints : List Endpoint) (write : Bool) : Option Service :=
  (endpoints.foldlM (Manager.bindKnown o known)
      { serving := [], files, inode := (files.toList.map Prod.snd).foldr max 0 }).map fun m =>
    { manager := m
      record := if write then sockets m.listeners else known
      written := write
      published := sockets m.listeners }

inductive Step where
  /-- A command, with its outcomes and that of the record's write. -/
  | command (c : Command) (o : Outcomes) (write : Bool)
  /-- Something else puts an object at a path, or removes the one there. -/
  | disturb (path : String) (object : Bool)

variable (s : Service)

def step : Step → Service
  | .command c o write =>
    let r := s.manager.handle o c
    { s with
      manager := r.1
      record := if s.manager.saves c && write then sockets r.1.listeners else s.record
      written := if s.manager.saves c then write else s.written
      published := s.published ++ s.manager.publishes o c
      log := s.log ++ [(c, r.2)] }
  | .disturb path object =>
    let m := s.manager
    { s with
      manager :=
        { m with
          files := if object then m.files.insert path (m.inode + 1) else m.files.erase path
          inode := m.inode + 1 }
      taken := s.taken ++ (m.files[path]?).toList.map (⟨path, ·⟩) }

/-- The last command was a preparation that succeeded. -/
def Prepared (wanted : List Endpoint) : Prop :=
  ∃ seq, s.log.getLast? = some (.prepare seq wanted, some (seq, true))

/-- What is served. -/
def served : List Endpoint := s.manager.serving.map Listener.endpoint

/-- Files, record and listeners agree. -/
structure Agrees : Prop where
  once : (s.served.map Endpoint.place).Nodup
  files : ∀ p, p ∈ s.published ∧ s.manager.files[p.path]? = some p.inode ↔
    p ∈ sockets s.manager.listeners ∧ p ∉ s.taken
  record : s.written = true → s.record = sockets s.manager.listeners

/-- What a step may change. -/
structure Orderly (x : Step) : Prop where
  /-- Only the commit of a preparation changes what is served. -/
  unchanged : (∀ o write wanted, x = .command .commit o write → ¬ s.Prepared wanted) →
    (s.step x).served = s.served
  commit : ∀ o write wanted, x = .command .commit o write → s.Prepared wanted →
    ∀ e, e ∈ (s.step x).served ↔ e ∈ wanted ∧ ¬ s.manager.Refused o e
  roles : ∀ e ∈ s.served, ∀ e' ∈ (s.step x).served, e.place = e'.place → e.role = e'.role
  /-- Other objects stay. -/
  foreign : ∀ c o write, x = .command c o write → ∀ (k : String) i,
    s.manager.files[k]? = some i → (⟨k, i⟩ : Published) ∉ s.published →
      (s.step x).manager.files[k]? = some i

/-- A preparation names a place once. -/
def Step.Named : Step → Prop
  | .command (.prepare _ endpoints) _ _ => (endpoints.map Endpoint.place).Nodup
  | _ => True

/-- How the manager, its record and its history are related. -/
structure Sound : Prop where
  holds : s.manager.Holds s.published s.taken
  ready : ∀ wanted, s.manager.next = some wanted → s.manager.Ready wanted
  next : ∀ wanted, s.Prepared wanted ↔ s.manager.next = some wanted
  record : s.written = true → s.record = sockets s.manager.listeners

variable {s}

theorem Sound.agrees (h : s.Sound) : s.Agrees where
  once := by
    have hsub : (s.served.map Endpoint.place).Sublist (s.manager.listeners.map Listener.place) := by
      rw [served, List.map_map]
      exact (List.sublist_append_left _ _).map _
    exact h.holds.places.sublist hsub
  files := h.holds.tracks.present
  record := h.record

/-! ### Steps -/

theorem prepared_concat {c : Command} {answer : Option (ℕ × Bool)}
    (hlog : s.log.getLast? = some (c, answer)) {wanted : List Endpoint} :
    s.Prepared wanted ↔ ∃ seq, c = .prepare seq wanted ∧ answer = some (seq, true) := by
  simp [Prepared, hlog]

theorem record_step (h : s.written = true → s.record = sockets s.manager.listeners) {c : Command}
    {o : Outcomes} {write : Bool}
    (hkeeps : s.manager.saves c = false → (s.manager.handle o c).1 = s.manager) :
    (s.step (.command c o write)).written = true →
      (s.step (.command c o write)).record =
        sockets (s.step (.command c o write)).manager.listeners := by
  simp only [step]
  cases hsaves : s.manager.saves c with
  | true =>
    intro hwritten
    simp only [if_true] at hwritten
    simp [hwritten]
  | false =>
    intro hwritten
    simp only [Bool.false_eq_true, if_false, Bool.false_and] at hwritten ⊢
    rw [hkeeps hsaves]
    exact h hwritten

theorem Sound.prepare (h : s.Sound) (seq : ℕ) (o : Outcomes) (write : Bool)
    {endpoints : List Endpoint} (hplaces : (endpoints.map Endpoint.place).Nodup) :
    (s.step (.command (.prepare seq endpoints) o write)).Sound := by
  obtain ⟨hholds, hnext, hready, -⟩ := Manager.prepare_spec h.holds o hplaces
  refine ⟨hholds, fun wanted hwanted => ?_, fun wanted => ?_, ?_⟩
  · obtain ⟨rfl, hok⟩ := (hnext wanted).mp hwanted
    exact hready hok
  · rw [prepared_concat List.getLast?_concat]
    refine Iff.trans ?_ (hnext wanted).symm
    simp [Manager.handle]
  · exact record_step h.record fun hfalse => by cases hfalse

theorem Sound.rollback (h : s.Sound) (o : Outcomes) (write : Bool) :
    (s.step (.command .rollback o write)).Sound := by
  have hholds := h.holds.discard
  refine ⟨?_, fun wanted hwanted => (by cases hwanted), fun wanted => ?_, ?_⟩
  · have hsame : s.published ++ s.manager.publishes o .rollback = s.published := List.append_nil _
    simp only [step, hsame]
    exact ⟨hholds.places, hholds.placed, hholds.tracks⟩
  · rw [prepared_concat List.getLast?_concat]
    simp [step, Manager.handle, Manager.rollback]
  · exact record_step h.record fun hfalse => by cases hfalse

theorem Sound.commit (h : s.Sound) (o : Outcomes) (write : Bool) :
    (s.step (.command .commit o write)).Sound := by
  have hsame : s.published ++ s.manager.publishes o .commit = s.published := List.append_nil _
  cases hnext : s.manager.next with
  | none =>
    have hkeeps : (s.manager.handle o .commit).1 = s.manager := by
      simp only [Manager.handle, Manager.commit, hnext]
    refine ⟨?_, fun wanted hwanted => ?_, fun wanted => ?_,
      record_step h.record fun _ => hkeeps⟩
    · simp only [step, hsame, hkeeps]
      exact h.holds
    · simp only [step, hkeeps, hnext] at hwanted
      cases hwanted
    · rw [prepared_concat List.getLast?_concat]
      simp [step, hkeeps, hnext]
  | some wanted =>
    have hready := h.ready wanted hnext
    refine ⟨?_, fun wanted' hwanted' => ?_, fun wanted' => ?_,
      record_step h.record fun hfalse => ?_⟩
    · simp only [step, hsame]
      exact h.holds.commit hnext hready
    · simp [step, Manager.handle, Manager.commit, hnext] at hwanted'
    · rw [prepared_concat List.getLast?_concat]
      simp [step, Manager.handle, Manager.commit, hnext]
    · simp [Manager.saves, hnext] at hfalse

theorem Sound.disturb (h : s.Sound) (path : String) (object : Bool) :
    (s.step (.disturb path object)).Sound where
  holds := ⟨h.holds.places, h.holds.placed, h.holds.tracks.disturb path object⟩
  ready wanted hwanted := by
    have hready := h.ready wanted hwanted
    exact ⟨hready.places, hready.covers, hready.prepared⟩
  next := h.next
  record := h.record

/-- **Every step keeps files, record and listeners in agreement.** -/
theorem Sound.step (h : s.Sound) {x : Step} (hx : x.Named) : (s.step x).Sound := by
  cases x with
  | command c o write =>
    cases c with
    | prepare seq endpoints => exact h.prepare seq o write hx
    | commit => exact h.commit o write
    | rollback => exact h.rollback o write
  | disturb path object => exact h.disturb path object

/-- A command that serves what was served. -/
theorem Sound.roles_of_eq (h : s.Sound) {served' : List Endpoint} (hserved : served' = s.served) :
    ∀ e ∈ s.served, ∀ e' ∈ served', e.place = e'.place → e.role = e'.role := by
  intro e he e' he' hplace
  rw [List.inj_on_of_nodup_map h.agrees.once he (hserved ▸ he') hplace]

/-- The sockets of listeners were published. -/
theorem Sound.notMem_sockets (h : s.Sound) {p : Published} (hp : p ∉ s.published)
    {ls : List Listener} (hls : ls ⊆ s.manager.listeners) : p ∉ sockets ls := by
  intro hmem
  obtain ⟨l, hl, hlp⟩ := mem_sockets.mp hmem
  exact hp (h.holds.tracks.subset p (mem_sockets.mpr ⟨l, hls hl, hlp⟩))

theorem Sound.orderly_prepare (h : s.Sound) (seq : ℕ) (o : Outcomes) (write : Bool)
    {endpoints : List Endpoint} (hplaces : (endpoints.map Endpoint.place).Nodup) :
    s.Orderly (.command (.prepare seq endpoints) o write) := by
  have hserved : (s.step (.command (.prepare seq endpoints) o write)).served = s.served :=
    congrArg (List.map Listener.endpoint) (s.manager.serving_prepare o endpoints)
  refine ⟨fun _ => hserved, fun _ _ _ hx => (by cases hx), h.roles_of_eq hserved,
    fun c o' write' hx k i hi hp => ?_⟩
  cases hx
  exact (Manager.prepare_spec h.holds o hplaces).2.2.2 k i hi
    (h.notMem_sockets hp (List.subset_append_right _ _))

theorem Sound.orderly_rollback (h : s.Sound) (o : Outcomes) (write : Bool) :
    s.Orderly (.command .rollback o write) := by
  refine ⟨fun _ => rfl, fun _ _ _ hx => (by cases hx), h.roles_of_eq rfl,
    fun c o' write' hx k i hi hp => ?_⟩
  cases hx
  exact Manager.getElem?_foldl_unpublish_of_notMem hi
    (h.notMem_sockets hp (List.subset_append_right _ _))

theorem Sound.orderly_commit (h : s.Sound) (o : Outcomes) (write : Bool) :
    s.Orderly (.command .commit o write) := by
  cases hnext : s.manager.next with
  | none =>
    have hkeeps : (s.manager.commit o) = s.manager := by simp only [Manager.commit, hnext]
    have hserved : (s.step (.command .commit o write)).served = s.served :=
      congrArg (fun m => m.serving.map Listener.endpoint) hkeeps
    refine ⟨fun _ => hserved, fun _ _ wanted _ hprepared => ?_, h.roles_of_eq hserved,
      fun c o' write' hx k i hi hp => ?_⟩
    · rw [h.next, hnext] at hprepared
      cases hprepared
    · cases hx
      simp only [Service.step, Manager.handle, hkeeps]
      exact hi
  | some wanted =>
    have hready := h.ready wanted hnext
    refine ⟨fun hnot => ?_, fun o' write' wanted' hx hprepared e => ?_,
      fun e he e' he' hplace => ?_, fun c o' write' hx k i hi hp => ?_⟩
    · exact absurd ((h.next wanted).mpr hnext) (hnot o write wanted rfl)
    · cases hx
      have hwanted := (h.next wanted').mp hprepared
      exact Manager.mem_serving_commit h.holds hwanted (h.ready wanted' hwanted) e
    · obtain ⟨l, hl, rfl⟩ := List.mem_map.mp he
      obtain ⟨l', hl', rfl⟩ := List.mem_map.mp he'
      exact Manager.role_commit h.holds hnext hready hl hl' hplace
    · cases hx
      simp only [Service.step, Manager.handle, Manager.commit, hnext]
      refine Manager.getElem?_foldl_unpublish_of_notMem hi (h.notMem_sockets hp ?_)
      exact fun l hl => List.mem_append_left _ (List.mem_of_mem_filter hl)

/-- **What a step changes.** -/
theorem Sound.orderly (h : s.Sound) {x : Step} (hx : x.Named) : s.Orderly x := by
  cases x with
  | command c o write =>
    cases c with
    | prepare seq endpoints => exact h.orderly_prepare seq o write hx
    | commit => exact h.orderly_commit o write
    | rollback => exact h.orderly_rollback o write
  | disturb path object =>
    exact ⟨fun _ => rfl, fun _ _ _ hx => (by cases hx), h.roles_of_eq rfl,
      fun _ _ _ hx => (by cases hx)⟩

/-! ### The start -/

theorem le_foldr_max {i : ℕ} {is : List ℕ} (hi : i ∈ is) : i ≤ is.foldr max 0 := by
  induction is with
  | nil => cases hi
  | cons j is ih =>
    rcases List.mem_cons.mp hi with rfl | hi
    · exact le_max_left _ _
    · exact (ih hi).trans (le_max_right _ _)

theorem holds_bindKnown {o : Outcomes} {known : List Published} {m m' : Manager} {e : Endpoint}
    (h : m.Holds (sockets m.listeners) []) (hprepared : m.prepared = [])
    (hnew : ∀ l ∈ m.listeners, l.place ≠ e.place) (hbind : m.bindKnown o known e = some m') :
    m'.Holds (sockets m'.listeners) [] ∧ m'.prepared = [] ∧ m'.next = m.next ∧
      m'.listeners.map Listener.place = m.listeners.map Listener.place ++ [e.place] := by
  -- Nothing is prepared: a new listener is the last one.
  have hlast : ∀ b : Listener, m.serving ++ [b] ++ m.prepared = m.listeners ++ [b] := by
    intro b
    simp [Manager.listeners, hprepared]
  simp only [Manager.bindKnown] at hbind
  split at hbind
  · cases hbind
  · split at hbind
    · next path access haddress =>
        split at hbind
        · have hlisteners : m'.listeners = m.listeners ++ [⟨e, some ⟨path, m.inode + 1⟩⟩] := by
            rw [← Option.some.inj hbind]
            exact hlast _
          obtain rfl := Option.some.inj hbind
          have hholds := h.publish haddress hnew hlisteners rfl rfl
          refine ⟨?_, hprepared, rfl, ?_⟩
          · rwa [hlisteners, Manager.sockets_append]
          · rw [hlisteners, List.map_append]
            rfl
        · cases hbind
    · have hlisteners : m'.listeners = m.listeners ++ [⟨e, none⟩] := by
        rw [← Option.some.inj hbind]
        exact hlast _
      obtain rfl := Option.some.inj hbind
      have hholds := h.listen hnew hlisteners rfl rfl
      refine ⟨?_, hprepared, rfl, ?_⟩
      · rw [hlisteners, Manager.sockets_append]
        simpa using hholds
      · rw [hlisteners, List.map_append]
        rfl

theorem holds_start {o : Outcomes} {known : List Published} {endpoints : List Endpoint}
    {m m' : Manager} (h : m.Holds (sockets m.listeners) []) (hprepared : m.prepared = [])
    (hnext : m.next = none)
    (hplaces : (m.listeners.map Listener.place ++ endpoints.map Endpoint.place).Nodup)
    (hrun : endpoints.foldlM (Manager.bindKnown o known) m = some m') :
    m'.Holds (sockets m'.listeners) [] ∧ m'.next = none := by
  induction endpoints generalizing m with
  | nil =>
    obtain rfl := Option.some.inj hrun
    exact ⟨h, hnext⟩
  | cons e rest ih =>
    rw [List.foldlM_cons, Option.bind_eq_bind, Option.bind_eq_some_iff] at hrun
    obtain ⟨m₁, hbind, hrest⟩ := hrun
    have hnew : ∀ l ∈ m.listeners, l.place ≠ e.place := by
      intro l hl
      rw [List.nodup_append] at hplaces
      exact hplaces.2.2 _ (List.mem_map_of_mem hl) _ List.mem_cons_self
    obtain ⟨hholds, hprepared₁, hnext₁, hplaces₁⟩ := holds_bindKnown h hprepared hnew hbind
    refine ih hholds hprepared₁ (hnext₁.trans hnext) ?_ hrest
    simpa [hplaces₁] using hplaces

theorem sound_start {o : Outcomes} {known : List Published} {files : Std.ExtTreeMap String ℕ}
    {endpoints : List Endpoint} {write : Bool} (hplaces : (endpoints.map Endpoint.place).Nodup)
    (h : start o known files endpoints write = some s) : s.Sound := by
  obtain ⟨m, hrun, rfl⟩ := Option.map_eq_some_iff.mp h
  generalize hinode : (files.toList.map Prod.snd).foldr max 0 = inode at hrun
  have hempty : Manager.Holds { serving := [], files, inode }
      (sockets (Manager.listeners { serving := [], files, inode })) [] := by
    refine ⟨List.nodup_nil, fun l hl => (by cases hl), ?_⟩
    refine ⟨fun p hp => (by cases hp), fun p hp => (by cases hp), fun p hp => (by cases hp),
      fun k i hi => ?_, fun p => ?_⟩
    · have hmem := Std.ExtTreeMap.mem_toList_iff_getElem?_eq_some.mpr hi
      exact hinode ▸ le_foldr_max (List.mem_map.mpr ⟨(k, i), hmem, rfl⟩)
    · simp [Manager.listeners, sockets]
  obtain ⟨hholds, hnext⟩ := holds_start hempty rfl rfl (by simpa [Manager.listeners]) hrun
  refine ⟨hholds, fun wanted hwanted => ?_, fun wanted => ?_, fun hwritten => ?_⟩
  · dsimp only at hwanted
    rw [hnext] at hwanted
    cases hwanted
  · simp [Prepared, hnext]
  · dsimp only at hwritten ⊢
    rw [if_pos hwritten]

/-- **Listeners change by commits only.**  Along every run, whatever the binds, the changes of
access and the writes of the record do and whatever happens at the paths between commands:
files, record and listeners agree, and a step changes what is served only by committing the
last preparation. -/
theorem orderly_run (o : Outcomes) (known : List Published) (files : Std.ExtTreeMap String ℕ)
    (endpoints : List Endpoint) (write : Bool) (s : Service)
    (h : start o known files endpoints write = some s)
    (hplaces : (endpoints.map Endpoint.place).Nodup) (steps : List Step)
    (hsteps : ∀ x ∈ steps, x.Named) (x : Step) (hx : x.Named) :
    (steps.foldl step s).Agrees ∧ (steps.foldl step s).Orderly x := by
  have hsound : (steps.foldl step s).Sound := by
    induction steps using List.reverseRecOn with
    | nil => exact sound_start hplaces h
    | append_singleton steps y ih =>
      rw [List.foldl_append]
      exact (ih fun y hy => hsteps y (List.mem_append_left _ hy)).step
        (hsteps y (List.mem_append_right _ (List.mem_singleton_self y)))
  exact ⟨hsound.agrees, hsound.orderly hx⟩

/-- The sockets of an API whose control socket belongs to a group. -/
def places (gid : ℕ) : List Endpoint :=
  [⟨.control, .unix "/run/polywan/api.sock" ⟨some gid⟩⟩,
    ⟨.status, .unix "/run/polywan/status.sock" ⟨none⟩⟩]

/-- A reload changes the group and adds the status socket. -/
theorem orderly_reload :
    ∃ s, start {} [] ∅ ((places 10).take 1) true = some s ∧
      (step s (.command (.prepare 1 (places 20)) {} true)).Agrees ∧
      (step s (.command (.prepare 1 (places 20)) {} true)).Orderly (.command .commit {} true) := by
  have hstart : (start {} [] ∅ ((places 10).take 1) true).isSome = true := by decide +kernel
  obtain ⟨s, hs⟩ := Option.isSome_iff_exists.mp hstart
  refine ⟨s, hs, orderly_run {} [] ∅ _ true s hs (by decide)
    [.command (.prepare 1 (places 20)) {} true] ?_ (.command .commit {} true) trivial⟩
  intro x hx
  obtain rfl := List.mem_singleton.mp hx
  show ((places 20).map Endpoint.place).Nodup
  decide

end Service

end Polywan.Api
