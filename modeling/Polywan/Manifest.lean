import Mathlib.Data.List.Sort
import Polywan.Sysctl

/-!
# The manifest

What the program records of itself before it changes anything: the structural settings,
the ids bound to uplinks, and the system settings with their values before.

## Main definitions

* `Manifest`, `Manifest.check`, `Manifest.bind`, `Manifest.forget` — the manifest and its
  bindings.
* `Manifest.Binds` — an id is bound to a name.
* `Manifest.recordSysctl` — the record of a setting.
-/

namespace Polywan

/-- An id bound to an uplink. -/
structure Binding where
  id : BitVec 8
  name : String
  /-- Removed from the configuration; the id stays reserved until it is forgotten. -/
  removed : Bool
deriving DecidableEq

structure Manifest where
  structural : Structural
  /-- Families that have artifacts. -/
  families : List Family
  uplinks : List Binding
  /-- Value of each setting before it was first changed. -/
  sysctlBaseline : Std.ExtTreeMap String String
  /-- The value set, so that only untouched values are restored. -/
  sysctlSet : Std.ExtTreeMap String String
deriving DecidableEq

/-- A configuration that conflicts with the manifest. -/
inductive ManifestConflict where
  | structural (recorded configured : Structural)
  | idReused (id : BitVec 8) (recorded configured : String)
  | idChanged (name : String) (recorded configured : BitVec 8)
deriving DecidableEq

/-- Why a binding is not released. -/
inductive ForgetError where
  | notRecorded (name : String)
  | stillConfigured (name : String)
  | invalidId (id : BitVec 8)
deriving DecidableEq

namespace Manifest

/-- The conflict of a configured uplink with a binding. -/
def conflict (u : Uplink) (b : Binding) : Option ManifestConflict :=
  if b.id = u.id.get ∧ b.name ≠ u.name then some (.idReused b.id b.name u.name)
  else if b.name = u.name ∧ b.id ≠ u.id.get then some (.idChanged u.name b.id u.id.get)
  else none

/-- Checks the configuration against the recorded structure and bindings. -/
def check (m : Manifest) (c : Config) : List ManifestConflict :=
  (if c.structural ≠ m.structural then [.structural m.structural c.structural] else [])
    ++ c.uplinks.flatMap fun u => m.uplinks.filterMap (conflict u)

/-- The bindings with that of an uplink, unless its id is bound. -/
def bindUplink (bindings : List Binding) (u : Uplink) : List Binding :=
  if bindings.any fun b => b.id = u.id.get then bindings
  else bindings ++ [⟨u.id.get, u.name, false⟩]

/-- Records the bindings of the configuration: configured uplinks are bound, the others
are marked removed. -/
def bind (m : Manifest) (c : Config) : Manifest :=
  let kept := m.uplinks.map fun b =>
    { b with removed := !c.uplinks.any fun u => u.id.get = b.id }
  { m with
    uplinks := (c.uplinks.foldl bindUplink kept).insertionSort fun a b => a.id ≤ b.id
    families := Family.all.filter c.manages }

def new (c : Config) : Manifest :=
  bind
    { structural := c.structural
      families := []
      uplinks := []
      sysctlBaseline := ∅
      sysctlSet := ∅ } c

/-- Releases the binding of an uplink; refused while the uplink is configured. -/
def forget (m : Manifest) (name : String) : Except ForgetError (UplinkId × Manifest) :=
  match m.uplinks.find? fun b => b.name = name with
  | none => .error (.notRecorded name)
  | some b =>
    if !b.removed then .error (.stillConfigured name)
    else match UplinkId.new b.id with
      | none => .error (.invalidId b.id)
      | some id => .ok (id, { m with uplinks := m.uplinks.eraseP fun b => b.name = name })

/-- Records the baseline of a setting the first time it is changed. -/
def recordSysctl (m : Manifest) (key previous set : String) : Manifest :=
  { m with
    sysctlBaseline := m.sysctlBaseline.insertIfNew key previous
    sysctlSet := m.sysctlSet.insert key set }

/-- Forgets a setting. -/
def releaseSysctl (m : Manifest) (key : String) : Manifest :=
  { m with
    sysctlBaseline := m.sysctlBaseline.erase key
    sysctlSet := m.sysctlSet.erase key }

/-! ## Bindings -/

/-- An id is bound to a name. -/
def Binds (m : Manifest) (id : BitVec 8) (name : String) : Prop :=
  ∃ b ∈ m.uplinks, b.id = id ∧ b.name = name

/-- No id is bound twice, and no name. -/
structure Distinct (m : Manifest) : Prop where
  ids : (m.uplinks.map Binding.id).Nodup
  names : (m.uplinks.map Binding.name).Nodup

/-- An id has one name. -/
theorem Distinct.name_eq {m : Manifest} (h : m.Distinct) {id : BitVec 8} {name name' : String}
    (hb : m.Binds id name) (hb' : m.Binds id name') : name = name' := by
  obtain ⟨b, hmem, rfl, rfl⟩ := hb
  obtain ⟨b', hmem', hid, rfl⟩ := hb'
  rw [List.inj_on_of_nodup_map h.ids hmem' hmem hid]

/-- A name has one id. -/
theorem Distinct.id_eq {m : Manifest} (h : m.Distinct) {id id' : BitVec 8} {name : String}
    (hb : m.Binds id name) (hb' : m.Binds id' name) : id = id' := by
  obtain ⟨b, hmem, rfl, rfl⟩ := hb
  obtain ⟨b', hmem', rfl, hname⟩ := hb'
  rw [List.inj_on_of_nodup_map h.names hmem' hmem hname]

/-- A configuration without conflicts: every bound uplink has its own id and name. -/
theorem check_eq_nil_iff {m : Manifest} {c : Config} :
    m.check c = [] ↔ c.structural = m.structural ∧
      ∀ u ∈ c.uplinks, ∀ id name, m.Binds id name → (id = u.id.get ↔ name = u.name) := by
  have hconflict : ∀ (u : Uplink) (b : Binding),
      conflict u b = none ↔ (b.id = u.id.get ↔ b.name = u.name) := by
    intro u b
    by_cases hid : b.id = u.id.get <;> by_cases hname : b.name = u.name <;>
      simp [conflict, hid, hname]
  simp only [check, List.append_eq_nil_iff, List.flatMap_eq_nil_iff, List.filterMap_eq_nil_iff,
    hconflict]
  constructor
  · rintro ⟨hstructure, hbindings⟩
    refine ⟨by simpa using hstructure, ?_⟩
    rintro u hu id name ⟨b, hb, rfl, rfl⟩
    exact hbindings u hu b hb
  · rintro ⟨hstructure, hbindings⟩
    refine ⟨by simp [hstructure], ?_⟩
    intro u hu b hb
    exact hbindings u hu b.id b.name ⟨b, hb, rfl, rfl⟩

/-- What an uplink adds: a binding of its id, unless there is one. -/
theorem mem_bindUplink {bs : List Binding} {u : Uplink} {b : Binding} :
    b ∈ bindUplink bs u ↔
      b ∈ bs ∨ (∀ b' ∈ bs, b'.id ≠ u.id.get) ∧ b = ⟨u.id.get, u.name, false⟩ := by
  by_cases h : ∃ b' ∈ bs, b'.id = u.id.get
  · have hany : (bs.any fun b => b.id = u.id.get) = true := by simpa using h
    obtain ⟨b', hb', hid⟩ := h
    simp only [bindUplink, hany, if_true]
    constructor
    · exact Or.inl
    · rintro (hb | ⟨hall, -⟩)
      · exact hb
      · exact absurd hid (hall b' hb')
  · have hany : (bs.any fun b => b.id = u.id.get) = false := by simpa using h
    have hall : ∀ b' ∈ bs, b'.id ≠ u.id.get := fun b' hb' hid => h ⟨b', hb', hid⟩
    simp only [bindUplink, hany, Bool.false_eq_true, if_false, List.mem_append,
      List.mem_singleton]
    exact or_congr_right (iff_and_self.mpr fun _ => hall)

/-- The bindings of a list of uplinks with distinct ids. -/
theorem mem_foldl_bindUplink {us : List Uplink} (hus : (us.map Uplink.id).Nodup)
    {bs : List Binding} {b : Binding} :
    b ∈ us.foldl bindUplink bs ↔
      b ∈ bs ∨ ∃ u ∈ us, (∀ b' ∈ bs, b'.id ≠ u.id.get) ∧ b = ⟨u.id.get, u.name, false⟩ := by
  induction us generalizing bs with
  | nil => simp
  | cons u us ih =>
    rw [List.map_cons, List.nodup_cons] at hus
    rw [List.foldl_cons, ih hus.2]
    -- The id of the first uplink is not one of the others'.
    have hne : ∀ v ∈ us, u.id.get ≠ v.id.get := by
      intro v hv hid
      exact hus.1 (List.mem_map.mpr ⟨v, hv, (UplinkId.get_injective hid).symm⟩)
    have hfresh : ∀ v ∈ us, (∀ b' ∈ bindUplink bs u, b'.id ≠ v.id.get) ↔
        ∀ b' ∈ bs, b'.id ≠ v.id.get := by
      intro v hv
      constructor
      · intro h b' hb'
        exact h b' (mem_bindUplink.mpr (Or.inl hb'))
      · intro h b' hb'
        obtain hb' | ⟨-, rfl⟩ := mem_bindUplink.mp hb'
        · exact h b' hb'
        · exact hne v hv
    rw [mem_bindUplink]
    constructor
    · rintro ((hb | hb) | ⟨v, hv, hall, rfl⟩)
      · exact Or.inl hb
      · exact Or.inr ⟨u, List.mem_cons_self, hb⟩
      · exact Or.inr ⟨v, List.mem_cons_of_mem u hv, (hfresh v hv).mp hall, rfl⟩
    · rintro (hb | ⟨v, hv, hall, rfl⟩)
      · exact Or.inl (Or.inl hb)
      · obtain rfl | hv := List.mem_cons.mp hv
        · exact Or.inl (Or.inr ⟨hall, rfl⟩)
        · exact Or.inr ⟨v, hv, (hfresh v hv).mpr hall, rfl⟩

/-- **Binding** adds the uplinks whose ids are free, and removes nothing. -/
theorem binds_bind {m : Manifest} {c : Config} (hc : (c.uplinks.map Uplink.id).Nodup)
    {id : BitVec 8} {name : String} :
    (m.bind c).Binds id name ↔ m.Binds id name ∨
      ∃ u ∈ c.uplinks, u.id.get = id ∧ u.name = name ∧ ∀ name', ¬ m.Binds id name' := by
  simp only [Binds, bind, (List.perm_insertionSort _ _).mem_iff, mem_foldl_bindUplink hc,
    List.mem_map]
  constructor
  · rintro ⟨b, ⟨b', hb', rfl⟩ | ⟨u, hu, hall, rfl⟩, rfl, rfl⟩
    · exact Or.inl ⟨b', hb', rfl, rfl⟩
    · refine Or.inr ⟨u, hu, rfl, rfl, ?_⟩
      rintro name' ⟨b', hb', hid, -⟩
      exact hall _ ⟨b', hb', rfl⟩ hid
  · rintro (⟨b, hb, rfl, rfl⟩ | ⟨u, hu, rfl, rfl, hfree⟩)
    · exact ⟨_, Or.inl ⟨b, hb, rfl⟩, rfl, rfl⟩
    · refine ⟨_, Or.inr ⟨u, hu, ?_, rfl⟩, rfl, rfl⟩
      rintro _ ⟨b, hb, rfl⟩ hid
      exact hfree b.name ⟨b, hb, hid, rfl⟩

/-- Bindings that agree with uplinks of distinct ids and names stay distinct. -/
theorem nodup_foldl_bindUplink {us : List Uplink} (hids : (us.map Uplink.id).Nodup)
    (hnames : (us.map Uplink.name).Nodup) {bs : List Binding}
    (hagree : ∀ u ∈ us, ∀ b ∈ bs, b.id = u.id.get ↔ b.name = u.name)
    (hbs : (bs.map Binding.id).Nodup ∧ (bs.map Binding.name).Nodup) :
    ((us.foldl bindUplink bs).map Binding.id).Nodup ∧
      ((us.foldl bindUplink bs).map Binding.name).Nodup := by
  induction us generalizing bs with
  | nil => exact hbs
  | cons u us ih =>
    rw [List.map_cons, List.nodup_cons] at hids hnames
    rw [List.foldl_cons]
    apply ih hids.2 hnames.2
    · intro v hv b hb
      obtain hb | ⟨-, rfl⟩ := mem_bindUplink.mp hb
      · exact hagree v (List.mem_cons_of_mem u hv) b hb
      · have hid : u.id.get ≠ v.id.get := fun hid =>
          hids.1 (List.mem_map.mpr ⟨v, hv, (UplinkId.get_injective hid).symm⟩)
        have hname : u.name ≠ v.name := fun hname =>
          hnames.1 (List.mem_map.mpr ⟨v, hv, hname.symm⟩)
        simp [hid, hname]
    · by_cases hany : (bs.any fun b => b.id = u.id.get) = true
      · simpa [bindUplink, hany] using hbs
      · have hid : ∀ b ∈ bs, b.id ≠ u.id.get := by simpa using hany
        have hname : ∀ b ∈ bs, b.name ≠ u.name := by
          intro b hb hname
          exact hid b hb ((hagree u List.mem_cons_self b hb).mpr hname)
        simp only [bindUplink, hany, Bool.false_eq_true, if_false, List.map_append,
          List.map_singleton]
        constructor
        · refine hbs.1.append (List.nodup_singleton _) ?_
          simpa [List.disjoint_singleton] using hid
        · refine hbs.2.append (List.nodup_singleton _) ?_
          simpa [List.disjoint_singleton] using hname

/-- Binding a configuration without conflicts keeps ids and names distinct. -/
theorem Distinct.bind {m : Manifest} (h : m.Distinct) {c : Config}
    (hids : (c.uplinks.map Uplink.id).Nodup) (hnames : (c.uplinks.map Uplink.name).Nodup)
    (hcheck : m.check c = []) : (m.bind c).Distinct := by
  have hkept : ∀ g : Binding → Bool,
      ((m.uplinks.map fun b => { b with removed := g b }).map Binding.id).Nodup ∧
        ((m.uplinks.map fun b => { b with removed := g b }).map Binding.name).Nodup := by
    intro g
    simpa [List.map_map, Function.comp_def] using And.intro h.ids h.names
  obtain ⟨-, hagree⟩ := check_eq_nil_iff.mp hcheck
  have hagree' : ∀ u ∈ c.uplinks, ∀ b ∈ m.uplinks.map fun b =>
      ({ b with removed := !c.uplinks.any fun u => u.id.get = b.id } : Binding),
      b.id = u.id.get ↔ b.name = u.name := by
    intro u hu b hb
    obtain ⟨b, hmem, rfl⟩ := List.mem_map.mp hb
    exact hagree u hu b.id b.name ⟨b, hmem, rfl, rfl⟩
  obtain ⟨hids', hnames'⟩ := nodup_foldl_bindUplink hids hnames hagree' (hkept _)
  constructor
  · exact ((List.perm_insertionSort _ _).map _).nodup_iff.mpr hids'
  · exact ((List.perm_insertionSort _ _).map _).nodup_iff.mpr hnames'

/-- What forgetting an uplink does. -/
theorem forget_eq_ok {m m' : Manifest} {name : String} {id : UplinkId}
    (h : m.forget name = .ok (id, m')) :
    m.Binds id.get name ∧
      m' = { m with uplinks := m.uplinks.eraseP fun b => b.name = name } := by
  unfold forget at h
  split at h
  · cases h
  · next b hfind =>
      split at h
      · cases h
      · split at h
        · cases h
        · next id' hid =>
            obtain ⟨rfl, rfl⟩ := Prod.mk.inj (Except.ok.inj h)
            have hget : id'.get = b.id := by
              simp only [UplinkId.new, Option.dite_none_right_eq_some, Option.some.injEq] at hid
              obtain ⟨-, rfl⟩ := hid
              rfl
            exact ⟨⟨b, List.mem_of_find?_eq_some hfind, hget.symm,
              by simpa using List.find?_some hfind⟩, rfl⟩

/-- Among distinct names the first of a name is the only one. -/
theorem eraseP_eq_filter {bs : List Binding} (h : (bs.map Binding.name).Nodup) (name : String) :
    (bs.eraseP fun b => b.name = name) = bs.filter fun b => b.name ≠ name := by
  induction bs with
  | nil => rfl
  | cons b bs ih =>
    rw [List.map_cons, List.nodup_cons] at h
    by_cases hb : b.name = name
    · have hrest : ∀ b' ∈ bs, b'.name ≠ name := by
        intro b' hb' hname
        exact h.1 (List.mem_map.mpr ⟨b', hb', hname.trans hb.symm⟩)
      have hfilter : (bs.filter fun b => b.name ≠ name) = bs := by
        simpa [List.filter_eq_self] using hrest
      simpa [hb] using hfilter.symm
    · simpa [hb] using ih h.2

theorem Distinct.forget {m : Manifest} (h : m.Distinct) (name : String) :
    ({ m with uplinks := m.uplinks.eraseP fun b => b.name = name } : Manifest).Distinct where
  ids := h.ids.sublist (List.eraseP_sublist.map _)
  names := h.names.sublist (List.eraseP_sublist.map _)

/-- Forgetting a name releases it, and nothing else. -/
theorem Distinct.binds_forget {m : Manifest} (h : m.Distinct) {name : String} {id : BitVec 8}
    {name' : String} :
    ({ m with uplinks := m.uplinks.eraseP fun b => b.name = name } : Manifest).Binds id name' ↔
      m.Binds id name' ∧ name' ≠ name := by
  simp only [Binds, eraseP_eq_filter h.names, List.mem_filter, decide_eq_true_eq]
  constructor
  · rintro ⟨b, ⟨hb, hne⟩, hid, rfl⟩
    exact ⟨⟨b, hb, hid, rfl⟩, hne⟩
  · rintro ⟨⟨b, hb, hid, rfl⟩, hne⟩
    exact ⟨b, ⟨hb, hne⟩, hid, rfl⟩

end Manifest

end Polywan
