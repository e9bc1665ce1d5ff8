import Mathlib.Data.String.Basic
import Std.Data.ExtTreeSet
import Polywan.Mark
import Polywan.Nft

/-!
# Mark assignments

Which paths a table assigns marks to, and that the table of a configuration assigns
exactly its enabled paths, each on its interface.

## Main definitions

* `Assignment` — a path and the interface its rules match.
* `Config.assignments` — those of a configuration.
* `Nft.Table.assigns` — those a table holds.
-/

namespace Polywan

/-- A path's mark assignment in the nftables table: the path and the interface its
rules match. -/
structure Assignment where
  path : PathKey
  interface : String

namespace Assignment

def index (a : Assignment) : PathKey ×ₗ String := toLex (a.path, a.interface)

theorem index_injective : Function.Injective index := by
  rintro ⟨k, i⟩ ⟨k', i'⟩ h
  simpa [index] using h

instance : LinearOrder Assignment := LinearOrder.lift' index index_injective

instance : Std.TransCmp (compare : Assignment → Assignment → Ordering) := inferInstance

end Assignment

/-- The mark assignment of every configured path: its interface, which a reload may
change while the uplink keeps its id. -/
def Config.assignments (c : Config) : Std.ExtTreeSet Assignment :=
  Std.ExtTreeSet.ofList <| c.uplinks.flatMap fun u =>
    u.families.map fun f =>
      ({ path := { uplink := u.id, family := f }, interface := u.interface } : Assignment)

theorem Config.mem_assignments {c : Config} {a : Assignment} :
    a ∈ c.assignments ↔
      ∃ u ∈ c.uplinks, a.path.family ∈ u.families ∧ u.id = a.path.uplink ∧
        u.interface = a.interface := by
  obtain ⟨⟨id, f⟩, i⟩ := a
  simp only [assignments, Std.ExtTreeSet.mem_ofList, List.contains_eq_mem, decide_eq_true_iff,
    List.mem_flatMap, List.mem_map, Assignment.mk.injEq, PathKey.mk.injEq]
  constructor
  · rintro ⟨u, hu, f', hf, ⟨rfl, rfl⟩, rfl⟩
    exact ⟨u, hu, hf, rfl, rfl⟩
  · rintro ⟨u, hu, hf, rfl, rfl⟩
    exact ⟨u, hu, f, hf, ⟨rfl, rfl⟩, rfl⟩

namespace Nft

/-- Whether a rule assigns a path value: it matches the family and the outgoing
interface and sets the conntrack mark to the value. -/
def Rule.assigns (r : Rule) (family : Family) (interface : String) (value : BitVec 32) : Bool :=
  r.conditions.contains (.nfproto family) && r.conditions.contains (.oifname [interface])
    && r.writes.any fun w => w.which = .conntrack && w.value = value

/-- Whether a table assigns a path. -/
def Table.assigns (t : Table) (mask : FwMask) (a : Assignment) : Bool :=
  (t.prerouting ++ t.output ++ t.postrouting ++ t.nat).any fun r =>
    r.assigns a.path.family a.interface (mask.encode (.path a.path.uplink))

section Ruleset

variable {c : Config} {family : Family} {interface : String} {value : BitVec 32}

/-- A rule that does not look at the outgoing interface assigns nothing. -/
theorem Rule.not_assigns_of_conditions {r : Rule}
    (h : ∀ names, Match.oifname names ∉ r.conditions) :
    r.assigns family interface value = false := by
  simp [Rule.assigns, h]

/-- A rule that writes no conntrack mark assigns nothing. -/
theorem Rule.not_assigns_of_writes {r : Rule} (h : r.writes = []) :
    r.assigns family interface value = false := by
  simp [Rule.assigns, h]

theorem assigns_assign (k : FwMask) (u : Uplink) (f : Family) (direction : String) :
    (assign k (.oifname [u.interface]) u f direction).assigns family interface value = true ↔
      family = f ∧ interface = u.interface ∧ k.encode (.path u.id) = value := by
  simp [Rule.assigns, assign, set, and_assoc]

theorem not_assigns_otherFamilySkip (r : Rule) (hr : r ∈ otherFamilySkip c) :
    r.assigns family interface value = false := by
  apply Rule.not_assigns_of_writes
  unfold otherFamilySkip at hr
  split at hr
  · obtain rfl := List.mem_singleton.mp hr
    rfl
  · cases hr

theorem oifname_not_mem_policyConditions (p : Policy) (names : List String) :
    Match.oifname names ∉ policyConditions c p := by
  simp [policyConditions]

theorem not_assigns_prerouting (r : Rule) (hr : r ∈ prerouting c) :
    r.assigns family interface value = false := by
  simp only [prerouting, List.mem_append, List.mem_cons, List.mem_map, List.not_mem_nil,
    or_false, or_assoc] at hr
  rcases hr with hr | rfl | rfl | hr | rfl | rfl | rfl | ⟨⟨u, f⟩, -, rfl⟩ | ⟨p, -, rfl⟩
  · exact not_assigns_otherFamilySkip r hr
  · exact Rule.not_assigns_of_writes rfl
  · exact Rule.not_assigns_of_writes rfl
  · obtain ⟨id, -, rfl⟩ := List.mem_map.mp hr
    exact Rule.not_assigns_of_conditions (by simp [restore])
  · exact Rule.not_assigns_of_writes rfl
  · exact Rule.not_assigns_of_writes rfl
  · exact Rule.not_assigns_of_writes rfl
  · exact Rule.not_assigns_of_conditions (by simp [assign])
  · exact Rule.not_assigns_of_conditions (oifname_not_mem_policyConditions p)

theorem not_assigns_output (r : Rule) (hr : r ∈ output c) :
    r.assigns family interface value = false := by
  simp only [output, List.mem_append, List.mem_cons, List.not_mem_nil, or_false, or_assoc] at hr
  rcases hr with hr | rfl | rfl | hr
  · exact not_assigns_otherFamilySkip r hr
  · exact Rule.not_assigns_of_writes rfl
  · exact Rule.not_assigns_of_writes rfl
  · obtain ⟨id, -, rfl⟩ := List.mem_map.mp hr
    exact Rule.not_assigns_of_conditions (by simp [restore])

theorem not_assigns_nat (r : Rule) (hr : r ∈ nat c) :
    r.assigns family interface value = false := by
  obtain ⟨⟨u, f⟩, -, hr⟩ := List.mem_filterMap.mp hr
  obtain ⟨final, -, rfl⟩ := Option.map_eq_some_iff.mp hr
  exact Rule.not_assigns_of_writes rfl

/-- Outgoing connections are assigned to the enabled path on their interface. -/
theorem exists_assigns_postrouting :
    (∃ r ∈ postrouting c, r.assigns family interface value = true) ↔
      ∃ u ∈ c.uplinks, family ∈ u.families ∧ u.interface = interface ∧
        c.routing.fwmarkMask.encode (.path u.id) = value := by
  simp only [postrouting, List.mem_append, List.mem_cons, List.mem_map, List.not_mem_nil,
    or_false, or_assoc]
  constructor
  · intro ⟨r, hr, hassigns⟩
    rcases hr with hr | rfl | rfl | rfl | rfl | rfl | rfl | ⟨⟨u, f⟩, hu, rfl⟩
    · rw [not_assigns_otherFamilySkip r hr] at hassigns
      cases hassigns
    case inr.inr.inr.inr.inr.inr.inr =>
      obtain ⟨rfl, hi, hv⟩ := (assigns_assign _ u f _).mp hassigns
      simp only [paths, List.mem_flatMap, List.mem_map, Prod.mk.injEq] at hu
      obtain ⟨u', hu', f', hf, rfl, rfl⟩ := hu
      exact ⟨u', hu', hf, hi.symm, hv⟩
    all_goals
      rw [Rule.not_assigns_of_writes rfl] at hassigns
      cases hassigns
  · intro ⟨u, hu, hf, hi, hv⟩
    refine ⟨assign c.routing.fwmarkMask (.oifname [u.interface]) u family "outgoing", ?_,
      (assigns_assign _ u family _).mpr ⟨rfl, hi.symm, hv⟩⟩
    refine .inr (.inr (.inr (.inr (.inr (.inr (.inr ⟨(u, family), ?_, rfl⟩))))))
    exact List.mem_flatMap.mpr ⟨u, hu, List.mem_map.mpr ⟨family, hf, rfl⟩⟩

end Ruleset

/-- **The table of a configuration assigns exactly its enabled paths.** -/
theorem assigns_ruleset (c : Config) (a : Assignment) :
    (ruleset c).assigns c.routing.fwmarkMask a = true ↔ a ∈ c.assignments := by
  have hpost : (∃ r ∈ postrouting c, r.assigns a.path.family a.interface
      (c.routing.fwmarkMask.encode (.path a.path.uplink)) = true) ↔ _ := exists_assigns_postrouting
  rw [Config.mem_assignments]
  simp only [Table.assigns, ruleset, List.any_append, Bool.or_eq_true, List.any_eq_true]
  constructor
  · rintro (((⟨r, hr, h⟩ | ⟨r, hr, h⟩) | hassigns) | ⟨r, hr, h⟩)
    · rw [not_assigns_prerouting r hr] at h
      cases h
    · rw [not_assigns_output r hr] at h
      cases h
    · obtain ⟨u, hu, hf, hi, hv⟩ := hpost.mp hassigns
      have hget := congrArg FieldValue.get (FwMask.encode_injective _ hv)
      exact ⟨u, hu, hf, UplinkId.get_injective hget, hi⟩
    · rw [not_assigns_nat r hr] at h
      cases h
  · intro ⟨u, hu, hf, hid, hi⟩
    exact .inl (.inr (hpost.mpr ⟨u, hu, hf, hi, by rw [hid]⟩))

/-- Equal tables assign the same paths. -/
theorem assignments_eq_of_ruleset_eq {c c' : Config} (hs : c.structural = c'.structural)
    (h : ruleset c = ruleset c') : c.assignments = c'.assignments := by
  have hmask : c.routing.fwmarkMask = c'.routing.fwmarkMask := congrArg Structural.fwmarkMask hs
  refine Std.ExtTreeSet.ext_mem fun a => ?_
  rw [← assigns_ruleset, ← assigns_ruleset, h, hmask]

end Nft

end Polywan
