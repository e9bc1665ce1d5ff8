import Polywan.Discover
import Polywan.Lib.Fold

/-!
# What discovery finds

The entry of each configured path.
-/

namespace Polywan

variable {c : Config} {s : System} {protocol now : ℕ}

/-- The uplink of an id, in an accepted configuration. -/
theorem Config.Valid.uplink_eq_some (hv : c.Valid) {id : UplinkId} {u : Uplink} :
    c.uplink id = some u ↔ u ∈ c.uplinks ∧ u.id = id := by
  constructor
  · intro h
    exact ⟨List.mem_of_find?_eq_some h, by simpa using List.find?_some h⟩
  · rintro ⟨hu, rfl⟩
    cases h : c.uplink u.id with
    | none =>
      have := List.find?_eq_none.mp h u hu
      simp at this
    | some u' =>
      have hid : u'.id = u.id := by simpa using List.find?_some h
      rw [List.inj_on_of_nodup_map hv.nodup_ids (List.mem_of_find?_eq_some h) hu hid]

theorem getElem?_discoverPaths (hv : c.Valid) (k : PathKey) :
    (discoverPaths c s protocol now)[k]? =
      (c.uplink k.uplink).bind fun u => (u.path k.family).map fun p =>
        discoverPath c s protocol u k.family p now := by
  ext raw
  have hmem : ∀ k raw, (k, raw) ∈ (c.uplinks.flatMap fun u =>
      u.families.filterMap fun family => (u.path family).map fun p =>
        (({ uplink := u.id, family } : PathKey), discoverPath c s protocol u family p now)) ↔
      ∃ u p, c.uplink k.uplink = some u ∧ u.path k.family = some p ∧
        discoverPath c s protocol u k.family p now = raw := by
    rintro ⟨id, f⟩ raw
    simp only [List.mem_flatMap, List.mem_filterMap, Option.map_eq_some_iff, Prod.mk.injEq,
      PathKey.mk.injEq, hv.uplink_eq_some]
    constructor
    · rintro ⟨u, hu, _, -, p, hp, ⟨rfl, rfl⟩, rfl⟩
      exact ⟨u, p, ⟨hu, rfl⟩, hp, rfl⟩
    · rintro ⟨u, p, ⟨hu, rfl⟩, hp, rfl⟩
      exact ⟨u, hu, f, List.mem_filter.mpr ⟨Family.mem_all f, by simp [hp]⟩, p, hp, ⟨rfl, rfl⟩, rfl⟩
  rw [discoverPaths, Lib.getElem?_ofList, hmem]
  · simp only [Option.bind_eq_some_iff, Option.map_eq_some_iff, exists_and_left]
  · rintro ⟨k, raw⟩ ha ⟨k', raw'⟩ hb rfl
    obtain ⟨u, p, hu, hp, rfl⟩ := (hmem _ _).mp ha
    obtain ⟨u', p', hu', hp', rfl⟩ := (hmem _ _).mp hb
    obtain rfl := Option.some.inj (hu.symm.trans hu')
    obtain rfl := Option.some.inj (hp.symm.trans hp')
    rfl

theorem getElem?_discover (k : PathKey) :
    (discover c s protocol now)[k]? = (discoverPaths c s protocol now)[k]?.map fun d =>
      if conflicted (discoverPaths c s protocol now) k d then
        { d with ready := .error .addressConflict } else d := by
  rw [discover, Std.ExtTreeMap.getElem?_map]

/-- Only configured paths are discovered. -/
theorem configured_of_discover (hv : c.Valid) {k : PathKey} {raw : Discovered}
    (hraw : (discover c s protocol now)[k]? = some raw) :
    ∃ u ∈ c.uplinksOf k.family, u.id = k.uplink := by
  rw [getElem?_discover, getElem?_discoverPaths hv] at hraw
  obtain ⟨raw', hraw', -⟩ := Option.map_eq_some_iff.mp hraw
  obtain ⟨u, hu, hp⟩ := Option.bind_eq_some_iff.mp hraw'
  obtain ⟨p, hp, -⟩ := Option.map_eq_some_iff.mp hp
  obtain ⟨hmem, hid⟩ := hv.uplink_eq_some.mp hu
  exact ⟨u, List.mem_filter.mpr ⟨hmem, Option.isSome_iff_exists.mpr ⟨p, hp⟩⟩, hid⟩

end Polywan
