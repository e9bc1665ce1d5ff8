import Polywan.Daemon
import Polywan.Discover.Gateway
import Polywan.Discover.Paths
import Polywan.Plan.Artifacts

/-!
# Source addresses of the paths

A local address selects the table of one path only.  Discovery takes the readiness of
every path that shares an address with another of its family, so that the planner gives
each address of a ready path one source rule and one guard.

## Main definitions

* `Config.SourcesAccepted` — the static sources too are as the validation accepts them.
* `System.AddressesTyped` — an observed address is of the family its message names.
* `Input.Follows` — a planner input with the local addresses that were discovered.

## Main results

* `discover_unambiguous` — a ready path has its addresses for itself.
-/

namespace Polywan

/-- An accepted configuration whose static sources are of the family of their path. -/
structure Config.SourcesAccepted (c : Config) : Prop extends c.Valid where
  source_family : ∀ u ∈ c.uplinks, ∀ f p, u.path f = some p → ∀ a, p.source = .static a →
    Family.of a = f

/-- An observed address is of the family its message names, as the kernel sends it. -/
def System.AddressesTyped (s : System) : Prop :=
  ∀ (k : AddressKey) a, s.addresses[k]? = some a → a.family = Family.of a.address

/-- The local addresses of a planner input are those discovered. -/
def Input.Follows (i : Input) (found : Std.ExtTreeMap PathKey Discovered) : Prop :=
  ∀ k : PathKey, i.paths[k]?.map PathInput.localAddresses = found[k]?.map Discovered.localAddresses

open Discover

variable {c : Config} {s : System} {protocol now : ℕ}

/-! ## One path -/

theorem System.mem_addresses {a : ObservedAddress} :
    a ∈ s.addresses.toList.map Prod.snd ↔ ∃ k : AddressKey, s.addresses[k]? = some a := by
  simp only [List.mem_map, Prod.exists, exists_eq_right,
    Std.ExtTreeMap.mem_toList_iff_getElem?_eq_some]

/-- A static source found elsewhere is the configured one. -/
theorem staticSourceElsewhere_eq_some {p : PathSettings} {ifindex : Option ℕ} {a : IpAddr}
    (h : staticSourceElsewhere s p ifindex = some a) : p.source = .static a := by
  unfold staticSourceElsewhere at h
  split at h
  · cases h
  · next source hsource =>
      obtain ⟨o, ho, rfl⟩ := Option.map_eq_some_iff.mp h
      have haddress := List.find?_some ho
      simp only [Bool.and_eq_true, decide_eq_true_eq] at haddress
      rw [hsource, haddress.1.1]

/-- A usable static source that is not on the interface is found elsewhere. -/
theorem staticSourceElsewhere_of_mem {p : PathSettings} {a : IpAddr} (hp : p.source = .static a)
    {o : ObservedAddress} {k : AddressKey} (ho : s.addresses[k]? = some o)
    (haddress : o.address = a) (husable : usable o = true) {ifindex : Option ℕ}
    (hindex : some o.index ≠ ifindex) :
    staticSourceElsewhere s p ifindex = some a := by
  simp only [staticSourceElsewhere, hp, Option.map_eq_some_iff]
  obtain ⟨o', ho'⟩ : ∃ o', (s.addresses.toList.map Prod.snd).find? (fun o =>
      decide (o.address = a) && decide (some o.index ≠ ifindex) && usable o) = some o' := by
    rw [← Option.isSome_iff_exists, List.find?_isSome]
    exact ⟨o, System.mem_addresses.mpr ⟨k, ho⟩, by simp [haddress, hindex, husable]⟩
  refine ⟨o', ho', ?_⟩
  have h := List.find?_some ho'
  simp only [Bool.and_eq_true, decide_eq_true_eq] at h
  exact h.1.1

section Path

variable {u : Uplink} {f : Family} {p : PathSettings}

/-- The local addresses of a path are of its family. -/
theorem family_of_localAddress (hs : s.AddressesTyped)
    (hp : ∀ a, p.source = .static a → Family.of a = f) {a : IpAddr}
    (ha : a ∈ (discoverPath c s protocol u f p now).localAddresses) : Family.of a = f := by
  unfold discoverPath at ha
  cases hl : s.linkByName u.interface with
  | none =>
    simp only [hl, Std.ExtTreeSet.mem_ofList, List.contains_eq_mem, decide_eq_true_eq,
      Option.mem_toList] at ha
    exact hp a (staticSourceElsewhere_eq_some ha)
  | some link =>
    simp only [hl, Std.ExtTreeSet.mem_ofList, List.contains_eq_mem, decide_eq_true_eq,
      List.mem_append, Option.mem_toList] at ha
    obtain ha | ha := ha
    · obtain ⟨o, ho, rfl⟩ := List.mem_map.mp ha
      obtain ⟨hmem, hcond⟩ := List.mem_filter.mp ho
      simp only [Bool.and_eq_true, decide_eq_true_eq] at hcond
      obtain ⟨k, hk⟩ := System.mem_addresses.mp hmem
      rw [← hs k o hk, hcond.1.2]
    · exact hp a (staticSourceElsewhere_eq_some ha)

/-- A chosen source is an address of the interface. -/
theorem exists_mem_of_autoSource {onLink : List ObservedAddress} {a : IpAddr}
    (h : autoSource onLink = some a) : ∃ o ∈ onLink, o.address = a := by
  obtain ⟨o, ho, rfl⟩ := Option.map_eq_some_iff.mp h
  rw [minByKey_eq_argmin] at ho
  exact ⟨o, List.mem_of_mem_filter (List.argmin_mem ho), rfl⟩

/-- The source of a path is among its local addresses. -/
theorem localAddress_of_discoverSource (hs : s.AddressesTyped)
    (hp : ∀ a, p.source = .static a → Family.of a = f) {link : ObservedLink} {a : IpAddr}
    (h : discoverSource s p ((s.addresses.toList.map Prod.snd).filter fun o =>
      o.index = link.index && o.family = f && usable o) = some a) :
    a ∈ ((s.addresses.toList.map Prod.snd).filter fun o =>
        o.index = link.index && o.family = f && usable o).map ObservedAddress.address ∨
      staticSourceElsewhere s p (some link.index) = some a := by
  unfold discoverSource at h
  split at h
  · next source hsource =>
      split at h
      · next hany =>
          obtain rfl := Option.some.inj h
          obtain ⟨o, ho, hcond⟩ := List.any_eq_true.mp hany
          simp only [Bool.and_eq_true, decide_eq_true_eq] at hcond
          obtain ⟨⟨haddress, husable⟩, -⟩ := hcond
          obtain ⟨k, hk⟩ := System.mem_addresses.mp ho
          -- On the interface it is of the path's family, since its message says so.
          by_cases hindex : o.index = link.index
          · have hfamily : o.family = f := by rw [hs k o hk, haddress, hp source hsource]
            exact .inl (List.mem_map.mpr ⟨o, List.mem_filter.mpr
              ⟨ho, by simp [hindex, hfamily, husable]⟩, haddress⟩)
          · exact .inr (staticSourceElsewhere_of_mem hsource hk haddress husable
              (by simpa using hindex))
      · cases h
  · obtain ⟨o, ho, haddress⟩ := exists_mem_of_autoSource h
    exact .inl (List.mem_map.mpr ⟨o, ho, haddress⟩)

/-- **A ready path's source is local to it**, on an interface that is up with carrier. -/
theorem source_mem_of_ready (hs : s.AddressesTyped)
    (hp : ∀ a, p.source = .static a → Family.of a = f) {r : ReadyPath}
    (hr : (discoverPath c s protocol u f p now).ready = .ok r) :
    r.source ∈ (discoverPath c s protocol u f p now).localAddresses ∧
      ∃ link, s.linkByName u.interface = some link ∧ r.ifindex = link.index ∧
        link.usable = true := by
  unfold discoverPath at hr ⊢
  cases hl : s.linkByName u.interface with
  | none => simp [hl] at hr
  | some link =>
    simp only [hl] at hr ⊢
    have husable : link.usable = true := by
      by_contra h
      simp [Bool.not_eq_true _ ▸ h] at hr
    simp only [husable, Bool.not_true, Bool.false_eq_true, if_false] at hr
    split at hr
    · cases hr
    · next source hsource =>
        split at hr
        · obtain rfl := Except.ok.inj hr
          refine ⟨?_, link, rfl, rfl, husable⟩
          simp only [Std.ExtTreeSet.mem_ofList, List.contains_eq_mem, decide_eq_true_eq,
            List.mem_append, Option.mem_toList]
          exact localAddress_of_discoverSource hs hp hsource
        · cases hr

end Path

/-! ## All paths -/

/-- The path that an entry of discovery is about. -/
theorem exists_path_of_discover (hv : c.Valid) {k : PathKey} {raw : Discovered}
    (hraw : (discover c s protocol now)[k]? = some raw) :
    ∃ u p, c.uplink k.uplink = some u ∧ u.path k.family = some p ∧
      (discoverPaths c s protocol now)[k]? = some (discoverPath c s protocol u k.family p now) ∧
      raw.localAddresses = (discoverPath c s protocol u k.family p now).localAddresses ∧
      ∀ r, raw.ready = .ok r → (discoverPath c s protocol u k.family p now).ready = .ok r ∧
        conflicted (discoverPaths c s protocol now) k
          (discoverPath c s protocol u k.family p now) = false := by
  rw [getElem?_discover] at hraw
  obtain ⟨raw', hraw', rfl⟩ := Option.map_eq_some_iff.mp hraw
  have hfound := hraw'
  rw [getElem?_discoverPaths hv] at hraw'
  obtain ⟨u, hu, hpath⟩ := Option.bind_eq_some_iff.mp hraw'
  obtain ⟨p, hp, rfl⟩ := Option.map_eq_some_iff.mp hpath
  refine ⟨u, p, hu, hp, hfound, ?_, ?_⟩
  · split <;> rfl
  · intro r hr
    split at hr
    · cases hr
    · next h => exact ⟨hr, Bool.not_eq_true _ ▸ h⟩

/-- **A ready path shares no address** with another path of its family. -/
theorem disjoint_of_ready (hv : c.Valid) {k k' : PathKey} {raw raw' : Discovered} {r : ReadyPath}
    (hraw : (discover c s protocol now)[k]? = some raw) (hr : raw.ready = .ok r)
    (hraw' : (discover c s protocol now)[k']? = some raw') (hk : k' ≠ k)
    (hfamily : k'.family = k.family) {a : IpAddr} (ha : a ∈ raw.localAddresses) :
    a ∉ raw'.localAddresses := by
  intro ha'
  obtain ⟨u, p, -, -, -, hlocal, hready⟩ := exists_path_of_discover hv hraw
  obtain ⟨u', p', -, -, hfound', hlocal', -⟩ := exists_path_of_discover hv hraw'
  have hconflict := (hready r hr).2
  rw [hlocal] at ha
  rw [hlocal'] at ha'
  rw [Bool.eq_false_iff] at hconflict
  refine hconflict (List.any_eq_true.mpr ⟨(k', _),
    Std.ExtTreeMap.mem_toList_iff_getElem?_eq_some.mpr hfound', ?_⟩)
  have hoverlap : overlap (discoverPath c s protocol u' k'.family p' now).localAddresses
      (discoverPath c s protocol u k.family p now).localAddresses = true :=
    List.any_eq_true.mpr ⟨a, Std.ExtTreeSet.mem_toList.mpr ha',
      Std.ExtTreeSet.contains_iff_mem.mpr ha⟩
  rw [hoverlap]
  simp [hk, hfamily]

/-- The local addresses of a discovered path are of its family. -/
theorem family_of_discover (hc : c.SourcesAccepted) (hs : s.AddressesTyped) {k : PathKey}
    {raw : Discovered} (hraw : (discover c s protocol now)[k]? = some raw) {a : IpAddr}
    (ha : a ∈ raw.localAddresses) : Family.of a = k.family := by
  obtain ⟨u, p, hu, hp, -, hlocal, -⟩ := exists_path_of_discover hc.toValid hraw
  rw [hlocal] at ha
  exact family_of_localAddress hs
    (hc.source_family u (hc.uplink_eq_some.mp hu).1 k.family p hp) ha

/-- The addresses local to a path of the planner are those discovered. -/
theorem Input.Follows.isLocal {i : Input} (hc : c.Valid)
    (hi : i.Follows (discover c s protocol now)) {f : Family} {id : UplinkId} {a : IpAddr} :
    IsLocal c i f id a ↔
      ∃ raw, (discover c s protocol now)[(⟨id, f⟩ : PathKey)]? = some raw
        ∧ a ∈ raw.localAddresses := by
  rw [isLocal_iff]
  constructor
  · rintro ⟨u, -, rfl, p, hp, ha⟩
    have h := hi ⟨u.id, f⟩
    rw [hp, Option.map_some] at h
    obtain ⟨raw, hraw, heq⟩ := Option.map_eq_some_iff.mp h.symm
    exact ⟨raw, hraw, heq ▸ ha⟩
  · rintro ⟨raw, hraw, ha⟩
    obtain ⟨u, hu, hid⟩ := configured_of_discover hc hraw
    have h := hi ⟨id, f⟩
    rw [hraw, Option.map_some] at h
    obtain ⟨p, hp, heq⟩ := Option.map_eq_some_iff.mp h
    refine ⟨u, hu, hid, p, ?_, heq ▸ ha⟩
    rw [hid]
    exact hp

/-- The planned rules that select an address are the source rule and the guard of the
one path it is local to. -/
theorem planned_of_source {i : Input} {a : IpAddr} {k : PathKey}
    (hlocal : ∀ f id, IsLocal c i f id a ↔ (⟨id, f⟩ : PathKey) = k)
    (hmanages : c.manages k.family = true) {r : Rule} :
    (r ∈ (plan c i).rules ∧ r.source = some a) ↔
      r = (Role.sourceLookup k.uplink a).rule (Layout.of c) k.family
        ∨ r = (Role.sourceGuard a).rule (Layout.of c) k.family := by
  rw [mem_plan_rules]
  constructor
  · rintro ⟨⟨-, ρ, hρ, hr⟩, hsource⟩
    rw [hr, Role.rule_source] at hsource
    cases ρ with
    | sourceLookup id a' =>
      obtain rfl := Option.some.inj hsource
      obtain rfl := (hlocal r.family id).mp hρ
      exact .inl hr
    | sourceGuard a' =>
      obtain rfl := Option.some.inj hsource
      obtain ⟨id, hid⟩ := hρ
      obtain rfl := (hlocal r.family id).mp hid
      exact .inr hr
    | _ => cases hsource
  · rintro (rfl | rfl)
    · exact ⟨⟨hmanages, .sourceLookup k.uplink a, (hlocal k.family k.uplink).mpr rfl, rfl⟩, rfl⟩
    · exact ⟨⟨hmanages, .sourceGuard a, ⟨k.uplink, (hlocal k.family k.uplink).mpr rfl⟩, rfl⟩, rfl⟩

/-- **Discovery makes source routing unambiguous.**  A ready path's source is one of its
local addresses, its interface is up with carrier, and none of its addresses is local to
another configured path of its family.  So the planner, given the discovered addresses,
has exactly two rules for each of them: the source rule at the path's priority, to the
path's table, and after it the source guard. -/
theorem discover_unambiguous (hc : c.SourcesAccepted) (hs : s.AddressesTyped) {i : Input}
    (hi : i.Follows (discover c s protocol now)) {k : PathKey} {raw : Discovered} {r : ReadyPath}
    (hraw : (discover c s protocol now)[k]? = some raw) (hr : raw.ready = .ok r) :
    r.source ∈ raw.localAddresses ∧
    (∃ u link, c.uplink k.uplink = some u ∧ s.linkByName u.interface = some link ∧
      r.ifindex = link.index ∧ link.up = true ∧ link.lowerUp = true) ∧
    (∀ k' raw', (discover c s protocol now)[k']? = some raw' → k' ≠ k →
      k'.family = k.family → ∀ a ∈ raw.localAddresses, a ∉ raw'.localAddresses) ∧
    ∀ a ∈ raw.localAddresses, ∃ lookup guard : Rule,
      (∀ rule, rule ∈ (plan c i).rules ∧ rule.source = some a ↔ rule = lookup ∨ rule = guard) ∧
      lookup.family = k.family ∧
      lookup.priority = c.routing.rulePriorityBase + 500 + k.uplink.num ∧
      lookup.action = .lookup ((Layout.of c).pathTable k.uplink) ∧
      guard.family = k.family ∧ guard.action = .unreachable ∧
      lookup.priority < guard.priority := by
  obtain ⟨u, p, hu, hp, -, hlocal, hready⟩ := exists_path_of_discover hc.toValid hraw
  have hmem := (hc.uplink_eq_some.mp hu).1
  obtain ⟨hsource, link, hlink, hindex, husable⟩ :=
    source_mem_of_ready hs (hc.source_family u hmem k.family p hp) (hready r hr).1
  refine ⟨hlocal ▸ hsource, ⟨u, link, hu, hlink, hindex, ?_⟩,
    fun k' raw' hraw' hk hfamily a ha => disjoint_of_ready hc.toValid hraw hr hraw' hk hfamily ha,
    fun a ha => ?_⟩
  · simpa [ObservedLink.usable] using husable
  · have hone : ∀ f id, IsLocal c i f id a ↔ (⟨id, f⟩ : PathKey) = k := by
      intro f id
      rw [hi.isLocal hc.toValid]
      constructor
      · rintro ⟨raw', hraw', ha'⟩
        by_contra hk
        have hfamily : f = k.family :=
          (family_of_discover hc hs hraw' ha').symm.trans (family_of_discover hc hs hraw ha)
        exact disjoint_of_ready hc.toValid hraw hr hraw' hk hfamily ha ha'
      · rintro rfl
        exact ⟨raw, hraw, ha⟩
    have hmanages : c.manages k.family = true :=
      Config.manages_iff.mpr ⟨u, hmem, Option.isSome_iff_exists.mpr ⟨p, hp⟩⟩
    have hnum := k.uplink.num_le
    refine ⟨_, _, fun rule => planned_of_source hone hmanages, rfl, ?_, rfl, rfl, rfl, ?_⟩
    · simp only [Role.rule_priority, Role.offset, Layout.of]
      omega
    · simp only [Role.rule_priority, Role.offset]
      omega

namespace Sample

/-- The first uplink alone, with a static source. -/
def sourceConfig : Config :=
  { config with uplinks := [{ uplink id1 "fibre" "wan1" with
      ipv4 := some { settings with source := .static (.v4 7) } }] }

/-- Its interface is a point-to-point link; the source is on another one. -/
def sourceView : System where
  links := (∅ : Std.ExtTreeMap ℕ ObservedLink).insert 2 ⟨2, "wan1", true, true, true⟩
  addresses := (∅ : Std.ExtTreeMap AddressKey ObservedAddress).insert ⟨1, .v4 7⟩
    ⟨1, .v4, .v4 7, 32, 0, 0x80⟩

/-- The planner input with the addresses discovered. -/
def sourceInput : Input where
  paths := (discover sourceConfig sourceView 249 0).map fun _ raw =>
    ⟨raw.ready.toOption, raw.localAddresses, true, false⟩

theorem sourceConfig_accepted : sourceConfig.SourcesAccepted where
  toValid := by decide
  source_family := by
    intro u hu f p hp a ha
    obtain rfl := List.mem_singleton.mp hu
    cases f with
    | v4 =>
      obtain rfl := Option.some.inj hp
      cases ha
      rfl
    | v6 => cases hp

theorem sourceView_typed : sourceView.AddressesTyped := by
  intro k a h
  simp only [sourceView, Std.ExtTreeMap.getElem?_insert, Std.ExtTreeMap.getElem?_empty,
    Option.ite_none_right_eq_some, Option.some.injEq] at h
  rw [← h.2]
  rfl

theorem sourceInput_follows : sourceInput.Follows (discover sourceConfig sourceView 249 0) := by
  intro k
  simp only [sourceInput, Std.ExtTreeMap.getElem?_map, Option.map_map]
  rfl

/-- The path is ready over the link, with the static source as its only address. -/
theorem source_facts :
    (discover sourceConfig sourceView 249 0)[(⟨id1, .v4⟩ : PathKey)]?
      = some ⟨some 2, .ok ⟨2, none, false, .v4 7⟩, {.v4 7}, false, false⟩ := by
  decide +kernel

end Sample

/-- A static source on another interface has its two rules. -/
theorem discover_unambiguous_static :
    ∃ lookup guard : Rule,
      (∀ rule, rule ∈ (plan Sample.sourceConfig Sample.sourceInput).rules
        ∧ rule.source = some (.v4 7) ↔ rule = lookup ∨ rule = guard) ∧
      lookup.priority < guard.priority := by
  obtain ⟨hsource, -, -, hrules⟩ := discover_unambiguous Sample.sourceConfig_accepted
    Sample.sourceView_typed Sample.sourceInput_follows Sample.source_facts rfl
  obtain ⟨lookup, guard, hrule, -, -, -, -, -, hlt⟩ := hrules _ hsource
  exact ⟨lookup, guard, hrule, hlt⟩

end Polywan
