import Polywan.Netlink.Identity
import Polywan.Reconcile

/-!
# What the kernel echoes

The kernel does not send back the message it got.  For a rule it leaves out a zero
mark, states the suppressed prefix length also when there is none, and gives every
rule a table; for a route it may list a single next hop as a multipath of one
member, and it keeps the members in an order of its own.  Attributes come in any
order.  None of this changes what the program recognises.

## Main definitions

* `Rule.dumped` — the message of a rule in a dump of the kernel.
* `RuleMessage.Echoes`, `RouteMessage.Echoes` — the messages a planned object may
  come back as.

## Main results

* `RuleMessage.Echoes.recognised_iff` — an echoed rule is recognised as its own rule only.
* `RouteMessage.Echoes.round_trip` — an echoed route reads back as the route sent.
-/

namespace Polywan

/-! ## Attributes in any order -/

namespace RuleAttribute

/-- The field of the rule an attribute fills. -/
def slot : RuleAttribute → ℕ
  | priority _ => 0
  | protocol _ => 1
  | table _ => 2
  | fwMark _ => 3
  | fwMask _ => 4
  | source _ => 5
  | suppressPrefixLen _ => 6
  | l3mdev _ => 7
  | suppressIfGroup _ => 8
  | other _ _ => 9

end RuleAttribute

namespace RouteAttribute

/-- The field of the route an attribute fills. -/
def slot : RouteAttribute → ℕ
  | table _ => 0
  | priority _ => 1
  | destination _ => 2
  | prefSource _ => 3
  | gateway _ => 4
  | oif _ => 5
  | nhId _ => 6
  | multiPath _ => 7
  | preference _ => 8
  | cacheInfo _ => 9
  | other _ _ => 10

end RouteAttribute

theorem ObservedRule.readAttribute_comm (srcLen : ℕ) (f : ObservedRule.Fields)
    (a b : RuleAttribute) (h : a.slot ≠ b.slot) :
    readAttribute srcLen (readAttribute srcLen f a) b
      = readAttribute srcLen (readAttribute srcLen f b) a := by
  cases a with
  | l3mdev x => cases x <;> cases b <;> first | rfl | exact absurd rfl h
  | _ =>
    cases b with
    | l3mdev x => cases x <;> rfl
    | _ => first | rfl | exact absurd rfl h

theorem ObservedRoute.readAttribute_comm (now : ℕ) (f : ObservedRoute.Fields)
    (a b : RouteAttribute) (h : a.slot ≠ b.slot) :
    readAttribute now (readAttribute now f a) b = readAttribute now (readAttribute now f b) a := by
  cases a with
  | preference p => cases p <;> cases b <;> first | rfl | exact absurd rfl h
  | _ =>
    cases b with
    | preference p => cases p <;> rfl
    | _ => first | rfl | exact absurd rfl h

/-- A rule message with the attributes in another order reads as the same rule. -/
theorem ObservedRule.parse_perm {m m' : RuleMessage} (hheader : m.header = m'.header)
    (hperm : m.attributes.Perm m'.attributes)
    (hslots : (m'.attributes.map RuleAttribute.slot).Nodup) :
    parse m = (parse m').map fun o => { o with message := m } := by
  have hread : readAttributes m = readAttributes m' := by
    unfold readAttributes
    rw [hheader]
    exact Lib.foldl_perm_of_slots (readAttribute_comm _) hperm hslots _
  simp only [parse, hread, hheader, Option.map_map, Function.comp_def]

/-- A route message reads as the same route with the attributes in another order and,
since an attribute names the table, with any table in the header. -/
theorem ObservedRoute.parse_perm {m m' : RouteMessage} (now : ℕ)
    (hheader : m.header = { m'.header with table := m.header.table })
    (hperm : m.attributes.Perm m'.attributes)
    (hslots : (m'.attributes.map RouteAttribute.slot).Nodup) {table : ℕ}
    {rest : List RouteAttribute} (htable : m'.attributes = .table table :: rest) :
    parse now m = parse now m' := by
  have hread : m.attributes.foldl (readAttribute now) { table := m.header.table }
      = m'.attributes.foldl (readAttribute now) { table := m'.header.table } := by
    rw [Lib.foldl_perm_of_slots (readAttribute_comm now) hperm hslots, htable]
    rfl
  unfold parse
  rw [hread, hheader]

/-! ## Rules -/

/-- The rules a layout can plan, for some uplinks and some address. -/
def Layout.Produces (l : Layout) (r : Rule) : Prop :=
  ∃ f, (∃ ids, r ∈ l.staticRules f ids) ∨ ∃ id a, r ∈ l.sourceRules f id a

/-- The rules some layout plans. -/
def Rule.Planned (r : Rule) : Prop := ∃ l : Layout, l.Produces r

/-- **A layout plans the rules of its roles.** -/
theorem Layout.produces_iff {l : Layout} {r : Rule} :
    l.Produces r ↔ ∃ (f : Family) (ρ : Role), r = ρ.rule l f := by
  constructor
  · rintro ⟨f, ⟨ids, h⟩ | ⟨id, a, h⟩⟩
    · obtain ⟨ρ, -, rfl⟩ := (l.mem_staticRules f).mp h
      exact ⟨f, ρ, rfl⟩
    · obtain rfl | rfl := (l.mem_sourceRules f).mp h
      · exact ⟨f, _, rfl⟩
      · exact ⟨f, _, rfl⟩
  · rintro ⟨f, ρ, rfl⟩
    refine ⟨f, ?_⟩
    have hstatic : ρ.Static UplinkId.all → ∃ ids, ρ.rule l f ∈ l.staticRules f ids := fun h =>
      ⟨UplinkId.all, (l.mem_staticRules f).mpr ⟨ρ, h, rfl⟩⟩
    cases ρ with
    | sourceLookup id a => exact .inr ⟨id, a, (l.mem_sourceRules f).mpr (.inl rfl)⟩
    | sourceGuard a =>
      exact .inr ⟨⟨1, by decide, by decide⟩, a, (l.mem_sourceRules f).mpr (.inr rfl)⟩
    | probeLookup id | pathLookup id | policyBalanceLookup id | policyBlockLookup id =>
      exact .inl (hstatic (UplinkId.mem_all id))
    | _ => exact .inl (hstatic trivial)

namespace Role

variable (l : Layout)

theorem one_le_offset (ρ : Role) : 1 ≤ ρ.offset := by
  cases ρ with
  | probeLookup id => exact id.num_pos
  | _ => simp only [offset]; omega

theorem encode_ne_zero {v : FieldValue} (h : v ≠ .none) : l.mask.encode v ≠ 0 := by
  intro h0
  rw [← l.mask.encode_none] at h0
  exact h (l.mask.encode_injective h0)

/-- A role never compares the field with an empty mask. -/
theorem mask_ne_zero {ρ : Role} {s : FieldValue × FieldValue} (h : ρ.selector = some s) :
    l.mask.encode s.2 ≠ 0 := by
  apply encode_ne_zero
  cases ρ with
  | pathGuard k =>
    obtain rfl := Option.some.inj h
    have hbits : ∀ k : Fin 6, (⟨0xc0 ||| 1#8 <<< k.val⟩ : FieldValue) ≠ .none := by decide
    exact hbits k
  | mainBypass | balance | finalGuard => cases h
  | probeGuard | policyBlockGuard =>
    obtain rfl := Option.some.inj h
    decide
  | _ =>
    obtain rfl := Option.some.inj h
    have hall : allBits ≠ .none := by decide
    exact hall

end Role

namespace Rule

theorem Planned.one_le_priority {r : Rule} (h : r.Planned) : 1 ≤ r.priority := by
  obtain ⟨l, h⟩ := h
  obtain ⟨f, ρ, rfl⟩ := Layout.produces_iff.mp h
  exact le_trans ρ.one_le_offset (Nat.le_add_left _ _)

theorem Planned.mask_ne_zero {r : Rule} (h : r.Planned) {mark mask : BitVec 32}
    (hmark : r.fwmark = some (mark, mask)) : mask ≠ 0 := by
  obtain ⟨l, h⟩ := h
  obtain ⟨f, ρ, rfl⟩ := Layout.produces_iff.mp h
  obtain ⟨s, hs, heq⟩ := Option.map_eq_some_iff.mp hmark
  obtain ⟨-, rfl⟩ := Prod.mk.inj heq
  exact Role.mask_ne_zero l hs

/-- The table of an action in a dump: a rule that looks none up has table 0. -/
def dumpedTable (r : Rule) : ℕ :=
  match r.action with
  | .lookup t => t
  | .lookupMainSuppressDefault => tableMain
  | .unreachable => 0

/-- A table number in the eight bits of the header, 252 when it does not fit. -/
def compatTable (table : ℕ) : ℕ := if table < 256 then table else 252

/-- The message of a rule in a dump of the kernel.  A zero priority, a zero mark and
a zero mark with a zero mask are left out. -/
def dumped (r : Rule) (protocol : ℕ) : RuleMessage where
  header := { (ruleMessage r protocol).header with table := compatTable r.dumpedTable }
  attributes :=
    [.table r.dumpedTable,
      .suppressPrefixLen (if r.action = .lookupMainSuppressDefault then 0 else u32Max),
      .protocol protocol]
      ++ (if r.priority ≠ 0 then [.priority r.priority] else [])
      ++ (match r.fwmark with
        | some (mark, mask) =>
          (if mark ≠ 0 then [.fwMark mark] else [])
            ++ (if mask ≠ 0 ∨ mark ≠ 0 then [.fwMask mask] else [])
        | none => [])
      ++ (match r.source with
        | some a => [.source a]
        | none => [])

/-- The dump of a rule reads back as the rule. -/
theorem parse_dumped {r : Rule} (hpriority : 1 ≤ r.priority)
    (hmask : ∀ mark mask, r.fwmark = some (mark, mask) → mask ≠ 0) (protocol : ℕ) :
    ObservedRule.parse (r.dumped protocol)
      = some { r.observed protocol with message := r.dumped protocol } := by
  obtain ⟨f, p, mark, source, action, kind⟩ := r
  have hp : p ≠ 0 := by simp only at hpriority; omega
  cases mark with
  | none =>
    cases source <;> cases action <;>
      simp [ObservedRule.parse, dumped, ruleMessage, family_addressFamily, dumpedTable,
        ObservedRule.readAttributes, ObservedRule.readAttribute, Rule.observed,
        Action.observed, hp, u32Max]
  | some s =>
    obtain ⟨mark, mask⟩ := s
    have hk : mask ≠ 0#32 := hmask mark mask rfl
    by_cases hm : mark = 0#32 <;> cases source <;> cases action <;>
      simp [ObservedRule.parse, dumped, ruleMessage, family_addressFamily, dumpedTable,
        ObservedRule.readAttributes, ObservedRule.readAttribute, Rule.observed,
        Action.observed, hp, hk, hm, u32Max]

theorem nodup_slots_ruleMessage (r : Rule) (protocol : ℕ) :
    ((ruleMessage r protocol).attributes.map RuleAttribute.slot).Nodup := by
  obtain ⟨f, p, mark, source, action, kind⟩ := r
  cases mark <;> cases source <;> cases action <;> simp [ruleMessage, RuleAttribute.slot]

theorem nodup_slots_dumped (r : Rule) (protocol : ℕ) :
    ((r.dumped protocol).attributes.map RuleAttribute.slot).Nodup := by
  obtain ⟨f, p, mark, source, action, kind⟩ := r
  cases mark with
  | none =>
    by_cases hp : p = 0 <;> cases source <;> simp [dumped, RuleAttribute.slot, hp]
  | some s =>
    by_cases hp : p = 0 <;> by_cases hm : s.1 = 0#32 <;> by_cases hk : s.2 = 0#32 <;>
      cases source <;> simp [dumped, RuleAttribute.slot, hp, hm, hk]

end Rule

/-- The messages a rule may come back as: the one sent or the one of a dump, with the
attributes in any order. -/
def RuleMessage.Echoes (m : RuleMessage) (r : Rule) (protocol : ℕ) : Prop :=
  ∃ m' ∈ [ruleMessage r protocol, r.dumped protocol],
    m.header = m'.header ∧ m.attributes.Perm m'.attributes

/-- The message selects by something no planned rule uses: a destination, a tos, an
inverted match or other flag, an interface, a port or any other attribute, or a VRF. -/
def RuleMessage.Foreign (m : RuleMessage) : Prop :=
  m.header.dstLen ≠ 0 ∨ m.header.tos ≠ 0 ∨ m.header.flags ≠ 0
    ∨ .l3mdev true ∈ m.attributes ∨ ∃ kind value, .other kind value ∈ m.attributes

namespace RuleMessage

/-- An echoed rule is read as the rule sent. -/
theorem Echoes.parse {m : RuleMessage} {r : Rule} {protocol : ℕ} (hr : r.Planned)
    (hm : m.Echoes r protocol) :
    ObservedRule.parse m = some { r.observed protocol with message := m } := by
  obtain ⟨m', hm', hheader, hperm⟩ := hm
  simp only [List.mem_cons, List.not_mem_nil, or_false] at hm'
  obtain rfl | rfl := hm'
  · rw [ObservedRule.parse_perm hheader hperm (r.nodup_slots_ruleMessage protocol),
      parse_ruleMessage]
    rfl
  · rw [ObservedRule.parse_perm hheader hperm (r.nodup_slots_dumped protocol),
      Rule.parse_dumped hr.one_le_priority fun _ _ => hr.mask_ne_zero]
    rfl

end RuleMessage

namespace ObservedRule

/-- An attribute adds to the selectors the program never uses exactly when it is one
of them. -/
theorem foreign_readAttribute (srcLen : ℕ) (f : Fields) (a : RuleAttribute) :
    ((readAttribute srcLen f a).foreign = true ∨ (readAttribute srcLen f a).l3mdev = true) ↔
      (f.foreign = true ∨ f.l3mdev = true)
        ∨ (a = .l3mdev true ∨ ∃ kind value, a = .other kind value) := by
  cases a with
  | l3mdev b => cases b <;> simp [readAttribute]
  | _ => simp [readAttribute]

theorem foreign_readAttributes (m : RuleMessage) :
    ((readAttributes m).foreign = true ∨ (readAttributes m).l3mdev = true) ↔ m.Foreign := by
  refine (Lib.foldl_iff_or (P := fun f : Fields => f.foreign = true ∨ f.l3mdev = true)
    (foreign_readAttribute m.header.srcLen) _ _).trans ?_
  simp only [RuleMessage.Foreign, Bool.or_eq_true, decide_eq_true_eq, Bool.false_eq_true,
    or_false, and_or_left, exists_or, exists_eq_right, or_assoc]
  refine or_congr_right (or_congr_right (or_congr_right (or_congr_right ?_)))
  constructor
  · rintro ⟨_, hmem, kind, value, rfl⟩
    exact ⟨kind, value, hmem⟩
  · rintro ⟨kind, value, hmem⟩
    exact ⟨_, hmem, kind, value, rfl⟩

/-- A rule with a selector of another program is no planned rule. -/
theorem is_of_foreign {m : RuleMessage} (hm : m.Foreign) {o : ObservedRule}
    (ho : parse m = some o) (r : Rule) (protocol : ℕ) : o.is r protocol = false := by
  obtain ⟨f, -, rfl⟩ := Option.map_eq_some_iff.mp ho
  have hforeign := (foreign_readAttributes m).mpr hm
  rw [← Bool.or_eq_true] at hforeign
  rw [Bool.eq_false_iff]
  intro his
  have hnone : ((readAttributes m).foreign || (readAttributes m).l3mdev) = false :=
    ((is_iff _ _ _).mp his).1
  rw [hforeign] at hnone
  cases hnone

end ObservedRule

/-- **A rule that comes back from the kernel is recognised as itself only.**  Every
message the kernel may echo for a planned rule is read as a rule that is another one
exactly when both agree on all that identifies them; and a message with a selector
the program never uses is no rule of the program. -/
theorem RuleMessage.Echoes.recognised_iff {r : Rule} (hr : r.Planned) {p : ℕ} {m : RuleMessage}
    (hm : m.Echoes r p) (r' : Rule) (p' : ℕ) :
    (∃ o, ObservedRule.parse m = some o ∧ (o.is r' p' = true ↔
      p = p' ∧ r.family = r'.family ∧ r.priority = r'.priority ∧ r.fwmark = r'.fwmark
        ∧ r.source = r'.source ∧ r.action = r'.action)) ∧
    ∀ m', m'.Foreign → ∀ o, ObservedRule.parse m' = some o → o.is r' p' = false := by
  refine ⟨⟨_, hm.parse hr, ?_⟩, fun m' hforeign o ho => o.is_of_foreign hforeign ho r' p'⟩
  rw [ObservedRule.is_iff]
  exact (and_iff_right rfl).trans Rule.identity_eq_iff

namespace Sample

/-- A layout of the tables from 1000 and the priorities from 10000 on. -/
def echoLayout : Layout := { tableBase := 1000, priorityBase := 10000, mask := .default }

/-- The source guard of an address, which selects the mark zero. -/
def echoGuard : Rule := (Role.sourceGuard (.v4 1)).rule echoLayout .v4

/-- Its dump, read backwards. -/
def echoDump : RuleMessage :=
  { echoGuard.dumped 249 with attributes := (echoGuard.dumped 249).attributes.reverse }

theorem echoGuard_planned : echoGuard.Planned :=
  ⟨echoLayout, Layout.produces_iff.mpr ⟨_, _, rfl⟩⟩

end Sample

/-- A dumped source guard, without its zero mark, is still the guard. -/
theorem RuleMessage.Echoes.recognised_echoGuard :
    RuleAttribute.fwMark 0 ∉ Sample.echoDump.attributes ∧
      ∃ o, ObservedRule.parse Sample.echoDump = some o ∧ o.is Sample.echoGuard 249 = true := by
  refine ⟨by decide, ?_⟩
  have hm : Sample.echoDump.Echoes Sample.echoGuard 249 :=
    ⟨_, .tail _ (.head _), rfl, List.reverse_perm _⟩
  obtain ⟨⟨o, ho, his⟩, -⟩ := hm.recognised_iff Sample.echoGuard_planned Sample.echoGuard 249
  exact ⟨o, ho, his.mpr ⟨rfl, rfl, rfl, rfl, rfl, rfl⟩⟩

/-! ## Routes -/

/-- The members of a route as attributes of a multipath, in some order. -/
def Route.multiPath (r : Route) (protocol : ℕ) (hops : List RouteNextHop) : RouteMessage :=
  let key := routeDeleteKey r.family r.table protocol
  { key with
    attributes := key.attributes
      ++ (r.source.map fun s => RouteAttribute.prefSource (.ip s)).toList ++ [.multiPath hops] }

/-- The messages a route may come back as: the one sent, or its members, be it a
single one, as a multipath in any order; the header names the table or not, and the
attributes are in any order. -/
def RouteMessage.Echoes (m : RouteMessage) (r : Route) (protocol : ℕ) : Prop :=
  ∃ m', (m' = routeMessage r protocol
      ∨ ∃ hops, hops.Perm (r.nexthops.map (·.message)) ∧ m' = r.multiPath protocol hops) ∧
    m.header = { m'.header with table := m.header.table } ∧ m.attributes.Perm m'.attributes

namespace Route

variable (r : Route) (protocol : ℕ)

theorem nodup_slots_routeMessage :
    ((routeMessage r protocol).attributes.map RouteAttribute.slot).Nodup := by
  obtain ⟨f, t, source, hops⟩ := r
  match hops with
  | [h] =>
    cases source <;> cases hg : h.gateway <;>
      simp [routeMessage, routeDeleteKey, RouteAttribute.slot, hg]
  | [] | h :: h' :: hs =>
    cases source <;> simp [routeMessage, routeDeleteKey, RouteAttribute.slot]

theorem nodup_slots_multiPath (hops : List RouteNextHop) :
    ((r.multiPath protocol hops).attributes.map RouteAttribute.slot).Nodup := by
  cases hs : r.source <;> simp [multiPath, routeDeleteKey, RouteAttribute.slot, hs]

/-- A route as the view holds it after a message with its members as a multipath. -/
def observedMultiPath (hops : List RouteNextHop) : ObservedRoute :=
  { r.observed protocol with nexthops := hops.map ObservedRoute.hop }

theorem parse_multiPath (now : ℕ) (hops : List RouteNextHop) :
    ObservedRoute.parse now (r.multiPath protocol hops)
      = some (r.observedMultiPath protocol hops) := by
  cases hs : r.source <;>
    simp [ObservedRoute.parse, multiPath, routeDeleteKey, family_addressFamily, hs,
      ObservedRoute.readAttribute, RouteAddress.toIp, Route.observed, observedMultiPath]

/-- A member read back in planned form, by whether it is the only one. -/
theorem plannedHop_message {r : Route} (hr : r.Shaped) {h : NextHop} (hh : h ∈ r.nexthops) :
    ObservedRoute.plannedHop (r.nexthops.length == 1) (ObservedRoute.hop h.message) = h := by
  obtain ⟨h1, h2⟩ := hr.weights h hh
  have hw : min (max h.weight 1) 256 = h.weight := by omega
  rw [hop_message, hw]
  by_cases hlen : r.nexthops.length = 1
  · obtain ⟨g, hg⟩ := List.length_eq_one_iff.mp hlen
    have hgh : h = g := by simpa [hg] using hh
    have hone : h.weight = 1 := hr.single h (hgh ▸ hg)
    cases h
    simp_all [NextHop.observed, ObservedRoute.plannedHop]
  · have hne : (r.nexthops.length == 1) = false := by simpa using hlen
    rw [hne]
    rfl

/-- **The members come back in the planned order**, whatever order they are in. -/
theorem asPlanned_observedMultiPath {r : Route} (hr : r.Shaped) (protocol : ℕ)
    {hops : List RouteNextHop} (hhops : hops.Perm (r.nexthops.map (·.message))) :
    (r.observedMultiPath protocol hops).asPlanned = some r := by
  have hlen : hops.length = r.nexthops.length := by simpa using hhops.length_eq
  have hmap : ((r.nexthops.map (·.message)).map ObservedRoute.hop).map
      (ObservedRoute.plannedHop (r.nexthops.length == 1)) = r.nexthops := by
    rw [List.map_map, List.map_map]
    exact (List.map_congr_left fun h hh => plannedHop_message hr hh).trans (List.map_id _)
  have hperm : ((hops.map ObservedRoute.hop).map
      (ObservedRoute.plannedHop (r.nexthops.length == 1))).Perm r.nexthops := by
    conv_rhs => rw [← hmap]
    exact (hhops.map _).map _
  have hsort : (r.observedMultiPath protocol hops).plannedHops = r.nexthops := by
    simp only [ObservedRoute.plannedHops, observedMultiPath, List.length_map, hlen]
    exact ((List.perm_insertionSort _ _).trans hperm).eq_of_pairwise
      (fun _ _ _ _ => le_antisymm) (List.pairwise_insertionSort _ _) hr.sorted
  have hne : hops ≠ [] := by
    rintro rfl
    exact hr.nonempty (List.length_eq_zero_iff.mp hlen.symm)
  rw [ObservedRoute.asPlanned_eq_some]
  refine ⟨⟨rfl, rfl, rfl, by simpa [observedMultiPath] using hne⟩, ?_⟩
  rw [hsort]
  rfl

end Route

/-- The view holds the route as a message that echoes it is read. -/
def ObservedRoute.Reports (o : ObservedRoute) (r : Route) (protocol : ℕ) : Prop :=
  ∃ m : RouteMessage, m.Echoes r protocol ∧ ∃ now, parse now m = some o

/-- **A route that comes back from the kernel is the route sent**, under its protocol
and in its planned form. -/
theorem RouteMessage.Echoes.parse {r : Route} (hr : r.Shaped) {protocol : ℕ}
    {m : RouteMessage} (hm : m.Echoes r protocol) (now : ℕ) :
    ∃ o, ObservedRoute.parse now m = some o ∧ o.protocol = protocol ∧ o.asPlanned = some r := by
  obtain ⟨m', hm', hheader, hperm⟩ := hm
  obtain rfl | ⟨hops, hhops, rfl⟩ := hm'
  · obtain ⟨rest, hrest⟩ :
        ∃ rest, (routeMessage r protocol).attributes = .table r.table :: rest := by
      unfold routeMessage
      split <;> exact ⟨_, rfl⟩
    refine ⟨r.observed protocol, ?_, rfl, r.asPlanned_observed hr protocol⟩
    rw [ObservedRoute.parse_perm now hheader hperm (r.nodup_slots_routeMessage protocol) hrest,
      parse_routeMessage]
  · refine ⟨r.observedMultiPath protocol hops, ?_, rfl,
      Route.asPlanned_observedMultiPath hr protocol hhops⟩
    rw [ObservedRoute.parse_perm now hheader hperm (r.nodup_slots_multiPath protocol hops) rfl,
      r.parse_multiPath]

theorem ObservedRoute.Reports.asPlanned {r : Route} (hr : r.Shaped) {protocol : ℕ}
    {o : ObservedRoute} (ho : o.Reports r protocol) :
    o.protocol = protocol ∧ o.asPlanned = some r := by
  obtain ⟨m, hm, now, hparse⟩ := ho
  obtain ⟨o', hparse', hprotocol, hplanned⟩ := hm.parse hr now
  rw [hparse, Option.some.injEq] at hparse'
  exact hparse' ▸ ⟨hprotocol, hplanned⟩

/-- A table that holds reports of one route only has no other route of the program. -/
theorem routePresent_iff_of_reports {s : System} {r r' : Route} (hr : r.Shaped)
    {protocol : ℕ} (hkey : r'.key = r.key)
    (hsome : ∃ o ∈ s.routesIn r.family r.table, o.Reports r protocol)
    (hall : ∀ o ∈ s.routesIn r.family r.table, o.protocol = protocol → o.Reports r protocol) :
    routePresent s protocol r' = true ↔ r' = r := by
  have hfamily : r'.family = r.family := congrArg TableKey.family hkey
  have htable : r'.table = r.table := congrArg TableKey.table hkey
  simp only [routePresent, hfamily, htable, List.any_eq_true, Bool.and_eq_true,
    decide_eq_true_eq]
  constructor
  · rintro ⟨o, ho, hprotocol, hplanned⟩
    rw [((hall o ho hprotocol).asPlanned hr).2, Option.some.injEq] at hplanned
    exact hplanned.symm
  · rintro rfl
    obtain ⟨o, ho, hreports⟩ := hsome
    exact ⟨o, ho, hreports.asPlanned hr⟩

/-- **Routes round-trip through the kernel.**  Every planned route has a shape; each
message that may come back for a route of that shape, the one sent included, is read
under its protocol and in planned form as exactly that route; so routes that read
back alike are equal, and a table that holds one route is seen to lack every other. -/
theorem Route.round_trip {r r' : Route} (hr : r.Shaped) (hr' : r'.Shaped)
    (protocol protocol' : ℕ) :
    (∀ (c : Config) (i : Input) (k : TableKey) (planned : Route), c.Valid →
      (plan c i).routes[k]? = some planned → planned.Shaped) ∧
    (∀ now, ∃ o, ObservedRoute.parse now (routeMessage r protocol) = some o
      ∧ o.protocol = protocol ∧ o.asPlanned = some r) ∧
    (∀ m : RouteMessage, m.Echoes r protocol → ∀ now, ∃ o, ObservedRoute.parse now m = some o
      ∧ o.protocol = protocol ∧ o.asPlanned = some r) ∧
    (∀ o o' : ObservedRoute, o.Reports r protocol → o'.Reports r' protocol' →
      o.asPlanned = o'.asPlanned → r = r') ∧
    (∀ s : System, r'.key = r.key → (∃ o ∈ s.routesIn r.family r.table, o.Reports r protocol) →
      (∀ o ∈ s.routesIn r.family r.table, o.protocol = protocol → o.Reports r protocol) →
      (routePresent s protocol r' = true ↔ r' = r)) := by
  refine ⟨fun _ _ _ _ hv => plan_routes_shaped hv,
    fun now => ⟨_, parse_routeMessage now r protocol, rfl, r.asPlanned_observed hr _⟩,
    fun m hm now => hm.parse hr now, fun o o' ho ho' heq => ?_,
    fun s hkey hsome hall => routePresent_iff_of_reports hr hkey hsome hall⟩
  rw [(ho.asPlanned hr).2, (ho'.asPlanned hr').2] at heq
  exact Option.some.inj heq

namespace Sample

/-- A route over two gateways, in order. -/
def echoPair : Route where
  family := .v4
  table := 1000
  source := none
  nexthops := [⟨2, some (.v4 1), false, 3⟩, ⟨3, some (.v4 2), true, 256⟩]

/-- The same with another weight. -/
def echoPair' : Route :=
  { echoPair with nexthops := [⟨2, some (.v4 1), false, 4⟩, ⟨3, some (.v4 2), true, 256⟩] }

theorem echoPair_shaped : echoPair.Shaped where
  nonempty := by decide
  sorted := by decide
  single := by simp [echoPair]
  weights := by simp [echoPair]

theorem echoPair'_shaped : echoPair'.Shaped where
  nonempty := by decide
  sorted := by decide
  single := by simp [echoPair']
  weights := by simp [echoPair']

end Sample

/-- Two members that come back in the other order are the route sent, and a changed
weight is another route. -/
theorem Route.round_trip_echoPair :
    (∃ o, ObservedRoute.parse 0 (Sample.echoPair.multiPath 249
        (Sample.echoPair.nexthops.reverse.map (·.message))) = some o
      ∧ o.asPlanned = some Sample.echoPair) ∧
    ∀ o o' : ObservedRoute, o.Reports Sample.echoPair 249 → o'.Reports Sample.echoPair' 249 →
      o.asPlanned ≠ o'.asPlanned := by
  obtain ⟨-, -, hecho, hinj, -⟩ :=
    round_trip Sample.echoPair_shaped Sample.echoPair'_shaped 249 249
  have hm : (Sample.echoPair.multiPath 249
      (Sample.echoPair.nexthops.reverse.map (·.message))).Echoes Sample.echoPair 249 :=
    ⟨_, .inr ⟨_, (List.reverse_perm _).map _, rfl⟩, rfl, .rfl⟩
  obtain ⟨o, ho, -, hplanned⟩ := hecho _ hm 0
  refine ⟨⟨o, ho, hplanned⟩, fun o o' ho ho' heq => ?_⟩
  have hne : Sample.echoPair ≠ Sample.echoPair' := by decide
  exact hne (hinj o o' ho ho' heq)

end Polywan
