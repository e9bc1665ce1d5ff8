import Polywan.Nft.Lifecycle

/-!
# Who writes which mark

A chain can do four things to the marks of a packet: leave them alone, restore
the path of the connection, assign a path to it, or write a policy value.
`Change` lists them with their conditions; what the program owns of the marks
and when it writes them follows by cases.

## Main definitions

* `Change` — the possible effects of a chain.
* `Restores` — when a chain restores the path of a connection.
* `Event`, `conntrackAfter` — packets of one connection through the chains of
  changing configurations.
* `Ownership` — what a chain may do to the marks.
-/

namespace Polywan.Nft

/-- A chain restores the path of a connection: in prerouting for packets of the host, in output
for all but probes. -/
structure Restores (c : Config) (h : Hook) (pkt : Packet) (m : Marks) (id : UplinkId) : Prop where
  hook : h = .prerouting ∧ pkt.host = true ∨
    h = .output ∧ (c.routing.fwmarkMask.field m.packet).cls ≠ .probe
  managed : c.manages pkt.family = true
  tracked : pkt.tracked = true
  path : c.routing.fwmarkMask.field m.conntrack = .path id

/-- What a chain can do to the marks. -/
inductive Change (c : Config) (pkt : Packet) (m : Marks) : Hook → Marks → Prop where
  | keep (h : Hook) : Change c pkt m h m
  | restore (h : Hook) (id : UplinkId) (hskip : skips c pkt = false)
      (htracked : pkt.tracked = true) (hpath : pathOf c.routing.fwmarkMask m.conntrack = some id)
      (hhook : h = .prerouting ∧ pkt.host = true ∨
        h = .output ∧ (c.routing.fwmarkMask.field m.packet).cls ≠ .probe) :
      Change c pkt m h (m.restored c.routing.fwmarkMask id)
  | assign (h : Hook) (u : Uplink) (hu : u ∈ c.uplinks) (hf : (u.path pkt.family).isSome)
      (hskip : skips c pkt = false) (htracked : pkt.tracked = true)
      (hunicast : pkt.multicast = false) (horiginal : pkt.original = true)
      (hnone : pathOf c.routing.fwmarkMask m.conntrack = none)
      (hinterface : h = .prerouting ∧ u.interface = pkt.iif ∨
        h = .postrouting ∧ u.interface = pkt.oif) :
      Change c pkt m h (m.assigned c.routing.fwmarkMask u.id)
  | policy (p : Policy) (hp : c.policies.find? (policyApplies c pkt) = some p)
      (hskip : skips c pkt = false) (htracked : pkt.tracked = true)
      (hunicast : pkt.multicast = false)
      (hnone : pathOf c.routing.fwmarkMask m.conntrack = none) :
      Change c pkt m .prerouting
        { m with packet := overwrite c.routing.fwmarkMask m.packet (policyValue p) }

section Cases

variable {c : Config} {pkt : Packet} {m : Marks}

/-- The path found for an interface is a configured one of the packet's family. -/
theorem pathOn_spec {interface : String} {u : Uplink} {f : Family}
    (h : pathOn c pkt interface = some (u, f)) :
    u ∈ c.uplinks ∧ (u.path pkt.family).isSome ∧ u.interface = interface ∧ pkt.original = true := by
  have hmem := List.mem_of_find?_eq_some h
  have hsel := List.find?_some h
  simp only [Bool.and_eq_true, decide_eq_true_eq] at hsel
  obtain ⟨⟨hfam, hint⟩, horig⟩ := hsel
  simp only [paths, List.mem_flatMap, List.mem_map] at hmem
  obtain ⟨u', hu', f', hf', heq⟩ := hmem
  obtain ⟨rfl, rfl⟩ := Prod.mk.inj heq
  have hpath := (List.mem_filter.mp hf').2
  exact ⟨hu', hfam ▸ hpath, hint, horig⟩

theorem change_prerouting : Change c pkt m .prerouting (lifecyclePrerouting c pkt m) := by
  simp only [lifecyclePrerouting]
  split
  · exact .keep _
  · next hguard =>
      simp only [Bool.or_eq_true, Bool.not_eq_true', not_or, Bool.not_eq_true,
        Bool.not_eq_false] at hguard
      obtain ⟨⟨hskip, htracked⟩, hhost⟩ := hguard
      split
      · next id hpath => exact .restore _ id hskip htracked hpath (.inl ⟨rfl, hhost⟩)
      · next hnone =>
          split
          · exact .keep _
          · next huni =>
              have hmulti : pkt.multicast = false := by
                cases hm : pkt.multicast <;> simp_all
              split
              · next u f hon =>
                  obtain ⟨hu, hf, hi, ho⟩ := pathOn_spec hon
                  exact .assign _ u hu hf hskip htracked hmulti ho hnone (.inl ⟨rfl, hi⟩)
              · split
                · next p hp => exact .policy p hp hskip htracked hmulti hnone
                · exact .keep _

theorem change_output : Change c pkt m .output (lifecycleOutput c pkt m) := by
  simp only [lifecycleOutput]
  split
  · exact .keep _
  · next hguard =>
      simp only [Bool.or_eq_true, Bool.not_eq_true', not_or, Bool.not_eq_true,
        Bool.not_eq_false] at hguard
      obtain ⟨⟨hskip, hprobe⟩, htracked⟩ := hguard
      split
      · next id hpath =>
          exact .restore _ id hskip htracked hpath (.inr ⟨rfl, of_decide_eq_false hprobe⟩)
      · exact .keep _

theorem change_postrouting : Change c pkt m .postrouting (lifecyclePostrouting c pkt m) := by
  simp only [lifecyclePostrouting]
  split
  · exact .keep _
  · next hguard =>
      simp only [Bool.or_eq_true, Bool.not_eq_true', not_or, Bool.not_eq_true,
        Bool.not_eq_false] at hguard
      obtain ⟨⟨⟨⟨⟨hskip, -⟩, htracked⟩, hmulti⟩, -⟩, hzero⟩ := hguard
      have hnone : pathOf c.routing.fwmarkMask m.conntrack = none := by
        have hz : c.routing.fwmarkMask.field m.conntrack = .none := by simpa using hzero
        have := (FieldValue.eq_none_iff _).mp hz
        simp [pathOf, this]
      split
      · next u f hon =>
          obtain ⟨hu, hf, hi, ho⟩ := pathOn_spec hon
          exact .assign _ u hu hf hskip htracked hmulti ho hnone (.inr ⟨rfl, hi⟩)
      · exact .keep _

/-- **A chain does one of the four things.** -/
theorem change_run (c : Config) (h : Hook) (pkt : Packet) (m : Marks) :
    Change c pkt m h (run c h pkt m) := by
  rw [run_eq_lifecycle]
  cases h with
  | prerouting => exact change_prerouting
  | output => exact change_output
  | postrouting => exact change_postrouting

end Cases

/-! ## Marks under a write -/

section Overwrite

variable (k : FwMask) (mark : BitVec 32) (v : FieldValue)

theorem field_overwrite : k.field (overwrite k mark v) = v := by
  cases v
  simp [FwMask.field, overwrite, Lib.BitField.extract_write k.fits]

theorem overwrite_and_not_mask : overwrite k mark v &&& ~~~k.mask = mark &&& ~~~k.mask :=
  Lib.BitField.write_and_not_mask k.shift mark v.get

end Overwrite

/-- Accepted configurations leave alone exactly the families they do not manage. -/
theorem skips_iff {c : Config} (hv : c.Valid) (pkt : Packet) :
    skips c pkt = true ↔ c.manages pkt.family = false := by
  have hsome : c.manages .v4 = true ∨ c.manages .v6 = true := by
    obtain ⟨u, hu⟩ := List.exists_mem_of_ne_nil _ hv.uplinks_ne_nil
    obtain ⟨f, hf⟩ := List.exists_mem_of_ne_nil _ (hv.families_ne_nil u hu)
    have hm : c.manages f = true := Config.manages_iff.mpr ⟨u, hu, (List.mem_filter.mp hf).2⟩
    cases f with
    | v4 => exact .inl hm
    | v6 => exact .inr hm
  unfold skips
  cases h4 : c.manages .v4 <;> cases h6 : c.manages .v6 <;> cases hf : pkt.family <;>
    simp_all [Family.all]

/-- Where a chain restores, it does nothing else. -/
theorem run_of_restores {c : Config} (hv : c.Valid) {h : Hook} {pkt : Packet} {m : Marks}
    {id : UplinkId} (hr : Restores c h pkt m id) :
    run c h pkt m = m.restored c.routing.fwmarkMask id := by
  have hskip : skips c pkt = false := by
    rw [Bool.eq_false_iff, ne_eq, skips_iff hv, hr.managed]
    exact Bool.noConfusion
  have hpath := (pathOf_eq_some_iff _).mpr hr.path
  rw [run_eq_lifecycle]
  rcases hr.hook with ⟨rfl, hhost⟩ | ⟨rfl, hprobe⟩
  · simp [lifecycle, lifecyclePrerouting, hskip, hr.tracked, hhost, hpath]
  · simp [lifecycle, lifecycleOutput, hskip, hr.tracked, hprobe, hpath]

/-- A chain leaves the field of the connection alone or assigns a path. -/
theorem Change.conntrack {c : Config} {pkt : Packet} {m m' : Marks} {h : Hook}
    (hch : Change c pkt m h m') :
    m'.conntrack = m.conntrack ∨ ∃ id, c.routing.fwmarkMask.field m'.conntrack = .path id := by
  cases hch with
  | keep | restore | policy => exact .inl rfl
  | assign _ u => exact .inr ⟨u.id, field_overwrite _ _ _⟩

/-! ## Runs of a connection -/

/-- A packet of a connection at a chain of the table in force. -/
structure Event where
  config : Config
  hook : Hook
  packet : Packet
  /-- The mark the packet arrives with. -/
  mark : BitVec 32

/-- The marks after an event, given the mark of the connection. -/
def Event.marks (e : Event) (conntrack : BitVec 32) : Marks :=
  run e.config e.hook e.packet ⟨e.mark, conntrack⟩

/-- The mark of a connection after some events. -/
def conntrackAfter (conntrack : BitVec 32) (events : List Event) : BitVec 32 :=
  events.foldl (fun ct e => (e.marks ct).conntrack) conntrack

/-- The field is zero or holds a path value. -/
def Assignable (k : FwMask) (mark : BitVec 32) : Prop :=
  k.field mark = .none ∨ ∃ id, k.field mark = .path id

section Step

variable {k : FwMask} {e : Event} {ct : BitVec 32}

theorem eq_none_of_pathOf_eq_none (h : Assignable k ct) (hp : pathOf k ct = none) :
    k.field ct = .none := by
  rcases h with h | ⟨id, h⟩
  · exact h
  · simp [(pathOf_eq_some_iff k).mpr h] at hp

/-- An event leaves the field of the connection alone or assigns a path. -/
theorem conntrack_marks (hk : e.config.routing.fwmarkMask = k) :
    (e.marks ct).conntrack = ct ∨ ∃ id, k.field (e.marks ct).conntrack = .path id := by
  rw [← hk]
  exact (change_run e.config e.hook e.packet ⟨e.mark, ct⟩).conntrack

theorem assignable_marks (hk : e.config.routing.fwmarkMask = k) (h : Assignable k ct) :
    Assignable k (e.marks ct).conntrack := by
  have hmarks : (e.marks ct).conntrack = ct ∨ ∃ id, k.field (e.marks ct).conntrack = .path id :=
    conntrack_marks hk
  rcases hmarks with heq | hpath
  · rwa [heq]
  · exact .inr hpath

/-- Over a run, the field of the connection stays zero or a path value. -/
theorem assignable_conntrackAfter {events : List Event}
    (hk : ∀ e ∈ events, e.config.routing.fwmarkMask = k) (h : Assignable k ct) :
    Assignable k (conntrackAfter ct events) := by
  induction events generalizing ct with
  | nil => exact h
  | cons e events ih =>
    refine ih (fun e' he' => hk e' (List.mem_cons_of_mem e he')) ?_
    exact assignable_marks (hk e List.mem_cons_self) h

end Step

/-! ## Ownership -/

/-- What a chain may do to the marks of a packet and its connection. -/
structure Ownership (c : Config) (h : Hook) (pkt : Packet) (m m' : Marks) : Prop where
  /-- No bit outside the field changes. -/
  packet_outside : m'.packet &&& ~~~c.routing.fwmarkMask.mask =
    m.packet &&& ~~~c.routing.fwmarkMask.mask
  conntrack_outside : m'.conntrack &&& ~~~c.routing.fwmarkMask.mask =
    m.conntrack &&& ~~~c.routing.fwmarkMask.mask
  /-- The mark of the connection is written once, with the path of the interface
  its packet uses, and the packet gets the same value. -/
  conntrack_write : m'.conntrack ≠ m.conntrack →
    c.routing.fwmarkMask.field m.conntrack = .none ∧ pkt.original = true ∧
      ∃ u ∈ c.uplinks, (u.path pkt.family).isSome ∧
        (h = .prerouting ∧ u.interface = pkt.iif ∨ h = .postrouting ∧ u.interface = pkt.oif) ∧
        c.routing.fwmarkMask.field m'.conntrack = .path u.id ∧
        c.routing.fwmarkMask.field m'.packet = .path u.id
  /-- A path of the connection is restored, whatever the packet. -/
  restores : ∀ id, Restores c h pkt m id → m' = m.restored c.routing.fwmarkMask id
  /-- Any other write of the packet mark restores the path of the connection or
  is the value of the first matching policy. -/
  packet_write : m'.packet ≠ m.packet → m'.conntrack = m.conntrack →
    (∃ id, Restores c h pkt m id ∧ c.routing.fwmarkMask.field m'.packet = .path id) ∨
    h = .prerouting ∧ pkt.original = true ∧ pkt.iif ∈ c.downlinks ∧
      c.routing.fwmarkMask.field m.conntrack = .none ∧
      ∃ p, c.policies.find? (policyApplies c pkt) = some p ∧
        c.routing.fwmarkMask.field m'.packet = policyValue p
  untracked : pkt.tracked = false → m' = m
  unmanaged : c.manages pkt.family = false → m' = m
  /-- Multicast packets are left alone but for the path of their connection. -/
  multicast : pkt.multicast = true → (∀ id, ¬ Restores c h pkt m id) → m' = m

/-- The first matching policy takes packets from downlinks only. -/
theorem policyApplies_spec {c : Config} (hv : c.Valid) {pkt : Packet} {p : Policy}
    (hp : c.policies.find? (policyApplies c pkt) = some p) :
    pkt.original = true ∧ pkt.iif ∈ c.downlinks := by
  have hmem := List.mem_of_find?_eq_some hp
  have happ := List.find?_some hp
  simp only [policyApplies, Bool.and_eq_true, decide_eq_true_eq] at happ
  obtain ⟨⟨⟨⟨⟨⟨-, hin⟩, horig⟩, -⟩, -⟩, -⟩, -⟩ := happ
  refine ⟨horig, ?_⟩
  unfold policyInputs at hin
  cases hi : p.inputInterface with
  | none => simpa [hi] using hin
  | some i =>
    have : pkt.iif = i := by simpa [hi] using hin
    rw [this]
    exact hv.policy_input p hmem i hi

/-- Each of the four changes respects the ownership of the marks. -/
theorem Change.ownership {c : Config} (hv : c.Valid) {pkt : Packet} {m m' : Marks} {h : Hook}
    (hm : Assignable c.routing.fwmarkMask m.conntrack)
    (hrestores : ∀ id, Restores c h pkt m id → m' = m.restored c.routing.fwmarkMask id)
    (hch : Change c pkt m h m') : Ownership c h pkt m m' := by
  have hmanaged : ∀ {P : Prop}, skips c pkt = false → c.manages pkt.family = false → P := by
    intro P hskip hun
    simp [(skips_iff hv pkt).mpr hun] at hskip
  cases hch with
  | keep =>
    exact ⟨rfl, rfl, fun h => absurd rfl h, hrestores, fun h => absurd rfl h, fun _ => rfl,
      fun _ => rfl, fun _ _ => rfl⟩
  | restore _ id hskip htracked hpath hhook =>
    have hr : Restores c h pkt m id :=
      ⟨hhook, Bool.eq_true_of_not_eq_false (hmanaged hskip), htracked,
        (pathOf_eq_some_iff _).mp hpath⟩
    refine ⟨overwrite_and_not_mask _ _ _, rfl, fun h => absurd rfl h, hrestores,
      fun _ _ => .inl ⟨id, hr, field_overwrite _ _ _⟩, ?_, hmanaged hskip, ?_⟩
    · simp [htracked]
    · exact fun _ hnot => absurd hr (hnot id)
  | assign _ u hu hf hskip htracked hunicast horiginal hnone hinterface =>
    have hzero := eq_none_of_pathOf_eq_none hm hnone
    refine ⟨overwrite_and_not_mask _ _ _, overwrite_and_not_mask _ _ _, fun _ => ?_, hrestores,
      ?_, ?_, hmanaged hskip, ?_⟩
    · exact ⟨hzero, horiginal, u, hu, hf, hinterface, field_overwrite _ _ _,
        field_overwrite _ _ _⟩
    · intro _ hsame
      have hnew : pathOf c.routing.fwmarkMask m.conntrack = some u.id := by
        rw [pathOf_eq_some_iff, ← hsame]
        exact field_overwrite _ _ _
      rw [hnone] at hnew
      cases hnew
    · simp [htracked]
    · simp [hunicast]
  | policy p hp hskip htracked hunicast hnone =>
    obtain ⟨horiginal, hdown⟩ := policyApplies_spec hv hp
    refine ⟨overwrite_and_not_mask _ _ _, rfl, fun h => absurd rfl h, hrestores,
      fun _ _ => .inr ?_, ?_, hmanaged hskip, ?_⟩
    · exact ⟨rfl, horiginal, hdown, eq_none_of_pathOf_eq_none hm hnone, p, hp,
        field_overwrite _ _ _⟩
    · simp [htracked]
    · simp [hunicast]

/-- **Mark ownership along a connection**: whatever packets of it pass the chains
of accepted configurations with one field, every chain respects the ownership of
both marks. -/
theorem ownership_run {k : FwMask} {ct : BitVec 32} (hct : Assignable k ct)
    {events : List Event}
    (hevents : ∀ e ∈ events, e.config.Valid ∧ e.config.routing.fwmarkMask = k)
    {e : Event} (hv : e.config.Valid) (hk : e.config.routing.fwmarkMask = k) :
    Ownership e.config e.hook e.packet ⟨e.mark, conntrackAfter ct events⟩
      (e.marks (conntrackAfter ct events)) := by
  have hassign : Assignable k (conntrackAfter ct events) :=
    assignable_conntrackAfter (fun e' he' => (hevents e' he').2) hct
  rw [← hk] at hassign
  exact (change_run e.config e.hook e.packet ⟨e.mark, _⟩).ownership hv hassign
    fun _ hr => run_of_restores hv hr

namespace Sample

open Polywan.Sample

/-- A packet of a new connection that arrives on the first uplink of the sample. -/
def inbound : Packet where
  family := .v4
  iif := "wan1"
  oif := ""
  host := true
  tracked := true
  original := true
  saddr := .v4 0x01010101
  daddr := .v4 0x0a000002
  l4proto := 6
  dport := some 443
  broadcast := false
  oifBroadcast := false

/-- The same to a multicast group. -/
def group : Packet := { inbound with daddr := .v4 0xe0000005 }

end Sample

/-- The connection of an inbound packet and the packet get the path of the uplink. -/
theorem ownership_run_sample :
    Ownership Polywan.Sample.config .prerouting Sample.inbound ⟨0, 0⟩ ⟨0x10000, 0x10000⟩ := by
  have h := @ownership_run FwMask.default 0 (.inl (by decide)) [] (by simp)
    ⟨Polywan.Sample.config, .prerouting, Sample.inbound, 0⟩ Polywan.Sample.config_valid rfl
  have hrun : (⟨Polywan.Sample.config, .prerouting, Sample.inbound, 0⟩ : Event).marks
      (conntrackAfter 0 []) = ⟨0x10000, 0x10000⟩ := by decide
  rwa [hrun] at h

/-- A packet to a multicast group whose connection holds a path value is not left
alone: its mark is restored, as for every packet of the connection. -/
theorem multicast_restored :
    Polywan.Sample.config.Valid ∧ Assignable Polywan.Sample.config.routing.fwmarkMask 0x10000 ∧
      Sample.group.multicast = true ∧
      run Polywan.Sample.config .prerouting Sample.group ⟨0, 0x10000⟩ = ⟨0x10000, 0x10000⟩ :=
  ⟨Polywan.Sample.config_valid, .inr ⟨Polywan.Sample.id1, by decide⟩, by decide, by decide⟩

end Polywan.Nft
