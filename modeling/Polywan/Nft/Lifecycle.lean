import Polywan.Mark
import Polywan.Nft

/-!
# What the chains do to the marks

The meaning of the generated rules for one packet, and the lifecycle of the marks
they implement, stated without rules: restore the path of a known connection,
assign one to a new connection that uses an uplink, apply the first matching
policy.

## Main definitions

* `Packet`, `Marks` — what the rules read, and what they write.
* `run c h pkt m` — the marks after a chain.
* `lifecycle c h pkt m` — the same, stated on its own terms; `run_eq_lifecycle`
  connects the two.
-/

namespace Polywan.Nft

/-- What the chains read of a packet. -/
structure Packet where
  family : Family
  iif : String
  oif : String
  /-- The packet type is `host`. -/
  host : Bool
  tracked : Bool
  /-- The packet travels in the original direction of its connection. -/
  original : Bool
  saddr : IpAddr
  daddr : IpAddr
  l4proto : ℕ
  dport : Option ℕ
  /-- The destination is a broadcast address. -/
  broadcast : Bool
  /-- The destination is a broadcast address of the output interface. -/
  oifBroadcast : Bool
deriving DecidableEq

/-- The mark of a packet and the mark of its connection. -/
@[ext] structure Marks where
  packet : BitVec 32
  conntrack : BitVec 32
deriving DecidableEq

def Marks.get (m : Marks) : Which → BitVec 32
  | .packet => m.packet
  | .conntrack => m.conntrack

def Marks.set (m : Marks) (w : Which) (value : BitVec 32) : Marks :=
  match w with
  | .packet => { m with packet := value }
  | .conntrack => { m with conntrack := value }

/-- Whether a condition holds. -/
def Match.holds (pkt : Packet) (m : Marks) : Match → Bool
  | nfproto f => pkt.family = f
  | nfprotoNot f => pkt.family ≠ f
  | untracked => !pkt.tracked
  | pkttypeNotHost => !pkt.host
  | markEq w mask value => m.get w &&& mask = value
  | markNotZero w mask => m.get w &&& mask ≠ 0
  | iifname names => names.contains pkt.iif
  | oifname names => names.contains pkt.oif
  | directionOriginal => pkt.original
  | saddr f nets => pkt.family = f && nets.any (·.contains pkt.saddr)
  | daddr f nets => pkt.family = f && nets.any (·.contains pkt.daddr)
  | fibBroadcast => pkt.broadcast
  | fibOifBroadcast => pkt.oifBroadcast
  | l4proto n => pkt.l4proto = n
  | dport low high => pkt.dport.any fun p => low ≤ p && p ≤ high

def Write.apply (w : Write) (m : Marks) : Marks :=
  m.set w.which (m.get w.which &&& w.keep ||| w.value)

namespace Rule

/-- All conditions hold. -/
def selects (r : Rule) (pkt : Packet) (m : Marks) : Bool := r.conditions.all (·.holds pkt m)

def apply (r : Rule) (m : Marks) : Marks := r.writes.foldl (fun m w => w.apply m) m

end Rule

/-- The first rule that selects the packet ends the chain. -/
def eval (rules : List Rule) (pkt : Packet) (m : Marks) : Marks :=
  match rules.find? (·.selects pkt m) with
  | some r => r.apply m
  | none => m

/-- The chains that write marks. -/
inductive Hook where
  | prerouting
  | output
  | postrouting
deriving DecidableEq

def Table.chain (t : Table) : Hook → List Rule
  | .prerouting => t.prerouting
  | .output => t.output
  | .postrouting => t.postrouting

/-- The marks after a chain of a configuration's table. -/
def run (c : Config) (h : Hook) (pkt : Packet) (m : Marks) : Marks :=
  eval ((ruleset c).chain h) pkt m

/-! ## The lifecycle -/

/-- The path a mark assigns, if any. -/
def pathOf (k : FwMask) (mark : BitVec 32) : Option UplinkId :=
  if (k.field mark).cls = .path then (k.field mark).id else none

/-- The destination is multicast, or the limited broadcast address. -/
def Packet.multicast (pkt : Packet) : Bool :=
  match pkt.family with
  | .v4 => multicastV4.any (·.contains pkt.daddr)
  | .v6 => multicastV6.any (·.contains pkt.daddr)

/-- The only managed family is not the packet's. -/
def skips (c : Config) (pkt : Packet) : Bool :=
  match Family.all.filter c.manages with
  | [only] => pkt.family ≠ only
  | _ => false

/-- The mark with its field overwritten. -/
def overwrite (k : FwMask) (mark : BitVec 32) (v : FieldValue) : BitVec 32 :=
  Lib.BitField.write k.shift mark v.get

/-- The packet takes over the path of its connection. -/
def Marks.restored (k : FwMask) (m : Marks) (id : UplinkId) : Marks :=
  { m with packet := overwrite k m.packet (.path id) }

/-- The connection and the packet get a path. -/
def Marks.assigned (k : FwMask) (m : Marks) (id : UplinkId) : Marks :=
  ⟨overwrite k m.packet (.path id), overwrite k m.conntrack (.path id)⟩

/-- The configured path of the packet's family on an interface, for a packet in
the original direction. -/
def pathOn (c : Config) (pkt : Packet) (interface : String) : Option (Uplink × Family) :=
  (paths c).find? fun q => pkt.family = q.2 && q.1.interface = interface && pkt.original

/-- A policy applies to the packet. -/
def policyApplies (c : Config) (pkt : Packet) (p : Policy) : Bool :=
  pkt.family = p.family
    && (policyInputs c p).contains pkt.iif
    && pkt.original
    && p.source.all (·.contains pkt.saddr)
    && p.destination.all (·.contains pkt.daddr)
    && p.protocol.all (fun q => pkt.l4proto = protocolNumber p.family q)
    && p.destinationPort.all (fun r => pkt.dport.any fun d => r.1 ≤ d && d ≤ r.2)

/-- Before routing: restore, else assign, else apply a policy. -/
def lifecyclePrerouting (c : Config) (pkt : Packet) (m : Marks) : Marks :=
  let k := c.routing.fwmarkMask
  if skips c pkt || !pkt.tracked || !pkt.host then m
  else match pathOf k m.conntrack with
    | some id => m.restored k id
    | none =>
      if pkt.multicast || pkt.family = .v4 && pkt.broadcast then m
      else match pathOn c pkt pkt.iif with
        | some (u, _) => m.assigned k u.id
        | none =>
          match c.policies.find? (policyApplies c pkt) with
          | some p => { m with packet := overwrite k m.packet (policyValue p) }
          | none => m

/-- Local output: restore, except for probes. -/
def lifecycleOutput (c : Config) (pkt : Packet) (m : Marks) : Marks :=
  let k := c.routing.fwmarkMask
  if skips c pkt || (k.field m.packet).cls = .probe || !pkt.tracked then m
  else match pathOf k m.conntrack with
    | some id => m.restored k id
    | none => m

/-- After routing: a connection without a path gets the one it leaves through. -/
def lifecyclePostrouting (c : Config) (pkt : Packet) (m : Marks) : Marks :=
  let k := c.routing.fwmarkMask
  if skips c pkt || (k.field m.packet).cls = .probe || !pkt.tracked || pkt.multicast
      || (pkt.family = .v4 && pkt.oifBroadcast) || k.field m.conntrack ≠ .none then m
  else match pathOn c pkt pkt.oif with
    | some (u, _) => m.assigned k u.id
    | none => m

/-- What a chain is for. -/
def lifecycle (c : Config) : Hook → Packet → Marks → Marks
  | .prerouting => lifecyclePrerouting c
  | .output => lifecycleOutput c
  | .postrouting => lifecyclePostrouting c

/-! ## The chains implement the lifecycle -/

section Eval

variable {pkt : Packet} {m : Marks}

theorem eval_cons (r : Rule) (rs : List Rule) :
    eval (r :: rs) pkt m = if r.selects pkt m then r.apply m else eval rs pkt m := by
  unfold eval
  cases h : r.selects pkt m <;> simp [h]

/-- A segment of rules made from a list is decided by the first element whose
rule selects the packet. -/
theorem eval_map_append {α : Type} (g : α → Rule) (l : List α) (rs : List Rule) :
    eval (l.map g ++ rs) pkt m =
      match l.find? fun a => (g a).selects pkt m with
      | some a => (g a).apply m
      | none => eval rs pkt m := by
  induction l with
  | nil => rfl
  | cons a l ih =>
    rw [List.map_cons, List.cons_append, eval_cons, List.find?_cons]
    cases h : (g a).selects pkt m <;> simp [ih]

theorem eval_otherFamilySkip (c : Config) (rs : List Rule) :
    eval (otherFamilySkip c ++ rs) pkt m = if skips c pkt then m else eval rs pkt m := by
  rcases h : Family.all.filter c.manages with _ | ⟨only, _ | ⟨_, _⟩⟩
  · simp [otherFamilySkip, skips, h]
  · simp [otherFamilySkip, skips, h, eval_cons, Rule.selects, Match.holds, Rule.apply]
  · simp [otherFamilySkip, skips, h]

/-- A rule that only returns. -/
theorem eval_return (conditions : List Match) (rs : List Rule) :
    eval ({ conditions } :: rs) pkt m =
      if conditions.all (·.holds pkt m) then m else eval rs pkt m :=
  eval_cons _ _

section Marks

variable (k : FwMask)

theorem pathOf_eq_some_iff {mark : BitVec 32} {id : UplinkId} :
    pathOf k mark = some id ↔ k.field mark = .path id := by
  rw [FieldValue.eq_path_iff]
  unfold pathOf
  split <;> simp_all

theorem selects_restore (id : UplinkId) :
    (restore k id).selects pkt m = true ↔ pathOf k m.conntrack = some id := by
  rw [pathOf_eq_some_iff, ← FwMask.and_mask_eq_encode_iff]
  simp only [Rule.selects, restore, Match.holds, List.all_cons, List.all_nil, Bool.and_true]
  exact decide_eq_true_iff

theorem eval_restoreAll (rs : List Rule) :
    eval (restoreAll k ++ rs) pkt m =
      match pathOf k m.conntrack with
      | some id => m.restored k id
      | none => eval rs pkt m := by
  rw [restoreAll, eval_map_append]
  cases h : UplinkId.all.find? fun id => (restore k id).selects pkt m with
  | some id =>
    have hsel := List.find?_some h
    rw [(selects_restore k id).mp hsel]
    rfl
  | none =>
    have hnone : pathOf k m.conntrack = none := by
      cases hp : pathOf k m.conntrack with
      | none => rfl
      | some id =>
        have := List.find?_eq_none.mp h id (UplinkId.mem_all id)
        exact absurd ((selects_restore k id).mpr hp) this
    rw [hnone]

theorem selects_assign (interface : Match) (u : Uplink) (f : Family) (direction : String) :
    (assign k interface u f direction).selects pkt m =
      (decide (pkt.family = f) && interface.holds pkt m && pkt.original) := by
  simp [Rule.selects, assign, Match.holds, Bool.and_assoc]

theorem selects_probeSkip :
    (probeSkip k).selects pkt m = decide ((k.field m.packet).cls = .probe) := by
  simp only [Rule.selects, probeSkip, Match.holds, List.all_cons, List.all_nil, Bool.and_true]
  rw [decide_eq_decide, FieldValue.cls_eq_iff]
  exact Lib.BitField.and_place_eq_place_iff k.fits m.packet _ _

end Marks

theorem selects_policy (c : Config) (p : Policy) :
    (policy c p).selects pkt m = policyApplies c pkt p := by
  have hopt : ∀ {α : Type} (o : Option α) (g : α → Match),
      (o.map g).toList.all (·.holds pkt m) = o.all fun a => (g a).holds pkt m := by
    intro α o g
    cases o <;> simp
  unfold policyApplies
  simp only [Rule.selects, policy, policyConditions, List.all_append, hopt, List.all_cons,
    List.all_nil, Bool.and_true, Bool.and_assoc]
  simp only [Match.holds, List.any_cons, List.any_nil, Bool.or_false]
  cases hf : decide (pkt.family = p.family) <;> simp

/-- The two multicast rules. -/
theorem eval_multicast (rs : List Rule) :
    eval ({ conditions := [.daddr .v4 multicastV4] } ::
        { conditions := [.daddr .v6 multicastV6] } :: rs) pkt m =
      if pkt.multicast then m else eval rs pkt m := by
  rw [eval_return, eval_return]
  unfold Packet.multicast
  cases hf : pkt.family <;> simp [Match.holds, hf]

theorem eval_paths (c : Config) (interface : String → Match) (direction : String) (name : String)
    (hi : ∀ i, (interface i).holds pkt m = decide (i = name)) (rs : List Rule) :
    eval ((paths c).map (fun (u, f) =>
        assign c.routing.fwmarkMask (interface u.interface) u f direction) ++ rs) pkt m =
      match pathOn c pkt name with
      | some (u, _) => m.assigned c.routing.fwmarkMask u.id
      | none => eval rs pkt m := by
  rw [eval_map_append]
  simp only [selects_assign, hi, pathOn]
  cases (paths c).find? fun q =>
      decide (pkt.family = q.2) && decide (q.1.interface = name) && pkt.original with
  | none => rfl
  | some q => rfl

theorem eval_policies (c : Config) :
    eval (c.policies.map (policy c)) pkt m =
      match c.policies.find? (policyApplies c pkt) with
      | some p =>
        { m with packet := overwrite c.routing.fwmarkMask m.packet (policyValue p) }
      | none => m := by
  rw [← List.append_nil (c.policies.map (policy c)), eval_map_append]
  simp only [selects_policy]
  cases c.policies.find? (policyApplies c pkt) <;> rfl

theorem eval_prerouting (c : Config) :
    eval (prerouting c) pkt m = lifecyclePrerouting c pkt m := by
  simp only [prerouting, List.append_assoc, List.cons_append, List.nil_append]
  rw [eval_otherFamilySkip, eval_return, eval_return, eval_restoreAll, eval_multicast,
    eval_return, eval_paths c (fun i => .iifname [i]) "inbound" pkt.iif
      (by intro i; simp [Match.holds, eq_comm]), eval_policies]
  simp only [lifecyclePrerouting, List.all_cons, List.all_nil, Bool.and_true, Match.holds,
    Bool.or_eq_true, ite_or]

theorem eval_output (c : Config) : eval (output c) pkt m = lifecycleOutput c pkt m := by
  have h := @eval_restoreAll pkt m c.routing.fwmarkMask []
  rw [List.append_nil] at h
  simp only [output, List.append_assoc, List.cons_append, List.nil_append]
  rw [eval_otherFamilySkip, eval_cons, selects_probeSkip, eval_return, h]
  simp only [lifecycleOutput, List.all_cons, List.all_nil, Bool.and_true, Match.holds,
    Bool.or_eq_true, ite_or]
  rfl

theorem field_eq_none_iff (k : FwMask) (mark : BitVec 32) :
    mark &&& k.mask = 0 ↔ k.field mark = .none := by
  rw [← k.encode_none]
  exact k.and_mask_eq_encode_iff mark .none

theorem eval_postrouting (c : Config) :
    eval (postrouting c) pkt m = lifecyclePostrouting c pkt m := by
  have h := @eval_paths pkt m c (fun i => .oifname [i]) "outgoing" pkt.oif
    (by intro i; simp [Match.holds, eq_comm]) []
  rw [List.append_nil] at h
  simp only [postrouting, List.append_assoc, List.cons_append, List.nil_append]
  rw [eval_otherFamilySkip, eval_cons, selects_probeSkip, eval_return, eval_multicast, eval_return,
    eval_return, h]
  have hz : [Match.markNotZero .conntrack c.routing.fwmarkMask.mask].all (·.holds pkt m) =
      decide (c.routing.fwmarkMask.field m.conntrack ≠ .none) := by
    simp only [List.all_cons, List.all_nil, Bool.and_true, Match.holds]
    rw [decide_eq_decide]
    exact not_congr (field_eq_none_iff _ m.conntrack)
  rw [hz]
  simp only [lifecyclePostrouting, List.all_cons, List.all_nil, Bool.and_true, Match.holds,
    Bool.or_eq_true, ite_or]
  rfl

/-- **The generated chains implement the lifecycle.** -/
theorem run_eq_lifecycle (c : Config) (h : Hook) (pkt : Packet) (m : Marks) :
    run c h pkt m = lifecycle c h pkt m := by
  cases h with
  | prerouting => exact eval_prerouting c
  | output => exact eval_output c
  | postrouting => exact eval_postrouting c

end Eval

end Polywan.Nft
