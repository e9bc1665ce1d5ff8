import Polywan.Netlink.Attributes

/-!
# Nexthop object messages

A message of a nexthop object is a header of eight bytes with the flags, and attributes.

## Main definitions

* `NexthopMessage.parse` — reads a message; a value that does not fit its type is ignored.
* `NexthopMessage.attributes` — an object as attributes.

## Main results

* `NexthopMessage.parse_encode` — an object that was written is read back.
* `Attributes.decoded` — the iteration and its uses.
-/

namespace Polywan

open Lib

namespace NexthopMessage

def nhaId : ℕ := 1

def nhaGroup : ℕ := 2

def nhaBlackhole : ℕ := 4

def nhaOif : ℕ := 5

def nhaGateway : ℕ := 6

def nhaFdb : ℕ := 11

def rtnhDead : ℕ := 1

def rtnhOnlink : ℕ := 4

def rtnhLinkdown : ℕ := 16

/-- A message without attributes. -/
def ofFlags (flags : ℕ) : NexthopMessage where
  id := 0
  group := []
  blackhole := false
  fdb := false
  ifindex := none
  gateway := none
  onlink := flags &&& rtnhOnlink ≠ 0
  dead := flags &&& rtnhDead ≠ 0
  linkdown := flags &&& rtnhLinkdown ≠ 0

/-- A value of a known size; another is a panic. -/
def exactly (n : ℕ) (value : List Byte) : Option (List Byte) :=
  if value.length = n then some value else none

/-- The ids of a group, each with a weight and two reserved fields. -/
def members (e : Endian) : List Byte → List ℕ
  | a :: b :: c :: d :: _ :: _ :: _ :: _ :: rest => e.ofBytes [a, b, c, d] :: members e rest
  | _ => []

/-- One attribute read. -/
def readAttribute (e : Endian) (m : NexthopMessage) (kind : ℕ) (value : List Byte) :
    Option NexthopMessage :=
  if kind = nhaId ∧ value.length = 4 then
    (exactly 4 value).map fun b => { m with id := e.ofBytes b }
  else if kind = nhaOif ∧ value.length = 4 then
    (exactly 4 value).map fun b => { m with ifindex := some (e.ofBytes b) }
  else if kind = nhaGateway ∧ value.length = 4 then
    (exactly 4 value).map fun b =>
      { m with gateway := some (.v4 (.ofNat 32 (Endian.big.ofBytes b))) }
  else if kind = nhaGateway ∧ value.length = 16 then
    (exactly 16 value).map fun b =>
      { m with gateway := some (.v6 (.ofNat 128 (Endian.big.ofBytes b))) }
  else if kind = nhaGroup ∧ value.length % 8 = 0 then some { m with group := members e value }
  else if kind = nhaBlackhole then some { m with blackhole := true }
  else if kind = nhaFdb then some { m with fdb := true }
  else some m

/-- A message from its bytes. -/
def parse (e : Endian) (payload : List Byte) : Option (Except String NexthopMessage) :=
  if payload.length < 8 then some (.error s!"nexthop message of {payload.length} bytes")
  else (slice payload 4 8).bind fun word => (exactly 4 word).bind fun word =>
    let body : NexthopMessage → Attributes.Item → Option (Except String NexthopMessage)
      | _, .error text => some (.error s!"nexthop {text}")
      | m, .ok (kind, value) => (readAttribute e m kind value).map .ok
    Attributes.tryFold e payload body (payload.length + 2) ⟨8, false⟩ (ofFlags (e.ofBytes word))

/-! ## Reading attributes -/

/-- The gateway of a value. -/
def gatewayOf (value : List Byte) : Option IpAddr :=
  if value.length = 4 then some (.v4 (.ofNat 32 (Endian.big.ofBytes value)))
  else if value.length = 16 then some (.v6 (.ofNat 128 (Endian.big.ofBytes value)))
  else none

/-- A message with an attribute: every attribute fills a field of its own. -/
def filled (e : Endian) (m : NexthopMessage) (a : ℕ × List Byte) : NexthopMessage where
  id := if a.1 = nhaId ∧ a.2.length = 4 then e.ofBytes a.2 else m.id
  group := if a.1 = nhaGroup ∧ a.2.length % 8 = 0 then members e a.2 else m.group
  blackhole := if a.1 = nhaBlackhole then true else m.blackhole
  fdb := if a.1 = nhaFdb then true else m.fdb
  ifindex := if a.1 = nhaOif ∧ a.2.length = 4 then some (e.ofBytes a.2) else m.ifindex
  gateway := if a.1 = nhaGateway then (gatewayOf a.2).or m.gateway else m.gateway
  onlink := m.onlink
  dead := m.dead
  linkdown := m.linkdown

theorem exactly_eq {n : ℕ} {value : List Byte} (h : value.length = n) :
    exactly n value = some value := if_pos h

theorem readAttribute_eq (e : Endian) (m : NexthopMessage) (kind : ℕ) (value : List Byte) :
    readAttribute e m kind value = some (filled e m (kind, value)) := by
  unfold readAttribute filled gatewayOf nhaId nhaOif nhaGateway nhaGroup nhaBlackhole nhaFdb
  split_ifs <;> simp_all [exactly]

theorem filled_comm (e : Endian) (m : NexthopMessage) (a b : ℕ × List Byte) (h : a.1 ≠ b.1) :
    filled e (filled e m a) b = filled e (filled e m b) a := by
  simp only [filled, NexthopMessage.mk.injEq, and_true]
  refine ⟨?_, ?_, ?_, ?_, ?_, ?_⟩
  · exact ite_ite_comm _ _ _ _ fun hb ha => h (ha.1.trans hb.1.symm)
  · exact ite_ite_comm _ _ _ _ fun hb ha => h (ha.1.trans hb.1.symm)
  · exact ite_ite_comm _ _ _ _ fun hb ha => h (ha.trans hb.symm)
  · exact ite_ite_comm _ _ _ _ fun hb ha => h (ha.trans hb.symm)
  · exact ite_ite_comm _ _ _ _ fun hb ha => h (ha.1.trans hb.1.symm)
  · split_ifs with hb ha
    · exact absurd (ha.trans hb.symm) h
    · rfl
    · rfl
    · rfl

theorem isSome_parse (e : Endian) {payload : List Byte} (h : payload.length < 2 ^ 63) :
    (parse e payload).isSome = true := by
  unfold parse
  split_ifs with hshort
  · rfl
  · rw [slice, if_pos (by omega), Option.bind_some, exactly_eq (by
      rw [List.length_take, List.length_drop]
      omega), Option.bind_some]
    refine Attributes.isSome_tryFold (fun m item => ?_) h (by dsimp only; omega) _
    cases item with
    | error text => rfl
    | ok a => simp only [readAttribute_eq, Option.map_some, Option.isSome_some]

/-- A message behind its header is read attribute by attribute. -/
theorem parse_eq (e : Endian) {start word rest : List Byte} (hstart : start.length = 4)
    (hword : word.length = 4) {values : List (ℕ × List Byte)}
    (hcollect : Attributes.collect e (start ++ word ++ rest) ((start ++ word ++ rest).length + 2)
      ⟨8, false⟩ = some (values.map .ok)) :
    parse e (start ++ word ++ rest) =
      some (.ok (values.foldl (filled e) (ofFlags (e.ofBytes word)))) := by
  have hlength : (start ++ word ++ rest).length = 8 + rest.length := by
    simp [hstart, hword, ← Nat.add_assoc]
  have hslice : slice (start ++ word ++ rest) 4 8 = some word := by
    rw [slice, if_pos (by omega), List.append_assoc, List.drop_left' hstart, List.take_left' hword]
  rw [parse, if_neg (by omega), hslice, Option.bind_some, exactly_eq hword, Option.bind_some]
  dsimp only
  rw [Attributes.tryFold_eq hcollect]
  clear hcollect
  generalize ofFlags (e.ofBytes word) = m
  induction values generalizing m with
  | nil => rfl
  | cons a values ih =>
    rw [List.map_cons, Attributes.foldItems, List.foldl_cons, ← ih]
    simp only [readAttribute_eq, Option.map_some, Option.bind_some]

/-! ## Objects as attributes -/

/-- The bytes of an address, in the order of the network. -/
def addrBytes : IpAddr → List Byte
  | .v4 bits => Endian.big.toBytes 4 bits.toNat
  | .v6 bits => Endian.big.toBytes 16 bits.toNat

/-- The attributes of an object; `tail` has the weight and the reserved fields of a member. -/
def attributes (e : Endian) (tail : ℕ → List Byte) (m : NexthopMessage) : List (ℕ × List Byte) :=
  [(nhaId, e.toBytes 4 m.id)]
    ++ (if m.group = [] then []
      else [(nhaGroup, m.group.flatMap fun id => e.toBytes 4 id ++ tail id)])
    ++ (if m.blackhole then [(nhaBlackhole, [])] else [])
    ++ (m.ifindex.map fun i => (nhaOif, e.toBytes 4 i)).toList
    ++ (m.gateway.map fun a => (nhaGateway, addrBytes a)).toList
    ++ (if m.fdb then [(nhaFdb, [])] else [])

/-- An object of the kernel: ids and interfaces are numbers of 32 bits. -/
structure Fits (m : NexthopMessage) : Prop where
  id_lt : m.id < 2 ^ 32
  group_lt : ∀ id ∈ m.group, id < 2 ^ 32
  ifindex_lt : ∀ i ∈ m.ifindex, i < 2 ^ 32

theorem ofBytes_toBytes (e : Endian) {n : ℕ} (h : n < 2 ^ 32) : e.ofBytes (e.toBytes 4 n) = n :=
  e.ofBytes_toBytes (by omega)

theorem nodup_attributes (e : Endian) (tail : ℕ → List Byte) (m : NexthopMessage) :
    ((m.attributes e tail).map Prod.fst).Nodup := by
  have hsub : ((m.attributes e tail).map Prod.fst).Sublist
      ([nhaId] ++ [nhaGroup] ++ [nhaBlackhole] ++ [nhaOif] ++ [nhaGateway] ++ [nhaFdb]) := by
    simp only [attributes, List.map_append]
    refine ((((List.Sublist.refl _).append ?_).append ?_).append ?_).append ?_ |>.append ?_
    · split_ifs <;> simp
    · split_ifs <;> simp
    · cases m.ifindex <;> simp
    · cases m.gateway <;> simp
    · split_ifs <;> simp
  exact hsub.nodup (by decide)

theorem members_flatMap (e : Endian) {tail : ℕ → List Byte} (htail : ∀ id, (tail id).length = 4)
    {ids : List ℕ} (h : ∀ id ∈ ids, id < 2 ^ 32) :
    members e (ids.flatMap fun id => e.toBytes 4 id ++ tail id) = ids := by
  induction ids with
  | nil => rfl
  | cons id ids ih =>
    obtain ⟨a, b, c, d, hbytes⟩ := List.length_eq_four.mp (e.length_toBytes 4 id)
    obtain ⟨w, x, y, z, hrest⟩ := List.length_eq_four.mp (htail id)
    have hid := ofBytes_toBytes e (h id List.mem_cons_self)
    rw [List.flatMap_cons, hrest, hbytes]
    rw [hbytes] at hid
    change e.ofBytes [a, b, c, d] :: members e (ids.flatMap _) = _
    rw [hid, ih fun i hi => h i (List.mem_cons_of_mem id hi)]

theorem gatewayOf_addrBytes (a : IpAddr) : gatewayOf (addrBytes a) = some a := by
  cases a with
  | v4 bits =>
    rw [gatewayOf, addrBytes, if_pos (Endian.length_toBytes _ _ _),
      Endian.ofBytes_toBytes _ bits.isLt, BitVec.ofNat_toNat, BitVec.setWidth_eq]
  | v6 bits =>
    rw [gatewayOf, addrBytes, if_neg (by simp), if_pos (Endian.length_toBytes _ _ _),
      Endian.ofBytes_toBytes _ bits.isLt, BitVec.ofNat_toNat, BitVec.setWidth_eq]

section Fill

variable (e : Endian) {m n : NexthopMessage}

theorem filled_id {id : ℕ} (h : id < 2 ^ 32) :
    filled e n (nhaId, e.toBytes 4 id) = { n with id } := by
  simp [filled, nhaId, nhaGroup, nhaBlackhole, nhaOif, nhaGateway, nhaFdb, ofBytes_toBytes e h]

theorem foldl_group {tail : ℕ → List Byte} (htail : ∀ id, (tail id).length = 4) {group : List ℕ}
    (h : ∀ id ∈ group, id < 2 ^ 32) (hn : n.group = []) :
    (if group = [] then [] else
      [(nhaGroup, group.flatMap fun id => e.toBytes 4 id ++ tail id)]).foldl (filled e) n =
      { n with group } := by
  split_ifs with hempty
  · rw [hempty, ← hn]
    rfl
  · simp [filled, nhaId, nhaGroup, nhaBlackhole, nhaOif, nhaGateway, nhaFdb,
      members_flatMap e htail h, htail, List.length_flatMap]

theorem foldl_blackhole {blackhole : Bool} (hn : n.blackhole = false) :
    (if blackhole then [(nhaBlackhole, [])] else []).foldl (filled e) n = { n with blackhole } := by
  cases blackhole with
  | false =>
    cases n
    cases hn
    rfl
  | true => simp [filled, nhaId, nhaGroup, nhaBlackhole, nhaOif, nhaGateway, nhaFdb]

theorem foldl_fdb {fdb : Bool} (hn : n.fdb = false) :
    (if fdb then [(nhaFdb, [])] else []).foldl (filled e) n = { n with fdb } := by
  cases fdb with
  | false =>
    cases n
    cases hn
    rfl
  | true => simp [filled, nhaId, nhaGroup, nhaBlackhole, nhaOif, nhaGateway, nhaFdb]

theorem foldl_ifindex {ifindex : Option ℕ} (h : ∀ i ∈ ifindex, i < 2 ^ 32) (hn : n.ifindex = none) :
    (ifindex.map fun i => (nhaOif, e.toBytes 4 i)).toList.foldl (filled e) n =
      { n with ifindex } := by
  cases ifindex with
  | none =>
    cases n
    cases hn
    rfl
  | some i =>
    simp [filled, nhaId, nhaGroup, nhaBlackhole, nhaOif, nhaGateway, nhaFdb,
      ofBytes_toBytes e (h i rfl)]

theorem foldl_gateway {gateway : Option IpAddr} (hn : n.gateway = none) :
    (gateway.map fun a => (nhaGateway, addrBytes a)).toList.foldl (filled e) n =
      { n with gateway } := by
  cases gateway with
  | none =>
    cases n
    cases hn
    rfl
  | some a =>
    simp [filled, nhaId, nhaGroup, nhaBlackhole, nhaOif, nhaGateway, nhaFdb, gatewayOf_addrBytes]

end Fill

/-- The attributes of an object fill its fields. -/
theorem foldl_attributes (e : Endian) {tail : ℕ → List Byte} (htail : ∀ id, (tail id).length = 4)
    {m : NexthopMessage} (h : m.Fits) {flags : ℕ} (honlink : m.onlink = (ofFlags flags).onlink)
    (hdead : m.dead = (ofFlags flags).dead) (hlinkdown : m.linkdown = (ofFlags flags).linkdown) :
    (m.attributes e tail).foldl (filled e) (ofFlags flags) = m := by
  simp only [attributes, List.foldl_append, List.foldl_cons, List.foldl_nil]
  rw [filled_id e h.id_lt, foldl_group e htail h.group_lt rfl, foldl_blackhole e rfl,
    foldl_ifindex e h.ifindex_lt rfl, foldl_gateway e rfl, foldl_fdb e rfl]
  dsimp only
  rw [← honlink, ← hdead, ← hlinkdown]

/-- **An object that was written is read back**, its attributes in any order. -/
theorem parse_encode (e : Endian) {tail : ℕ → List Byte} (htail : ∀ id, (tail id).length = 4)
    {m : NexthopMessage} (h : m.Fits) {start : List Byte} (hstart : start.length = 4) {flags : ℕ}
    (hflags : flags < 2 ^ 32) (honlink : m.onlink = (ofFlags flags).onlink)
    (hdead : m.dead = (ofFlags flags).dead) (hlinkdown : m.linkdown = (ofFlags flags).linkdown)
    (l : List Attribute) (last : Option Attribute)
    (hperm : ((l ++ last.toList).map fun a => (a.kind, a.value)).Perm (m.attributes e tail))
    {payload : List Byte} (hpayload : payload = start ++ e.toBytes 4 flags ++
      (Attribute.encode e l ++ (last.map (Attribute.bytes e)).getD []))
    (hlength : payload.length < 2 ^ 63) : parse e payload = some (.ok m) := by
  subst hpayload
  have hfuel : l.length + 2 ≤ (start ++ e.toBytes 4 flags ++
      (Attribute.encode e l ++ (last.map (Attribute.bytes e)).getD [])).length + 2 := by
    have hle := Attribute.length_le_encode (e := e) l
    simp only [List.length_append]
    omega
  have hcollect := Attributes.collect_encode l last (start ++ e.toBytes 4 flags) hlength hfuel
  have hhead : (start ++ e.toBytes 4 flags).length = 8 := by simp [hstart]
  have hitems : (l ++ last.toList).map Attribute.item =
      ((l ++ last.toList).map fun a => (a.kind, a.value)).map .ok := by
    rw [List.map_map]
    rfl
  rw [hhead, hitems] at hcollect
  rw [parse_eq e hstart (Endian.length_toBytes _ _ _) hcollect, ofBytes_toBytes e hflags,
    Lib.foldl_perm_of_slots (filled_comm e) hperm (nodup_attributes e tail m),
    foldl_attributes e htail h honlink hdead hlinkdown]

end NexthopMessage

/-- **Attributes are decoded.**  The iteration over any payload ends without a panic, with at most
one error and nothing after it; attributes that were written are yielded as they were.  So messages
of errors and of nexthop objects are read without a panic, and objects are read back. -/
theorem Attributes.decoded (e : Endian) :
    (∀ (payload : List Byte) (offset : ℕ), payload.length < 2 ^ 62 → offset < 2 ^ 62 →
      ∃ (values : List (ℕ × List Byte)) (last : Option String), ∀ fuel, payload.length + 2 ≤ fuel →
        collect e payload fuel ⟨offset, false⟩ =
          some (values.map .ok ++ (last.map .error).toList)) ∧
    (∀ (l : List Attribute) (last : Option Attribute) (head payload : List Byte),
      payload = head ++ (Attribute.encode e l ++ (last.map (Attribute.bytes e)).getD []) →
      payload.length < 2 ^ 62 → ∀ fuel, payload.length + 2 ≤ fuel →
        collect e payload fuel ⟨head.length, false⟩ =
          some ((l ++ last.toList).map Attribute.item)) ∧
    (∀ payload : List Byte, payload.length < 2 ^ 63 →
      (NexthopMessage.parse e payload).isSome = true ∧
        ∀ lossy, (parseExtack lossy e payload).isSome = true) ∧
    ∀ (m : NexthopMessage) (tail : ℕ → List Byte) (start : List Byte) (flags : ℕ)
      (l : List Attribute) (last : Option Attribute) (payload : List Byte),
      m.Fits → (∀ id, (tail id).length = 4) → start.length = 4 → flags < 2 ^ 32 →
      m.onlink = (NexthopMessage.ofFlags flags).onlink →
      m.dead = (NexthopMessage.ofFlags flags).dead →
      m.linkdown = (NexthopMessage.ofFlags flags).linkdown →
      ((l ++ last.toList).map fun a => (a.kind, a.value)).Perm (m.attributes e tail) →
      payload = start ++ e.toBytes 4 flags ++
        (Attribute.encode e l ++ (last.map (Attribute.bytes e)).getD []) →
      payload.length < 2 ^ 62 → NexthopMessage.parse e payload = some (.ok m) := by
  refine ⟨fun payload offset hpayload hoffset => ?_,
    fun l last head payload h hlength fuel hfuel => ?_,
    fun payload h => ⟨NexthopMessage.isSome_parse e h, fun lossy => isSome_parseExtack lossy e h⟩,
    fun m tail start flags l last payload h htail hstart hflags honlink hdead hlinkdown hperm
      hpayload hlength => ?_⟩
  · obtain ⟨values, last, hcollect⟩ := @collect_eq e payload ⟨offset, false⟩ (by omega)
      (by dsimp only; omega)
    exact ⟨values, last, fun fuel hfuel => hcollect fuel (by dsimp only; omega) (by omega)⟩
  · have hle := Attribute.length_le_encode (e := e) l
    subst h
    refine collect_encode l last head (by omega) ?_
    simp only [List.length_append] at hfuel
    omega
  · exact NexthopMessage.parse_encode e htail h hstart hflags honlink hdead hlinkdown l last hperm
      hpayload (by omega)

/-- A gateway whose attribute is the last, behind an id and an interface. -/
theorem Attributes.decoded_gateway :
    NexthopMessage.parse .little
      [2, 0, 4, 0, 4, 0, 0, 0, 8, 0, 1, 0, 7, 0, 0, 0, 8, 0, 5, 0, 2, 0, 0, 0,
        8, 0, 6, 0, 192, 0, 2, 1] =
      some (.ok { NexthopMessage.ofFlags 4 with
        id := 7, ifindex := some 2, gateway := some (.v4 0xc0000201#32) }) := by
  refine (Attributes.decoded .little).2.2.2 _ (fun _ => [0, 0, 0, 0]) [2, 0, 4, 0] 4
    [⟨1, [7, 0, 0, 0], by decide, by decide⟩, ⟨5, [2, 0, 0, 0], by decide, by decide⟩]
    (some ⟨6, [192, 0, 2, 1], by decide, by decide⟩) _ ⟨by decide, by decide, by decide⟩
    (fun _ => rfl) rfl (by decide) rfl rfl rfl (List.Perm.of_eq ?_) ?_ (by decide)
  · decide
  · decide

end Polywan
