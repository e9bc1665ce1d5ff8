import Mathlib.Data.Prod.Lex
import Mathlib.Order.WithBot
import Polywan.Lib.BitField

/-!
# Families, uplink ids and the field of the mark

The identifiers every component shares: address families, addresses, uplink ids
from 1 to 63, (uplink, family) paths, and the eight contiguous bits of the packet
mark that belong to the program.  The orders are the source's derived ones, since
they decide the iteration order of its sets and maps.

## Main definitions

* `UplinkId` — an id from 1 to 63, the range carried as a field.
* `FieldValue` — a class in the two high bits, an id in the six low bits.
* `FwMask` — the position of the field in a 32-bit mark.
-/

namespace Polywan

/-- An optional key in the order of the source: a missing one sorts first. -/
def noneFirst {α : Type} (o : Option α) : WithBot α := o

@[simp] theorem noneFirst_inj {α : Type} {o o' : Option α} :
    noneFirst o = noneFirst o' ↔ o = o' := Iff.rfl

/-- Address family. -/
inductive Family where
  | v4
  | v6

namespace Family

/-- The position of a family in the derived order. -/
def index : Family → ℕ
  | v4 => 0
  | v6 => 1

theorem index_injective : Function.Injective index := by
  intro a b h
  cases a <;> cases b <;> simp_all [index]

instance : LinearOrder Family := LinearOrder.lift' index index_injective

instance : Std.TransCmp (compare : Family → Family → Ordering) := inferInstance

/-- Both families, in order. -/
def all : List Family := [v4, v6]

/-- The configuration key of a family. -/
def key : Family → String
  | v4 => "ipv4"
  | v6 => "ipv6"

@[simp] theorem mem_all (f : Family) : f ∈ all := by
  cases f <;> simp [all]

end Family

/-- An IPv4 or IPv6 address. -/
inductive IpAddr where
  | v4 (bits : BitVec 32)
  | v6 (bits : BitVec 128)

namespace IpAddr

/-- Every IPv4 address sorts before every IPv6 address. -/
def index : IpAddr → ℕ ×ₗ ℕ
  | v4 b => toLex (0, b.toNat)
  | v6 b => toLex (1, b.toNat)

theorem index_injective : Function.Injective index := by
  intro a b h
  cases a <;> cases b <;> simp_all [index, BitVec.toNat_inj]

instance : LinearOrder IpAddr := LinearOrder.lift' index index_injective

instance : Std.TransCmp (compare : IpAddr → IpAddr → Ordering) := inferInstance

instance : Std.LawfulEqCmp (compare : IpAddr → IpAddr → Ordering) := inferInstance

end IpAddr

/-- The family of an address. -/
def Family.of : IpAddr → Family
  | .v4 _ => .v4
  | .v6 _ => .v6

/-- Stable uplink identifier, 1 to 63. -/
structure UplinkId where
  get : BitVec 8
  one_le : 1 ≤ get.toNat
  le_max : get.toNat ≤ 63

namespace UplinkId

theorem one_le_one : 1 ≤ (1 : BitVec 8).toNat := by decide

theorem one_le_max : (1 : BitVec 8).toNat ≤ 63 := by decide

theorem get_injective : Function.Injective UplinkId.get := by
  rintro ⟨a, _, _⟩ ⟨b, _, _⟩ h
  simpa using h

/-- The id as a number, the offset of its tables and priorities. -/
def num (id : UplinkId) : ℕ := id.get.toNat

theorem num_injective : Function.Injective num :=
  fun _ _ h => get_injective (BitVec.toNat_inj.mp h)

instance : LinearOrder UplinkId := LinearOrder.lift' num num_injective

instance : Std.TransCmp (compare : UplinkId → UplinkId → Ordering) := inferInstance

instance : Std.LawfulEqCmp (compare : UplinkId → UplinkId → Ordering) := inferInstance

theorem num_pos (id : UplinkId) : 1 ≤ id.num := id.one_le

theorem num_le (id : UplinkId) : id.num ≤ 63 := id.le_max

/-- Accepts 1 to 63. -/
def new (id : BitVec 8) : Option UplinkId :=
  if h : 1 ≤ id.toNat ∧ id.toNat ≤ 63 then some ⟨id, h.1, h.2⟩ else none

/-- Every possible id, configured or not. -/
def all : List UplinkId :=
  (List.range 63).filterMap fun i => new (BitVec.ofNat 8 (i + 1))

theorem new_get (id : UplinkId) : new id.get = some id := by
  simp [new, id.one_le, id.le_max]

@[simp] theorem mem_all (id : UplinkId) : id ∈ all := by
  rw [all, List.mem_filterMap]
  have h1 := id.one_le
  have h2 := id.le_max
  refine ⟨id.get.toNat - 1, List.mem_range.mpr (by omega), ?_⟩
  rw [Nat.sub_add_cancel h1, BitVec.ofNat_toNat, BitVec.setWidth_eq, new_get]

end UplinkId

/-- A (uplink, family) pair. -/
structure PathKey where
  uplink : UplinkId
  family : Family

namespace PathKey

/-- Paths are ordered by uplink, then family. -/
def index (k : PathKey) : UplinkId ×ₗ Family := toLex (k.uplink, k.family)

theorem index_injective : Function.Injective index := by
  rintro ⟨a, f⟩ ⟨b, g⟩ h
  simpa [index] using h

instance : LinearOrder PathKey := LinearOrder.lift' index index_injective

instance : Std.TransCmp (compare : PathKey → PathKey → Ordering) := inferInstance

end PathKey

/-- Value of the field: a class in the two high bits and an uplink id in the six
low bits; 0 means that nothing is assigned. -/
structure FieldValue where
  get : BitVec 8
deriving DecidableEq

namespace FieldValue

/-- No assignment. -/
protected def none : FieldValue := ⟨0⟩

/-- Class bits of the probe class, also the selector value of the probe guard. -/
def probeClass : FieldValue := ⟨0x40⟩

def policyBlockClass : FieldValue := ⟨0xc0⟩

/-- Mask of the class bits. -/
def classBits : BitVec 8 := 0xc0

def path (id : UplinkId) : FieldValue := ⟨id.get⟩

def probe (id : UplinkId) : FieldValue := ⟨0x40 ||| id.get⟩

def policyBalance (id : UplinkId) : FieldValue := ⟨0x80 ||| id.get⟩

def policyBlock (id : UplinkId) : FieldValue := ⟨0xc0 ||| id.get⟩

def raw (value : BitVec 8) : FieldValue := ⟨value⟩

end FieldValue

/-- The number of trailing zero bits, the width for zero. -/
def trailingZeros (m : BitVec 32) : ℕ :=
  ((List.range 32).find? fun i => m.getLsbD i).getD 32

/-- The eight contiguous bits of the mark reserved to the program, by position.
The bound is what `FwMask.new` checks, so a field that sticks out of the word
cannot be built. -/
structure FwMask where
  shift : ℕ
  fits : shift + 8 ≤ 32
deriving DecidableEq

namespace FwMask

/-- Position 16. -/
def default : FwMask := ⟨16, by omega⟩

private theorem fits_of_shiftRight {m : BitVec 32} {s : ℕ} (h : m >>> s = 0xff) : s + 8 ≤ 32 := by
  by_contra hs
  have h1 : m.toNat / 2 ^ s = 255 := by
    have := congrArg BitVec.toNat h
    simpa [BitVec.toNat_ushiftRight, Nat.shiftRight_eq_div_pow] using this
  have h2 : 2 ^ 25 ≤ 2 ^ s := Nat.pow_le_pow_right (by omega) (by omega)
  have h3 : m.toNat / 2 ^ s ≤ m.toNat / 2 ^ 25 := Nat.div_le_div_left h2 (by positivity)
  have h4 : m.toNat < 2 ^ 32 := m.isLt
  omega

/-- Accepts a mask of exactly 8 contiguous bits. -/
def new (m : BitVec 32) : Option FwMask :=
  if h : m ≠ 0 ∧ m >>> trailingZeros m = 0xff then
    some ⟨trailingZeros m, fits_of_shiftRight h.2⟩
  else
    none

/-- The value at its place in the mark. -/
def encode (k : FwMask) (v : FieldValue) : BitVec 32 := Lib.BitField.place 32 k.shift v.get

/-- All eight bits. -/
def mask (k : FwMask) : BitVec 32 := Lib.BitField.mask 32 8 k.shift

/-- Mask selecting only the class bits of the field. -/
def classMask (k : FwMask) : BitVec 32 := Lib.BitField.place 32 k.shift FieldValue.classBits

/-- The field of a mark. -/
def field (k : FwMask) (mark : BitVec 32) : FieldValue := ⟨Lib.BitField.extract 8 k.shift mark⟩

theorem encode_none (k : FwMask) : k.encode .none = 0 := by
  simp [encode, FieldValue.none, Lib.BitField.place]

end FwMask

end Polywan
