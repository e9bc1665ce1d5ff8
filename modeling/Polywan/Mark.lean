import Polywan.Model

/-!
# Reading a mark

The class and the id behind a field value, and the two ways a mark is compared:
a rule of the routing policy database compares `(rule ^ mark) & mask` with zero,
the packet filter compares `mark & mask` with a value.  Both only see the field.

## Main definitions

* `FieldClass` — the meaning of the two high bits.
* `FieldValue.cls`, `FieldValue.id` — the two parts of a value.
-/

namespace Polywan

/-- The meaning of the two high bits of the field. -/
inductive FieldClass where
  | path
  | probe
  | policyBalance
  | policyBlock
deriving DecidableEq

/-- The class in its position. -/
def FieldClass.bits : FieldClass → BitVec 8
  | path => 0
  | probe => 0x40
  | policyBalance => 0x80
  | policyBlock => 0xc0

namespace FieldValue

/-- The class of a value. -/
def cls (v : FieldValue) : FieldClass :=
  if v.get &&& classBits = FieldClass.probe.bits then .probe
  else if v.get &&& classBits = FieldClass.policyBalance.bits then .policyBalance
  else if v.get &&& classBits = FieldClass.policyBlock.bits then .policyBlock
  else .path

/-- The id of a value, unless its six low bits are zero. -/
def id (v : FieldValue) : Option UplinkId := UplinkId.new (v.get &&& 0x3f)

theorem cls_eq_iff (v : FieldValue) (k : FieldClass) :
    v.cls = k ↔ v.get &&& classBits = k.bits := by
  have four : ∀ x : BitVec 8, x &&& classBits = 0 ∨ x &&& classBits = 0x40 ∨
      x &&& classBits = 0x80 ∨ x &&& classBits = 0xc0 := by decide
  rcases four v.get with h | h | h | h <;> cases k <;> simp [cls, h, FieldClass.bits]

theorem id_eq_some_iff (v : FieldValue) (id : UplinkId) :
    v.id = some id ↔ v.get &&& 0x3f = id.get := by
  unfold FieldValue.id
  constructor
  · intro h
    unfold UplinkId.new at h
    split at h
    · exact congrArg UplinkId.get (Option.some.inj h)
    · cases h
  · intro h
    rw [h]
    exact id.new_get

theorem id_eq_none_iff (v : FieldValue) : v.id = none ↔ v.get &&& 0x3f = 0 := by
  have bound : ∀ x : BitVec 8, (1 ≤ (x &&& 0x3f).toNat ∧ (x &&& 0x3f).toNat ≤ 63) ↔
      x &&& 0x3f ≠ 0 := by decide
  unfold FieldValue.id UplinkId.new
  split
  · next h => simpa using (bound v.get).mp h
  · next h => simpa using fun h' => h ((bound v.get).mpr h')

/-- A value is its class and its id. -/
theorem eq_iff (v : FieldValue) (k : FieldClass) (id : UplinkId) :
    v.get = k.bits ||| id.get ↔ v.cls = k ∧ v.id = some id := by
  have join : ∀ x : BitVec 8, (x &&& classBits) ||| (x &&& 0x3f) = x := by decide
  have low : ∀ x : BitVec 8, x.toNat ≤ 63 → x &&& classBits = 0 ∧ x &&& 0x3f = x := by decide
  have high : k.bits &&& classBits = k.bits ∧ k.bits &&& 0x3f = 0 := by cases k <;> decide
  rw [cls_eq_iff, id_eq_some_iff]
  constructor
  · intro h
    obtain ⟨hc, hi⟩ := low id.get id.le_max
    rw [h, BitVec.and_or_distrib_right, BitVec.and_or_distrib_right, hc, hi, high.1, high.2]
    simp
  · rintro ⟨hc, hi⟩
    rw [← join v.get, hc, hi]

theorem eq_path_iff (v : FieldValue) (id : UplinkId) :
    v = path id ↔ v.cls = .path ∧ v.id = some id := by
  rw [← eq_iff]
  cases v
  simp [path, FieldClass.bits]

theorem eq_probe_iff (v : FieldValue) (id : UplinkId) :
    v = probe id ↔ v.cls = .probe ∧ v.id = some id := by
  rw [← eq_iff]
  cases v
  simp [probe, FieldClass.bits]

theorem eq_policyBalance_iff (v : FieldValue) (id : UplinkId) :
    v = policyBalance id ↔ v.cls = .policyBalance ∧ v.id = some id := by
  rw [← eq_iff]
  cases v
  simp [policyBalance, FieldClass.bits]

theorem eq_policyBlock_iff (v : FieldValue) (id : UplinkId) :
    v = policyBlock id ↔ v.cls = .policyBlock ∧ v.id = some id := by
  rw [← eq_iff]
  cases v
  simp [policyBlock, FieldClass.bits]

theorem eq_none_iff (v : FieldValue) : v = .none ↔ v.cls = .path ∧ v.id = none := by
  have split : ∀ x : BitVec 8, x = 0 ↔ x &&& classBits = 0 ∧ x &&& 0x3f = 0 := by decide
  rw [cls_eq_iff, id_eq_none_iff]
  cases v
  simp only [FieldValue.none, mk.injEq, FieldClass.bits]
  exact split _

/-- The selector of one bit of a path-class value. -/
theorem and_bit_eq_iff (v : FieldValue) (k : Fin 6) :
    v.get &&& (0xc0 ||| 1#8 <<< k.val) = 1#8 <<< k.val ↔
      v.cls = .path ∧ v.get.getLsbD k = true := by
  have bit : ∀ x : BitVec 8, ∀ k : Fin 6,
      x &&& (0xc0 ||| 1#8 <<< k.val) = 1#8 <<< k.val ↔
        x &&& classBits = 0 ∧ x.getLsbD k = true := by decide +kernel
  rw [cls_eq_iff]
  exact bit v.get k

/-- Some bit of the id is set unless there is no id. -/
theorem exists_bit_iff (v : FieldValue) :
    (∃ k : Fin 6, v.get.getLsbD k = true) ↔ v.id ≠ none := by
  have bit : ∀ x : BitVec 8, (∃ k : Fin 6, x.getLsbD k = true) ↔ x &&& 0x3f ≠ 0 := by
    decide +kernel
  rw [ne_eq, id_eq_none_iff]
  exact bit v.get

theorem bits_eq_false {v : FieldValue} (h : v.id = none) (k : Fin 6) :
    v.get.getLsbD k = false := by
  by_contra hk
  exact v.exists_bit_iff.mp ⟨k, by simpa using hk⟩ h

end FieldValue

namespace FwMask

variable (k : FwMask)

/-- A routing rule's comparison sees the field only. -/
theorem xor_and_encode_eq_zero_iff (mark : BitVec 32) (v m : FieldValue) :
    (k.encode v ^^^ mark) &&& k.encode m = 0 ↔ (k.field mark).get &&& m.get = v.get &&& m.get := by
  rw [encode, encode, Lib.BitField.xor_and_place_eq_zero_iff k.fits,
    Lib.BitField.extract_place k.fits, eq_comm]
  rfl

/-- Masking by the whole field and comparing with a value. -/
theorem and_mask_eq_encode_iff (mark : BitVec 32) (v : FieldValue) :
    mark &&& k.mask = k.encode v ↔ k.field mark = v := by
  rw [FwMask.mask, encode, Lib.BitField.and_mask_eq_place_iff k.fits]
  cases v
  simp [field]

theorem encode_injective (k : FwMask) : Function.Injective k.encode := by
  intro v v' h
  have := congrArg (Lib.BitField.extract 8 k.shift) h
  rw [encode, encode, Lib.BitField.extract_place k.fits, Lib.BitField.extract_place k.fits] at this
  cases v
  cases v'
  simpa using this

theorem field_congr {k : FwMask} {mark mark' : BitVec 32}
    (h : mark &&& k.mask = mark' &&& k.mask) : k.field mark = k.field mark' := by
  have h' : mark &&& k.mask = k.encode (k.field mark') :=
    h.trans ((k.and_mask_eq_encode_iff mark' _).mpr rfl)
  exact (k.and_mask_eq_encode_iff mark _).mp h'

end FwMask

end Polywan
