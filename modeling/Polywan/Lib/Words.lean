import Mathlib.Algebra.Group.Nat.Defs
import Polywan.Lib.Checksum

/-!
# Numbers in bytes

A number in a fixed count of bytes, the least or the most significant first.

## Main definitions

* `Endian.ofBytes` — the number that bytes are.
* `Endian.toBytes` — a number in bytes.
-/

namespace Polywan.Lib

/-- The order of the bytes of a number. -/
inductive Endian
  | little
  | big
deriving DecidableEq

/-- The number of bytes, the least significant first. -/
def littleNat : List Byte → ℕ
  | [] => 0
  | b :: bs => b.toNat + 256 * littleNat bs

def littleBytes : ℕ → ℕ → List Byte
  | 0, _ => []
  | w + 1, n => BitVec.ofNat 8 n :: littleBytes w (n / 256)

@[simp] theorem length_littleBytes (w n : ℕ) : (littleBytes w n).length = w := by
  induction w generalizing n with
  | zero => rfl
  | succ w ih => rw [littleBytes, List.length_cons, ih]

theorem littleNat_littleBytes {w n : ℕ} (h : n < 256 ^ w) : littleNat (littleBytes w n) = n := by
  induction w generalizing n with
  | zero =>
    rw [Nat.pow_zero] at h
    rw [littleBytes, littleNat]
    omega
  | succ w ih =>
    rw [Nat.pow_succ] at h
    rw [littleBytes, littleNat, ih (by omega), BitVec.toNat_ofNat]
    omega

theorem littleNat_lt (bs : List Byte) : littleNat bs < 256 ^ bs.length := by
  induction bs with
  | nil => exact Nat.one_pos
  | cons b bs ih =>
    have hb : b.toNat < 256 := b.isLt
    rw [littleNat, List.length_cons, Nat.pow_succ]
    omega

namespace Endian

def ofBytes : Endian → List Byte → ℕ
  | little, bs => littleNat bs
  | big, bs => littleNat bs.reverse

def toBytes : Endian → ℕ → ℕ → List Byte
  | little, w, n => littleBytes w n
  | big, w, n => (littleBytes w n).reverse

@[simp] theorem length_toBytes (e : Endian) (w n : ℕ) : (e.toBytes w n).length = w := by
  cases e <;> simp [toBytes]

theorem ofBytes_lt (e : Endian) (bs : List Byte) : e.ofBytes bs < 256 ^ bs.length := by
  cases e with
  | little => exact littleNat_lt bs
  | big =>
    rw [ofBytes, ← List.length_reverse]
    exact littleNat_lt bs.reverse

/-- A number that fits is read back. -/
theorem ofBytes_toBytes (e : Endian) {w n : ℕ} (h : n < 256 ^ w) :
    e.ofBytes (e.toBytes w n) = n := by
  cases e <;> simp [toBytes, ofBytes, littleNat_littleBytes h]

end Endian

end Polywan.Lib
