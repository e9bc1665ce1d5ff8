import Mathlib.Data.BitVec
import Mathlib.Tactic

/-!
# A contiguous field of a machine word

A word of `w` bits shared by several owners gives each of them a contiguous
field of `k` bits at some shift.  An owner places a value at its shift, extracts
it again, compares under a mask and overwrites its own bits with the two
constant operations `word & ~mask | value`.

Everything here holds for any field that fits, `s + k ≤ w`; nothing depends on
which word or which owner it is.

## Main definitions

* `place s v` — the value `v` moved to its position in the word.
* `extract s m` — the field read back from a word.
* `mask s` — the word whose bits are exactly the field's.
* `write s m v` — the word `m` with its field overwritten by `v`.
-/

namespace Polywan.Lib.BitField

variable {w k : ℕ}

/-- A field value at its position in a word. -/
def place (w : ℕ) (s : ℕ) (v : BitVec k) : BitVec w := v.setWidth w <<< s

/-- The field of a word. -/
def extract (k : ℕ) (s : ℕ) (m : BitVec w) : BitVec k := (m >>> s).setWidth k

/-- The word whose set bits are the field's. -/
def mask (w k : ℕ) (s : ℕ) : BitVec w := place w s (BitVec.allOnes k)

/-- Overwrite the field with constant operations only. -/
def write (s : ℕ) (m : BitVec w) (v : BitVec k) : BitVec w :=
  (m &&& ~~~mask w k s) ||| place w s v

theorem getLsbD_place (s : ℕ) (v : BitVec k) (i : ℕ) :
    (place w s v).getLsbD i = (decide (i < w) && decide (s ≤ i) && v.getLsbD (i - s)) := by
  simp only [place, BitVec.getLsbD_shiftLeft, BitVec.getLsbD_setWidth]
  by_cases h : i < s
  · have : ¬ s ≤ i := by omega
    simp [h, this]
  · have hs : s ≤ i := by omega
    by_cases hw : i < w
    · have : i - s < w := by omega
      simp [h, hs, hw, this]
    · simp [hw]

theorem getLsbD_extract (s : ℕ) (m : BitVec w) (i : ℕ) :
    (extract k s m).getLsbD i = (decide (i < k) && m.getLsbD (s + i)) := by
  simp [extract, BitVec.getLsbD_setWidth, BitVec.getLsbD_ushiftRight]

theorem getLsbD_mask {s : ℕ} (i : ℕ) :
    (mask w k s).getLsbD i = (decide (i < w) && decide (s ≤ i) && decide (i - s < k)) := by
  simp [mask, getLsbD_place, BitVec.getLsbD_allOnes]

/-- Masking a word by a placed constant only looks at the field. -/
theorem and_place (s : ℕ) (m : BitVec w) (c : BitVec k) :
    m &&& place w s c = place w s (extract k s m &&& c) := by
  apply BitVec.eq_of_getLsbD_eq
  intro i hi
  simp only [BitVec.getLsbD_and, getLsbD_place, getLsbD_extract, hi, decide_true, Bool.true_and]
  by_cases hsi : s ≤ i
  · by_cases hk : i - s < k
    · have : s + (i - s) = i := by omega
      simp [hsi, hk, this]
    · have hc : c.getLsbD (i - s) = false := BitVec.getLsbD_of_ge c _ (by omega)
      simp [hsi, hc]
  · simp [hsi]

theorem extract_xor (s : ℕ) (m m' : BitVec w) :
    extract k s (m ^^^ m') = extract k s m ^^^ extract k s m' := by
  apply BitVec.eq_of_getLsbD_eq
  intro i hi
  simp only [getLsbD_extract, BitVec.getLsbD_xor, hi, decide_true, Bool.true_and]

section Fits

variable {s : ℕ} (hs : s + k ≤ w)
include hs

/-- Reading back what was placed. -/
theorem extract_place (v : BitVec k) : extract k s (place w s v) = v := by
  apply BitVec.eq_of_getLsbD_eq
  intro i hi
  have hw : s + i < w := by omega
  rw [getLsbD_extract, getLsbD_place]
  simp [hi, hw]

theorem place_injective : Function.Injective (place (k := k) w s) := by
  intro v v' h
  rw [← extract_place hs v, h, extract_place hs]

/-- A masked comparison of words is the comparison of their fields. -/
theorem and_place_eq_place_iff (m : BitVec w) (c v : BitVec k) :
    m &&& place w s c = place w s v ↔ extract k s m &&& c = v := by
  rw [and_place]
  exact (place_injective hs).eq_iff

/-- Two words agree under a placed mask when their fields agree under it. -/
theorem xor_and_place_eq_zero_iff (m m' : BitVec w) (c : BitVec k) :
    (m ^^^ m') &&& place w s c = 0 ↔ extract k s m &&& c = extract k s m' &&& c := by
  have hzero : (0 : BitVec w) = place w s (0 : BitVec k) := by simp [place]
  rw [hzero, and_place_eq_place_iff hs, extract_xor]
  have distrib : (extract k s m ^^^ extract k s m') &&& c =
      (extract k s m &&& c) ^^^ (extract k s m' &&& c) := by
    ext i hi
    simp [Bool.and_xor_distrib_right]
  rw [distrib]
  exact BitVec.xor_eq_zero_iff

theorem and_mask_eq_place_iff (m : BitVec w) (v : BitVec k) :
    m &&& mask w k s = place w s v ↔ extract k s m = v := by
  rw [mask, and_place_eq_place_iff hs]
  simp

/-- A write is seen by the next read. -/
@[simp] theorem extract_write (m : BitVec w) (v : BitVec k) : extract k s (write s m v) = v := by
  apply BitVec.eq_of_getLsbD_eq
  intro i hi
  have hw : s + i < w := by omega
  rw [getLsbD_extract, write, BitVec.getLsbD_or, BitVec.getLsbD_and, BitVec.getLsbD_not,
    getLsbD_place, getLsbD_mask]
  simp [hi, hw]

end Fits

/-- A write leaves every bit outside the field alone. -/
theorem write_and_not_mask (s : ℕ) (m : BitVec w) (v : BitVec k) :
    write s m v &&& ~~~mask w k s = m &&& ~~~mask w k s := by
  apply BitVec.eq_of_getLsbD_eq
  intro i hi
  simp only [write, BitVec.getLsbD_and, BitVec.getLsbD_or, BitVec.getLsbD_not, getLsbD_place,
    getLsbD_mask, hi, decide_true, Bool.true_and]
  by_cases hsi : s ≤ i
  · by_cases hk : i - s < k
    · simp [hsi, hk]
    · have hv : v.getLsbD (i - s) = false := BitVec.getLsbD_of_ge v _ (by omega)
      simp [hsi, hk, hv]
  · simp [hsi]

end Polywan.Lib.BitField
