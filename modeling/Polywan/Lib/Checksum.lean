import Mathlib.Data.Nat.Notation
import Mathlib.Tactic

/-!
# The one's complement checksum

The checksum of a list of bytes: the sum of its big-endian 16-bit words with the carries
added back, complemented.  A list that contains its own checksum has the checksum zero,
and a change of one bit is noticed.

## Main definitions

* `wordSum data` — the sum of the words.
* `foldCarries n` — the carries added back.
* `checksum data` — the checksum.

## Main results

* `checksum_eq_zero_iff` — the checksum is zero exactly when the sum is a positive multiple
  of 65535.
* `checksum_eq_zero_of_wordSum` — data that contains its own checksum has the checksum zero.
* `checksum_flip_ne_zero` — no list and a copy with one bit flipped both have it.
-/

namespace Polywan.Lib

/-- A byte. -/
abbrev Byte : Type := BitVec 8

/-- The sum of the big-endian words of a list, the last byte padded with zero. -/
def wordSum : List Byte → ℕ
  | [] => 0
  | [a] => 256 * a.toNat
  | a :: b :: rest => 256 * a.toNat + b.toNat + wordSum rest

/-- Adds the carries beyond 16 bits back until there are none. -/
def foldCarries (n : ℕ) : ℕ :=
  if n / 65536 = 0 then n else foldCarries (n % 65536 + n / 65536)
termination_by n
decreasing_by omega

/-- The checksum of some bytes; the sum is a 32-bit one. -/
def checksum (data : List Byte) : BitVec 16 :=
  ~~~BitVec.ofNat 16 (foldCarries (wordSum data % 2 ^ 32))

/-! ## Folding -/

theorem foldCarries_lt (n : ℕ) : foldCarries n < 65536 := by
  induction n using foldCarries.induct with
  | case1 n h =>
    rw [foldCarries, if_pos h]
    omega
  | case2 n h ih =>
    rw [foldCarries, if_neg h]
    exact ih

theorem foldCarries_mod (n : ℕ) : foldCarries n % 65535 = n % 65535 := by
  induction n using foldCarries.induct with
  | case1 n h => rw [foldCarries, if_pos h]
  | case2 n h ih =>
    rw [foldCarries, if_neg h, ih]
    omega

theorem foldCarries_eq_zero_iff {n : ℕ} : foldCarries n = 0 ↔ n = 0 := by
  induction n using foldCarries.induct with
  | case1 n h => rw [foldCarries, if_pos h]
  | case2 n h ih =>
    rw [foldCarries, if_neg h, ih]
    omega

/-- Nothing is left to add exactly for the positive multiples of 65535. -/
theorem foldCarries_eq_iff {n : ℕ} : foldCarries n = 65535 ↔ n ≠ 0 ∧ n % 65535 = 0 := by
  have hlt := foldCarries_lt n
  have hmod := foldCarries_mod n
  have hzero := foldCarries_eq_zero_iff (n := n)
  constructor
  · intro h
    rw [h] at hzero hmod
    exact ⟨fun h0 => by simp [h0] at hzero, by omega⟩
  · rintro ⟨hne, h⟩
    have : foldCarries n ≠ 0 := fun h0 => hne (hzero.mp h0)
    omega

/-! ## Checksums -/

variable {data : List Byte}

theorem wordSum_le (data : List Byte) : wordSum data ≤ 65535 * data.length := by
  induction data using wordSum.induct with
  | case1 => simp [wordSum]
  | case2 a =>
    have := a.isLt
    simp only [wordSum, List.length_singleton]
    omega
  | case3 a b rest ih =>
    have := a.isLt
    have := b.isLt
    simp only [wordSum, List.length_cons]
    omega

/-- The sum of up to 2048 bytes fits in 32 bits. -/
theorem wordSum_mod (h : data.length ≤ 2048) : wordSum data % 2 ^ 32 = wordSum data := by
  have := wordSum_le data
  exact Nat.mod_eq_of_lt (by omega)

theorem toNat_checksum (data : List Byte) :
    (checksum data).toNat = 65535 - foldCarries (wordSum data % 2 ^ 32) := by
  have hlt := foldCarries_lt (wordSum data % 2 ^ 32)
  rw [checksum, BitVec.toNat_not, BitVec.toNat_ofNat, Nat.mod_eq_of_lt (by omega)]

/-- **The checksum is zero exactly when the sum is a positive multiple of 65535.** -/
theorem checksum_eq_zero_iff :
    checksum data = 0 ↔ wordSum data % 2 ^ 32 ≠ 0 ∧ wordSum data % 2 ^ 32 % 65535 = 0 := by
  rw [← foldCarries_eq_iff, ← BitVec.toNat_inj, toNat_checksum]
  have hlt := foldCarries_lt (wordSum data % 2 ^ 32)
  constructor
  · intro h
    have : 65535 - foldCarries (wordSum data % 2 ^ 32) = 0 := h
    omega
  · intro h
    rw [h]
    rfl

/-- **Data that contains its own checksum has the checksum zero.** -/
theorem checksum_eq_zero_of_wordSum {data' : List Byte} (hlength : data.length ≤ 2048)
    (hlength' : data'.length ≤ 2048) (h : wordSum data' = wordSum data + (checksum data).toNat) :
    checksum data' = 0 := by
  have hlt := foldCarries_lt (wordSum data)
  have hmod := foldCarries_mod (wordSum data)
  have hzero := foldCarries_eq_zero_iff (n := wordSum data)
  rw [toNat_checksum, wordSum_mod hlength] at h
  rw [checksum_eq_zero_iff, wordSum_mod hlength', h]
  constructor
  · intro hsum
    have hfold := hzero.mpr (by omega)
    omega
  · omega

/-- What a byte counts in the sum. -/
def weight (i : ℕ) : ℕ := if i % 2 = 0 then 256 else 1

theorem wordSum_set {i : ℕ} (hi : i < data.length) (x : Byte) :
    wordSum (data.set i x) + weight i * data[i].toNat = wordSum data + weight i * x.toNat := by
  induction data using wordSum.induct generalizing i with
  | case1 => exact absurd hi (Nat.not_lt_zero i)
  | case2 a =>
    obtain rfl : i = 0 := by simpa using hi
    simp only [List.set_cons_zero, wordSum, weight, List.getElem_cons_zero, Nat.zero_mod, if_true]
    omega
  | case3 a b rest ih =>
    match i with
    | 0 =>
      simp only [List.set_cons_zero, wordSum, weight, List.getElem_cons_zero, Nat.zero_mod,
        if_true]
      omega
    | 1 =>
      have hweight : weight 1 = 1 := rfl
      simp only [List.set_cons_succ, List.set_cons_zero, wordSum, hweight,
        List.getElem_cons_succ, List.getElem_cons_zero]
      omega
    | i + 2 =>
      have hrest : i < rest.length := by simpa using hi
      have hih := ih hrest
      have hweight : weight (i + 2) = weight i := by simp [weight]
      simp only [List.set_cons_succ, wordSum, List.getElem_cons_succ, hweight]
      omega

/-- The byte with one bit flipped. -/
def flipBit (b : Byte) (k : ℕ) : Byte := b ^^^ 1#8 <<< k

theorem toNat_flipBit (b : Byte) (k : Fin 8) :
    (flipBit b k).toNat = b.toNat + 2 ^ k.val ∨ (flipBit b k).toNat + 2 ^ k.val = b.toNat := by
  revert b k
  decide +kernel

/-- Flipping a high bit keeps the low half of a byte. -/
theorem flipBit_and_low (b : Byte) (k : Fin 8) (h : 4 ≤ k.val) :
    flipBit b k &&& 0x0f = b &&& 0x0f := by
  revert b k
  decide +kernel

/-- **A list with one bit flipped does not keep the checksum zero.** -/
theorem checksum_flip_ne_zero (hlength : data.length ≤ 2048) (h : checksum data = 0) {i : ℕ}
    (hi : i < data.length) (k : Fin 8) :
    checksum (data.set i (flipBit data[i] k)) ≠ 0 := by
  intro hflip
  rw [checksum_eq_zero_iff, wordSum_mod hlength] at h
  rw [checksum_eq_zero_iff, wordSum_mod (by rwa [List.length_set])] at hflip
  have hset := wordSum_set hi (flipBit data[i] k)
  -- The sums differ by a power of two below 65535.
  have hpow : ∃ j < 16, weight i * 2 ^ k.val = 2 ^ j := by
    have hk := k.isLt
    by_cases hw : i % 2 = 0
    · exact ⟨8 + k.val, by omega, by rw [weight, if_pos hw, pow_add]; rfl⟩
    · exact ⟨k.val, by omega, by rw [weight, if_neg hw, one_mul]⟩
  obtain ⟨j, hj, hpow⟩ := hpow
  have hsmall : 0 < 2 ^ j ∧ 2 ^ j ≤ 2 ^ 15 :=
    ⟨Nat.two_pow_pos j, Nat.pow_le_pow_right (by omega) (by omega)⟩
  rcases toNat_flipBit data[i] k with hbit | hbit
  · rw [hbit, mul_add, hpow] at hset
    omega
  · rw [← hbit, mul_add, hpow] at hset
    omega

end Polywan.Lib
