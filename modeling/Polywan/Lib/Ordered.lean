import Mathlib.Data.String.Basic

/-!
# Texts in the order of numbers

Texts of one length, each greater than the text of the number before it.  Numbers written in a
fixed count of digits are such texts, and so is a number in mixed radix, the texts of its
digits one after another.

## Main definitions

* `Ordered` — the texts of the numbers below a bound are of one length and increase.
* `digits` — a number in a fixed count of decimal digits.

## Main results

* `Ordered.append` — the texts of quotient and remainder, one after the other.
* `Ordered.digits` — fixed digits are ordered.
* `Ordered.lt_iff` — texts are compared as the numbers are.
-/

namespace Polywan.Lib

theorem append_lt_append {a b : List Char} (hlt : a < b) (hlength : a.length = b.length)
    (r s : List Char) : a ++ r < b ++ s := by
  induction a generalizing b with
  | nil =>
    rw [List.length_nil, eq_comm, List.length_eq_zero_iff] at hlength
    subst hlength
    exact absurd hlt (List.lt_irrefl _)
  | cons c a ih =>
    cases b with
    | nil => simp at hlength
    | cons c' b =>
      rw [List.cons_append, List.cons_append, List.cons_lt_cons_iff]
      rcases List.cons_lt_cons_iff.mp hlt with hhead | ⟨rfl, htail⟩
      · exact .inl hhead
      · exact .inr ⟨rfl, ih htail (Nat.succ.inj hlength)⟩

/-- The texts of the numbers below a bound have one length and increase. -/
structure Ordered (bound length : ℕ) (text : ℕ → List Char) : Prop where
  length_eq : ∀ n < bound, (text n).length = length
  increasing : ∀ n m, n < m → m < bound → text n < text m

namespace Ordered

variable {N k a b : ℕ} {A B : ℕ → List Char}

/-- Texts are compared as their numbers are. -/
theorem lt_iff (h : Ordered N a A) {n m : ℕ} (hn : n < N) (hm : m < N) : A n < A m ↔ n < m := by
  constructor
  · intro hlt
    by_contra hle
    rcases Nat.lt_or_eq_of_le (Nat.le_of_not_lt hle) with hgt | rfl
    · exact List.lt_asymm hlt (h.increasing m n hgt hn)
    · exact List.lt_irrefl _ hlt
  · intro hlt
    exact h.increasing n m hlt hm

theorem mono (h : Ordered N a A) {M : ℕ} (hle : M ≤ N) : Ordered M a A where
  length_eq n hn := h.length_eq n (hn.trans_le hle)
  increasing n m hlt hm := h.increasing n m hlt (hm.trans_le hle)

/-- **Quotient and remainder, one after the other.** -/
theorem append (hA : Ordered N a A) (hB : Ordered k b B) (hk : 0 < k) :
    Ordered (N * k) (a + b) fun n => A (n / k) ++ B (n % k) where
  length_eq n hn := by
    rw [List.length_append, hA.length_eq _ (Nat.div_lt_of_lt_mul (Nat.mul_comm N k ▸ hn)),
      hB.length_eq _ (Nat.mod_lt n hk)]
  increasing n m hlt hm := by
    have hquot : m / k < N := Nat.div_lt_of_lt_mul (Nat.mul_comm N k ▸ hm)
    rcases Nat.lt_or_eq_of_le (Nat.div_le_div_right hlt.le) with hdiv | hdiv
    · refine append_lt_append (hA.increasing _ _ hdiv hquot) ?_ _ _
      rw [hA.length_eq _ (hdiv.trans hquot), hA.length_eq _ hquot]
    · -- One quotient, so the remainders are in order.
      have hrem : n % k < m % k := by
        have hn' := Nat.div_add_mod n k
        have hm' := Nat.div_add_mod m k
        rw [hdiv] at hn'
        omega
      rw [hdiv]
      exact List.append_left_lt (hB.increasing _ _ hrem (Nat.mod_lt m hk))

theorem append_left (h : Ordered N a A) (s : List Char) :
    Ordered N (s.length + a) fun n => s ++ A n where
  length_eq n hn := by rw [List.length_append, h.length_eq n hn]
  increasing n m hlt hm := List.append_left_lt (h.increasing n m hlt hm)

theorem append_right (h : Ordered N a A) (s : List Char) :
    Ordered N (a + s.length) fun n => A n ++ s where
  length_eq n hn := by rw [List.length_append, h.length_eq n hn]
  increasing n m hlt hm := by
    refine append_lt_append (h.increasing n m hlt hm) ?_ s s
    rw [h.length_eq n (hlt.trans hm), h.length_eq m hm]

end Ordered

/-! ## Decimal digits -/

/-- A number in `width` decimal digits. -/
def digits : ℕ → ℕ → List Char
  | 0, _ => []
  | width + 1, n => digits width (n / 10) ++ [Nat.digitChar (n % 10)]

@[simp] theorem length_digits (width n : ℕ) : (digits width n).length = width := by
  induction width generalizing n with
  | zero => rfl
  | succ width ih => rw [digits, List.length_append, ih, List.length_singleton]

theorem digits_zero (width : ℕ) : digits width 0 = List.replicate width '0' := by
  induction width with
  | zero => rfl
  | succ width ih =>
    rw [digits, Nat.zero_div, ih, List.replicate_succ']
    rfl

/-- Digits with zeros before them. -/
theorem leftpad_toDigits {width n : ℕ} (hwidth : 0 < width) (h : n < 10 ^ width) :
    List.leftpad width '0' (Nat.toDigits 10 n) = digits width n := by
  induction width generalizing n with
  | zero => exact absurd hwidth (lt_irrefl 0)
  | succ width ih =>
    rw [Nat.toDigits_eq_if (by omega), digits]
    split_ifs with hlt
    · rw [Nat.div_eq_of_lt hlt, Nat.mod_eq_of_lt hlt, digits_zero, List.leftpad]
      rfl
    · have hpos : 0 < width := by
        by_contra hzero
        obtain rfl : width = 0 := by omega
        omega
      rw [← ih hpos (by rw [Nat.pow_succ] at h; omega), List.leftpad, List.leftpad,
        List.length_append, List.length_singleton, Nat.succ_sub_succ, List.append_assoc]

theorem Ordered.digits (width : ℕ) : Ordered (10 ^ width) width (Lib.digits width) := by
  have hdigit : Ordered 10 1 fun n => [Nat.digitChar n] :=
    { length_eq := fun _ _ => rfl
      increasing := fun n m hlt hm => (by decide : ∀ m < 10, ∀ n < m,
        [Nat.digitChar n] < [Nat.digitChar m]) m hm n hlt }
  induction width with
  | zero =>
    exact
      { length_eq := fun _ _ => rfl
        increasing := fun n m hlt hm => by omega }
  | succ width ih => exact ih.append hdigit (by omega)

end Polywan.Lib
