import Mathlib.Algebra.GroupWithZero.Nat

/-!
# Durations and instants

Durations and instants are in nanoseconds.  A duration has an unsigned 64-bit count of
seconds, an instant a signed one; an operation whose result does not fit has none.

## Main definitions

* `Duration.checkedAdd`, `Duration.checkedMul`, `Instant.checkedAdd` — the arithmetic.
* `Duration.parse`, `Duration.format` — durations of the configuration, such as `1m30s`.

## Main results

* `Duration.lt_limit_of_parse` — what is read fits.
-/

namespace Polywan

namespace Duration

/-- The nanoseconds of a second. -/
def second : ℕ := 1000000000

def ofSecs (n : ℕ) : ℕ := n * second

def ofMillis (n : ℕ) : ℕ := n * 1000000

/-- Where the seconds of a duration overflow. -/
def limit : ℕ := ofSecs (2 ^ 64)

/-- The value, if it is a duration. -/
def checked (d : ℕ) : Option ℕ := if d < limit then some d else none

def checkedAdd (a b : ℕ) : Option ℕ := checked (a + b)

def checkedMul (a n : ℕ) : Option ℕ := checked (a * n)

@[simp] theorem checked_eq_some {d d' : ℕ} : checked d = some d' ↔ d < limit ∧ d = d' := by
  simp [checked]

@[simp] theorem isSome_checked {d : ℕ} : (checked d).isSome = true ↔ d < limit := by
  simp [checked]

/-! ## Text -/

/-- White space at the ends of a text. -/
def isWhitespace (c : Char) : Bool :=
  let n := c.toNat
  (9 ≤ n && n ≤ 13) || n = 32 || n = 0x85 || n = 0xa0 || n = 0x1680 || (0x2000 ≤ n && n ≤ 0x200a)
    || n = 0x2028 || n = 0x2029 || n = 0x202f || n = 0x205f || n = 0x3000

def trim (text : List Char) : List Char :=
  ((text.dropWhile isWhitespace).reverse.dropWhile isWhitespace).reverse

/-- A decimal number below `bound`. -/
def parseDigits (bound : ℕ) (digits : List Char) : Option ℕ :=
  let value := digits.foldl (fun n c => 10 * n + (c.toNat - '0'.toNat)) 0
  if digits.isEmpty || !digits.all Char.isDigit || bound ≤ value then none else some value

/-- The duration of a component. -/
def component (value : ℕ) (unit : List Char) : Option ℕ :=
  if unit = ['m', 's'] then some (ofMillis value)
  else if unit = ['s'] then some (ofSecs value)
  else if unit = ['m'] then if value * 60 < 2 ^ 64 then some (ofSecs (value * 60)) else none
  else if unit = ['h'] then if value * 3600 < 2 ^ 64 then some (ofSecs (value * 3600)) else none
  else none

/-- The components of a text, added to those before. -/
def components (total : ℕ) (rest : List Char) : Option ℕ :=
  if h : rest = [] then some total
  else
    let digits := rest.takeWhile Char.isDigit
    let unit := (rest.dropWhile Char.isDigit).takeWhile fun c => !c.isDigit
    let rest' := (rest.dropWhile Char.isDigit).dropWhile fun c => !c.isDigit
    -- A number without a unit is no component.
    if hunit : digits = [] ∨ rest.dropWhile Char.isDigit = [] then none
    else do
      let value ← parseDigits (2 ^ 64) digits
      let part ← component value unit
      let total ← checkedAdd total part
      components total rest'
termination_by rest.length
decreasing_by
  rw [not_or] at hunit
  have hdigits : (rest.dropWhile Char.isDigit).length < rest.length := by
    have hsplit := congrArg List.length (rest.takeWhile_append_dropWhile (p := Char.isDigit))
    have hpos : 0 < (rest.takeWhile Char.isDigit).length := List.length_pos_iff.mpr hunit.1
    rw [List.length_append] at hsplit
    omega
  exact Nat.lt_of_le_of_lt (List.dropWhile_suffix _).length_le hdigits

/-- Reads one or more components made of an unsigned integer and a unit. -/
def parse (text : String) : Option ℕ :=
  let rest := trim text.toList
  if rest = [] then none else components 0 rest

/-- A duration the way the configuration writes it. -/
def format (d : ℕ) : String :=
  let ms := d / 1000000
  if ms % 1000 ≠ 0 then s!"{ms}ms" else s!"{ms / 1000}s"

example : parse "1m30s" = some (ofSecs 90) := by decide +kernel

theorem lt_limit_of_components {total d : ℕ} {rest : List Char} (htotal : total < limit)
    (h : components total rest = some d) : d < limit := by
  induction total, rest using components.induct with
  | case1 total =>
    rw [components, dif_pos rfl] at h
    obtain rfl := Option.some.inj h
    exact htotal
  | case2 total rest hrest digits hunit =>
    rw [components, dif_neg hrest, dif_pos hunit] at h
    cases h
  | case3 total rest hrest digits rest' hunit ih =>
    rw [components, dif_neg hrest, dif_neg hunit] at h
    simp only [Option.bind_eq_bind, Option.bind_eq_some_iff] at h
    obtain ⟨value, -, part, -, total', hadd, h⟩ := h
    obtain ⟨hlt, rfl⟩ := checked_eq_some.mp hadd
    exact ih _ hlt h

/-- What is read fits. -/
theorem lt_limit_of_parse {text : String} {d : ℕ} (h : parse text = some d) : d < limit := by
  simp only [parse] at h
  split at h
  · cases h
  · exact lt_limit_of_components (by decide) h

end Duration

namespace Instant

/-- Where the seconds of an instant overflow. -/
def limit : ℕ := Duration.ofSecs (2 ^ 63)

def checkedAdd (now d : ℕ) : Option ℕ := if now + d < limit then some (now + d) else none

@[simp] theorem isSome_checkedAdd {now d : ℕ} :
    (checkedAdd now d).isSome = true ↔ now + d < limit := by
  simp [checkedAdd]

end Instant

end Polywan
