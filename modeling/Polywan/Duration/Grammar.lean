import Mathlib.Algebra.BigOperators.Group.List.Basic
import Mathlib.Data.List.TakeWhile
import Polywan.Duration

/-!
# The grammar of durations

The durations of the configuration as a grammar with values, beside the loop that reads
them.  A unit is what stands between two numbers, so that `m` and `ms` cannot be confused.

## Main definitions

* `Duration.Scale`, `Duration.Part` — a unit, and a number with one.
* `Duration.Reads` — the texts of the grammar, with their values.

## Main results

* `Duration.parse_eq_some_iff` — the loop reads exactly the texts of the grammar.
* `Duration.parse_format` — what is written is read back, in whole milliseconds.
* `Duration.grammar` — both.
-/

namespace Polywan.Duration

/-- A unit. -/
inductive Scale where
  | ms
  | s
  | m
  | h
deriving DecidableEq

namespace Scale

def text : Scale → List Char
  | ms => ['m', 's']
  | s => ['s']
  | m => ['m']
  | h => ['h']

/-- The nanoseconds of a unit. -/
def nanos : Scale → ℕ
  | ms => ofMillis 1
  | s => ofSecs 1
  | m => ofSecs 60
  | h => ofSecs 3600

theorem text_ne_nil (u : Scale) : u.text ≠ [] := by cases u <;> simp [text]

theorem isDigit_of_mem_text {u : Scale} {c : Char} (h : c ∈ u.text) : c.isDigit = false := by
  have hall : u.text.all (fun c => !c.isDigit) = true := by cases u <;> rfl
  simpa using List.all_eq_true.mp hall c h

end Scale

/-- A number with a unit. -/
structure Part where
  digits : List Char
  scale : Scale
deriving DecidableEq

namespace Part

variable (p : Part)

def text : List Char := p.digits ++ p.scale.text

def value : ℕ := Nat.ofDigitChars 10 p.digits 0

def nanos : ℕ := p.value * p.scale.nanos

/-- A non-empty run of digits below `2 ^ 64`, with fewer than `2 ^ 64` whole seconds. -/
structure Valid (p : Part) : Prop where
  digits_ne_nil : p.digits ≠ []
  isDigit : ∀ c ∈ p.digits, c.isDigit = true
  value_lt : p.value < 2 ^ 64
  nanos_lt : p.nanos < limit

end Part

/-- The text is a sequence of parts whose total is `d`, and everything fits. -/
structure Reads (rest : List Char) (d : ℕ) (parts : List Part) : Prop where
  text : rest = parts.flatMap Part.text
  valid : ∀ p ∈ parts, p.Valid
  total : d = (parts.map Part.nanos).sum
  total_lt : d < limit

/-! ## One part -/

theorem parseDigits_eq_some_iff {bound n : ℕ} {digits : List Char} :
    parseDigits bound digits = some n ↔
      digits ≠ [] ∧ (∀ c ∈ digits, c.isDigit = true) ∧ n < bound ∧
        n = Nat.ofDigitChars 10 digits 0 := by
  simp only [parseDigits, ← Nat.ofDigitChars_eq_foldl]
  split
  · next h =>
      simp only [Bool.or_eq_true, List.isEmpty_iff, Bool.not_eq_true', decide_eq_true_eq,
        List.all_eq_false] at h
      refine iff_of_false (by simp) ?_
      rintro ⟨hne, hdigits, hlt, rfl⟩
      obtain (hnil | ⟨c, hc, hnot⟩) | hle := h
      · exact hne hnil
      · exact hnot (hdigits c hc)
      · exact absurd hlt hle.not_gt
  · next h =>
      simp only [Bool.or_eq_true, List.isEmpty_iff, Bool.not_eq_true', decide_eq_true_eq,
        not_or, Bool.not_eq_false, List.all_eq_true, not_le] at h
      rw [Option.some.injEq]
      constructor
      · rintro rfl
        exact ⟨h.1.1, h.1.2, h.2, rfl⟩
      · rintro ⟨-, -, -, rfl⟩
        rfl

theorem ofSecs_lt_limit_iff {n : ℕ} : ofSecs n < limit ↔ n < 2 ^ 64 := by
  simp only [limit, ofSecs, second]
  omega

/-- A number with a unit is read unless it does not fit. -/
theorem component_text {value : ℕ} (hvalue : value < 2 ^ 64) (u : Scale) :
    component value u.text = checked (value * u.nanos) := by
  cases u with
  | ms =>
    have hnanos : value * Scale.ms.nanos = ofMillis value := by simp [Scale.nanos, ofMillis]
    have hlt : ofMillis value < limit := by
      simp only [ofMillis, limit, ofSecs, second]
      omega
    rw [hnanos, checked, if_pos hlt, component, Scale.text, if_pos rfl]
  | s =>
    have hnanos : value * Scale.s.nanos = ofSecs value := by simp [Scale.nanos, ofSecs]
    rw [hnanos, checked, if_pos (ofSecs_lt_limit_iff.mpr hvalue)]
    simp [component, Scale.text]
  | m =>
    have hnanos : value * Scale.m.nanos = ofSecs (value * 60) := by
      simp only [Scale.nanos, ofSecs, Nat.mul_assoc]
    simp [hnanos, checked, ofSecs_lt_limit_iff, component, Scale.text]
  | h =>
    have hnanos : value * Scale.h.nanos = ofSecs (value * 3600) := by
      simp only [Scale.nanos, ofSecs, Nat.mul_assoc]
    simp [hnanos, checked, ofSecs_lt_limit_iff, component, Scale.text]

/-- The units that are read, and what they are worth. -/
theorem component_eq_some_iff {value part : ℕ} {unit : List Char} (hvalue : value < 2 ^ 64) :
    component value unit = some part ↔
      ∃ u : Scale, u.text = unit ∧ part = value * u.nanos ∧ part < limit := by
  constructor
  · intro h
    have hunit : ∃ u : Scale, u.text = unit := by
      by_contra hnone
      push Not at hnone
      have hms := hnone .ms
      have hs := hnone .s
      have hm := hnone .m
      have hh := hnone .h
      simp only [Scale.text] at hms hs hm hh
      rw [component, if_neg hms.symm, if_neg hs.symm, if_neg hm.symm, if_neg hh.symm] at h
      cases h
    obtain ⟨u, rfl⟩ := hunit
    rw [component_text hvalue] at h
    obtain ⟨hlt, rfl⟩ := checked_eq_some.mp h
    exact ⟨u, rfl, rfl, hlt⟩
  · rintro ⟨u, rfl, rfl, hlt⟩
    rw [component_text hvalue]
    exact checked_eq_some.mpr ⟨hlt, rfl⟩

/-! ## The loop -/

theorem takeWhile_append_text {p : Part} (hp : p.Valid) (rest : List Char) :
    (p.text ++ rest).takeWhile Char.isDigit = p.digits ∧
      (p.text ++ rest).dropWhile Char.isDigit = p.scale.text ++ rest := by
  have hhead : ∀ l, (p.scale.text ++ l).takeWhile Char.isDigit = [] ∧
      (p.scale.text ++ l).dropWhile Char.isDigit = p.scale.text ++ l := by
    intro l
    cases p.scale <;> exact ⟨rfl, rfl⟩
  rw [Part.text, List.append_assoc, List.takeWhile_append_of_pos hp.isDigit,
    List.dropWhile_append_of_pos hp.isDigit, (hhead rest).1, (hhead rest).2, List.append_nil]
  exact ⟨rfl, rfl⟩

/-- What follows a unit starts with a digit, if there is anything. -/
theorem takeWhile_scale (u : Scale) {parts : List Part} (hparts : ∀ p ∈ parts, p.Valid) :
    (u.text ++ parts.flatMap Part.text).takeWhile (fun c => !c.isDigit) = u.text ∧
      (u.text ++ parts.flatMap Part.text).dropWhile (fun c => !c.isDigit) =
        parts.flatMap Part.text := by
  have hunit : ∀ c ∈ u.text, (!c.isDigit) = true := fun c hc => by
    rw [Scale.isDigit_of_mem_text hc]
    rfl
  have hhead : (parts.flatMap Part.text).takeWhile (fun c => !c.isDigit) = [] ∧
      (parts.flatMap Part.text).dropWhile (fun c => !c.isDigit) = parts.flatMap Part.text := by
    cases parts with
    | nil => exact ⟨rfl, rfl⟩
    | cons p parts =>
      have hp := hparts p List.mem_cons_self
      cases hdigits : p.digits with
      | nil => exact absurd hdigits hp.digits_ne_nil
      | cons c digits =>
        have hc : c.isDigit = true := hp.isDigit c (by simp [hdigits])
        simp [Part.text, hdigits, hc]
  rw [List.takeWhile_append_of_pos hunit, List.dropWhile_append_of_pos hunit, hhead.1, hhead.2,
    List.append_nil]
  exact ⟨rfl, rfl⟩

/-- One turn of the loop on a text that starts with a part. -/
theorem components_append {total : ℕ} {p : Part} {parts : List Part}
    (hparts : ∀ q ∈ p :: parts, q.Valid) :
    components total ((p :: parts).flatMap Part.text) =
      (checkedAdd total p.nanos).bind fun total => components total (parts.flatMap Part.text) := by
  have hp := hparts p List.mem_cons_self
  have hrest := fun q hq => hparts q (List.mem_cons_of_mem p hq)
  have hdigits := takeWhile_append_text hp (parts.flatMap Part.text)
  have hscale := takeWhile_scale p.scale hrest
  have hvalue : parseDigits (2 ^ 64) p.digits = some p.value :=
    parseDigits_eq_some_iff.mpr ⟨hp.digits_ne_nil, hp.isDigit, hp.value_lt, rfl⟩
  have hpart : component p.value p.scale.text = some p.nanos :=
    (component_eq_some_iff hp.value_lt).mpr ⟨p.scale, rfl, rfl, hp.nanos_lt⟩
  have hne : p.text ++ parts.flatMap Part.text ≠ [] := by
    simp [Part.text, hp.digits_ne_nil]
  have hunit : ¬ (p.digits = [] ∨ p.scale.text ++ parts.flatMap Part.text = []) := by
    simp [hp.digits_ne_nil, p.scale.text_ne_nil]
  rw [List.flatMap_cons, components, dif_neg hne]
  simp only [hdigits.1, hdigits.2, hscale.1, hscale.2, dif_neg hunit, hvalue, hpart,
    Option.bind_eq_bind, Option.bind_some]

/-- The loop on a sequence of parts that fit. -/
theorem components_of_parts {total : ℕ} {parts : List Part} (hparts : ∀ p ∈ parts, p.Valid)
    (hlt : total + (parts.map Part.nanos).sum < limit) :
    components total (parts.flatMap Part.text) = some (total + (parts.map Part.nanos).sum) := by
  induction parts generalizing total with
  | nil =>
    rw [List.flatMap_nil, components, dif_pos rfl]
    simp
  | cons p parts ih =>
    rw [List.map_cons, List.sum_cons, ← Nat.add_assoc] at hlt ⊢
    have hadd : checkedAdd total p.nanos = some (total + p.nanos) :=
      checked_eq_some.mpr ⟨by omega, rfl⟩
    rw [components_append hparts, hadd, Option.bind_some]
    exact ih (fun q hq => hparts q (List.mem_cons_of_mem p hq)) hlt

/-- What the loop reads is a sequence of parts that fit. -/
theorem parts_of_components {total d : ℕ} {rest : List Char}
    (h : components total rest = some d) :
    ∃ parts : List Part, rest = parts.flatMap Part.text ∧ (∀ p ∈ parts, p.Valid) ∧
      d = total + (parts.map Part.nanos).sum := by
  induction total, rest using components.induct with
  | case1 total =>
    rw [components, dif_pos rfl] at h
    exact ⟨[], rfl, by simp, by simpa using (Option.some.inj h).symm⟩
  | case2 total rest hrest digits hunit =>
    rw [components, dif_neg hrest, dif_pos hunit] at h
    cases h
  | case3 total rest hrest digits rest' hunit ih =>
    rw [components, dif_neg hrest, dif_neg hunit] at h
    simp only [Option.bind_eq_bind, Option.bind_eq_some_iff] at h
    obtain ⟨value, hvalue, part, hpart, total', hadd, h⟩ := h
    obtain ⟨hne, hdigits, hlt, rfl⟩ := parseDigits_eq_some_iff.mp hvalue
    obtain ⟨u, hu, rfl, hfits⟩ := (component_eq_some_iff hlt).mp hpart
    obtain ⟨-, rfl⟩ := checked_eq_some.mp hadd
    obtain ⟨parts, hparts, hvalid, rfl⟩ := ih _ h
    refine ⟨⟨digits, u⟩ :: parts, ?_, ?_, ?_⟩
    · rw [List.flatMap_cons, ← hparts, Part.text, hu, List.append_assoc,
        List.takeWhile_append_dropWhile, List.takeWhile_append_dropWhile]
    · rintro p (_ | ⟨_, hp⟩)
      · exact ⟨hne, hdigits, hlt, hfits⟩
      · exact hvalid p hp
    · rw [List.map_cons, List.sum_cons, Nat.add_assoc]
      rfl

/-- **The loop reads exactly the texts of the grammar**, and gives their value. -/
theorem parse_eq_some_iff {text : String} {d : ℕ} :
    parse text = some d ↔ ∃ parts, parts ≠ [] ∧ Reads (trim text.toList) d parts := by
  simp only [parse]
  constructor
  · intro h
    split at h
    · cases h
    · next hne =>
        obtain ⟨parts, htext, hvalid, hd⟩ := parts_of_components h
        rw [Nat.zero_add] at hd
        refine ⟨parts, ?_, htext, hvalid, hd, lt_limit_of_components (by decide) h⟩
        rintro rfl
        exact hne htext
  · rintro ⟨parts, hne, htext, hvalid, rfl, hlt⟩
    have hnonempty : parts.flatMap Part.text ≠ [] := by
      cases parts with
      | nil => exact absurd rfl hne
      | cons p parts =>
        have hp := hvalid p List.mem_cons_self
        simp [Part.text, hp.digits_ne_nil]
    rw [htext, if_neg hnonempty, components_of_parts hvalid (by omega), Nat.zero_add]

/-! ## Writing -/

/-- A written number with a unit. -/
def Part.ofNat (n : ℕ) (u : Scale) : Part := ⟨Nat.toDigits 10 n, u⟩

theorem Part.value_ofNat (n : ℕ) (u : Scale) : (ofNat n u).value = n :=
  Nat.ofDigitChars_ten_toDigits

theorem Part.valid_ofNat {n : ℕ} {u : Scale} (hn : n < 2 ^ 64) (hlt : n * u.nanos < limit) :
    (ofNat n u).Valid where
  digits_ne_nil := Nat.toDigits_ne_nil
  isDigit _ hc := Nat.isDigit_of_mem_toDigits (by omega) (by omega) hc
  value_lt := by rwa [value_ofNat]
  nanos_lt := by rwa [nanos, value_ofNat]

theorem isWhitespace_of_isDigit {c : Char} (h : c.isDigit = true) : isWhitespace c = false := by
  have hrange : 48 ≤ c.toNat ∧ c.toNat ≤ 57 := by
    simpa [Char.isDigit, UInt32.le_iff_toNat_le] using h
  simp only [isWhitespace, Bool.or_eq_false_iff, Bool.and_eq_false_iff, decide_eq_false_iff_not]
  omega

/-- Neither end of a part is white space. -/
theorem trim_part {p : Part} (hp : p.Valid) : trim p.text = p.text := by
  have hfirst : p.text.dropWhile isWhitespace = p.text := by
    cases hdigits : p.digits with
    | nil => exact absurd hdigits hp.digits_ne_nil
    | cons c digits =>
      have hc : isWhitespace c = false :=
        isWhitespace_of_isDigit (hp.isDigit c (by simp [hdigits]))
      rw [Part.text, hdigits, List.cons_append, List.dropWhile_cons_of_neg (by simp [hc])]
  have hlast : p.text.reverse.dropWhile isWhitespace = p.text.reverse := by
    rw [Part.text, List.reverse_append]
    cases p.scale <;> rfl
  rw [trim, hfirst, hlast, List.reverse_reverse]

theorem parse_ofNat {text : String} {n : ℕ} {u : Scale} (hn : n < 2 ^ 64)
    (hlt : n * u.nanos < limit) (htext : text.toList = (Part.ofNat n u).text) :
    parse text = some (n * u.nanos) := by
  have hvalid := Part.valid_ofNat hn hlt
  refine parse_eq_some_iff.mpr ⟨[Part.ofNat n u], by simp, ?_, ?_, ?_, hlt⟩
  · rw [htext, trim_part hvalid]
    simp
  · simpa using hvalid
  · simp only [List.map_cons, List.map_nil, List.sum_singleton, Part.nanos, Part.value_ofNat]
    rfl

/-- **What is written is read back**, in whole milliseconds. -/
theorem parse_format {d : ℕ} (h : d < ofMillis (2 ^ 64)) :
    parse (format d) = some (d / 1000000 * 1000000) := by
  rw [ofMillis] at h
  simp only [format]
  split
  · refine parse_ofNat (n := d / 1000000) (u := .ms) (by omega) ?_ ?_
    · simp only [Scale.nanos, ofMillis, limit, ofSecs, second]
      omega
    · have hunit : (toString "ms").toList = ['m', 's'] := rfl
      simp [Part.ofNat, Part.text, Scale.text, hunit]
  · next hwhole =>
      have hsecs : d / 1000000 * 1000000 = d / 1000000 / 1000 * Scale.s.nanos := by
        simp only [Scale.nanos, ofSecs, second]
        omega
      rw [hsecs]
      refine parse_ofNat (by omega) ?_ ?_
      · simp only [Scale.nanos, limit, ofSecs, second]
        omega
      · have hunit : (toString "s").toList = ['s'] := rfl
        simp [Part.ofNat, Part.text, Scale.text, hunit]

/-- **The grammar of durations.**  A text is read exactly when it is, without white space
around it, a non-empty sequence of numbers with units that fit, and its value is their sum;
and a duration that is written is read back in whole milliseconds. -/
theorem grammar :
    (∀ (text : String) (d : ℕ), parse text = some d ↔
      ∃ parts, parts ≠ [] ∧ Reads (trim text.toList) d parts) ∧
    ∀ d < ofMillis (2 ^ 64), parse (format d) = some (d / 1000000 * 1000000) :=
  ⟨fun _ _ => parse_eq_some_iff, fun _ h => parse_format h⟩

end Polywan.Duration
