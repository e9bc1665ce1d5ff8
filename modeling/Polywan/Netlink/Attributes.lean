import Polywan.Lib.Fold
import Polywan.Lib.Words
import Polywan.System

/-!
# Attributes of netlink messages

The attributes of a payload are read one after another: a length and a type of 16 bits each, and
the value, up to the next multiple of four.  Reading outside the payload, or an overflow of a
size, would be a panic, `none`.  The order of the bytes of a number is the one of the machine.

## Main definitions

* `Attributes`, `Attributes.next` — the iteration and its step.
* `Attributes.collect` — what the iteration yields.
* `parseExtack` — the message of an extended acknowledgement.
* `Attribute`, `Attribute.encode` — attributes, and how the kernel writes them.

## Main results

* `Attributes.collect_eq` — the iteration ends, with at most one error, the last.
* `Attributes.collect_encode` — attributes that were written are read back.
-/

namespace Polywan

open Lib

/-! ## The iteration -/

/-- A size; an overflow is a panic. -/
def usize (n : ℕ) : Option ℕ := if n < 2 ^ 64 then some n else none

/-- The bytes from `a` to `b`; outside the payload is a panic. -/
def slice (payload : List Byte) (a b : ℕ) : Option (List Byte) :=
  if a ≤ b ∧ b ≤ payload.length then some ((payload.drop a).take (b - a)) else none

/-- The number in two bytes of the payload. -/
def u16At (e : Endian) (payload : List Byte) (off : ℕ) : Option ℕ :=
  payload[off]?.bind fun a => payload[off + 1]?.map fun b => e.ofBytes [a, b]

/-- The iteration over the attributes of a payload. -/
structure Attributes where
  off : ℕ
  malformed : Bool := false
deriving DecidableEq

namespace Attributes

/-- The type of an attribute and its value, or what is wrong with it. -/
abbrev Item : Type := Except String (ℕ × List Byte)

/-- The next attribute. -/
def next (e : Endian) (payload : List Byte) (it : Attributes) : Option (Option Item × Attributes) :=
  if it.malformed then some (none, it)
  else (usize (it.off + 4)).bind fun header =>
    if payload.length < header then some (none, it)
    else (u16At e payload it.off).bind fun len => (u16At e payload (it.off + 2)).bind fun word =>
      -- Without the nested and byte-order flags.
      let kind := word % 2 ^ 14
      let malformed : Option Item × Attributes :=
        (some (.error s!"attribute {kind} of length {len} at {it.off}"),
          { it with malformed := true })
      if len < 4 then some malformed
      else (usize (it.off + len)).bind fun stop =>
        if payload.length < stop then some malformed
        else (slice payload (it.off + 4) stop).bind fun value =>
          (usize (it.off + (len + 3) / 4 * 4)).map fun off =>
            (some (.ok (kind, value)), { it with off })

/-- A loop over the attributes that a body may leave, or that a panic of it ends. -/
def tryFold {σ ρ : Type} (e : Endian) (payload : List Byte)
    (body : σ → Item → Option (Except ρ σ)) : ℕ → Attributes → σ → Option (Except ρ σ)
  | 0, _, _ => none
  | fuel + 1, it, s => (next e payload it).bind fun
    | (none, _) => some (.ok s)
    | (some item, it') => (body s item).bind fun
      | .error r => some (.error r)
      | .ok s' => tryFold e payload body fuel it' s'

/-- All that the iteration yields. -/
def collect (e : Endian) (payload : List Byte) : ℕ → Attributes → Option (List Item)
  | 0, _ => none
  | fuel + 1, it => (next e payload it).bind fun
    | (none, _) => some []
    | (some item, it') => (collect e payload fuel it').map (item :: ·)

end Attributes

/-- The message of an extended acknowledgement, behind the header of the request; `lossy` reads
bytes as UTF-8. -/
def parseExtack (lossy : List Byte → String) (e : Endian) (payload : List Byte) :
    Option (Option String) :=
  let body : Unit → Attributes.Item → Option (Except (Option (List Byte)) Unit)
    | (), .error _ => some (.error none)
    | (), .ok (kind, s) => some (if kind = 1 then .error (some s) else .ok ())
  (Attributes.tryFold e payload body (payload.length + 2) ⟨16, false⟩ ()).map fun
    | .error found => found.map fun s => lossy (s.takeWhile (· ≠ 0))
    | .ok () => none

namespace Attributes

variable {e : Endian} {payload : List Byte} {it : Attributes}

theorem usize_eq {n : ℕ} (h : n < 2 ^ 64) : usize n = some n := if_pos h

theorem slice_eq {a b : ℕ} (hab : a ≤ b) (hb : b ≤ payload.length) :
    slice payload a b = some ((payload.drop a).take (b - a)) := if_pos ⟨hab, hb⟩

theorem u16At_eq (e : Endian) {off : ℕ} (h : off + 2 ≤ payload.length) :
    ∃ n, u16At e payload off = some n ∧ n < 2 ^ 16 := by
  rw [u16At, List.getElem?_eq_getElem (by omega), List.getElem?_eq_getElem (by omega)]
  refine ⟨_, rfl, ?_⟩
  have hlt := e.ofBytes_lt [payload[off], payload[off + 1]]
  simp only [List.length_cons, List.length_nil] at hlt
  omega

/-- The iteration ends behind the last attribute. -/
theorem next_of_lt (hoff : it.off + 4 < 2 ^ 64) (h : payload.length < it.off + 4) :
    next e payload it = some (none, it) := by
  rw [next, usize_eq hoff, Option.bind_some, if_pos h, ite_self]

/-- An attribute is read by its length and type. -/
theorem next_of_header (hpayload : payload.length < 2 ^ 63) (hmalformed : it.malformed = false)
    (h : it.off + 4 ≤ payload.length) {len word : ℕ} (hlen : u16At e payload it.off = some len)
    (hword : u16At e payload (it.off + 2) = some word) (hlt : len < 2 ^ 16) :
    next e payload it =
      if len < 4 ∨ payload.length < it.off + len then
        some (some (.error s!"attribute {word % 2 ^ 14} of length {len} at {it.off}"),
          { it with malformed := true })
      else
        some (some (.ok (word % 2 ^ 14, (payload.drop (it.off + 4)).take (len - 4))),
          { it with off := it.off + (len + 3) / 4 * 4 }) := by
  rw [next, hmalformed, if_neg Bool.false_ne_true, usize_eq (by omega), Option.bind_some,
    if_neg (by omega), hlen, Option.bind_some, hword, Option.bind_some]
  dsimp only
  rw [usize_eq (by omega), Option.bind_some]
  by_cases hshort : len < 4
  · rw [if_pos hshort, if_pos (.inl hshort)]
  · by_cases hlong : payload.length < it.off + len
    · rw [if_neg hshort, if_pos hlong, if_pos (.inr hlong)]
    · rw [if_neg hshort, if_neg hlong, if_neg (not_or.mpr ⟨hshort, hlong⟩),
        slice_eq (by omega) (by omega), Option.bind_some, usize_eq (by omega), Option.map_some,
        Nat.add_sub_add_left]

/-- What the iteration does next: it ends, it yields its error, or it yields a value within the
payload and goes on behind it. -/
theorem next_cases (hpayload : payload.length < 2 ^ 63) (hoff : it.off < 2 ^ 63 + 4) :
    next e payload it = some (none, it) ∨
    (∃ text, next e payload it = some (some (.error text), { it with malformed := true })) ∨
    ∃ kind value, it.off + 4 + value.length ≤ payload.length ∧
      next e payload it =
        some (some (.ok (kind, value)),
          { it with off := it.off + (value.length + 7) / 4 * 4 }) := by
  cases hmalformed : it.malformed with
  | true => exact .inl (if_pos hmalformed)
  | false =>
    by_cases hend : payload.length < it.off + 4
    · exact .inl (next_of_lt (by omega) hend)
    · obtain ⟨len, hlen, hlt⟩ := u16At_eq e (by omega : it.off + 2 ≤ payload.length)
      obtain ⟨word, hword, -⟩ := u16At_eq e (by omega : it.off + 2 + 2 ≤ payload.length)
      rw [next_of_header hpayload hmalformed (by omega) hlen hword hlt]
      split_ifs with hbad
      · exact .inr (.inl ⟨_, rfl⟩)
      · have hlength : ((payload.drop (it.off + 4)).take (len - 4)).length = len - 4 := by
          rw [List.length_take, List.length_drop]
          omega
        refine .inr (.inr ⟨word % 2 ^ 14, (payload.drop (it.off + 4)).take (len - 4), ?_, ?_⟩)
        · omega
        · rw [hlength, hmalformed, show len - 4 + 7 = len + 3 by omega]

/-- **The iteration ends**, without a panic, with at most one error and nothing after it. -/
theorem collect_eq (hpayload : payload.length < 2 ^ 63) (hoff : it.off < 2 ^ 63 + 4) :
    ∃ (values : List (ℕ × List Byte)) (last : Option String),
      ∀ fuel, payload.length + 2 ≤ it.off + fuel → 2 ≤ fuel →
        collect e payload fuel it = some (values.map .ok ++ (last.map .error).toList) := by
  -- Each value takes four bytes at least, and an error is followed by the end.
  induction hleft : payload.length - it.off using Nat.strong_induction_on generalizing it with
  | _ left ih =>
    rcases next_cases (e := e) hpayload hoff with hend | ⟨text, herror⟩ | ⟨kind, value, hin, hok⟩
    · refine ⟨[], none, fun fuel _ hfuel => ?_⟩
      obtain ⟨fuel, rfl⟩ := Nat.exists_eq_add_of_le' hfuel
      rw [collect, hend]
      rfl
    · refine ⟨[], some text, fun fuel _ hfuel => ?_⟩
      obtain ⟨fuel, rfl⟩ := Nat.exists_eq_add_of_le' hfuel
      rw [collect, herror, Option.bind_some]
      dsimp only
      rw [collect, next, if_pos rfl]
      rfl
    · obtain ⟨values, last, hrest⟩ :=
        @ih (payload.length - (it.off + (value.length + 7) / 4 * 4)) (by omega)
          { it with off := it.off + (value.length + 7) / 4 * 4 } (by dsimp only; omega) rfl
      refine ⟨(kind, value) :: values, last, fun fuel hfuel _ => ?_⟩
      obtain ⟨fuel, rfl⟩ : ∃ k, fuel = k + 1 := ⟨fuel - 1, by omega⟩
      rw [collect, hok, Option.bind_some]
      dsimp only
      rw [hrest fuel (by dsimp only; omega) (by omega)]
      rfl

/-- The loop over what was collected. -/
def foldItems {σ ρ : Type} (body : σ → Item → Option (Except ρ σ)) :
    List Item → σ → Option (Except ρ σ)
  | [], s => some (.ok s)
  | item :: items, s => (body s item).bind fun
    | .error r => some (.error r)
    | .ok s' => foldItems body items s'

theorem tryFold_eq {σ ρ : Type} {body : σ → Item → Option (Except ρ σ)} {fuel : ℕ}
    {items : List Item} (h : collect e payload fuel it = some items) (s : σ) :
    tryFold e payload body fuel it s = foldItems body items s := by
  induction fuel generalizing it items s with
  | zero => cases h
  | succ fuel ih =>
    rw [collect] at h
    rw [tryFold]
    obtain ⟨⟨item, it'⟩, hnext, hrest⟩ := Option.bind_eq_some_iff.mp h
    rw [hnext, Option.bind_some]
    cases item with
    | none =>
      obtain rfl := Option.some.inj hrest
      rfl
    | some item =>
      obtain ⟨items, hitems, rfl⟩ := Option.map_eq_some_iff.mp hrest
      dsimp only
      rw [foldItems]
      congr 1
      funext outcome
      cases outcome with
      | error r => rfl
      | ok s' => exact ih hitems s'

/-- A loop whose body does not panic ends. -/
theorem isSome_tryFold {σ ρ : Type} {body : σ → Item → Option (Except ρ σ)}
    (hbody : ∀ s item, (body s item).isSome = true) (hpayload : payload.length < 2 ^ 63)
    (hoff : it.off < 2 ^ 63 + 4) (s : σ) :
    (tryFold e payload body (payload.length + 2) it s).isSome = true := by
  obtain ⟨values, last, hcollect⟩ := collect_eq (e := e) hpayload hoff
  rw [tryFold_eq (hcollect _ (by omega) (by omega))]
  generalize values.map Except.ok ++ (last.map Except.error).toList = items
  induction items generalizing s with
  | nil => rfl
  | cons item items ih =>
    obtain ⟨outcome, houtcome⟩ := Option.isSome_iff_exists.mp (hbody s item)
    rw [foldItems, houtcome, Option.bind_some]
    cases outcome with
    | error r => rfl
    | ok s' => exact ih s'

end Attributes

theorem isSome_parseExtack (lossy : List Byte → String) (e : Endian) {payload : List Byte}
    (h : payload.length < 2 ^ 63) : (parseExtack lossy e payload).isSome = true := by
  rw [parseExtack, Option.isSome_map]
  refine Attributes.isSome_tryFold (fun s item => ?_) h (by dsimp only; omega) ()
  cases item <;> rfl

/-! ## Attributes as the kernel writes them -/

/-- An attribute that fits its header. -/
structure Attribute where
  kind : ℕ
  value : List Byte
  kind_lt : kind < 2 ^ 14
  value_le : value.length ≤ 65531

namespace Attribute

/-- The length, the type and the value. -/
def bytes (e : Endian) (a : Attribute) : List Byte :=
  e.toBytes 2 (a.value.length + 4) ++ e.toBytes 2 a.kind ++ a.value

/-- An attribute up to the next multiple of four. -/
def aligned (e : Endian) (a : Attribute) : List Byte :=
  a.bytes e ++ List.replicate ((a.value.length + 7) / 4 * 4 - (a.value.length + 4)) 0

def encode (e : Endian) (l : List Attribute) : List Byte := l.flatMap (aligned e)

/-- What the iteration yields for an attribute. -/
def item (a : Attribute) : Attributes.Item := .ok (a.kind, a.value)

variable {e : Endian}

@[simp] theorem length_bytes (a : Attribute) : (a.bytes e).length = a.value.length + 4 := by
  simp [bytes]
  omega

@[simp] theorem length_aligned (a : Attribute) :
    (a.aligned e).length = (a.value.length + 7) / 4 * 4 := by
  rw [aligned, List.length_append, List.length_replicate, length_bytes]
  omega

theorem length_le_encode (l : List Attribute) : l.length ≤ (encode e l).length := by
  induction l with
  | nil => rfl
  | cons a l ih =>
    rw [encode, List.flatMap_cons, List.length_append, length_aligned, List.length_cons]
    rw [encode] at ih
    omega

end Attribute

namespace Attributes

variable {e : Endian}

theorem u16At_append (head rest : List Byte) {n : ℕ} (h : n < 2 ^ 16) :
    u16At e (head ++ (e.toBytes 2 n ++ rest)) head.length = some n := by
  obtain ⟨a, b, hbytes⟩ := List.length_eq_two.mp (e.length_toBytes 2 n)
  rw [u16At, hbytes, List.getElem?_append_right le_rfl,
    List.getElem?_append_right (Nat.le_add_right _ _), Nat.sub_self, Nat.add_sub_cancel_left]
  refine congrArg some ?_
  change e.ofBytes [a, b] = n
  rw [← hbytes, e.ofBytes_toBytes h]

/-- An attribute is read where it was written. -/
theorem next_bytes (head rest : List Byte) (a : Attribute)
    (h : (head ++ (a.bytes e ++ rest)).length < 2 ^ 63) :
    next e (head ++ (a.bytes e ++ rest)) ⟨head.length, false⟩ =
      some (some a.item, ⟨head.length + (a.value.length + 7) / 4 * 4, false⟩) := by
  have hkind := a.kind_lt
  have hvalue := a.value_le
  have hlength : (head ++ (a.bytes e ++ rest)).length =
      head.length + (a.value.length + 4 + rest.length) := by simp
  have hlen : u16At e (head ++ (a.bytes e ++ rest)) head.length = some (a.value.length + 4) := by
    rw [Attribute.bytes, List.append_assoc, List.append_assoc]
    exact u16At_append head _ (by omega)
  have hword : u16At e (head ++ (a.bytes e ++ rest)) (head.length + 2) = some a.kind := by
    have hread := u16At_append (e := e) (head ++ e.toBytes 2 (a.value.length + 4))
      (a.value ++ rest) (by omega : a.kind < 2 ^ 16)
    rw [List.length_append, e.length_toBytes] at hread
    rw [← hread, Attribute.bytes]
    simp only [List.append_assoc]
  have hslice : (head ++ (a.bytes e ++ rest)).drop (head.length + 4) = a.value ++ rest := by
    have hsplit : head ++ (a.bytes e ++ rest) =
        head ++ (e.toBytes 2 (a.value.length + 4) ++ e.toBytes 2 a.kind) ++ (a.value ++ rest) := by
      simp only [Attribute.bytes, List.append_assoc]
    rw [hsplit]
    exact List.drop_left' (by simp)
  rw [next_of_header h rfl (by dsimp only; omega) hlen hword (by omega),
    if_neg (by dsimp only; omega), hslice, Nat.mod_eq_of_lt hkind, Nat.add_sub_cancel,
    List.take_left]
  rfl

/-- Attributes that were written are yielded, and then what follows them. -/
theorem collect_append (l : List Attribute) (head tail : List Byte) (fuel : ℕ)
    (h : (head ++ (Attribute.encode e l ++ tail)).length < 2 ^ 63) :
    collect e (head ++ (Attribute.encode e l ++ tail)) (l.length + fuel) ⟨head.length, false⟩ =
      (collect e (head ++ (Attribute.encode e l ++ tail)) fuel
        ⟨(head ++ Attribute.encode e l).length, false⟩).map (l.map Attribute.item ++ ·) := by
  induction l generalizing head with
  | nil => simp [Attribute.encode]
  | cons a l ih =>
    have hsplit : head ++ (Attribute.encode e (a :: l) ++ tail) =
        head ++ a.aligned e ++ (Attribute.encode e l ++ tail) := by
      simp [Attribute.encode]
    have hnext := next_bytes (e := e) head (List.replicate ((a.value.length + 7) / 4 * 4 -
      (a.value.length + 4)) 0 ++ (Attribute.encode e l ++ tail)) a
    rw [← List.append_assoc (a.bytes e), ← Attribute.aligned, ← List.append_assoc head, ← hsplit]
      at hnext
    have hrest := ih (head ++ a.aligned e) (hsplit ▸ h)
    rw [← hsplit, List.length_append, Attribute.length_aligned] at hrest
    rw [List.length_cons, Nat.add_right_comm, collect, hnext h, Option.bind_some]
    dsimp only
    rw [hrest]
    simp [Attribute.encode, Option.map_map, Function.comp_def]

/-- The iteration ends at the end of the payload. -/
theorem collect_of_lt {payload : List Byte} {off : ℕ} (hoff : off + 4 < 2 ^ 64)
    (h : payload.length < off + 4) (fuel : ℕ) :
    collect e payload (fuel + 1) ⟨off, false⟩ = some [] := by
  rw [collect, next_of_lt hoff h]
  rfl

/-- **Attributes that were written are read back**, also if the last one has no padding. -/
theorem collect_encode (l : List Attribute) (last : Option Attribute) (head : List Byte)
    (h : (head ++ (Attribute.encode e l ++ (last.map (Attribute.bytes e)).getD [])).length < 2 ^ 63)
    {fuel : ℕ} (hfuel : l.length + 2 ≤ fuel) :
    collect e (head ++ (Attribute.encode e l ++ (last.map (Attribute.bytes e)).getD [])) fuel
      ⟨head.length, false⟩ = some ((l ++ last.toList).map Attribute.item) := by
  obtain ⟨fuel, rfl⟩ := Nat.exists_eq_add_of_le hfuel
  rw [Nat.add_assoc, Nat.add_comm 2, collect_append _ _ _ _ h]
  cases last with
  | none =>
    have hlength : (head ++ (Attribute.encode e l ++ [])).length =
        (head ++ Attribute.encode e l).length := by rw [List.append_nil]
    simp only [Option.map_none, Option.getD_none] at h ⊢
    rw [collect_of_lt (by omega) (by omega)]
    simp
  | some a =>
    have hvalue := a.value_le
    have hlength : (head ++ (Attribute.encode e l ++ a.bytes e)).length =
        (head ++ Attribute.encode e l).length + (a.value.length + 4) := by
      simp [Nat.add_assoc]
    have hnext := next_bytes (e := e) (head ++ Attribute.encode e l) [] a
    rw [List.append_nil, List.append_assoc head] at hnext
    simp only [Option.map_some, Option.getD_some] at h ⊢
    rw [collect, hnext h, Option.bind_some]
    dsimp only
    rw [collect_of_lt (by omega) (by omega)]
    simp

end Attributes

end Polywan
