import Mathlib.Data.List.Sort
import Mathlib.Order.Compare
import Std.Data.ExtTreeMap
import Std.Data.ExtTreeSet

/-!
# Restrictions

What a part of a list, a set or a map becomes: sorting, collecting and looking up commute
with the restriction to a part.
-/

namespace Polywan.Lib

variable {α β κ : Type*}

/-! ## Sorted lists -/

section Sorted

variable {r : α → α → Prop} [DecidableRel r] [IsTrans α r] {p : α → Bool}

theorem filter_orderedInsert {a : α} {l : List α} (hl : l.Pairwise r) :
    (l.orderedInsert r a).filter p =
      if p a then (l.filter p).orderedInsert r a else l.filter p := by
  induction l with
  | nil => by_cases ha : p a <;> simp [ha]
  | cons b l ih =>
    obtain ⟨hb, hl⟩ := List.pairwise_cons.mp hl
    by_cases hab : r a b
    · -- The new element stays the first: it is before all that are kept.
      have hfirst : ((b :: l).filter p).orderedInsert r a = a :: (b :: l).filter p := by
        cases hkept : (b :: l).filter p with
        | nil => rfl
        | cons x kept =>
          have hx : x ∈ b :: l := List.mem_of_mem_filter (hkept ▸ List.mem_cons_self)
          have hax : r a x := by
            rcases List.mem_cons.mp hx with rfl | hx
            · exact hab
            · exact IsTrans.trans a b x hab (hb x hx)
          rw [List.orderedInsert_cons, if_pos hax]
      rw [List.orderedInsert_cons, if_pos hab, hfirst, List.filter_cons]
    · rw [List.orderedInsert_cons, if_neg hab, List.filter_cons, ih hl]
      by_cases hp : p b
      · by_cases ha : p a <;> simp [hp, ha, hab]
      · by_cases ha : p a <;> simp [hp, ha]

/-- **A stable sort of a part** is the part of the sort. -/
theorem filter_insertionSort [Std.Total r] (l : List α) :
    (l.insertionSort r).filter p = (l.filter p).insertionSort r := by
  induction l with
  | nil => rfl
  | cons a l ih =>
    rw [List.insertionSort_cons, filter_orderedInsert (List.pairwise_insertionSort r l), ih]
    by_cases ha : p a <;> simp [ha]

end Sorted

/-! ## Sets and maps -/

section Keyed

variable [LinearOrder κ]

/-- The part of a set that is collected from a list. -/
theorem filter_toList_insertMany (p : κ → Bool) (l : List κ) :
    ((∅ : Std.ExtTreeSet κ).insertMany l).toList.filter p =
      ((∅ : Std.ExtTreeSet κ).insertMany (l.filter p)).toList := by
  rw [← Std.ExtTreeSet.toList_filter]
  congr 1
  ext k
  simp only [Std.ExtTreeSet.mem_filter, Std.ExtTreeSet.mem_insertMany_list]
  simp

theorem values_filter {m : Std.ExtTreeMap κ β} {p : β → Bool} :
    (m.filter fun _ b => p b).toList.map Prod.snd = (m.toList.map Prod.snd).filter p := by
  rw [Std.ExtTreeMap.toList_filter, List.filter_map]
  rfl

/-- The values of a kind are those of the part of the map that holds the kind. -/
theorem filter_values_filter {m : Std.ExtTreeMap κ β} {p q : β → Bool}
    (h : ∀ b, q b = true → p b = true) :
    ((m.filter fun _ b => p b).toList.map Prod.snd).filter q =
      (m.toList.map Prod.snd).filter q := by
  rw [values_filter, List.filter_filter]
  refine List.filter_congr fun b _ => ?_
  by_cases hq : q b <;> simp [hq, h]

theorem find?_values_filter {m : Std.ExtTreeMap κ β} {p q : β → Bool}
    (h : ∀ b, q b = true → p b = true) :
    ((m.filter fun _ b => p b).toList.map Prod.snd).find? q = (m.toList.map Prod.snd).find? q := by
  rw [← List.head?_filter, filter_values_filter h, List.head?_filter]

theorem any_values_filter {m : Std.ExtTreeMap κ β} {p q : β → Bool}
    (h : ∀ b, q b = true → p b = true) :
    ((m.filter fun _ b => p b).toList.map Prod.snd).any q = (m.toList.map Prod.snd).any q := by
  rw [← List.isSome_find?, find?_values_filter h, List.isSome_find?]

/-- A key is found among the entries of its part. -/
theorem getElem?_ofList_filter {l : List (κ × β)} {p : κ → Bool} {k : κ} (hk : p k = true) :
    (Std.ExtTreeMap.ofList (l.filter fun e => p e.1) compare)[k]? =
      (Std.ExtTreeMap.ofList l compare)[k]? := by
  simp only [Std.ExtTreeMap.ofList_eq_insertMany_empty, Std.ExtTreeMap.getElem?_insertMany_list,
    List.findSomeRev?_eq_findSome?_reverse, Std.LawfulEqCmp.compare_eq_iff_eq]
  congr 1
  rw [← List.filter_reverse]
  generalize l.reverse = l'
  induction l' with
  | nil => rfl
  | cons e l' ih =>
    by_cases he : e.1 = k
    · simp [he, hk]
    · by_cases hp : p e.1 <;> simp [hp, he, ih]

end Keyed

end Polywan.Lib
