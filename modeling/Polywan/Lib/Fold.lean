import Mathlib.Data.List.Nodup
import Mathlib.Order.Basic
import Mathlib.Order.Compare
import Std.Data.ExtTreeMap

/-!
# Loops that accumulate

Left folds whose every step adds something known to the accumulator: a
disjunct to a predicate, or an entry to a map keyed by the entry itself.
-/

namespace Polywan.Lib

variable {α β σ κ : Type*}

/-- If each step makes `P` hold exactly when it held already or `Q` holds of the
element, then so does the loop for some element. -/
theorem foldl_iff_or {step : σ → α → σ} {P : σ → Prop} {Q : α → Prop}
    (hstep : ∀ s a, P (step s a) ↔ P s ∨ Q a) (l : List α) (s : σ) :
    P (l.foldl step s) ↔ P s ∨ ∃ a ∈ l, Q a := by
  induction l generalizing s with
  | nil => simp
  | cons a l ih =>
    rw [List.foldl_cons, ih, hstep, or_assoc]
    simp

/-- **A loop that fills distinct slots may take its elements in any order.** -/
theorem foldl_perm_of_slots {step : σ → α → σ} {slot : α → κ}
    (hcomm : ∀ s a b, slot a ≠ slot b → step (step s a) b = step (step s b) a)
    {l l' : List α} (hperm : l.Perm l') (hslots : (l'.map slot).Nodup) (s : σ) :
    l.foldl step s = l'.foldl step s := by
  apply hperm.foldl_eq'
  intro a ha b hb s
  by_cases h : slot a = slot b
  · have hab : a = b :=
      List.inj_on_of_nodup_map hslots (hperm.mem_iff.mp ha) (hperm.mem_iff.mp hb) h
    rw [hab]
  · exact hcomm s a b h

section Keyed

variable [LinearOrder κ]

/-- Insert every element under its own key. -/
def insertAll (key : β → κ) (m : Std.ExtTreeMap κ β) (l : List β) : Std.ExtTreeMap κ β :=
  l.foldl (fun m b => m.insert (key b) b) m

/-- **Elements with distinct keys are all found.** -/
theorem getElem?_insertAll {key : β → κ} {l : List β}
    (hinj : ∀ a ∈ l, ∀ b ∈ l, key a = key b → a = b) (m : Std.ExtTreeMap κ β) (k : κ) (b : β) :
    (insertAll key m l)[k]? = some b ↔
      (b ∈ l ∧ key b = k) ∨ (m[k]? = some b ∧ ∀ a ∈ l, key a ≠ k) := by
  induction l generalizing m with
  | nil => simp [insertAll]
  | cons a l ih =>
    have hinj' : ∀ c ∈ l, ∀ d ∈ l, key c = key d → c = d := fun c hc d hd =>
      hinj c (List.mem_cons_of_mem a hc) d (List.mem_cons_of_mem a hd)
    have key_a : ∀ c ∈ l, key c = key a → c = a := fun c hc =>
      hinj c (List.mem_cons_of_mem a hc) a List.mem_cons_self
    rw [insertAll, List.foldl_cons]
    refine (ih hinj' _).trans ?_
    simp only [Std.ExtTreeMap.getElem?_insert, Std.LawfulEqCmp.compare_eq_iff_eq,
      List.mem_cons, forall_eq_or_imp]
    by_cases hak : key a = k
    · subst hak
      simp only [if_true, Option.some.injEq]
      constructor
      · rintro (⟨hb, hk⟩ | ⟨rfl, -⟩)
        · exact .inl ⟨.inr hb, hk⟩
        · exact .inl ⟨.inl rfl, rfl⟩
      · rintro (⟨rfl | hb, hk⟩ | ⟨-, hne, -⟩)
        · by_cases hbl : b ∈ l
          · exact .inl ⟨hbl, rfl⟩
          · exact .inr ⟨rfl, fun c hc hcb => hbl (key_a c hc hcb ▸ hc)⟩
        · exact .inl ⟨hb, hk⟩
        · exact absurd rfl hne
    · simp only [hak, if_false, ne_eq, not_false_eq_true, true_and]
      constructor
      · rintro (⟨hb, hk⟩ | h)
        · exact .inl ⟨.inr hb, hk⟩
        · exact .inr h
      · rintro (⟨rfl | hb, hk⟩ | h)
        · exact absurd hk hak
        · exact .inl ⟨hb, hk⟩
        · exact .inr h

/-- **A list of entries with distinct keys is found in the map it makes.** -/
theorem getElem?_ofList {l : List (κ × β)} (hinj : ∀ a ∈ l, ∀ b ∈ l, a.1 = b.1 → a = b) {k : κ}
    {b : β} : (Std.ExtTreeMap.ofList l compare)[k]? = some b ↔ (k, b) ∈ l := by
  rw [Std.ExtTreeMap.ofList_eq_insertMany_empty, Std.ExtTreeMap.getElem?_insertMany_list,
    Std.ExtTreeMap.getElem?_empty, Option.or_none, List.findSomeRev?_eq_findSome?_reverse]
  have hfound : ∀ {b'}, l.reverse.findSome? (fun (a, b) =>
      if compare a k = .eq then some b else none) = some b' → (k, b') ∈ l := by
    intro b' h
    obtain ⟨⟨a, b⟩, hmem, hab⟩ := List.exists_of_findSome?_eq_some h
    obtain ⟨heq, hb⟩ := Option.ite_none_right_eq_some.mp hab
    rw [← Std.LawfulEqCmp.compare_eq_iff_eq.mp heq, ← Option.some.inj hb]
    exact List.mem_reverse.mp hmem
  refine ⟨hfound, fun hmem => ?_⟩
  cases h : l.reverse.findSome? (fun (a, b) => if compare a k = .eq then some b else none) with
  | none =>
    have := List.findSome?_eq_none_iff.mp h (k, b) (List.mem_reverse.mpr hmem)
    simp at this
  | some b' => exact congrArg (some ∘ Prod.snd) (hinj _ (hfound h) _ hmem rfl)

/-- A loop that sets a value under each key of a list. -/
theorem getElem?_foldl_insert (g : κ → β) (l : List κ) (m : Std.ExtTreeMap κ β) (k : κ) :
    (l.foldl (fun m a => m.insert a (g a)) m)[k]? = if k ∈ l then some (g k) else m[k]? := by
  induction l generalizing m with
  | nil => simp
  | cons a l ih =>
    rw [List.foldl_cons, ih, Std.ExtTreeMap.getElem?_insert]
    simp only [Std.LawfulEqCmp.compare_eq_iff_eq, List.mem_cons]
    by_cases hl : k ∈ l
    · simp [hl]
    · by_cases ha : a = k
      · simp [ha]
      · simp [hl, ha, Ne.symm ha]

/-- Maps that agree on the entries. -/
theorem map_congr {m : Std.ExtTreeMap κ α} {f g : κ → α → β}
    (h : ∀ k a, m[k]? = some a → f k a = g k a) : m.map f = m.map g := by
  apply Std.ExtTreeMap.ext_getElem?
  intro k
  rw [Std.ExtTreeMap.getElem?_map, Std.ExtTreeMap.getElem?_map]
  cases ha : m[k]? with
  | none => rfl
  | some a => rw [Option.map_some, Option.map_some, h k a ha]

/-- The values that satisfy a test, when the maps agree on every key of one. -/
theorem filter_values_congr {m m' : Std.ExtTreeMap κ β} {P : κ → Prop} {Q : β → Bool}
    (hQ : ∀ k b, m[k]? = some b → Q b = true → P k)
    (hQ' : ∀ k b, m'[k]? = some b → Q b = true → P k)
    (h : ∀ k, P k → m'[k]? = m[k]?) :
    (m'.toList.map Prod.snd).filter Q = (m.toList.map Prod.snd).filter Q := by
  have hmaps : m'.filter (fun _ b => Q b) = m.filter (fun _ b => Q b) := by
    apply Std.ExtTreeMap.ext_getElem?
    intro k
    rw [Std.ExtTreeMap.getElem?_filter', Std.ExtTreeMap.getElem?_filter']
    by_cases hk : P k
    · rw [h k hk]
    · -- Neither map holds a value of the kind there.
      rw [Option.filter_eq_none_iff.mpr fun b hb hb' => hk (hQ k b hb hb'),
        Option.filter_eq_none_iff.mpr fun b hb hb' => hk (hQ' k b hb hb')]
  have hlist : ∀ m : Std.ExtTreeMap κ β, (m.toList.map Prod.snd).filter Q =
      (m.filter fun _ b => Q b).toList.map Prod.snd := by
    intro m
    rw [Std.ExtTreeMap.toList_filter, List.filter_map]
    rfl
  rw [hlist, hlist, hmaps]

theorem insertAll_append (key : β → κ) (m : Std.ExtTreeMap κ β) (l l' : List β) :
    insertAll key m (l ++ l') = insertAll key (insertAll key m l) l' :=
  List.foldl_append

end Keyed

end Polywan.Lib
