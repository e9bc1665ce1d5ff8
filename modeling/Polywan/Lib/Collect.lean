import Mathlib.Control.Basic
import Mathlib.Data.List.Induction

/-!
# Computations that collect problems

A computation that goes on after an error, collecting what it finds, and that may also stop
at an operation that has no result.  Problems are never all forgotten, so that a run that
ends without any had none on the way.  Two kinds of judgements describe it.  `Clean` is for
the users of a result: a run without problems has one that can be relied on.  `Returns` and
`DefinedIff` are about stopping, whatever was collected before.

## Main definitions

* `Collect` — such computations.
* `Collect.Clean` — what a run without problems guarantees.
* `Collect.Returns` — the computation always has a result, of which something is known.
* `Collect.DefinedIff` — the computation has a result exactly on a condition.

## Main results

* `Collect.Clean.bind`, `Collect.Clean.foldlM` — sequences and loops.
* `Collect.Returns.bind`, `Collect.DefinedIff.foldlM` — the same for results.
-/

namespace Polywan.Lib

/-- A computation with a list of problems; it may stop without a result, and never leaves
an empty list of problems where there were some. -/
@[ext] structure Collect (δ α : Type) where
  run : List δ → Option (α × List δ)
  keeps : ∀ ds a, run ds = some (a, []) → ds = []

namespace Collect

variable {δ α β γ : Type}

instance : Monad (Collect δ) where
  pure a := ⟨fun ds => some (a, ds), by simp⟩
  bind m f := ⟨fun ds => (m.run ds).bind fun p => (f p.1).run p.2, by
    intro ds b hrun
    obtain ⟨⟨a, ds'⟩, hfirst, hrest⟩ := Option.bind_eq_some_iff.mp hrun
    obtain rfl : ds' = [] := (f a).keeps ds' b hrest
    exact m.keeps ds a hfirst⟩

/-- Adds a problem. -/
def report (d : δ) : Collect δ Unit := ⟨fun ds => some ((), ds ++ [d]), by simp⟩

/-- The value of an operation that may have none. -/
def ofOption (o : Option α) : Collect δ α := ⟨fun ds => o.map fun a => (a, ds), by simp⟩

/-- The number of problems so far. -/
def count : Collect δ ℕ := ⟨fun ds => some (ds.length, ds), by simp⟩

/-- Rearranges the problems. -/
def tidy (f : List δ → List δ) (hf : ∀ ds, f ds = [] → ds = []) : Collect δ Unit :=
  ⟨fun ds => some ((), f ds), by simpa using hf⟩

@[simp] theorem run_pure (a : α) (ds : List δ) :
    (pure a : Collect δ α).run ds = some (a, ds) := rfl

@[simp] theorem run_bind (m : Collect δ α) (f : α → Collect δ β) (ds : List δ) :
    (m >>= f).run ds = (m.run ds).bind fun p => (f p.1).run p.2 := rfl

instance : LawfulMonad (Collect δ) := LawfulMonad.mk' _
  (fun m => by
    refine Collect.ext (funext fun ds => ?_)
    change ((m.run ds).bind fun p => some (id p.1, p.2)) = m.run ds
    cases m.run ds <;> rfl)
  (fun a f => rfl)
  (fun m f g => by
    refine Collect.ext (funext fun ds => ?_)
    simp only [run_bind, Option.bind_assoc])

/-! ## Runs without problems -/

/-- A run that ends without problems has a result as stated. -/
def Clean (m : Collect δ α) (P : α → Prop) : Prop := ∀ ds a, m.run ds = some (a, []) → P a

namespace Clean

variable {m : Collect δ α} {f : α → Collect δ β} {P P' : α → Prop} {Q : β → Prop}

theorem pure {a : α} (h : P a) : Clean (Pure.pure a : Collect δ α) P := by
  intro ds a' hrun
  cases hrun
  exact h

theorem bind (hm : Clean m P) (hf : ∀ a, P a → Clean (f a) Q) : Clean (m >>= f) Q := by
  intro ds b hrun
  obtain ⟨⟨a, ds'⟩, hfirst, hrest⟩ := Option.bind_eq_some_iff.mp hrun
  obtain rfl : ds' = [] := (f a).keeps ds' b hrest
  exact hf a (hm ds a hfirst) [] b hrest

theorem mono (hm : Clean m P) (h : ∀ a, P a → P' a) : Clean m P' :=
  fun ds a hrun => h a (hm ds a hrun)

theorem trivial (m : Collect δ α) : Clean m fun _ => True := fun _ _ _ => True.intro

theorem report (d : δ) : Clean (Collect.report d) fun _ => False := by
  intro ds a hrun
  simp [Collect.report] at hrun

theorem ofOption (o : Option α) : Clean (δ := δ) (Collect.ofOption o) fun a => o = some a := by
  intro ds a hrun
  obtain ⟨a', ho, hpair⟩ := Option.map_eq_some_iff.mp hrun
  cases hpair
  exact ho

theorem ite {c : Prop} [Decidable c] {m' : Collect δ α} (hm : c → Clean m P)
    (hm' : ¬ c → Clean m' P) : Clean (if c then m else m') P := by
  by_cases hc : c
  · rw [if_pos hc]
    exact hm hc
  · rw [if_neg hc]
    exact hm' hc

/-- A problem that is reported on a condition: without problems, the condition fails. -/
theorem reportIf (c : Prop) [Decidable c] (d : δ) :
    Clean (if c then Collect.report d else Pure.pure ()) fun _ => ¬ c :=
  ite (fun _ => (report d).mono fun _ h => h.elim) fun hc => pure hc

/-- A loop keeps an invariant of the elements it has passed. -/
theorem foldlM {f : β → α → Collect δ β} {l : List α} {init : β} (inv : List α → β → Prop)
    (hinit : inv [] init)
    (hstep : ∀ before x b, inv before b → x ∈ l → Clean (f b x) (inv (before ++ [x]))) :
    Clean (l.foldlM f init) (inv l) := by
  suffices h : ∀ rest before b, before ++ rest = l → inv before b →
      Clean (rest.foldlM f b) (inv l) from h l [] init rfl hinit
  intro rest
  induction rest with
  | nil =>
    intro before b hl hb
    rw [List.append_nil] at hl
    exact pure (hl ▸ hb)
  | cons x rest ih =>
    intro before b hl hb
    rw [List.foldlM_cons]
    have hx : x ∈ l := hl ▸ List.mem_append_right before List.mem_cons_self
    refine (hstep before x b hb hx).bind fun b' hb' => ih (before ++ [x]) b' ?_ hb'
    rw [List.append_assoc]
    exact hl

theorem forM {f : α → Collect δ Unit} {P : α → Prop} {l : List α}
    (h : ∀ x ∈ l, Clean (f x) fun _ => P x) : Clean (l.forM f) fun _ => ∀ x ∈ l, P x := by
  induction l with
  | nil => exact pure (by simp)
  | cons x l ih =>
    refine (h x List.mem_cons_self).bind fun _ hx => ?_
    refine (ih fun y hy => h y (List.mem_cons_of_mem x hy)).mono fun _ hl => ?_
    exact List.forall_mem_cons.mpr ⟨hx, hl⟩

end Clean

/-! ## Results -/

/-- Whatever the problems so far, the computation has a result, and it is as stated. -/
def Returns (m : Collect δ α) (P : α → Prop) : Prop :=
  ∀ ds, ∃ a ds', m.run ds = some (a, ds') ∧ P a

namespace Returns

variable {m : Collect δ α} {f : α → Collect δ β} {P P' : α → Prop} {Q : β → Prop}

theorem pure {a : α} (h : P a) : Returns (Pure.pure a : Collect δ α) P :=
  fun ds => ⟨a, ds, rfl, h⟩

theorem bind (hm : Returns m P) (hf : ∀ a, P a → Returns (f a) Q) : Returns (m >>= f) Q := by
  intro ds
  obtain ⟨a, ds', hfirst, ha⟩ := hm ds
  obtain ⟨b, ds'', hrest, hb⟩ := hf a ha ds'
  exact ⟨b, ds'', by rw [run_bind, hfirst, Option.bind_some, hrest], hb⟩

theorem report (d : δ) : Returns (Collect.report d) fun _ => True :=
  fun ds => ⟨(), ds ++ [d], rfl, True.intro⟩

theorem count : Returns (Collect.count : Collect δ ℕ) fun _ => True :=
  fun ds => ⟨ds.length, ds, rfl, True.intro⟩

theorem tidy {g : List δ → List δ} (hg : ∀ ds, g ds = [] → ds = []) :
    Returns (Collect.tidy g hg) fun _ => True := fun ds => ⟨(), g ds, rfl, True.intro⟩

theorem ite {c : Prop} [Decidable c] {m' : Collect δ α} (hm : c → Returns m P)
    (hm' : ¬ c → Returns m' P) : Returns (if c then m else m') P := by
  by_cases hc : c
  · rw [if_pos hc]
    exact hm hc
  · rw [if_neg hc]
    exact hm' hc

theorem reportIf (c : Prop) [Decidable c] (d : δ) :
    Returns (if c then Collect.report d else Pure.pure ()) fun _ => True :=
  ite (fun _ => report d) fun _ => pure True.intro

/-- A loop keeps an invariant of the elements it has passed. -/
theorem foldlM {f : β → α → Collect δ β} {l : List α} {init : β} (inv : List α → β → Prop)
    (hinit : inv [] init)
    (hstep : ∀ before x b, inv before b → x ∈ l → Returns (f b x) (inv (before ++ [x]))) :
    Returns (l.foldlM f init) (inv l) := by
  suffices h : ∀ rest before b, before ++ rest = l → inv before b →
      Returns (rest.foldlM f b) (inv l) from h l [] init rfl hinit
  intro rest
  induction rest with
  | nil =>
    intro before b hl hb
    rw [List.append_nil] at hl
    exact pure (hl ▸ hb)
  | cons x rest ih =>
    intro before b hl hb
    rw [List.foldlM_cons]
    have hx : x ∈ l := hl ▸ List.mem_append_right before List.mem_cons_self
    refine (hstep before x b hb hx).bind fun b' hb' => ih (before ++ [x]) b' ?_ hb'
    rw [List.append_assoc]
    exact hl

/-- A loop whose every step returns. -/
theorem foldlM_of_step {f : β → α → Collect δ β} {l : List α} {init : β}
    (hstep : ∀ b, ∀ x ∈ l, Returns (f b x) fun _ => True) :
    Returns (l.foldlM f init) fun _ => True :=
  foldlM (fun _ _ => True) True.intro fun _ x b _ hx => hstep b x hx

theorem forM {f : α → Collect δ Unit} {l : List α}
    (h : ∀ x ∈ l, Returns (f x) fun _ => True) : Returns (l.forM f) fun _ => True := by
  induction l with
  | nil => exact pure True.intro
  | cons x l ih =>
    exact (h x List.mem_cons_self).bind fun _ _ => ih fun y hy => h y (List.mem_cons_of_mem x hy)

end Returns

/-- Whatever the problems so far, the computation has a result exactly on a condition. -/
def DefinedIff (m : Collect δ α) (c : Prop) : Prop := ∀ ds, (m.run ds).isSome = true ↔ c

namespace DefinedIff

variable {m : Collect δ α} {f : α → Collect δ β} {P : α → Prop} {c c' : Prop}

theorem of_returns (hm : Returns m P) : DefinedIff m True := by
  intro ds
  obtain ⟨a, ds', hrun, -⟩ := hm ds
  simp [hrun]

theorem pure (a : α) : DefinedIff (Pure.pure a : Collect δ α) True := fun _ => by simp

theorem ofOption (o : Option α) :
    DefinedIff (δ := δ) (Collect.ofOption o) (o.isSome = true) := by
  intro ds
  rw [Collect.ofOption, Option.isSome_map]

/-- What comes after a part that always returns decides. -/
theorem after (hm : Returns m P) (hf : ∀ a, P a → DefinedIff (f a) c) :
    DefinedIff (m >>= f) c := by
  intro ds
  obtain ⟨a, ds', hrun, ha⟩ := hm ds
  rw [run_bind, hrun, Option.bind_some]
  exact hf a ha ds'

theorem bind (hm : DefinedIff m c) (hf : ∀ a, DefinedIff (f a) c') :
    DefinedIff (m >>= f) (c ∧ c') := by
  intro ds
  rw [run_bind, ← hm ds]
  cases hrun : m.run ds with
  | none => simp
  | some p => simpa using hf p.1 p.2

/-- A part decides if all that comes after it always returns. -/
theorem before {Q : β → Prop} (hm : DefinedIff m c) (hf : ∀ a, Returns (f a) Q) :
    DefinedIff (m >>= f) c := by
  have h := hm.bind fun a => of_returns (hf a)
  rwa [and_true] at h

theorem congr (hm : DefinedIff m c) (h : c ↔ c') : DefinedIff m c' := fun ds => (hm ds).trans h

/-- A loop has a result if every one of its steps has. -/
theorem foldlM {f : β → α → Collect δ β} {l : List α} {init : β} {c : α → Prop}
    (hstep : ∀ b, ∀ x ∈ l, DefinedIff (f b x) (c x)) :
    DefinedIff (l.foldlM f init) (∀ x ∈ l, c x) := by
  induction l generalizing init with
  | nil =>
    exact (pure init).congr (by simp)
  | cons x l ih =>
    rw [List.foldlM_cons]
    have hrest : ∀ b, DefinedIff (l.foldlM f b) (∀ y ∈ l, c y) :=
      fun b => ih fun b y hy => hstep b y (List.mem_cons_of_mem x hy)
    exact ((hstep init x List.mem_cons_self).bind hrest).congr (List.forall_mem_cons.symm)

end DefinedIff

end Collect

end Polywan.Lib
