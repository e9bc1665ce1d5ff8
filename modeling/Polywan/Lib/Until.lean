import Mathlib.Data.List.Basic
import Mathlib.Data.List.Induction

/-!
# Runs

Runs of a machine are left folds of its step.  What every step preserves holds after a
run; what is pending and can only be ended by certain steps is pending after a run, unless
one of its steps ended it.

## Main definitions

* `Along step P s l` — every step of the run over `l` meets a condition.
* `EndedBy step ends s l` — a step of the run over `l` ends what is pending.
* `HeldSince begins holds l` — something has held since it began in the history `l`.
* `Since step starts holds s l` — what a step of the run over `l` starts has held since.

## Main results

* `Along.invariant` — what every step preserves.
* `foldl_replay` — replaying a run of overwriting steps changes nothing.
-/

namespace Polywan.Lib

variable {σ ε : Type*}

/-- Every step of the run over `l` meets a condition on the state before it. -/
def Along (step : σ → ε → σ) (P : σ → ε → Prop) : σ → List ε → Prop
  | _, [] => True
  | s, e :: l => P s e ∧ Along step P (step s e) l

instance decidableAlong (step : σ → ε → σ) (P : σ → ε → Prop) [∀ s e, Decidable (P s e)] (s : σ)
    (l : List ε) : Decidable (Along step P s l) :=
  match l with
  | [] => .isTrue trivial
  | e :: l => @instDecidableAnd _ _ _ (decidableAlong step P (step s e) l)

theorem along_append {step : σ → ε → σ} {P : σ → ε → Prop} {s : σ} {l l' : List ε} :
    Along step P s (l ++ l') ↔ Along step P s l ∧ Along step P (l.foldl step s) l' := by
  induction l generalizing s with
  | nil => simp [Along]
  | cons e l ih => simp [Along, ih, and_assoc]

theorem along_and {step : σ → ε → σ} {P Q : σ → ε → Prop} {s : σ} {l : List ε} :
    Along step (fun s e => P s e ∧ Q s e) s l ↔ Along step P s l ∧ Along step Q s l := by
  induction l generalizing s with
  | nil => simp [Along]
  | cons e l ih => simp only [Along, ih, and_and_and_comm]

/-- **What a step preserves holds after the run.** -/
theorem Along.invariant {step : σ → ε → σ} {P : σ → ε → Prop} {inv : σ → Prop}
    (hstep : ∀ s e, inv s → P s e → inv (step s e)) {s : σ} {l : List ε} (h : Along step P s l)
    (hs : inv s) : inv (l.foldl step s) := by
  induction l generalizing s with
  | nil => exact hs
  | cons e l ih => exact ih h.2 (hstep s e hs h.1)

/-- What a step preserves exactly under a condition holds of every state of a run exactly
when every step meets it. -/
theorem forall_prefix_iff_along {step : σ → ε → σ} {P : σ → ε → Prop} {inv : σ → Prop}
    (hstep : ∀ s e, inv s → (inv (step s e) ↔ P s e)) {s : σ} {l : List ε} (hs : inv s) :
    (∀ before after, l = before ++ after → inv (before.foldl step s)) ↔ Along step P s l := by
  induction l generalizing s with
  | nil =>
    refine ⟨fun _ => trivial, fun _ before after h => ?_⟩
    obtain ⟨rfl, -⟩ := List.append_eq_nil_iff.mp h.symm
    exact hs
  | cons e l ih =>
    constructor
    · intro h
      have hnext : inv (step s e) := h [e] l rfl
      refine ⟨(hstep s e hs).mp hnext, (ih hnext).mp fun before after hl => ?_⟩
      exact h (e :: before) after (by rw [hl, List.cons_append])
    · rintro ⟨he, hrest⟩ before after hl
      cases before with
      | nil => exact hs
      | cons e' before =>
        obtain ⟨rfl, rfl⟩ := List.cons.inj hl
        exact (ih ((hstep s e hs).mpr he)).mpr hrest before after rfl

/-- A step of the run over `l` ends what is pending. -/
def EndedBy (step : σ → ε → σ) (ends : σ → ε → Prop) (s : σ) (l : List ε) : Prop :=
  ∃ before e after, l = before ++ e :: after ∧ ends (before.foldl step s) e

theorem EndedBy.cons {step : σ → ε → σ} {ends : σ → ε → Prop} {s : σ} {e : ε} {l : List ε}
    (h : EndedBy step ends (step s e) l) : EndedBy step ends s (e :: l) := by
  obtain ⟨before, e', after, rfl, hends⟩ := h
  exact ⟨e :: before, e', after, rfl, hends⟩

/-- **What no step drops is pending until it is ended.** -/
theorem pending_or_endedBy {step : σ → ε → σ} {pending : σ → Prop} {ends : σ → ε → Prop}
    {allowed : ε → Prop}
    (hstep : ∀ s e, allowed e → pending s → pending (step s e) ∨ ends s e)
    {l : List ε} (hl : ∀ e ∈ l, allowed e) {s : σ} (h : pending s) :
    pending (l.foldl step s) ∨ EndedBy step ends s l := by
  induction l generalizing s with
  | nil => exact .inl h
  | cons e l ih =>
    obtain ⟨he, hl⟩ := List.forall_mem_cons.mp hl
    rcases hstep s e he h with h | hends
    · exact (ih hl h).imp_right EndedBy.cons
    · exact .inr ⟨[], e, l, rfl, hends⟩

/-- Something has held since it began with an element of `l`; both depend on what came
before. -/
def HeldSince (begins : List ε → ε → Prop) (holds : List ε → Prop) (l : List ε) : Prop :=
  ∃ before e after, l = before ++ e :: after ∧ begins before e ∧
    ∀ a b, after = a ++ b → holds (before ++ e :: a)

section HeldSince

variable {begins : List ε → ε → Prop} {holds : List ε → Prop} {l : List ε} {e : ε}

theorem HeldSince.start (hbegins : begins l e) (hholds : holds (l ++ [e])) :
    HeldSince begins holds (l ++ [e]) := by
  refine ⟨l, e, [], rfl, hbegins, fun a b hab => ?_⟩
  obtain ⟨rfl, -⟩ := List.append_eq_nil_iff.mp hab.symm
  exact hholds

theorem HeldSince.extend (h : HeldSince begins holds l) (hholds : holds (l ++ [e])) :
    HeldSince begins holds (l ++ [e]) := by
  obtain ⟨before, e', after, rfl, hbegins, hsince⟩ := h
  refine ⟨before, e', after ++ [e], by simp, hbegins, fun a b hab => ?_⟩
  rcases List.eq_nil_or_concat b with rfl | ⟨b, x, rfl⟩
  · rw [List.append_nil] at hab
    rw [← hab]
    simpa using hholds
  · rw [List.concat_eq_append, ← List.append_assoc] at hab
    exact hsince a b (List.append_inj' hab rfl).1

end HeldSince

/-- What a step of the run over `l` starts has held since. -/
def Since (step : σ → ε → σ) (starts : σ → ε → Prop) (holds : σ → Prop) (s : σ) (l : List ε) :
    Prop :=
  ∃ before e after, l = before ++ e :: after ∧ starts (before.foldl step s) e ∧
    ∀ a b, after = a ++ b → holds ((before ++ e :: a).foldl step s)

section Since

variable {step : σ → ε → σ} {starts : σ → ε → Prop} {holds : σ → Prop} {s : σ} {l : List ε} {e : ε}

theorem Since.start (hstarts : starts (l.foldl step s) e)
    (hholds : holds ((l ++ [e]).foldl step s)) : Since step starts holds s (l ++ [e]) :=
  @HeldSince.start ε (fun l e => starts (l.foldl step s) e) (fun l => holds (l.foldl step s)) l e
    hstarts hholds

theorem Since.extend (h : Since step starts holds s l)
    (hholds : holds ((l ++ [e]).foldl step s)) : Since step starts holds s (l ++ [e]) :=
  @HeldSince.extend ε (fun l e => starts (l.foldl step s) e) (fun l => holds (l.foldl step s)) l e
    h hholds

end Since

/-! ## Replays -/

section Replay

variable {step : σ → ε → σ} {R : ε → σ → σ → Prop}

/-- A step that comes again is not needed where it came first. -/
theorem foldl_of_mem (hself : ∀ s e, R e (step s e) s)
    (hkeep : ∀ e y s s', R e s s' → R e (step s y) (step s' y))
    (hover : ∀ e s s', R e s s' → step s e = step s' e) {l : List ε} {e : ε} (he : e ∈ l) (s : σ) :
    l.foldl step (step s e) = l.foldl step s := by
  obtain ⟨before, after, rfl⟩ := List.append_of_mem he
  have hbefore : ∀ (before : List ε) (s s' : σ), R e s s' →
      R e (before.foldl step s) (before.foldl step s') := by
    intro before
    induction before with
    | nil => exact fun s s' h => h
    | cons y before ih => exact fun s s' h => ih _ _ (hkeep e y s s' h)
  rw [List.foldl_append, List.foldl_append, List.foldl_cons, List.foldl_cons,
    hover e _ _ (hbefore before _ _ (hself s e))]

/-- **Replaying a run changes nothing**, when each step overwrites what it changes: `R e s s'`
says that the states differ in what the step `e` overwrites only. -/
theorem foldl_replay (hself : ∀ s e, R e (step s e) s)
    (hkeep : ∀ e y s s', R e s s' → R e (step s y) (step s' y))
    (hover : ∀ e s s', R e s s' → step s e = step s' e) (l : List ε) (s : σ) :
    l.foldl step (l.foldl step s) = l.foldl step s := by
  -- Each step of the first run comes again in the second.
  suffices hpart : ∀ part : List ε, (∀ e ∈ part, e ∈ l) →
      l.foldl step (part.foldl step s) = l.foldl step s from hpart l fun _ he => he
  intro part
  induction part using List.reverseRecOn with
  | nil => exact fun _ => rfl
  | append_singleton part e ih =>
    intro hpart
    rw [List.foldl_append, List.foldl_cons, List.foldl_nil,
      foldl_of_mem hself hkeep hover (hpart e (by simp))]
    exact ih fun e he => hpart e (List.mem_append_left _ he)

end Replay

end Polywan.Lib
