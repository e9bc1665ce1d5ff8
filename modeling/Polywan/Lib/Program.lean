import Mathlib.Data.Nat.Notation

/-!
# Programs of calls

A program makes calls one after the other and goes on with their answers.

## Main definitions

* `Prog C R α` — programs over calls `C` whose answers have the types `R`.
* `Prog.run`, `Prog.trace` — a complete run and its calls; an outcome decides how each ends.
-/

namespace Polywan.Lib

/-- A program returns, or makes a call and goes on with its answer. -/
inductive Prog (C : Type) (R : C → Type) (α : Type) where
  | ret (a : α)
  | call (c : C) (next : R c → Prog C R α)

namespace Prog

variable {C : Type} {R : C → Type} {α β W O : Type}

protected def bind : Prog C R α → (α → Prog C R β) → Prog C R β
  | ret a, f => f a
  | call c next, f => call c fun r => (next r).bind f

instance : Monad (Prog C R) where
  pure := ret
  bind := Prog.bind

/-- A single call. -/
def ask (c : C) : Prog C R (R c) := call c ret

@[simp] theorem pure_eq (a : α) : (pure a : Prog C R α) = ret a := rfl

@[simp] theorem ret_bind (a : α) (f : α → Prog C R β) : ret a >>= f = f a := rfl

@[simp] theorem call_bind (c : C) (next : R c → Prog C R α) (f : α → Prog C R β) :
    call c next >>= f = call c fun r => next r >>= f := rfl

@[simp] theorem ask_bind (c : C) (f : R c → Prog C R β) : ask c >>= f = call c f := rfl

/-! ## Runs -/

/-- A complete run; the outcomes of its calls come one after the other. -/
def run (answer : O → (c : C) → W → R c × W) : (ℕ → O) → Prog C R α → W → α × W
  | _, ret a, w => (a, w)
  | o, call c next, w =>
    let (r, w) := answer (o 0) c w
    run answer (fun n => o (n + 1)) (next r) w

@[simp] theorem run_ret (answer : O → (c : C) → W → R c × W) (o : ℕ → O) (a : α) (w : W) :
    run answer o (ret a : Prog C R α) w = (a, w) := rfl

@[simp] theorem run_call (answer : O → (c : C) → W → R c × W) (o : ℕ → O) (c : C)
    (next : R c → Prog C R α) (w : W) :
    run answer o (call c next) w =
      run answer (fun n => o (n + 1)) (next (answer (o 0) c w).1) (answer (o 0) c w).2 := rfl

/-- The calls of a run, each with its outcome and the world that it meets. -/
def trace (answer : O → (c : C) → W → R c × W) : (ℕ → O) → Prog C R α → W → List (C × O × W)
  | _, ret _, _ => []
  | o, call c next, w =>
    let (r, w') := answer (o 0) c w
    (c, o 0, w) :: trace answer (fun n => o (n + 1)) (next r) w'

@[simp] theorem trace_ret (answer : O → (c : C) → W → R c × W) (o : ℕ → O) (a : α) (w : W) :
    trace answer o (ret a : Prog C R α) w = [] := rfl

@[simp] theorem trace_call (answer : O → (c : C) → W → R c × W) (o : ℕ → O) (c : C)
    (next : R c → Prog C R α) (w : W) :
    trace answer o (call c next) w = (c, o 0, w) ::
      trace answer (fun n => o (n + 1)) (next (answer (o 0) c w).1) (answer (o 0) c w).2 := rfl

section Bind

variable (answer : O → (c : C) → W → R c × W) (o : ℕ → O) (p : Prog C R α)
  (f : α → Prog C R β) (w : W)

/-- The second part of a sequence has the outcomes that the first one leaves. -/
theorem run_bind : run answer o (p >>= f) w =
    run answer (fun n => o (n + (trace answer o p w).length)) (f (run answer o p w).1)
      (run answer o p w).2 := by
  induction p generalizing o w with
  | ret a => rfl
  | call c next ih => exact ih _ _ _

theorem trace_bind : trace answer o (p >>= f) w = trace answer o p w ++
    trace answer (fun n => o (n + (trace answer o p w).length)) (f (run answer o p w).1)
      (run answer o p w).2 := by
  induction p generalizing o w with
  | ret a => rfl
  | call c next ih => exact congrArg _ (ih _ _ _)

end Bind

end Prog

end Polywan.Lib
