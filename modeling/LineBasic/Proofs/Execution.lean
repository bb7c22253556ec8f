import Mathlib
import LineBasic.Machine.Statement

/-!
# Running statements

How the steps of an execution run on a machine: each gives a result or the reason why it stops, and
the machine afterwards, which is kept in either case.
-/

namespace LineBasic

/-- A result of two steps is a result of the second on a result of the first. -/
theorem ok_of_bind {ε α β : Type} {x : Except ε α} {f : α → Except ε β} {b : β}
    (h : (x >>= f) = .ok b) :
    ∃ a, x = .ok a ∧ f a = .ok b := by
  cases x with
  | error e => cases h
  | ok a => exact ⟨a, rfl, h⟩

/-- Two steps one after the other; if the first one stops, the second is left out. -/
theorem run_bind {ε σ α β : Type} (x : ExceptT ε (StateM σ) α)
    (f : α → ExceptT ε (StateM σ) β) (s : σ) :
    (x >>= f) s = match x s with
      | (.ok a, s') => f a s'
      | (.error e, s') => (.error e, s') := by
  simp only [bind, ExceptT.bind, ExceptT.mk, StateT.bind]
  obtain ⟨r, s'⟩ := x s
  cases r <;> rfl

theorem run_get_bind {ε σ β : Type} (f : σ → ExceptT ε (StateM σ) β) (s : σ) :
    (get >>= f) s = f s s := rfl

namespace Exec

variable {α β : Type}

theorem run_get (m : Machine) : (get : Exec Machine) m = (.ok m, m) := rfl

theorem run_modify (f : Machine → Machine) (m : Machine) :
    (modify f : Exec Unit) m = (.ok (), f m) := rfl

theorem run_modify_bind (f : Machine → Machine) (g : Unit → Exec β) (m : Machine) :
    (modify f >>= g) m = g () (f m) := rfl

theorem run_set_bind (m' : Machine) (g : Unit → Exec β) (m : Machine) :
    (set m' >>= g) m = g () m' := rfl

theorem run_modifyStacks_bind (f : Stacks → Stacks) (g : Unit → Exec β) (m : Machine) :
    (modifyStacks f >>= g) m = g () { m with stack := f m.stack } := rfl

theorem run_lift (x : Except Error α) (m : Machine) : lift x m =
    match x with
    | .ok a => (.ok a, m)
    | .error e => (.error (.fault (.error e)), m) := by
  cases x <;> rfl

/-- Evaluation changes the memory and nothing else of the machine. -/
theorem run_ofEval (x : Eval α) (m : Machine) : ofEval x m =
    (match (x m.scope m.memory).1 with
      | .ok a => .ok a
      | .error f => .error (.fault f),
      { m with memory := (x m.scope m.memory).2 }) := by
  unfold ofEval
  cases x m.scope m.memory with
  | mk r memory => cases r <;> rfl

theorem value_eq (e : Expr) (m : Machine) : value e m = ofEval (evaluate m.statementRoom e) m := rfl

theorem values_eq (calls : Nat) (es : List Expr) (m : Machine) :
    values calls es m = ofEval (evaluateAll (m.statementRoom - calls) es) m := rfl

theorem run_setScalar (name : String) (v : Value) (m : Machine) : setScalar name v m =
    match m.memory.store.set name v with
    | .ok store => (.ok (), { m with memory := { m.memory with store } })
    | .error e => (.error (.fault (.error e)), m) := by
  unfold setScalar
  rw [run_get_bind, run_bind, run_lift]
  cases m.memory.store.set name v <;> rfl

/-- Some statements are refused in a line of the program. -/
theorem run_requireDirect (m : Machine) : requireDirect m =
    if m.current.line.isSome then (.error (.fault (.error (.of .illegalDirect))), m)
    else (.ok (), m) := by
  unfold requireDirect
  rw [run_bind, run_get]
  simp only
  split <;> rfl

end Exec

end LineBasic
