import Mathlib
import LineBasic.Proofs.ControlFlow
import LineBasic.Proofs.EvaluationFaults

/-!
# What interrupts a program

INPUT ends in a break only if the interrupt key is pressed instead of a reply: neither reading the
reply nor storing its values is interrupted. It then stands where it began.

* `Halt.IsBreak`: the program was interrupted.
* `Exec.breaksAt_input`: an INPUT that breaks goes back to itself.
-/

namespace LineBasic

/-- The program was interrupted. -/
def Halt.IsBreak : Halt → Prop
  | .fault (.error e) => e.IsBreak
  | _ => False

/-- The execution was stopped by an error of control. -/
def Halt.IsControl : Halt → Prop
  | .fault (.error e) => e.IsControl
  | _ => False

theorem Halt.IsBreak.isControl {h : Halt} (hbreak : h.IsBreak) : h.IsControl := by
  rcases h with _ | (e | _)
  · exact hbreak
  · exact Error.IsBreak.isControl hbreak
  · exact hbreak

theorem Halt.not_isControl {f : Fault} (h : ¬f.IsForeign) : ¬(Halt.fault f).IsControl := by
  cases f with
  | error e => exact h
  | crash c => exact id

namespace Exec

variable {α β : Type}

/-- The execution does not break, and has no other error of control. -/
def Unbroken (x : Exec α) : Prop := ∀ m, Avoids Halt.IsControl (x m).1

theorem Unbroken.bind {x : Exec α} {f : α → Exec β} (hx : Unbroken x) (hf : ∀ a, Unbroken (f a)) :
    Unbroken (x >>= f) := by
  intro m
  rw [run_bind]
  cases hrun : x m with
  | mk r m' =>
    cases r with
    | error e => exact (hx m).error (by rw [hrun])
    | ok a => exact hf a m'

theorem unbroken_pure (a : α) : Unbroken (pure a : Exec α) := fun _ => avoids_ok a

theorem avoids_halt {e : Halt} (h : ¬e.IsControl) :
    Avoids Halt.IsControl (.error e : Except Halt α) := by
  intro e' he'
  obtain rfl := Except.error.inj he'
  exact h

theorem unbroken_lift {x : Except Error α} (h : Avoids Error.IsControl x) : Unbroken (lift x) := by
  intro m
  cases x with
  | error e => exact avoids_halt (h e rfl)
  | ok a => exact avoids_ok a

theorem unbroken_liftFault {x : Except Fault α} (h : Avoids Fault.IsForeign x) :
    Unbroken (liftFault x) := by
  intro m
  cases x with
  | error f => exact avoids_halt (Halt.not_isControl (h f rfl))
  | ok a => exact avoids_ok a

theorem unbroken_ofEval {x : Eval α} (h : ∀ scope m, Avoids Fault.IsForeign (x scope m).1) :
    Unbroken (ofEval x) := by
  intro m
  rw [run_ofEval]
  cases hrun : (x m.scope m.memory).1 with
  | error f => exact avoids_halt (Halt.not_isControl (h m.scope m.memory f hrun))
  | ok a => exact avoids_ok a

theorem unbroken_value (e : Expr) : Unbroken (value e) :=
  fun m => unbroken_ofEval (evaluate_native m.statementRoom e) m

theorem unbroken_values (calls : Nat) (es : List Expr) : Unbroken (values calls es) :=
  fun m => unbroken_ofEval (evaluateAll_native (m.statementRoom - calls) es) m

theorem unbroken_setScalar (name : String) (v : Value) : Unbroken (setScalar name v) := by
  intro m
  unfold setScalar
  rw [run_get_bind]
  exact (unbroken_lift (m.memory.store.avoids_set name v)).bind (fun _ _ => avoids_ok _) m

theorem unbroken_setElement (name : String) (indices : List Value) (v : Value) :
    Unbroken (setElement name indices v) := by
  intro m
  unfold setElement
  rw [run_get_bind]
  refine Unbroken.bind (fun _ => avoids_ok _) (fun _ => unbroken_liftFault ?_) m
  exact m.memory.store.avoids_setElement m.cells (m.statementRoom - 1) name indices v

theorem unbroken_assign (target : Target) (v : Value) : Unbroken (assign target v) := by
  cases target with
  | scalar column name => exact unbroken_setScalar name v
  | element column name indices =>
    exact (unbroken_values 1 indices).bind fun is => unbroken_setElement name is v

theorem unbroken_assignAll (items : List (Target × Value)) : Unbroken (assignAll items) := by
  induction items with
  | nil => exact unbroken_pure _
  | cons item items ih => exact (unbroken_assign item.1 item.2).bind fun _ => ih

theorem unbroken_crash (c : Crash) : Unbroken (crash c : Exec α) := fun _ => avoids_halt id

theorem unbroken_write (s : String) : Unbroken (write s) := by
  refine Unbroken.bind (fun m => ?_) fun _ _ => avoids_ok _
  unfold ofAct
  cases hraw : Machine.writeRaw s m with
  | mk r m' =>
    cases r with
    | error c => exact unbroken_crash c m
    | ok u => exact avoids_ok u

theorem avoids_replyValues (kinds : List Kind) (reply : String) :
    Avoids Error.IsControl (replyValues kinds reply) := by
  have hitem : ∀ kind item, Avoids Error.IsControl (replyItem kind item) := by
    intro kind item
    unfold replyItem
    simp only
    split
    · exact avoids_ok _
    · split
      · exact avoids_ok _
      · exact avoids_readNumber _ _
  have hitems : ∀ items, Avoids Error.IsControl (replyItems items) := by
    intro items
    induction items with
    | nil => exact avoids_ok _
    | cons item items ih =>
      refine (hitem item.1 item.2).bind fun v => ?_
      cases v with
      | none => exact avoids_pure _
      | some v => exact ih.bind fun _ => avoids_pure _
  unfold replyValues
  simp only
  generalize (if kinds.length = 1 then [reply] else commaPieces reply) = items
  split
  · exact hitems _
  · exact avoids_ok _

/-- A break, if there is one, leaves the machine at a position. -/
def BreaksAt (p : Position) (r : Except Halt α × Machine) : Prop :=
  ∀ h, r.1 = .error h → h.IsBreak → r.2.position = p

theorem Unbroken.breaksAt {x : Exec α} (hx : Unbroken x) (p : Position) (m : Machine) :
    BreaksAt p (x m) :=
  fun h he hbreak => absurd hbreak.isControl (hx m h he)

theorem Unbroken.breaksAt_bind {x : Exec α} {f : α → Exec β} {p : Position} {m : Machine}
    (hx : Unbroken x) (hf : ∀ a m', x m = (.ok a, m') → BreaksAt p (f a m')) :
    BreaksAt p ((x >>= f) m) := by
  have hstop := hx.breaksAt p m
  rw [run_bind]
  cases hrun : x m with
  | mk r m' =>
    rw [hrun] at hstop
    cases r with
    | error e => exact fun h he => hstop h (by cases he; rfl)
    | ok a => exact hf a m' hrun

theorem breaksAt_inputLoop (prompt : String) (targets : List Target) (n : Nat) (m : Machine) :
    BreaksAt m.current (inputLoop prompt targets n m) := by
  induction n generalizing m with
  | zero => exact (unbroken_crash _).breaksAt _ m
  | succ n ih =>
    rw [inputLoop, run_get_bind]
    simp only
    rw [run_set_bind]
    cases (m.terminal.ask prompt).1 with
    | none => exact (unbroken_crash _).breaksAt _ _
    | some reply =>
      cases reply with
      | interrupt => exact fun _ _ _ => rfl
      | line s =>
        simp only
        rw [run_modify_bind]
        refine (unbroken_lift (avoids_replyValues _ s)).breaksAt_bind fun values m₁ hvalues => ?_
        cases values with
        | some values => exact (unbroken_assignAll _).breaksAt _ _
        | none =>
          refine (unbroken_write _).breaksAt_bind fun _ m₂ hwrite => ?_
          have hread : Machine.Still _ m₁ := (moves_lift _).of_run hvalues
          have hcurrent : m₂.current = m.current :=
            ((computes_write (R := Machine.Still) _).of_run hwrite).current.trans hread.current
          rw [← hcurrent]
          exact ih m₂

/-- **An INPUT that breaks goes back to itself.** -/
theorem breaksAt_input (prompt : String) (targets : List Target) (question : Bool) (m : Machine) :
    BreaksAt m.current (input prompt targets question m) := by
  unfold input
  rw [run_get_bind]
  exact breaksAt_inputLoop _ targets _ m

end Exec

end LineBasic
