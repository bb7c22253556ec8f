import Mathlib
import LineBasic.Machine.Run
import LineBasic.Proofs.Execution

/-!
# One turn

What a turn of the machine can do, case by case.

* `Machine.Writes`: what writing changes, and nothing else.
* `Machine.Turn`, `Machine.turn_tick`: every turn comes to an end of the code, is stopped by a
  break, or executes the instruction at the position.
-/

namespace LineBasic

namespace Machine

/-- Something was written: the terminal and the column of the cursor have changed, and a break may
have been asked for. -/
def Writes (m m' : Machine) : Prop :=
  ∃ terminal breakPending column, m' = { m with terminal, breakPending, column }

theorem Writes.refl (m : Machine) : m.Writes m := ⟨_, _, _, rfl⟩

theorem Writes.trans {m m' m'' : Machine} (h : m.Writes m') (h' : m'.Writes m'') :
    m.Writes m'' := by
  obtain ⟨t, b, c, rfl⟩ := h
  obtain ⟨t', b', c', rfl⟩ := h'
  exact ⟨t', b', c', rfl⟩

theorem run_writeRaw (s : String) (m : Machine) : writeRaw s m =
    (match (m.terminal.write s).arrived with
    | none => (return () : Act Unit)
    | some (.signal _) => set { m with terminal := m.terminal.write s, breakPending := true }
    | some (.key _) =>
      if m.running then set { m with terminal := m.terminal.write s, breakPending := true }
      else throw Crash.interruptKey) { m with terminal := m.terminal.write s } := rfl

theorem writes_writeRaw (s : String) (m : Machine) : m.Writes (writeRaw s m).2 := by
  rw [run_writeRaw]
  cases (m.terminal.write s).arrived with
  | none => exact ⟨_, _, _, rfl⟩
  | some request =>
    cases request with
    | signal n => exact ⟨_, _, _, rfl⟩
    | key n =>
      simp only
      split <;> exact ⟨_, _, _, rfl⟩

theorem writes_write (s : String) (m : Machine) : m.Writes (Exec.write s m).2 := by
  have h := writes_writeRaw s m
  unfold Exec.write
  rw [run_bind]
  unfold Exec.ofAct
  cases hraw : writeRaw s m with
  | mk r m' =>
    rw [hraw] at h
    cases r with
    | error c => exact h
    | ok u => exact h.trans ⟨_, _, _, rfl⟩

theorem writes_showTrace (m : Machine) : m.Writes (showTrace m).2 := by
  unfold showTrace
  rw [run_get_bind]
  cases hline : m.position.line with
  | none => exact .refl m
  | some n =>
    simp only
    split
    · exact writes_write _ m
    · exact .refl m

theorem writes_of_showTrace {m m' : Machine} {r : Except Halt Unit} (h : showTrace m = (r, m')) :
    m.Writes m' := by
  simpa [h] using writes_showTrace m

/-- The machine when a statement begins: it knows which one that is, and the one after it comes
next. -/
def atStatement (m : Machine) (here : Position) : Machine :=
  { m with traced := here.line, current := here, position := here.after }

/-- What a turn can do. -/
inductive Turn (m : Machine) : Except Halt Bool × Machine → Prop where
  | missing (line : m.codeAt? m.position.line = none) :
      Turn m (.error (.fault (.crash .missingLine)), m)
  | typedEnd {code : Array Instr} (code_eq : m.codeAt? m.position.line = some code)
      (ended : code[m.position.index]? = none) (line : m.position.line = none) :
        Turn m (.ok false, m)
  | programEnd {code : Array Instr} {n : Nat} (code_eq : m.codeAt? m.position.line = some code)
      (ended : code[m.position.index]? = none) (line : m.position.line = some n)
      (last : m.program.next? n = none) :
      Turn m (.ok false, { m with resume := none })
  | lineEnd {code : Array Instr} {n k : Nat} (code_eq : m.codeAt? m.position.line = some code)
      (ended : code[m.position.index]? = none) (line : m.position.line = some n)
      (next : m.program.next? n = some k) :
      Turn m (.ok true, { m with position := ⟨some k, 0⟩ })
  | broken {code : Array Instr} {i : Instr} (code_eq : m.codeAt? m.position.line = some code)
      (here : code[m.position.index]? = some i) (pending : m.breakPending = true) :
      Turn m (.error (placeHalt m.position.line (.fault (.error (.of .interrupted)))),
      { m with breakPending := false })
  | cut {code : Array Instr} {i : Instr} {h : Halt} {m' : Machine}
      (code_eq : m.codeAt? m.position.line = some code)
      (here : code[m.position.index]? = some i) (pending : m.breakPending = false)
      (trace : showTrace m = (.error h, m')) : Turn m (.error h, m')
  | executed {code : Array Instr} {i : Instr} {m' m'' : Machine}
      (code_eq : m.codeAt? m.position.line = some code)
      (here : code[m.position.index]? = some i) (pending : m.breakPending = false)
      (trace : showTrace m = (.ok (), m'))
      (run : Exec.instr i (m'.atStatement m.position) = (.ok (), m'')) : Turn m (.ok true, m'')
  | halted {code : Array Instr} {i : Instr} {h : Halt} {m' m'' : Machine}
      (code_eq : m.codeAt? m.position.line = some code) (here : code[m.position.index]? = some i)
      (pending : m.breakPending = false) (trace : showTrace m = (.ok (), m'))
      (run : Exec.instr i (m'.atStatement m.position) = (.error h, m'')) :
      Turn m (.error (placeHalt m.position.line h), m'')

theorem run_takeBreak (m : Machine) : takeBreak m =
    if m.breakPending then
      (.error (placeHalt m.position.line (.fault (.error (.of .interrupted)))),
        { m with breakPending := false })
    else (.ok (), m) := by
  unfold takeBreak
  rw [run_get_bind]
  split <;> rfl

theorem run_inLine (line : Option Nat) (x : Exec Unit) (m : Machine) : inLine line x m =
    match x m with
    | (.ok u, m') => (.ok u, m')
    | (.error h, m') => (.error (placeHalt line h), m') := rfl

/-- At the end of a line the next line follows, or the run is over. -/
theorem turn_nextLine {m : Machine} {code : Array Instr}
    (hcode : m.codeAt? m.position.line = some code) (hended : code[m.position.index]? = none) :
    m.Turn (nextLine m) := by
  unfold nextLine
  rw [run_get_bind]
  cases hline : m.position.line with
  | none =>
    simp only
    exact .typedEnd hcode hended hline
  | some n =>
    cases hnext : m.program.next? n with
    | none =>
      simp only [hnext]
      exact .programEnd hcode hended hline hnext
    | some k =>
      simp only [hnext]
      exact .lineEnd hcode hended hline hnext

/-- **Every turn is one of these.** -/
theorem turn_tick (m : Machine) : m.Turn (tick m) := by
  unfold tick
  rw [run_get_bind]
  cases hcode : m.codeAt? m.position.line with
  | none =>
    simp only
    exact .missing hcode
  | some code =>
    cases hhere : code[m.position.index]? with
    | none =>
      simp only [hhere]
      exact turn_nextLine hcode hhere
    | some i =>
      simp only [hhere]
      rw [run_bind, run_takeBreak]
      by_cases hpending : m.breakPending = true
      · rw [if_pos hpending]
        exact .broken hcode hhere hpending
      · rw [if_neg hpending]
        replace hpending : m.breakPending = false := Bool.eq_false_iff.mpr hpending
        simp only
        rw [run_bind]
        cases htrace : showTrace m with
        | mk r m' =>
          cases r with
          | error h => exact .cut hcode hhere hpending htrace
          | ok u =>
            simp only
            rw [Exec.run_modify_bind, run_bind, run_inLine]
            cases hrun : Exec.instr i (m'.atStatement m.position) with
            | mk r m'' =>
              unfold atStatement at hrun
              rw [hrun]
              cases r with
              | error h => exact .halted hcode hhere hpending htrace hrun
              | ok u => exact .executed hcode hhere hpending htrace hrun

end Machine

end LineBasic
