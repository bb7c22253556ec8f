import Mathlib
import LineBasic.Proofs.Effects
import LineBasic.Proofs.Flattening
import LineBasic.Proofs.Renumbering

/-!
# Where commands lead

What every command does to the flow of control: where execution goes on, what may be open
afterwards, and where the program can be continued.

* `Machine.Opens`: variables were changed, and subroutines and loops opened or closed.
* `Machine.Next`: the positions at which a command lets execution go on.
* `Mark`, `Command.mark`: a command closes everything that is open, or edits the program.
* `Machine.Flow`, `Exec.flow_instr`: every instruction does one of a few things.
-/

namespace LineBasic

/-- The positions that execution may go back to. -/
def Stacks.positions (s : Stacks) : List Position :=
  s.returns.map ReturnFrame.position ++ (s.loops.map LoopFrame.position ++ s.whiles)

theorem Stacks.mem_positions {s : Stacks} {p : Position} : p ∈ s.positions ↔
    (∃ f ∈ s.returns, f.position = p) ∨ (∃ f ∈ s.loops, f.position = p) ∨ p ∈ s.whiles := by
  simp [positions]

namespace Machine

/-- Variables were changed, and subroutines and loops opened or closed: what was opened leads back
to the statement or behind it. -/
structure Opens (m m' : Machine) : Prop where
  alters : m.Alters m'
  program : m'.program = m.program
  direct : m'.direct = m.direct
  position : m'.position = m.position
  current : m'.current = m.current
  resume : m'.resume = m.resume
  stack : ∀ p ∈ m'.stack.positions, p ∈ m.stack.positions ∨ p = m.position ∨ p = m.current

theorem Opens.refl (m : Machine) : m.Opens m := ⟨.refl, rfl, rfl, rfl, rfl, rfl, fun _ => .inl⟩

theorem Opens.trans {m m' m'' : Machine} (h : m.Opens m') (h' : m'.Opens m'') : m.Opens m'' where
  alters := trans_of Alters h.alters h'.alters
  program := h'.program.trans h.program
  direct := h'.direct.trans h.direct
  position := h'.position.trans h.position
  current := h'.current.trans h.current
  resume := h'.resume.trans h.resume
  stack p hp := by
    rcases h'.stack p hp with hp | rfl | rfl
    · exact h.stack p hp
    · exact .inr (.inl h.position)
    · exact .inr (.inr h.current)

instance : IsPreorder Machine Opens where
  refl := Opens.refl
  trans _ _ _ := Opens.trans

theorem Computes.opens {m m' : Machine} (h : m.Computes m') : m.Opens m' where
  alters := h.alters
  program := h.still.program
  direct := h.still.direct
  position := h.still.position
  current := h.still.current
  resume := h.still.resume
  stack p hp := by
    obtain ⟨cursor, hstack⟩ := h.still.stack
    rw [hstack] at hp
    exact .inl hp

/-- Frames are opened or closed. -/
theorem Opens.stacks {m m' : Machine} (h : m.Opens m') {s : Stacks}
    (returns : ∀ f ∈ s.returns, f ∈ m'.stack.returns ∨ f.position = m.position)
    (loops : ∀ f ∈ s.loops, f ∈ m'.stack.loops ∨ f ∈ m.stack.loops ∨ f.position = m.position)
    (whiles : ∀ p ∈ s.whiles, p ∈ m'.stack.whiles ∨ p = m.current) :
    m.Opens { m' with stack := s } := by
  obtain ⟨halters, hprogram, hdirect, hposition, hcurrent, hresume, hstack⟩ := h
  refine ⟨halters, hprogram, hdirect, hposition, hcurrent, hresume, fun p hp => ?_⟩
  rcases Stacks.mem_positions.mp hp with ⟨f, hf, rfl⟩ | ⟨f, hf, rfl⟩ | hp
  · rcases returns f hf with hf | hf
    · exact hstack _ (Stacks.mem_positions.mpr (.inl ⟨f, hf, rfl⟩))
    · exact .inr (.inl hf)
  · rcases loops f hf with hf | hf | hf
    · exact hstack _ (Stacks.mem_positions.mpr (.inr (.inl ⟨f, hf, rfl⟩)))
    · exact .inl (Stacks.mem_positions.mpr (.inr (.inl ⟨f, hf, rfl⟩)))
    · exact .inr (.inl hf)
  · rcases whiles p hp with hp | hp
    · exact hstack _ (Stacks.mem_positions.mpr (.inr (.inr hp)))
    · exact .inr (.inr hp)

theorem Opens.codeAt? {m m' : Machine} (h : m.Opens m') (line : Option Nat) :
    m'.codeAt? line = m.codeAt? line := by
  unfold Machine.codeAt?
  rw [h.program, h.direct]

theorem Opens.ahead {m m' : Machine} (h : m.Opens m') (p : Position) : m'.ahead p = m.ahead p := by
  unfold Machine.ahead
  rw [h.codeAt?, h.program]

/-- The positions at which an instruction lets execution go on: behind it, at it, at a position to
go back to, at the start of a line, behind an instruction farther on, or elsewhere in the line. -/
inductive Next (m : Machine) : Position → Prop where
  | after : Next m m.position
  | again : Next m m.current
  | back {p : Position} (mem : p ∈ m.stack.positions) : Next m p
  | line {n : Nat} (stored : m.program.contains n = true) : Next m ⟨some n, 0⟩
  | ahead {p : Position} {i : Instr} (mem : (p, i) ∈ m.ahead m.position) : Next m p.after
  | jump {index : Nat} (inside : ∀ n code, m.position.line = some n →
      m.codeAt? (some n) = some code → index ≤ code.size) :
      Next m ⟨m.position.line, index⟩

end Machine

/-! ## Marks -/

/-- What a command means for the positions that are kept. -/
inductive Mark where
  /-- they stay, and so does the program -/
  | plain
  /-- they are forgotten -/
  | fresh
  /-- the program was edited -/
  | edit
  deriving DecidableEq

/-- The mark of a command that ended in the given way: RUN, CLEAR, NEW and LOAD start afresh, DELETE
and RENUM edit. -/
def Command.mark {α : Type} (c : Command) : Except Halt α → Mark
  | .ok _ =>
    match c with
    | .run _ | .runFile _ | .load _ | .clear => .fresh
    | .delete _ _ | .renumber _ _ _ => .edit
    | _ => .plain
  | .error .finished =>
    match c with
    | .run _ | .runFile _ | .new => .fresh
    | _ => .plain
  | .error (.fault (.error _)) =>
    match c with
    | .run _ => .fresh
    | _ => .plain
  | .error (.fault (.crash _)) => .plain

/-- The mark of an instruction. -/
def Instr.mark {α : Type} (i : Instr) (r : Except Halt α) : Mark :=
  match i with
  | .command _ c => c.mark r
  | .branch _ _ _ | .jump _ _ => .plain

/-- The command may have another mark than the plain one. -/
def Command.marked : Command → Bool
  | .run _ | .runFile _ | .load _ | .clear | .new | .delete _ _ | .renumber _ _ _ => true
  | _ => false

theorem Command.mark_eq_plain {α : Type} {c : Command} (h : c.marked = false) (r : Except Halt α) :
    c.mark r = .plain := by
  rcases r with (_ | _ | _) | _ <;> cases c <;> first | rfl | cases h

namespace Machine

/-- What a command does. -/
inductive Flow (m : Machine) : Mark → Except Halt Unit × Machine → Prop where
  /-- it lets execution go on somewhere -/
  | goes {m' : Machine} {p : Position} (opens : m.Opens m') (next : m.Next p) :
      Flow m .plain (.ok (), { m' with position := p })
  /-- it fails -/
  | fails {m' : Machine} {h : Halt} {p : Position} (opens : m.Opens m')
      (place : p = m.position ∨ p = m.current) :
      Flow m .plain (.error h, { m' with position := p })
  /-- it ends the run, which can be continued behind it -/
  | ends : Flow m .plain
      (.error .finished,
        { m with resume := if m.position.line.isSome then some m.position else none })
  /-- it continues the program -/
  | resumes {p : Position} (resume : m.resume = some p) :
      Flow m .plain (.ok (), { m with position := p, resume := none })
  /-- it closes everything, and execution goes on behind it or at the start of a line -/
  | restarts {mark : Mark} {r : Except Halt Unit} {m' : Machine} (fresh : mark = .fresh)
      (alters : m.Alters m')
      (built : m.program.Built → m'.program.Built) (stack : m'.stack = {})
      (resume : m'.resume = none)
      (place : m'.position = m.position ∧
        (m'.program = m.program ∨ m.current.line = none ∧ r = .ok ()) ∨
        (∃ n, m'.program.contains n = true ∧ m'.position = ⟨some n, 0⟩ ∧ r = .ok ()) ∨
        r = .error .finished) :
      Flow m mark (r, m')
  /-- it was typed, and edits the program -/
  | edits {m' : Machine} (typed : m.current.line = none) (alters : m.Alters m')
      (built : m.program.Built → m'.program.Built) (stack : m'.stack = m.stack)
      (position : m'.position = m.position)
      (resume : m'.resume = none) : Flow m .edit (.ok (), m')

theorem Flow.alters {m : Machine} {mark : Mark} {r : Except Halt Unit × Machine}
    (h : m.Flow mark r) : m.Alters r.2 := by
  cases h with
  | goes opens => exact opens.alters
  | fails opens => exact opens.alters
  | ends | resumes => exact .refl
  | restarts _ alters => exact alters
  | edits _ alters => exact alters

theorem Flow.stack_of_fresh {m : Machine} {r : Except Halt Unit × Machine} (h : m.Flow .fresh r) :
    r.2.stack = {} := by
  cases h with
  | restarts _ _ _ stack => exact stack

theorem Flow.program_of_plain {m : Machine} {r : Except Halt Unit × Machine} (h : m.Flow .plain r) :
    r.2.program = m.program := by
  cases h with
  | goes opens | fails opens => exact opens.program
  | ends | resumes => rfl
  | restarts fresh => cases fresh

end Machine

namespace Exec

open Machine

variable {α : Type} {m m₁ : Machine}

/-! ## Rules -/

theorem Moves.opens {x : Exec α} (h : Moves Computes x) : Moves Opens x :=
  h.mono fun _ _ => Computes.opens

/-- Execution goes on behind a command that does not move. -/
theorem flow_of_opens (h : m.Opens m₁) : m.Flow .plain (.ok (), m₁) := by
  have hgoes := Flow.goes h .after
  rwa [← h.position] at hgoes

theorem flow_of_halt (h : m.Opens m₁) (e : Halt) : m.Flow .plain (.error e, m₁) := by
  have hfails := Flow.fails (h := e) h (.inl rfl)
  rwa [← h.position] at hfails

/-- A part that does not move is followed by the rest. -/
theorem flow_bind {x : Exec α} {f : α → Exec Unit} (h : m.Opens m₁) (hx : Moves Opens x)
    (hf : ∀ a m₂, m.Opens m₂ → m.Flow .plain (f a m₂)) : m.Flow .plain ((x >>= f) m₁) := by
  have hx := h.trans (hx m₁)
  rw [run_bind]
  cases hrun : x m₁ with
  | mk r m₂ =>
    rw [hrun] at hx
    cases r with
    | error e => exact flow_of_halt hx e
    | ok a => exact hf a m₂ hx

/-- A command that does not move lets execution go on behind it, or fails. -/
theorem flow_of_moves {x : Exec Unit} (h : m.Opens m₁) (hx : Moves Opens x) :
    m.Flow .plain (x m₁) := by
  have hx := h.trans (hx m₁)
  cases hrun : x m₁ with
  | mk r m₂ =>
    rw [hrun] at hx
    cases r with
    | error e => exact flow_of_halt hx e
    | ok u => exact flow_of_opens hx

theorem flow_of_computes {x : Exec Unit} (hx : Moves Computes x) : m.Flow .plain (x m) :=
  flow_of_moves (.refl m) hx.opens

theorem opens_checkStack : Moves Opens checkStack :=
  moves_get fun m => moves_ite (moves_refuse _) (moves_pure _) m

theorem opens_loopNumber (v : Value) : Moves Opens (loopNumber v) := by
  cases v with
  | text s => exact moves_crash _
  | single x => exact moves_pure x
  | double x => exact moves_pure x

/-! ## Jumps and subroutines -/

theorem flow_goto (h : m.Opens m₁) (ref : LineRef) : m.Flow .plain (goto ref m₁) := by
  unfold goto
  rw [run_get_bind, h.program]
  by_cases hline : m.program.contains ref.line = true
  · rw [if_pos hline]
    exact .goes h (.line hline)
  · rw [if_neg hline]
    exact flow_of_moves h (moves_refuseAt _ _)

theorem flow_gosub (h : m.Opens m₁) (ref : LineRef) : m.Flow .plain (gosub ref m₁) := by
  unfold gosub
  rw [run_get_bind, h.program]
  by_cases hline : m.program.contains ref.line = true
  · rw [if_neg (by simp [hline])]
    refine flow_bind h opens_checkStack fun _ m₂ h₂ => ?_
    rw [run_get_bind]
    refine .goes (h₂.stacks (fun f hf => ?_) (fun _ => .inl) fun _ => .inl) (.line hline)
    rcases List.mem_cons.mp hf with rfl | hf
    · exact .inr h₂.position
    · exact .inl hf
  · rw [if_pos (by simpa using hline)]
    exact flow_of_moves h (moves_refuseAt _ _)

theorem flow_leaveSub : m.Flow .plain (leaveSub m) := by
  unfold leaveSub
  rw [run_get_bind]
  cases hreturns : m.stack.returns with
  | nil => exact flow_of_moves (.refl m) (moves_refuse _)
  | cons frame outer =>
    have hreturn : ∀ f ∈ outer, f ∈ m.stack.returns :=
      fun f hf => hreturns ▸ List.mem_cons_of_mem _ hf
    refine .goes ((Opens.refl m).stacks (fun f hf => .inl (hreturn f hf))
      (fun f hf => .inl (List.mem_of_mem_drop hf))
      fun p hp => .inl (List.mem_of_mem_drop hp)) (.back ?_)
    rw [Stacks.mem_positions, hreturns]
    exact .inl ⟨frame, List.mem_cons_self, rfl⟩

theorem flow_selected {f : LineRef → Exec Unit}
    (hf : ∀ ref m₁, m.Opens m₁ → m.Flow .plain (f ref m₁)) (selector : Expr) (refs : List LineRef) :
    m.Flow .plain ((do
      match ← selected selector refs with
      | some ref => f ref
      | none => return () : Exec Unit) m) := by
  refine flow_bind (.refl m) (computes_selected selector refs).opens fun ref m₁ h => ?_
  cases ref with
  | none => exact flow_of_moves h (moves_pure _)
  | some ref => exact hf ref m₁ h

/-! ## Loops -/

/-- The position behind an instruction farther on. -/
theorem exists_after_cons {e : Position × Instr} {ahead : List (Position × Instr)} {p : Position}
    (h : ∃ q i, (q, i) ∈ ahead ∧ p = q.after) : ∃ q i, (q, i) ∈ e :: ahead ∧ p = q.after := by
  obtain ⟨q, i, hmem, hq⟩ := h
  exact ⟨q, i, List.mem_cons_of_mem _ hmem, hq⟩

theorem after_of_findNext? {resolve : String → String} {var : String} {depth : Nat}
    {ahead : List (Position × Instr)} {p : Position}
    (h : findNext? resolve var depth ahead = some p) : ∃ q i, (q, i) ∈ ahead ∧ p = q.after := by
  fun_induction findNext? resolve var depth ahead with
  | case1 => cases h
  | case4 => exact ⟨_, _, List.mem_cons_self, (Option.some.inj h).symm⟩
  | case2 | case3 | case5 | case6 | case7 =>
    rename_i ih
    exact exists_after_cons (ih h)

theorem after_of_findWend? {depth : Nat} {ahead : List (Position × Instr)} {p : Position}
    (h : findWend? depth ahead = some p) : ∃ q i, (q, i) ∈ ahead ∧ p = q.after := by
  fun_induction findWend? depth ahead with
  | case1 => cases h
  | case4 => exact ⟨_, _, List.mem_cons_self, (Option.some.inj h).symm⟩
  | case2 | case3 | case5 | case6 =>
    rename_i ih
    exact exists_after_cons (ih h)

theorem mem_of_mem_closeLoop {var : String} {loops : List LoopFrame} {f : LoopFrame}
    (h : f ∈ closeLoop var loops) :
    f ∈ loops := by
  unfold closeLoop at h
  split at h
  · exact (List.dropWhile_sublist _).subset (List.mem_of_mem_drop h)
  · exact h

theorem opens_closeLoop (var : String) :
    Moves Opens (modifyStacks fun s => { s with loops := closeLoop var s.loops }) :=
  moves_modify fun m => (Opens.refl m).stacks (fun _ => .inl)
    (fun _ hf => .inl (mem_of_mem_closeLoop hf)) fun _ => .inl

/-- A loop goes on behind its NEXT if it is over at once, and is opened otherwise. -/
theorem flow_enterLoop (h : m.Opens m₁) (column : Nat) (var : String) (limit step : Float) :
    m.Flow .plain (enterLoop column var limit step m₁) := by
  refine flow_bind h (opens_closeLoop var) fun _ m₂ h₂ => ?_
  rw [run_get_bind]
  refine flow_bind h₂ (opens_loopNumber _) fun x m₃ h₃ => ?_
  by_cases hpast : isPast step x limit = true
  · rw [if_pos hpast, run_get_bind, h₃.position, h₃.ahead]
    cases hfind : findNext? m₃.memory.store.resolve var 0 (m.ahead m.position) with
    | none => exact flow_of_moves h₃ (moves_refuseAt _ _)
    | some p =>
      obtain ⟨q, i, hmem, rfl⟩ := after_of_findNext? hfind
      exact .goes h₃ (.ahead hmem)
  · rw [if_neg hpast]
    refine flow_bind h₃ opens_checkStack fun _ m₄ h₄ => ?_
    rw [run_get_bind]
    refine flow_of_opens (h₄.stacks (fun _ => .inl) (fun f hf => ?_) fun _ => .inl)
    rcases List.mem_cons.mp hf with rfl | hf
    · exact .inr (.inr h₄.position)
    · exact .inl hf

theorem flow_openFor (column : Nat) (name : String) (start limit : Expr) (step : Option Expr) :
    m.Flow .plain (openFor column name start limit step m) := by
  unfold openFor
  rw [run_get_bind]
  refine flow_bind (.refl m) (computes_value start).opens fun v m₁ h₁ => ?_
  refine flow_bind h₁ (computes_setScalar _ v).opens fun _ m₂ h₂ => ?_
  refine flow_bind h₂ (computes_bound _ limit).opens fun limit m₃ h₃ => ?_
  cases step with
  | none =>
    exact flow_bind h₃ (moves_pure _) fun step m₄ h₄ => flow_enterLoop h₄ column _ limit step
  | some e =>
    exact flow_bind h₃ (computes_bound _ e).opens fun step m₄ h₄ =>
      flow_enterLoop h₄ column _ limit step

theorem mem_of_loopsFrom? {var : String} {loops found : List LoopFrame}
    (h : loopsFrom? var loops = some found) :
    ∀ f ∈ found, f ∈ loops := by
  unfold loopsFrom? at h
  split at h
  · cases h
  · obtain rfl := Option.some.inj h
    exact fun f hf => (List.dropWhile_sublist _).subset hf

/-- The end of a turn leads back to the body of the loop, or closes the loop. -/
theorem flow_endTurn {frame : LoopFrame} {outer : List LoopFrame}
    (hopen : ∀ f ∈ frame :: outer, f ∈ m.stack.loops) :
    m.Flow .plain ((do
      modifyStacks fun s => { s with loops := frame :: outer }
      let x ← loopNumber (m.memory.store.get frame.var)
      setScalar frame.var (.single (x + frame.step))
      let x ← loopNumber ((← get).memory.store.get frame.var)
      if isPast frame.step x frame.limit then modifyStacks fun s => { s with loops := outer }
      else moveTo frame.position : Exec Unit) m) := by
  rw [run_modifyStacks_bind]
  have h₁ : m.Opens { m with stack := { m.stack with loops := frame :: outer } } :=
    (Opens.refl m).stacks (fun _ => .inl) (fun f hf => .inl (hopen f hf)) fun _ => .inl
  refine flow_bind h₁ (opens_loopNumber _) fun x m₂ h₂ => ?_
  refine flow_bind h₂ (computes_setScalar _ _).opens fun _ m₃ h₃ => ?_
  rw [run_get_bind]
  refine flow_bind h₃ (opens_loopNumber _) fun x m₄ h₄ => ?_
  by_cases hpast : isPast frame.step x frame.limit = true
  · rw [if_pos hpast]
    refine flow_of_opens (h₄.stacks (fun _ => .inl) (fun f hf => .inr (.inl ?_)) fun _ => .inl)
    exact hopen f (List.mem_cons_of_mem _ hf)
  · rw [if_neg hpast]
    refine .goes h₄ (.back (Stacks.mem_positions.mpr ?_))
    exact .inr (.inl ⟨frame, hopen frame List.mem_cons_self, rfl⟩)

theorem flow_nextLoop (column : Nat) (name : Option String) :
    m.Flow .plain (nextLoop column name m) := by
  unfold nextLoop
  rw [run_get_bind]
  cases name with
  | none =>
    simp only
    cases hloops : m.stack.loops with
    | nil => exact flow_of_moves (.refl m) (moves_refuseAt _ _)
    | cons frame outer => exact flow_endTurn fun f hf => by rwa [hloops]
  | some s =>
    simp only
    rcases hfound : loopsFrom? (m.memory.store.resolve s) m.stack.loops with _ | _ | ⟨frame, outer⟩
    · exact flow_of_moves (.refl m) (moves_refuseAt _ _)
    · exact flow_of_moves (.refl m) (moves_refuseAt _ _)
    · exact flow_endTurn (mem_of_loopsFrom? hfound)

theorem flow_skipWhile (h : m.Opens m₁) : m.Flow .plain ((do
    let m ← get
    match findWend? 0 (m.ahead m.position) with
    | some p => moveTo p
    | none => refuse .whileWithoutWend : Exec Unit) m₁) := by
  rw [run_get_bind, h.position, h.ahead]
  cases hfind : findWend? 0 (m.ahead m.position) with
  | none => exact flow_of_moves h (moves_refuse _)
  | some p =>
    obtain ⟨q, i, hmem, rfl⟩ := after_of_findWend? hfind
    exact .goes h (.ahead hmem)

/-- WHILE goes on behind it, or behind the WEND of its loop. -/
theorem flow_openWhile (condition : Expr) : m.Flow .plain (openWhile condition m) := by
  unfold openWhile
  rw [run_get_bind, run_get_bind]
  refine flow_bind (.refl m) (computes_value condition).opens fun v m₁ h₁ => ?_
  refine flow_bind h₁ (moves_lift _) fun holds m₂ h₂ => ?_
  by_cases hopen : m.stack.whiles.head? = some m.current
  · simp only [if_pos hopen]
    cases holds with
    | true => exact flow_of_opens h₂
    | false =>
      exact flow_skipWhile (h₂.stacks (fun _ => .inl) (fun _ => .inl) fun _ hp =>
        .inl (List.mem_of_mem_tail hp))
  · simp only [if_neg hopen]
    cases holds with
    | true =>
      refine flow_bind h₂ opens_checkStack fun _ m₃ h₃ => ?_
      refine flow_of_opens (h₃.stacks (fun _ => .inl) (fun _ => .inl) fun p hp => ?_)
      exact (List.mem_cons.mp hp).symm
    | false => exact flow_skipWhile h₂

theorem flow_wend : m.Flow .plain (wend m) := by
  unfold wend
  rw [run_get_bind]
  cases hwhiles : m.stack.whiles with
  | nil => exact flow_of_moves (.refl m) (moves_refuse _)
  | cons p outer =>
    exact .goes (.refl m) (.back (Stacks.mem_positions.mpr (.inr (.inr (by simp [hwhiles])))))

/-! ## INPUT, END and CONT -/

/-- An interrupted INPUT goes back to itself. -/
theorem flow_inputLoop (h : m.Opens m₁) (prompt : String) (targets : List Target) (n : Nat) :
    m.Flow .plain (inputLoop prompt targets n m₁) := by
  induction n generalizing m₁ with
  | zero => exact flow_of_moves h (moves_crash _)
  | succ n ih =>
    have hasked : m.Opens { m₁ with terminal := (m₁.terminal.ask prompt).2 } :=
      h.trans ⟨.refl, rfl, rfl, rfl, rfl, rfl, fun _ => .inl⟩
    unfold inputLoop
    rw [run_get_bind]
    cases hreply : (m₁.terminal.ask prompt).1 with
    | none =>
      simp only [hreply, run_set_bind]
      exact flow_of_moves hasked (moves_crash _)
    | some reply =>
      cases reply with
      | interrupt =>
        simp only [hreply, run_set_bind]
        exact .fails hasked (.inr h.current)
      | line s =>
        simp only [hreply, run_set_bind]
        refine flow_bind hasked (computes_column fun _ => 0).opens fun _ m₂ h₂ => ?_
        refine flow_bind h₂ (moves_lift _) fun values m₃ h₃ => ?_
        cases values with
        | some values => exact flow_of_moves h₃ (computes_assignAll _).opens
        | none => exact flow_bind h₃ (computes_write _).opens fun _ m₄ h₄ => ih h₄

theorem flow_input (prompt : String) (targets : List Target) (question : Bool) :
    m.Flow .plain (input prompt targets question m) := by
  unfold input
  rw [run_get_bind]
  exact flow_inputLoop (.refl m) _ targets _

theorem flow_cont : m.Flow .plain (cont m) := by
  unfold cont
  rw [run_get_bind]
  cases hresume : m.resume with
  | none => exact flow_of_moves (.refl m) (moves_refuse _)
  | some p => exact .resumes hresume

/-! ## Fresh starts -/

theorem contains_of_lowest? {p : Program} {n : Nat} (h : p.lowest? = some n) :
    p.contains n = true := by
  obtain ⟨l, hl, rfl⟩ := Option.map_eq_some_iff.mp h
  have hmem := List.mem_of_head? hl
  exact List.find?_isSome.mpr ⟨l, hmem, by simp⟩

/-- What a fresh start does: everything is forgotten, and execution goes on at the start of a line.
It ends if there is no line, and fails if the line is missing. -/
inductive Starts (m : Machine) (line : Option Nat) : Except Halt Unit × Machine → Prop where
  | goes {n : Nat} (stored : m.program.contains n = true) :
      Starts m line
        (.ok (), { clearVariables { m with functions := {} } with position := ⟨some n, 0⟩ })
  | ends : Starts m line (.error .finished, clearVariables { m with functions := {} })
  | fails {e : Error} (given : line.isSome) :
      Starts m line (.error (.fault (.error e)), clearVariables { m with functions := {} })

theorem starts_start (m : Machine) (line column : Option Nat) :
    Starts m line (start line column m) := by
  have hprogram : (clearVariables { m with functions := {} }).program = m.program := rfl
  unfold start
  rw [run_modify_bind, run_get_bind, hprogram]
  cases line with
  | none =>
    cases hlowest : m.program.lowest? with
    | none => exact .ends
    | some n => exact .goes (contains_of_lowest? hlowest)
  | some n =>
    by_cases hline : m.program.contains n = true
    · simp only [hline]
      exact .goes hline
    · simp only [hline]
      exact .fails rfl

/-- A fresh start leads to the start of a line, or ends. -/
theorem flow_start {c : Command} (hgoes : c.mark (.ok () : Except Halt Unit) = .fresh)
    (hends : c.mark (.error .finished : Except Halt Unit) = .fresh) (alters : m.Alters m₁)
    (built : m.program.Built → m₁.program.Built) (position : m₁.position = m.position)
    {line : Option Nat} (hfails : line = none ∨
      m₁.program = m.program ∧ ∀ e, c.mark (.error (.fault (.error e)) : Except Halt Unit) = .fresh)
    (column : Option Nat) : m.Flow (c.mark (start line column m₁).1) (start line column m₁) := by
  have halters : m.Alters (clearVariables { m₁ with functions := {} }) :=
    trans_of Alters alters (.single (.clear m₁.memory.store))
  have hstarts := starts_start m₁ line column
  generalize start line column m₁ = r at hstarts
  cases hstarts with
  | goes stored => exact .restarts hgoes halters built rfl rfl (.inr (.inl ⟨_, stored, rfl, rfl⟩))
  | ends => exact .restarts hends halters built rfl rfl (.inr (.inr rfl))
  | @fails e given =>
    obtain ⟨hsame, hfresh⟩ := hfails.resolve_left (Option.isSome_iff_ne_none.mp given)
    exact .restarts (hfresh e) halters built rfl rfl (.inl ⟨position, .inl hsame⟩)

theorem flow_run (ref : Option LineRef) :
    m.Flow ((Command.run ref).mark (run ref m).1) (run ref m) := by
  have halters : m.Alters { m with direct := #[] } := .refl
  exact flow_start rfl rfl halters id rfl (.inr ⟨rfl, fun _ => rfl⟩) _

/-- How loading runs: the name is no string, or what has that name cannot be loaded, or the program
is taken. -/
inductive Fetches (name : Expr) (m : Machine) : Except Halt Unit × Machine → Prop where
  | unnamed {f : Fault} (unnamed : ∀ file, (value name m).1 ≠ .ok (.text file)) :
      Fetches name m (.error (.fault f), (value name m).2)
  | fails {file : String} {f : Fault} (named : (value name m).1 = .ok (.text file))
      (failed : (m.library.load m.statementRoom file).1.bind (Program.load (m.statementRoom - 1)) =
        .error f) :
      Fetches name m (.error (.fault f),
        { (value name m).2 with disk := (m.library.load m.statementRoom file).2 })
  | takes {file : String} {p : Program} (named : (value name m).1 = .ok (.text file))
      (loaded : (m.library.load m.statementRoom file).1.bind (Program.load (m.statementRoom - 1)) =
        .ok p) :
      Fetches name m (.ok (), replaceProgram
        { (value name m).2 with disk := (m.library.load m.statementRoom file).2 } p)

theorem fetches_loadFile (name : Expr) (m : Machine) : Fetches name m (loadFile name m) := by
  have hrun := run_ofEval (evaluate m.statementRoom name) m
  rw [← value_eq] at hrun
  have hlibrary : (value name m).2.library = m.library := by
    rw [hrun]
    rfl
  have hroom : (value name m).2.statementRoom = m.statementRoom := by
    rw [hrun]
    rfl
  unfold loadFile
  rw [run_bind]
  split
  · rename_i v m₁ hvalue
    obtain rfl : (value name m).2 = m₁ := by rw [hvalue]
    have hresult : (value name m).1 = .ok v := by rw [hvalue]
    rw [run_bind, run_lift]
    cases v with
    | text file =>
      simp only [Value.string, run_get_bind, run_modify_bind, hlibrary, hroom]
      cases hload : (m.library.load m.statementRoom file).1.bind
          (Program.load (m.statementRoom - 1)) with
      | ok p => exact .takes hresult hload
      | error f => exact .fails hresult hload
    | _ => exact .unnamed fun file hfile => by cases hresult.symm.trans hfile
  · rename_i h m₁ hvalue
    obtain rfl : (value name m).2 = m₁ := by rw [hvalue]
    have hresult : (value name m).1 = .error h := by rw [hvalue]
    obtain ⟨f, rfl⟩ : ∃ f, h = .fault f := by
      rw [hrun] at hresult
      split at hresult
      · cases hresult
      · exact ⟨_, (Except.error.inj hresult).symm⟩
    exact .unnamed fun file hfile => by cases hresult.symm.trans hfile

/-- What loading does: it fails, or another program is taken. -/
inductive Loads (m : Machine) : Except Halt Unit × Machine → Prop where
  | fails {m' : Machine} {f : Fault} (opens : m.Opens m') : Loads m (.error (.fault f), m')
  | takes {m' : Machine} {p : Program} (opens : m.Opens m') (built : p.Built) :
      Loads m (.ok (), m'.replaceProgram p)

theorem loads_loadFile (name : Expr) (m : Machine) : Loads m (loadFile name m) := by
  have hopens := (computes_value name).opens m
  have hdisk : ∀ disk, m.Opens { (value name m).2 with disk } := fun disk =>
    hopens.trans ⟨.refl, rfl, rfl, rfl, rfl, rfl, fun _ => .inl⟩
  have hfetches := fetches_loadFile name m
  generalize loadFile name m = r at hfetches
  cases hfetches with
  | unnamed => exact .fails hopens
  | fails => exact .fails (hdisk _)
  | takes named loaded =>
    obtain ⟨text, -, hp⟩ := ok_of_bind loaded
    exact .takes (hdisk _) (Program.loadFrom_built hp .empty)

/-- LOAD is refused in the program, so execution goes on in the typed line. -/
theorem flow_load (column : Nat) (name : Expr) :
    m.Flow ((Command.load name).mark (command column (.load name) m).1)
      (command column (.load name) m) := by
  rw [show command column (.load name) = (do requireDirect; loadFile name : Exec Unit) from rfl,
    run_bind, run_requireDirect]
  cases hline : m.current.line with
  | some n => exact flow_of_moves (.refl m) (moves_refuse _)
  | none =>
    have hloads := loads_loadFile name m
    simp only [Option.isSome_none, Bool.false_eq_true, if_false]
    generalize loadFile name m = r at hloads
    cases hloads with
    | @fails m' f opens => cases f <;> exact flow_of_halt opens _
    | @takes m' p opens built =>
      refine .restarts rfl (trans_of Alters opens.alters (.single (.clear _)))
        (fun _ => built) rfl rfl ?_
      exact .inl ⟨opens.position, .inr ⟨hline, rfl⟩⟩

/-- RUN of a file takes the program and starts it. -/
theorem flow_runFile (column : Nat) (name : Expr) :
    m.Flow ((Command.runFile name).mark (command column (.runFile name) m).1)
      (command column (.runFile name) m) := by
  have hloads := loads_loadFile name m
  rw [show command column (.runFile name) = (do loadFile name; run none : Exec Unit) from rfl,
    run_bind]
  generalize loadFile name m = r at hloads
  cases hloads with
  | @fails m' f opens => cases f <;> exact flow_of_halt opens _
  | @takes m' p opens built =>
    have halters : m.Alters { m'.replaceProgram p with direct := #[] } :=
      trans_of Alters opens.alters (.single (.clear _))
    exact flow_start rfl rfl halters (fun _ => built) opens.position (.inl rfl) none

/-! ## Editing -/

theorem flow_delete (column : Nat) (first last : Option Nat) :
    m.Flow ((Command.delete first last).mark (command column (.delete first last) m).1)
      (command column (.delete first last) m) := by
  rw [show command column (.delete first last) = delete first last from rfl]
  unfold delete
  rw [run_bind, run_requireDirect]
  cases hline : m.current.line with
  | some n => exact flow_of_halt (.refl m) _
  | none =>
    simp only [Option.isSome_none, Bool.false_eq_true, if_false]
    by_cases hopen : (first.isNone && last.isNone) = true
    · rw [if_pos hopen]
      exact flow_of_halt (.refl m) _
    · rw [if_neg hopen]
      exact .edits hline .refl (fun h => h.eraseRange first last) rfl rfl rfl

/-- RENUM leaves a program that was built so again. -/
theorem built_of_renumberDefault {room : Nat} {p q : Program} {newStart oldStart step : Option Nat}
    {count : Nat} (h : p.Built)
    (hok : (p.renumberDefault room newStart oldStart step).1 = .ok (q, count)) : q.Built := by
  have hfits := Program.fits_of_renumber h.orderly hok
  rcases Program.renumber_of_fits room h hfits with ⟨e, -, hdeep⟩ | ⟨q', count', hok', hrenumbered⟩
  · cases hok.symm.trans hdeep
  · obtain ⟨rfl, -⟩ := Prod.mk.inj (Except.ok.inj (hok.symm.trans hok'))
    exact hrenumbered.built

theorem flow_renumber (column : Nat) (newStart oldStart step : Option Nat) :
    m.Flow ((Command.renumber newStart oldStart step).mark
      (command column (.renumber newStart oldStart step) m).1)
      (command column (.renumber newStart oldStart step) m) := by
  rw [show command column (.renumber newStart oldStart step) =
    renumber newStart oldStart step from rfl]
  unfold renumber
  rw [run_bind, run_requireDirect]
  cases hline : m.current.line with
  | some n => exact flow_of_halt (.refl m) _
  | none =>
    simp only [Option.isSome_none, Bool.false_eq_true, if_false, run_get_bind, run_modify_bind]
    cases hrenumber : (m.program.renumberDefault m.statementRoom newStart oldStart step).1 with
    | error f =>
      have hopens : m.Opens { m with
          notices := ((m.program.renumberDefault m.statementRoom newStart oldStart step).2.map
          Notice.missingLine).reverse ++ m.notices } :=
        ⟨.refl, rfl, rfl, rfl, rfl, rfl, fun _ => .inl⟩
      cases f <;> exact flow_of_halt hopens _
    | ok r => exact .edits hline .refl (fun h => built_of_renumberDefault h hrenumber) rfl rfl rfl

/-! ## All commands -/

/-- Commands that leave the program and all that is open. -/
theorem flow_of_not_marked (column : Nat) {c : Command} (h : c.marked = false) :
    m.Flow .plain (command column c m) := by
  cases c with
  | assign target e =>
    exact flow_of_computes ((computes_value e).bind fun v => computes_assign target v)
  | assignPart target start length e =>
    exact flow_of_computes (computes_assignPart target start length e)
  | print items => exact flow_of_computes (computes_print items)
  | input prompt targets question => exact flow_input prompt targets question
  | openFor var start limit step => exact flow_openFor column var start limit step
  | next var => exact flow_nextLoop column var
  | goto ref => exact flow_goto (.refl m) ref
  | gosub ref => exact flow_gosub (.refl m) ref
  | onGoto selector refs => exact flow_selected (fun ref _ h => flow_goto h ref) selector refs
  | onGosub selector refs => exact flow_selected (fun ref _ h => flow_gosub h ref) selector refs
  | leaveSub => exact flow_leaveSub
  | dim arrays => exact flow_of_computes (computes_dim arrays)
  | data items => exact flow_of_opens (.refl m)
  | read targets => exact flow_of_computes (computes_read targets)
  | restore ref => exact flow_of_computes (computes_restore ref)
  | finish => exact .ends
  | stop => exact flow_of_halt (.refl m) _
  | remark s => exact flow_of_opens (.refl m)
  | openWhile condition => exact flow_openWhile condition
  | wend => exact flow_wend
  | define name params body => exact flow_of_computes (computes_define name params body)
  | declare kind letters =>
    exact flow_of_computes (computes_modifyVariables fun s => .declare s letters kind)
  | swap first second => exact flow_of_computes (computes_swap first second)
  | erase names => exact flow_of_computes (computes_erase names)
  | cls | traceOn | traceOff => exact flow_of_opens ⟨.refl, rfl, rfl, rfl, rfl, rfl, fun _ => .inl⟩
  | cont => exact flow_cont
  | list first last => exact flow_of_computes (moves_get fun m => computes_writeLines _ m)
  | save name =>
    exact flow_of_computes (computes_requireDirect.bind fun _ => computes_saveFile name)
  | clear | new | run | runFile | load | delete | renumber => cases h

/-- **What every command does.** -/
theorem flow_command (column : Nat) (c : Command) (m : Machine) :
    m.Flow (c.mark (command column c m).1) (command column c m) := by
  cases hmarked : c.marked with
  | false =>
    rw [Command.mark_eq_plain hmarked]
    exact flow_of_not_marked column hmarked
  | true =>
    cases c with
    | clear => exact .restarts rfl (.single (.clear _)) id rfl rfl (.inl ⟨rfl, .inl rfl⟩)
    | new => exact .restarts rfl (.single (.clear _)) (fun _ => .empty) rfl rfl (.inr (.inr rfl))
    | run ref => exact flow_run ref
    | runFile name => exact flow_runFile column name
    | load name => exact flow_load column name
    | delete first last => exact flow_delete column first last
    | renumber newStart oldStart step => exact flow_renumber column newStart oldStart step
    | _ => cases hmarked

theorem flow_jumpTo (h : m.Opens m₁) {target : Option Nat}
    (htarget : ∀ n code t, m.position.line = some n → m.codeAt? (some n) = some code →
      target = some t → t ≤ code.size) :
    m.Flow .plain (jumpTo target m₁) := by
  unfold jumpTo
  rw [run_modify]
  simp only [h.codeAt?, h.position]
  refine .goes h (.jump fun n code hline hcode => ?_)
  cases target with
  | none => simp [hline, hcode]
  | some t => exact htarget n code t hline hcode rfl

/-- **What every instruction does**, if no jump leaves a line of the program. -/
theorem flow_instr (i : Instr) (m : Machine)
    (htarget : ∀ n code t, m.position.line = some n → m.codeAt? (some n) = some code →
      i.target? = some t →
      t ≤ code.size) : m.Flow (i.mark (instr i m).1) (instr i m) := by
  cases i with
  | command column c => exact flow_command column c m
  | jump column target => exact flow_jumpTo (.refl m) htarget
  | branch column condition target =>
    refine flow_bind (.refl m) (computes_value condition).opens fun v m₁ h₁ => ?_
    refine flow_bind h₁ (moves_lift _) fun holds m₂ h₂ => ?_
    cases holds with
    | true => exact flow_of_opens h₂
    | false => exact flow_jumpTo h₂ htarget

/-- Every instruction leads the variables through the known operations. -/
theorem alters_instr (i : Instr) : Moves Alters (instr i) := by
  cases i with
  | command column c => exact fun m => (flow_command column c m).alters
  | jump column target => exact moves_modify fun _ => .refl
  | branch column condition target =>
    refine (computes_value condition).bind fun v => (moves_lift _).bind fun holds => ?_
    exact moves_ite (moves_pure _) (moves_modify fun _ => .refl)

end Exec

end LineBasic
