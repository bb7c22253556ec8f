import Mathlib
import LineBasic.Proofs.LoopHistory
import LineBasic.Proofs.SavedPositions

/-!
# Where RETURN goes on

Subroutines are left in the order opposite to that in which they were called: a RETURN goes on
behind the GOSUB whose subroutine it leaves.

* `Exec.run_leaveSub`, `Machine.Calls`, `Machine.Selects`: what RETURN, GOSUB and ON ... GOSUB do.
* `Session.Step.code_eq`: while a subroutine is open and the program is not edited, the code stays.
* `Session.Called`: what happens from a GOSUB until its subroutine is left. `Session.Resumes`:
  execution goes on behind the GOSUB.
* `Session.returns_in_order`: the main result.
-/

namespace LineBasic

namespace Machine

/-- The machine after a GOSUB to a line. -/
def called (m : Machine) (n : Nat) : Machine :=
  { m with
    stack := { m.stack with
      returns := ⟨m.position, m.stack.loops.length, m.stack.whiles.length⟩ :: m.stack.returns }
    position := ⟨some n, 0⟩ }

/-- What a GOSUB comes to: it fails and changes nothing, or it opens a subroutine. -/
inductive Calls (m : Machine) (ref : LineRef) : Except Halt Unit × Machine → Prop where
  | missing (missing : m.program.contains ref.line = false) :
      Calls m ref (.error (.fault (.error (.atColumn .undefinedLine ref.column))), m)
  | full (stored : m.program.contains ref.line = true)
      (full : m.stackLimit ≤ m.stack.frames + m.memory.calls) :
      Calls m ref (.error (.fault (.error (.of .stackOverflow))), m)
  | opens (stored : m.program.contains ref.line = true)
      (room : m.stack.frames + m.memory.calls < m.stackLimit) :
      Calls m ref (.ok (), m.called ref.line)

/-- What ON ... GOSUB comes to: there is no number that selects, the number selects no line, or a
line is called. The selecting expression changes nothing but the memory. -/
inductive Selects (m : Machine) (refs : List LineRef) : Except Halt Unit × Machine → Prop where
  | fails (h : Halt) (memory : Memory) : Selects m refs (.error h, { m with memory })
  | passes (memory : Memory) : Selects m refs (.ok (), { m with memory })
  | calls {ref : LineRef} {memory : Memory} {r : Except Halt Unit × Machine} (mem : ref ∈ refs)
      (calls : Calls { m with memory } ref r) : Selects m refs r

/-- The machine after a RETURN to a frame. -/
def left (m : Machine) (frame : ReturnFrame) (outer : List ReturnFrame) : Machine :=
  { m with
    stack := { m.stack with
      returns := outer
      loops := Exec.outermost frame.loops m.stack.loops
      whiles := Exec.outermost frame.whiles m.stack.whiles }
    position := frame.position }

end Machine

namespace Exec

open Machine

theorem calls_gosub (ref : LineRef) (m : Machine) : m.Calls ref (gosub ref m) := by
  unfold gosub
  rw [run_get_bind]
  cases hstored : m.program.contains ref.line with
  | false => exact .missing hstored
  | true =>
    simp only [Bool.not_true, Bool.false_eq_true, if_false]
    rw [run_checkStack_bind]
    split
    · rename_i hfull
      exact .full hstored hfull
    · rename_i hroom
      exact .opens hstored (Int.not_le.mp hroom)

/-- A line that ON selects is one of its list. -/
theorem mem_of_selected {selector : Expr} {refs : List LineRef} {ref : LineRef} {m m' : Machine}
    (h : selected selector refs m = (.ok (some ref), m')) : ref ∈ refs := by
  unfold selected at h
  rw [run_bind] at h
  cases hvalue : value selector m with
  | mk r m₁ =>
    rw [hvalue] at h
    cases r with
    | error e => cases h
    | ok v =>
      simp only at h
      rw [run_bind, run_lift] at h
      cases hinteger : v.integer with
      | error e =>
        rw [hinteger] at h
        cases h
      | ok n =>
        rw [hinteger] at h
        simp only at h
        split at h
        · cases h
        · split at h
          · cases h
          · exact List.mem_of_getElem? (Except.ok.inj (Prod.mk.inj h).1)

theorem selects_onGosub (selector : Expr) (refs : List LineRef) (m : Machine) : m.Selects refs ((do
    match ← selected selector refs with
    | some ref => gosub ref
    | none => return () : Exec Unit) m) := by
  obtain ⟨memory, hrun⟩ := remembers_selected selector refs m
  rw [run_bind]
  cases hresult : selected selector refs m with
  | mk r m' =>
    rw [hresult] at hrun
    obtain rfl : m' = _ := hrun
    rcases r with e | _ | ref
    · exact .fails e memory
    · exact .passes memory
    · exact .calls (mem_of_selected hresult) (calls_gosub ref _)

theorem run_leaveSub (m : Machine) : leaveSub m =
    match m.stack.returns with
    | [] => (.error (.fault (.error (.of .returnWithoutGosub))), m)
    | frame :: outer => (.ok (), m.left frame outer) := by
  unfold leaveSub
  rw [run_get_bind]
  cases m.stack.returns <;> rfl

end Exec

namespace Session

open Machine

variable {settings : Settings} {P : Session → Prop} {s s₀ s₁ s₂ s₃ t : Session}

/-- How many subroutines are open. -/
def depth (s : Session) : Nat := s.machine.stack.returns.length

/-- The next step may close everything: a line is waited for, or RUN, CLEAR, NEW or LOAD comes
next. -/
def nearsClearing (s : Session) : Prop := s.phase = .prompt ∨ s.machine.upcoming?.any Instr.clears

/-! ## The code -/

/-- The code is the same: that of the program, and that of the typed line while it is executed. -/
structure SameCode (s t : Session) : Prop where
  edited : t.edited = s.edited
  program : t.machine.program = s.machine.program
  direct : s.phase = .running → t.phase = .running → t.machine.direct = s.machine.direct

/-- At the prompt no typed line is executed. -/
theorem SameCode.of_prompt (hprompt : s.phase = .prompt ∨ t.phase = .prompt)
    (hedited : t.edited = s.edited) (hprogram : t.machine.program = s.machine.program) :
    SameCode s t := by
  refine ⟨hedited, hprogram, fun hs ht => ?_⟩
  rcases hprompt with h | h
  · cases hs.symm.trans h
  · cases ht.symm.trans h

/-- An instruction that does not close everything and does not edit the program leaves the code. -/
theorem code_eq_of_flow {m m' : Machine} {mark : Mark} {edited : Bool} {r : Except Halt Unit}
    (h : m.Flow mark (r, m')) (hopen : m'.stack ≠ {}) (hedited : mark.edited edited = false) :
    mark = .plain ∧ m'.program = m.program ∧ m'.direct = m.direct := by
  cases h with
  | goes opens | fails opens => exact ⟨rfl, opens.program, opens.direct⟩
  | ends | resumes => exact ⟨rfl, rfl, rfl⟩
  | restarts _ _ _ stack => exact absurd stack hopen
  | edits => cases hedited

theorem program_settle (r : Except Halt Unit) (m : Machine) :
    (settle r m).2.program = m.program := by
  obtain ⟨_, _, _, _, h⟩ := reports_settle r m
  rw [h]

theorem sameCode_turned {edited : Bool} {m : Machine} (hbuilt : m.program.Built)
    (hopen : (turned m edited (tick m)).machine.stack ≠ {})
    (hedited : (turned m edited (tick m)).edited = false) :
    SameCode ⟨.running, edited, m⟩ (turned m edited (tick m)) := by
  have hturn := turn_tick m
  generalize tick m = r at hturn hopen hedited
  have hplain : ∀ {r : Except Halt Bool}, m.mark r = .plain → (m.mark r).edited edited = edited :=
    fun hmark => by rw [hmark]; rfl
  cases hturn with
  | missing => exact .of_prompt (.inr rfl) (hplain (mark_crash m _)) (program_settle _ _)
  | typedEnd | programEnd => exact .of_prompt (.inr rfl) rfl (program_settle _ _)
  | lineEnd code_eq ended =>
    exact ⟨hplain (mark_eq_plain (upcoming?_eq_none code_eq ended)), rfl, fun _ _ => rfl⟩
  | broken _ _ pending =>
    exact .of_prompt (.inr rfl) (hplain (mark_eq_plain (upcoming?_of_breakPending pending)))
      (program_settle _ _)
  | cut _ _ _ trace =>
    obtain ⟨c, rfl⟩ := crash_of_showTrace trace
    obtain ⟨_, _, _, rfl⟩ := writes_of_showTrace trace
    exact .of_prompt (.inr rfl) (hplain (mark_crash m c)) (program_settle _ _)
  | executed code_eq here pending trace run =>
    have hwrites := writes_of_showTrace trace
    have hflow := flow_atStatement code_eq here hwrites hbuilt
    rw [run, ← mark_ok, ← mark_eq code_eq here pending] at hflow
    obtain ⟨hmark, hprogram, hdirect⟩ := code_eq_of_flow hflow hopen hedited
    obtain ⟨_, _, _, rfl⟩ := hwrites
    exact ⟨hplain hmark, hprogram, fun _ _ => hdirect⟩
  | @halted code i e m' m'' code_eq here pending trace run =>
    have hwrites := writes_of_showTrace trace
    have hflow := flow_atStatement code_eq here hwrites hbuilt
    rw [run, ← mark_placeHalt i m.position.line, ← mark_eq code_eq here pending] at hflow
    have hopen' : m''.stack ≠ {} := by
      rwa [← stack_settle (.error (placeHalt m.position.line e)) m'']
    obtain ⟨hmark, hprogram, -⟩ := code_eq_of_flow hflow hopen' hedited
    obtain ⟨_, _, _, rfl⟩ := hwrites
    exact .of_prompt (.inr rfl) (hplain hmark) ((program_settle _ _).trans hprogram)

/-- **While something is open and the program is not edited, the code stays.** -/
theorem Step.sameCode (hstep : Step s t) (hbuilt : s.machine.program.Built)
    (hopen : t.machine.stack ≠ {}) (hedited : t.edited = false) : SameCode s t := by
  cases hstep with
  | world elsewhere =>
    obtain ⟨_, _, _, _, _, _, _, _, _, rfl⟩ := elsewhere
    exact ⟨rfl, rfl, fun _ _ => rfl⟩
  | enter text edited m =>
    have haccepts := accepts_accept text m
    generalize accept text m = r at haccepts hopen hedited
    cases haccepts with
    | stored read number =>
      have hnumbered : (edited || isNumbered (m.room - 1) text) = true := by
        simp [isNumbered, read, number]
      cases hnumbered.symm.trans hedited
    | nothing read number =>
      have hsame : (edited || isNumbered (m.room - 1) text) = edited := by
        simp [isNumbered, read, number]
      exact .of_prompt (.inl rfl) hsame rfl
    | code => exact .of_prompt (.inl rfl) rfl rfl
    | @refused r m' refused reports =>
      obtain ⟨_, _, _, _, rfl⟩ := reports
      rcases r with c | entry
      · exact .of_prompt (.inl rfl) rfl rfl
      · obtain rfl := refused entry rfl
        exact .of_prompt (.inl rfl) rfl rfl
  | load text edited m =>
    have htakes := takes_load text m
    generalize Machine.load text m = r at htakes hopen hedited
    cases htakes with
    | takes => exact absurd rfl hopen
    | @refused r m' refused reports =>
      obtain ⟨_, _, _, _, rfl⟩ := reports
      rcases r with c | taken
      · exact .of_prompt (.inl rfl) rfl rfl
      · obtain rfl := refused taken rfl
        exact .of_prompt (.inl rfl) rfl rfl
  | start line edited m =>
    have hprepares := prepares_prepare line m
    generalize prepare line m = r at hprepares hopen
    cases hprepares with
    | goes => exact absurd rfl hopen
    | @stays r m' stays reports =>
      have hstack := stack_of_reports reports
      rcases r with c | _ | _ <;> exact absurd hstack hopen
  | ready => exact .of_prompt (.inl rfl) rfl rfl
  | turn edited m => exact sameCode_turned hbuilt hopen hedited
  | abandon c edited m => exact .of_prompt (.inr rfl) rfl (program_settle _ _)

/-! ## One RETURN -/

/-- A step that leaves a subroutine but does not close everything is a RETURN. -/
theorem Shifts.nearsReturn_of_lt (h : s.Shifts t) (hkept : ¬s.nearsClearing)
    (hdepth : t.depth < s.depth) :
    s.nearsReturn := by
  unfold depth at hdepth
  cases h with
  | rests _ stack =>
    rw [stack] at hdepth
    omega
  | forgets _ prompt => exact absurd (.inl prompt) hkept
  | executes running upcoming shifts =>
    generalize s.opensLoop t = opened at shifts
    generalize t.machine.stack = stack at shifts hdepth
    cases shifts with
    | kept | closesLoops | opensLoop | opensWhile | closesWhile =>
      simp only at hdepth
      omega
    | cleared clears => exact absurd (.inr (by simpa [upcoming] using clears)) hkept
    | calls =>
      simp only [List.length_cons] at hdepth
      omega
    | returns isReturn => exact ⟨running, by simpa [upcoming] using isReturn⟩

/-- A RETURN goes on where the innermost subroutine was called, and leaves the code. -/
theorem Step.of_return (hstep : Step s t) (hreturn : s.nearsReturn) (hdepth : t.depth < s.depth) :
    SameCode s t ∧ t.phase = .running ∧
      ∃ frame, s.machine.stack.returns = frame :: t.machine.stack.returns ∧
        t.machine.position = frame.position := by
  obtain ⟨hrunning, hupcoming⟩ := hreturn
  unfold depth at hdepth
  cases hstep with
  | world elsewhere =>
    obtain ⟨_, _, _, _, _, _, _, _, _, rfl⟩ := elsewhere
    simp only at hdepth
    omega
  | enter | load | start | ready => cases hrunning
  | abandon =>
    rw [stack_settle] at hdepth
    simp only at hdepth
    omega
  | turn edited m =>
    have hturn := turn_tick m
    generalize tick m = r at hturn hdepth
    cases hturn with
    | missing | typedEnd | programEnd | broken =>
      simp only [turned, stack_settle] at hdepth
      omega
    | lineEnd =>
      simp only [turned] at hdepth
      omega
    | cut _ _ _ trace =>
      obtain ⟨_, _, _, rfl⟩ := writes_of_showTrace trace
      simp only [turned, stack_settle] at hdepth
      omega
    | @executed code i m' m'' code_eq here pending trace run =>
      have hnext := upcoming?_eq_some pending code_eq here
      obtain ⟨column, rfl⟩ := eq_leaveSub_of_isReturn (by simpa [hnext] using hupcoming)
      have hmark : m.mark (.ok true) = .plain := mark_eq code_eq here pending _
      obtain ⟨_, _, _, rfl⟩ := writes_of_showTrace trace
      replace run : Exec.leaveSub _ = _ := run
      rw [Exec.run_leaveSub] at run
      split at run
      · cases run
      · rename_i frame outer hreturns
        obtain ⟨-, rfl⟩ := Prod.mk.inj run
        exact ⟨⟨by change (m.mark (.ok true)).edited edited = edited; rw [hmark]; rfl, rfl,
          fun _ _ => rfl⟩, rfl, frame, hreturns, rfl⟩
    | @halted code i e m' m'' code_eq here pending trace run =>
      have hnext := upcoming?_eq_some pending code_eq here
      obtain ⟨column, rfl⟩ := eq_leaveSub_of_isReturn (by simpa [hnext] using hupcoming)
      obtain ⟨_, _, _, rfl⟩ := writes_of_showTrace trace
      replace run : Exec.leaveSub _ = _ := run
      rw [Exec.run_leaveSub] at run
      split at run
      · obtain ⟨-, rfl⟩ := Prod.mk.inj run
        simp only [turned, stack_settle] at hdepth
        exact absurd hdepth (lt_irrefl _)
      · cases run

/-! ## From the GOSUB to the RETURN -/

/-- A subroutine: a step calls it, it stays open while other steps are taken from states with the
property `P`, and then a step leaves it. -/
structure Called (P : Session → Prop) (s₀ s₁ s₂ s₃ : Session) : Prop where
  call : Step s₀ s₁
  opened : s₁.depth = s₀.depth + 1
  inside : Relation.ReflTransGen (fun s t => P s ∧ Step s t ∧ s₁.depth ≤ t.depth) s₁ s₂
  before : P s₂
  leave : Step s₂ s₃
  closed : s₃.depth < s₁.depth

/-- Execution goes on at the statement behind a call, with the subroutines open that were open
before it. If the program was not edited, it is the same, and so is the typed line if execution was
not interrupted. -/
structure Resumes (P : Session → Prop) (s t : Session) : Prop where
  running : t.phase = .running
  position : t.machine.position = s.machine.position.after
  returns : t.machine.stack.returns = s.machine.stack.returns
  program : t.edited = false → t.machine.program = s.machine.program
  direct : t.edited = false → (∀ u, P u → u.phase = .running) → t.machine.direct = s.machine.direct

/-- The frame that a call keeps. -/
def frame (s : Session) : ReturnFrame :=
  ⟨s.machine.position.after, s.machine.stack.loops.length, s.machine.stack.whiles.length⟩

/-- What holds inside a subroutine that was called from `s₀`: its frame is kept, and so is the
code. -/
structure Inside (P : Session → Prop) (s₀ s : Session) : Prop where
  returns : s₀.frame :: s₀.machine.stack.returns <:+ s.machine.stack.returns
  program : s.edited = false → s.machine.program = s₀.machine.program
  direct : s.edited = false → (∀ u, P u → u.phase = .running) → s.phase = .running →
    s.machine.direct = s₀.machine.direct

theorem stack_ne_of_depth (h : 0 < t.depth) : t.machine.stack ≠ {} := by
  intro hstack
  rw [depth, hstack] at h
  exact absurd h (lt_irrefl _)

/-- Only a running machine calls a subroutine. -/
theorem Shifts.running_of_call (h : s.Shifts t) (hopened : t.depth = s.depth + 1) :
    s.phase = .running := by
  unfold depth at hopened
  cases h with
  | rests _ stack =>
    rw [stack] at hopened
    omega
  | forgets _ _ stack =>
    rw [stack] at hopened
    cases hopened
  | executes running => exact running

theorem Called.enters (h : Called P s₀ s₁ s₂ s₃) (hbuilt : s₀.machine.program.Built) :
    Inside P s₀ s₁ := by
  have hstack := (h.call.shifts.of_call h.opened).2
  have hrunning := h.call.shifts.running_of_call h.opened
  have hcode := h.call.sameCode hbuilt (stack_ne_of_depth (by rw [h.opened]; exact Nat.succ_pos _))
  refine ⟨?_, fun hedited => (hcode hedited).program, fun hedited _ =>
    (hcode hedited).direct hrunning⟩
  rw [hstack]
  exact List.suffix_refl _

/-- A step that leaves the subroutine open. -/
theorem Inside.step (h : Inside P s₀ s) (hP : P s) (hbuilt : s.machine.program.Built)
    (hstep : Step s t) (hdepth : s₀.depth < t.depth) : Inside P s₀ t := by
  have hcode := hstep.sameCode hbuilt (stack_ne_of_depth (by omega))
  refine ⟨?_, fun hedited => ?_, fun hedited hrun hrunning => ?_⟩
  · rcases hstep.shifts.returns with hnil | ⟨frame, hcons⟩ | ⟨hsuffix, -⟩
    · rw [depth, depth, hnil] at hdepth
      cases hdepth
    · exact hcons ▸ h.returns.trans (List.suffix_cons _ _)
    · exact List.suffix_of_suffix_length_le h.returns hsuffix hdepth
  · have hsame := hcode hedited
    exact hsame.program.trans (h.program (hsame.edited ▸ hedited))
  · have hsame := hcode hedited
    exact (hsame.direct (hrun s hP) hrunning).trans
      (h.direct (hsame.edited ▸ hedited) hrun (hrun s hP))

/-- Until it is left, the subroutine stays open. -/
theorem Called.runs (h : Called P s₀ s₁ s₂ s₃) (hreached : Reached settings s₀) :
    Inside P s₀ s₂ := by
  have hsteps := h.inside
  have hall : ∀ t, Relation.ReflTransGen (fun s t => P s ∧ Step s t ∧ s₁.depth ≤ t.depth) s₁ t →
      Reached settings t ∧ Inside P s₀ t := by
    intro t hsteps
    induction hsteps with
    | refl => exact ⟨hreached.tail h.call, h.enters hreached.safe.keeps.built⟩
    | tail _ hstep ih =>
      obtain ⟨hP, hstep, hdepth⟩ := hstep
      exact ⟨ih.1.tail hstep, ih.2.step hP ih.1.safe.keeps.built hstep
        (by rw [h.opened] at hdepth; omega)⟩
  exact (hall s₂ hsteps).2

/-- Leaving the subroutine leads back behind its call. -/
theorem Called.resumes (h : Called P s₀ s₁ s₂ s₃) (hreached : Reached settings s₀)
    (hkept : ¬s₂.nearsClearing) :
    s₂.nearsReturn ∧ Resumes P s₀ s₃ := by
  have hinside := h.runs hreached
  have hclosed := h.closed
  have hopened := h.opened
  have hlength : s₀.depth + 1 ≤ s₂.depth := hinside.returns.length_le
  have hreturn := h.leave.shifts.nearsReturn_of_lt hkept (by omega)
  obtain ⟨hcode, hrunning, frame, hreturns, hposition⟩ := h.leave.of_return hreturn (by omega)
  have hsame : s₀.frame :: s₀.machine.stack.returns = frame :: s₃.machine.stack.returns := by
    rw [← hreturns]
    refine hinside.returns.eq_of_length ?_
    rw [hreturns, List.length_cons, List.length_cons]
    unfold depth at hlength hclosed hopened
    rw [hreturns, List.length_cons] at hlength
    omega
  obtain ⟨hframe, houter⟩ := List.cons.inj hsame
  refine ⟨hreturn, hrunning, hposition.trans (congrArg ReturnFrame.position hframe.symm),
    houter.symm, fun hedited => ?_, fun hedited hrun => ?_⟩
  · exact hcode.program.trans (hinside.program (hcode.edited ▸ hedited))
  · have hbefore := hrun s₂ h.before
    exact (hcode.direct hbefore hrunning).trans
      (hinside.direct (hcode.edited ▸ hedited) hrun hbefore)

/-! ## The main result -/

/-- **Subroutines are left in the order opposite to that in which they were called.** For every call
in every session: the step that first leaves fewer subroutines open than there were just after it,
unless it closes everything, is a RETURN, and execution goes on at the statement behind the call,
with the subroutines open that were open before it. A RETURN without an open subroutine fails and
changes nothing, and neither does a GOSUB that fails: only one to a stored line, for which there is
room, opens a subroutine. -/
theorem returns_in_order (settings : Settings) :
    (∀ P s₀ s₁ s₂ s₃, Reached settings s₀ → Called P s₀ s₁ s₂ s₃ → ¬s₂.nearsClearing →
      s₂.nearsReturn ∧ Resumes P s₀ s₃) ∧
    (∀ column (m : Machine), m.stack.returns = [] →
      Exec.command column .leaveSub m = (.error (.fault (.error (.of .returnWithoutGosub))), m)) ∧
    (∀ column ref (m : Machine), m.Calls ref (Exec.command column (.gosub ref) m)) ∧
    ∀ column selector refs (m : Machine),
      m.Selects refs (Exec.command column (.onGosub selector refs) m) := by
  refine ⟨fun P s₀ s₁ s₂ s₃ hreached hcalled => hcalled.resumes hreached,
    fun column m hreturns => ?_, fun column => Exec.calls_gosub, fun column => Exec.selects_onGosub⟩
  change Exec.leaveSub m = _
  rw [Exec.run_leaveSub, hreturns]

theorem step_next (h : s.phase = .running) : Step s s.next := by
  obtain ⟨phase, edited, m⟩ := s
  obtain rfl : phase = .running := h
  exact .turn edited m

/-- The next turn calls a subroutine, and it is left so many turns later. -/
theorem Called.of_turns {n : Nat} (hrunning : s.phase = .running)
    (hruns : ∀ k ≤ n, (next^[k] s.next).phase = .running) (hopened : s.next.depth = s.depth + 1)
    (hinside : ∀ k ≤ n, s.next.depth ≤ (next^[k] s.next).depth)
    (hclosed : (next^[n] s.next).next.depth < s.next.depth) :
    Called (fun s => s.phase = .running) s s.next (next^[n] s.next) (next^[n] s.next).next := by
  refine ⟨step_next hrunning, hopened, ?_, hruns n le_rfl, step_next (hruns n le_rfl), hclosed⟩
  clear hclosed
  induction n with
  | zero => exact .refl
  | succ n ih =>
    refine (ih (fun k hk => hruns k (by omega)) fun k hk => hinside k (by omega)).tail
      ⟨hruns n (Nat.le_succ n), ?_, hinside (n + 1) le_rfl⟩
    rw [Function.iterate_succ_apply']
    exact step_next (hruns n (Nat.le_succ n))

/-- A machine that was given a program with a call in a branch, of a subroutine that calls another
one in a loop. -/
def withBranch : Session := loaded false
  (load
    "10 IF 1 THEN GOSUB 30:PRINT 1 ELSE PRINT 2\n20 END\n30 FOR I=1 TO 2:GOSUB 40:RETURN\n40 RETURN"
    (.new default))

/-- The call in the branch comes next. -/
def inBranch : Session := (started (prepare none withBranch.machine)).next

theorem returns_in_order_inBranch : inBranch.machine.position = ⟨some 10, 1⟩ ∧
    (next^[3] inBranch.next).next.machine.position = ⟨some 10, 2⟩ ∧
      (next^[3] inBranch.next).next.machine.stack.returns = [] := by
  have hfacts : withBranch.phase = .prompt ∧
    (started (prepare none withBranch.machine)).phase = .running ∧
      inBranch.phase = .running ∧ (∀ k ≤ 3, (next^[k] inBranch.next).phase = .running) ∧
      inBranch.machine.position = ⟨some 10, 1⟩ ∧ inBranch.machine.stack.returns = [] ∧
      (∀ k ≤ 3, inBranch.next.depth ≤ (next^[k] inBranch.next).depth) ∧
      inBranch.next.depth = inBranch.depth + 1 ∧
      (next^[3] inBranch.next).next.depth < inBranch.next.depth ∧
      (next^[3] inBranch.next).machine.upcoming?.any Instr.clears = false := by
    decide +kernel
  obtain ⟨hprompt, hstarted, hrunning, hruns, hposition, hreturns, hdepth, hopened, hclosed,
    hkept⟩ := hfacts
  have hloaded : Reached default withBranch := Reached.loaded (s := init default) .refl rfl _
  have hreached : Reached default inBranch := (hloaded.started hprompt none).next hstarted
  have hnears : ¬(next^[3] inBranch.next).nearsClearing := by
    rintro (hprompt | hclears)
    · rw [hruns 3 le_rfl] at hprompt
      cases hprompt
    · rw [hkept] at hclears
      cases hclears
  obtain ⟨-, hresumes⟩ :=
    (returns_in_order default).1 _ _ _ _ _ hreached
      (.of_turns hrunning hruns hopened hdepth hclosed) hnears
  exact ⟨hposition, hresumes.position.trans (by rw [hposition]; rfl),
    hresumes.returns.trans hreturns⟩

end Session

end LineBasic
