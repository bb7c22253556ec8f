import Mathlib
import LineBasic.Proofs.Openings
import LineBasic.Proofs.StoreInvariant

/-!
# How much can be open

Subroutines, loops and calls of functions share one limit. What the interpreter does to them is made
of a few moves: it closes some of them, it passes through a memory while it evaluates expressions,
in the course of which calls of functions are opened and closed, or it opens a subroutine or a loop
after it has made sure that there is room.

* `calls_le_of_memories`: how many calls of functions are open while expressions are evaluated.
* `Machine.Leads`: one move. `Machine.Bounded`: what every move keeps, by `Machine.Leads.bounded`.
* `Exec.runs_instr`, `Session.Step.runs`: every instruction, and every step of a session, is made of
  such moves.
* `Session.stack_bounded`: the main result.
-/

namespace LineBasic

/-! ## Calls of functions -/

/-- No more is open than a bound, which is not below the limit. -/
theorem upheld_calls {scope : Scope} {bound : Int} (hlimit : scope.stackLimit ≤ bound) :
    Upheld scope fun _ m => (scope.frames + m.calls : Int) ≤ bound where
  varied _ _ h := h
  reached _ _ _ h := ⟨false, h, nofun⟩
  opened hfree _ := by
    simp only [Nat.cast_add, Nat.cast_one]
    omega
  bound _ h := h
  closed h := by
    simp only at h ⊢
    omega
  restored _ _ _ h := h

/-- No more is open in the course of an evaluation than before it, or than is allowed. -/
theorem calls_le_of_memories {scope : Scope} {room : Nat} {es : List Expr} {m m' : Memory}
    (h : m' ∈ Observed.memories (observeAll room es scope m)) :
    (scope.frames + m'.calls : Int) ≤ max (scope.frames + m.calls : Int) scope.stackLimit := by
  have hup := upheld_calls (le_max_right (scope.frames + m.calls : Int) scope.stackLimit)
  obtain ⟨_, hle, -⟩ := upholds_evaluateAll hup room es m (le_max_left _ _) m' h
  exact hle

/-! ## Moves -/

namespace Machine

/-- One move of the interpreter, as far as it matters to what is open. -/
inductive Leads : Machine → Machine → Prop where
  | closes {m m' : Machine} (returns : m'.stack.returns <:+ m.stack.returns)
      (loops : m'.stack.loops <:+ m.stack.loops)
      (whiles : m'.stack.whiles <:+ m.stack.whiles) (calls : m'.memory.calls ≤ m.memory.calls)
      (stackLimit : m'.stackLimit = m.stackLimit) : Leads m m'
  | evaluates {m : Machine} {room : Nat} {es : List Expr} {memory : Memory}
      (passes : memory ∈ Observed.memories (observeAll room es m.scope m.memory)) :
      Leads m { m with memory }
  | opensSub {m : Machine} (frame : ReturnFrame) (room : Exec.checkStack m = (.ok (), m)) :
      Leads m { m with stack := { m.stack with returns := frame :: m.stack.returns } }
  | opensLoop {m m' : Machine} (frame : LoopFrame)
      (closed : m' = m.withLoops (Exec.closeLoop frame.var m.stack.loops))
      (room : Exec.checkStack m' = (.ok (), m')) : Leads m (m'.withLoops (frame :: m'.stack.loops))
  | opensWhile {m : Machine} (p : Position) (room : Exec.checkStack m = (.ok (), m)) :
      Leads m { m with stack := { m.stack with whiles := p :: m.stack.whiles } }

/-- No two FOR loops are over the same variable, and all that is open keeps to the limit; nothing
can be open if that is negative. -/
structure Bounded (limit : Int) (m : Machine) : Prop where
  stackLimit : m.stackLimit = limit
  loops : (m.stack.loops.map LoopFrame.var).Nodup
  within : (m.stack.returns.length + m.stack.loops.length + m.stack.whiles.length + m.memory.calls :
    Int) ≤ max limit 0

theorem checkStack_eq_ok_iff {m : Machine} : Exec.checkStack m = (.ok (), m) ↔
    (m.stack.frames + m.memory.calls : Int) < m.stackLimit := by
  unfold Exec.checkStack
  rw [run_get_bind]
  by_cases hfull : m.stackLimit ≤ (m.stack.frames + m.memory.calls : Int)
  · rw [if_pos hfull]
    exact iff_of_false (fun h => by cases h) (Int.not_lt.mpr hfull)
  · rw [if_neg hfull]
    exact iff_of_true rfl (Int.not_le.mp hfull)

theorem notMem_closeLoop {var : String} {loops : List LoopFrame}
    (h : (loops.map LoopFrame.var).Nodup) :
    var ∉ (Exec.closeLoop var loops).map LoopFrame.var := by
  unfold Exec.closeLoop
  split
  · rename_i hany
    rcases hfound : loops.dropWhile fun f => f.var != var with _ | ⟨frame, outer⟩
    · rw [hfound]
      exact List.not_mem_nil
    · rw [hfound]
      have hhead := List.head_dropWhile_not (fun f : LoopFrame => f.var != var) (l := loops)
        (by rw [hfound]; simp)
      have hsuffix : frame :: outer <:+ loops := hfound ▸ List.dropWhile_suffix _
      have hnodup := h.sublist (hsuffix.sublist.map LoopFrame.var)
      obtain rfl : frame.var = var := by simpa [hfound] using hhead
      exact (List.nodup_cons.mp hnodup).1
  · rename_i hnone
    rintro hmem
    obtain ⟨frame, hframe, rfl⟩ := List.mem_map.mp hmem
    exact hnone (List.any_eq_true.mpr ⟨frame, hframe, by simp⟩)

/-- **Every move keeps the bound.** -/
theorem Leads.bounded {limit : Int} {m m' : Machine} (h : m.Leads m') (hm : m.Bounded limit) :
    m'.Bounded limit := by
  obtain ⟨rfl, hloops, hwithin⟩ := hm
  cases h with
  | closes returns loops whiles calls stackLimit =>
    refine ⟨stackLimit, hloops.sublist (loops.sublist.map _), ?_⟩
    have := returns.length_le
    have := loops.length_le
    have := whiles.length_le
    omega
  | evaluates passes =>
    refine ⟨rfl, hloops, ?_⟩
    have hle := calls_le_of_memories passes
    simp only [scope, Stacks.frames] at hle ⊢
    omega
  | opensSub frame room =>
    refine ⟨rfl, hloops, ?_⟩
    have hroom := checkStack_eq_ok_iff.mp room
    simp only [Stacks.frames, List.length_cons] at hroom ⊢
    omega
  | opensLoop frame closed room =>
    subst closed
    have hroom := checkStack_eq_ok_iff.mp room
    refine ⟨rfl, ?_, ?_⟩
    · exact List.nodup_cons.mpr
        ⟨notMem_closeLoop hloops,
          hloops.sublist ((Exec.closeLoop_suffix frame.var m.stack.loops).sublist.map _)⟩
    · simp only [withLoops, Stacks.frames, List.length_cons] at hroom ⊢
      omega
  | opensWhile p room =>
    refine ⟨rfl, hloops, ?_⟩
    have hroom := checkStack_eq_ok_iff.mp room
    simp only [Stacks.frames, List.length_cons] at hroom ⊢
    omega

theorem bounded_of_leads {limit : Int} {m m' : Machine} (h : Relation.ReflTransGen Leads m m')
    (hm : m.Bounded limit) :
    m'.Bounded limit := by
  induction h with
  | refl => exact hm
  | tail _ hlead ih => exact hlead.bounded ih

/-- The interpreter has made some moves, and every call of a function that was opened is closed
again. -/
structure Runs (m m' : Machine) : Prop where
  leads : Relation.ReflTransGen Leads m m'
  calls : m'.memory.calls ≤ m.memory.calls

instance : IsPreorder Machine Runs where
  refl _ := ⟨.refl, le_rfl⟩
  trans _ _ _ h h' := ⟨h.leads.trans h'.leads, h'.calls.trans h.calls⟩

theorem Runs.closes {m m' : Machine} (returns : m'.stack.returns <:+ m.stack.returns)
    (loops : m'.stack.loops <:+ m.stack.loops) (whiles : m'.stack.whiles <:+ m.stack.whiles)
    (calls : m'.memory.calls ≤ m.memory.calls) (stackLimit : m'.stackLimit = m.stackLimit) :
    m.Runs m' :=
  ⟨.single (.closes returns loops whiles calls stackLimit), calls⟩

/-- Everything is closed. -/
theorem Runs.clears {m m' : Machine} (stack : m'.stack = {}) (calls : m'.memory.calls = 0)
    (stackLimit : m'.stackLimit = m.stackLimit) : m.Runs m' := by
  refine .closes ?_ ?_ ?_ (by omega) stackLimit <;> rw [stack] <;> exact List.nil_suffix

instance : AllowsResting Runs where
  evaluates room es m := by
    obtain ⟨_, hframes, -⟩ := evaluateAll_frames room es m.scope m.memory
    rw [Exec.run_ofEval]
    refine ⟨.single (@Leads.evaluates m room es _ ?_), hframes.calls.le⟩
    rw [← observes_evaluateAll room es m.scope m.memory]
    exact List.mem_cons_self
  rests := by
    rintro m m' ⟨hstack, hcalls, hlimit⟩
    refine .closes ?_ ?_ ?_ hcalls.le hlimit <;> rw [hstack]

instance : AllowsReading Runs where
  reads _ _ := .closes (List.suffix_refl _) (List.suffix_refl _) (List.suffix_refl _) le_rfl rfl

end Machine

/-! ## Instructions -/

namespace Exec

open Machine

/-- What follows once there is room. -/
theorem runs_checked {f : Unit → Exec Unit}
    (h : ∀ m, checkStack m = (.ok (), m) → m.Runs (f () m).2) :
    Moves Runs (checkStack >>= f) := by
  intro m
  rw [run_checkStack_bind]
  split
  · exact refl_of Runs m
  · rename_i hroom
    exact h m (checkStack_eq_ok_iff.mpr (Int.not_le.mp hroom))

theorem runs_gosub (ref : LineRef) : Moves Runs (gosub ref) := by
  refine moves_get fun m => moves_ite (moves_refuseAt _ _) (runs_checked fun m room => ?_) m
  exact trans_of Runs ⟨.single (.opensSub _ room), le_rfl⟩ (rests_moveTo _ _)

theorem runs_onGosub (selector : Expr) (refs : List LineRef) : Moves Runs (do
    match ← selected selector refs with
    | some ref => gosub ref
    | none => return () : Exec Unit) := by
  refine (computes_selected selector refs).bind fun ref => ?_
  cases ref with
  | none => exact moves_pure ()
  | some ref => exact runs_gosub ref

theorem runs_leaveSub : Moves Runs leaveSub := by
  refine moves_get fun m => ?_
  cases hreturns : m.stack.returns with
  | nil => exact refl_of Runs m
  | cons frame outer =>
    refine .closes ?_ (List.drop_suffix _ _) (List.drop_suffix _ _) le_rfl rfl
    rw [hreturns]
    exact List.suffix_cons _ _

theorem runs_skipWhile : Moves Runs (do
    let m ← get
    match findWend? 0 (m.ahead m.position) with
    | some p => moveTo p
    | none => refuse .whileWithoutWend : Exec Unit) := by
  refine moves_get fun m => ?_
  cases findWend? 0 (m.ahead m.position) with
  | none => exact refl_of Runs m
  | some p => exact rests_moveTo p m

theorem runs_openWhile (condition : Expr) : Moves Runs (openWhile condition) := by
  refine moves_get fun m => moves_get (fun m' => ?_) m
  refine Moves.bind (computes_value condition) (fun v => (moves_lift _).bind fun holds => ?_) m'
  refine moves_ite (moves_ite (moves_pure ()) (runs_checked fun m room => ?_))
    (moves_ite (Moves.bind (moves_modify fun m => ?_) fun _ => runs_skipWhile) runs_skipWhile)
  · exact ⟨.single (.opensWhile _ room), le_rfl⟩
  · exact .closes (List.suffix_refl _) (List.suffix_refl _) (List.tail_suffix _) le_rfl rfl

/-- A loop over a variable closes an older one before it is opened. -/
theorem runs_enterLoop (column : Nat) (var : String) (limit step : Float) :
    Moves Runs (enterLoop column var limit step) := by
  intro m
  have hclosed : m.Runs (m.withLoops (closeLoop var m.stack.loops)) :=
    .closes (List.suffix_refl _) (closeLoop_suffix var _) (List.suffix_refl _) le_rfl rfl
  unfold enterLoop
  rw [run_modifyStacks_bind, run_get_bind, run_loopNumber_bind]
  split
  · split
    · refine trans_of Runs hclosed (moves_get (R := Runs) (fun m => ?_) _)
      cases findNext? m.memory.store.resolve var 0 (m.ahead m.position) with
      | none => exact refl_of Runs m
      | some p => exact rests_moveTo p m
    · rw [run_checkStack_bind]
      split
      · exact hclosed
      · rename_i hroom
        have hchecked := checkStack_eq_ok_iff.mpr (Int.not_le.mp hroom)
        exact ⟨.single (.opensLoop ⟨var, limit, step, m.position⟩ rfl hchecked), le_rfl⟩
  · exact hclosed

theorem runs_openFor (column : Nat) (name : String) (start limit : Expr) (step : Option Expr) :
    Moves Runs (openFor column name start limit step) := by
  refine moves_get fun m => Moves.bind (computes_value start) (fun v => ?_) m
  refine (computes_setScalar _ v).bind fun _ => (computes_bound _ limit).bind fun limit' => ?_
  cases step with
  | none => exact (moves_pure _).bind fun step' => runs_enterLoop _ _ _ _
  | some e => exact (computes_bound _ e).bind fun step' => runs_enterLoop _ _ _ _

theorem runs_nextLoop (column : Nat) (name : Option String) :
    Moves Runs (nextLoop column name) := by
  intro m
  have hnexts := nexts_nextLoop column name m
  generalize nextLoop column name m = r at hnexts
  cases hnexts with
  | fails => exact refl_of Runs m
  | ends suffix named unnamed turn =>
    cases turn with
    | unread | unset | repeats =>
      exact .closes (List.suffix_refl _) suffix (List.suffix_refl _) le_rfl rfl
    | leaves =>
      exact .closes (List.suffix_refl _) ((List.suffix_cons _ _).trans suffix)
        (List.suffix_refl _) le_rfl rfl

theorem runs_run (ref : Option LineRef) : Moves Runs (run ref) := by
  intro m
  have hstarts := starts_start { m with direct := #[] } (ref.map LineRef.line)
    (ref.map LineRef.column)
  unfold run
  rw [run_modify_bind]
  generalize start (ref.map LineRef.line) (ref.map LineRef.column) { m with direct := #[] } =
    r at hstarts
  cases hstarts <;> exact .clears rfl rfl rfl

theorem runs_loadFile (name : Expr) : Moves Runs (loadFile name) := by
  refine (computes_value name).bind fun v => (moves_lift _).bind fun s => moves_get fun m => ?_
  simp only [run_modify_bind]
  cases (m.library.load m.statementRoom s).1.bind (Program.load (m.statementRoom - 1)) with
  | error f => exact AllowsResting.rests ⟨rfl, rfl, rfl⟩
  | ok p => exact .clears rfl rfl rfl

theorem runs_command (column : Nat) (c : Command) : Moves Runs (command column c) := by
  cases c with
  | openFor name start limit step => exact runs_openFor column name start limit step
  | next name => exact runs_nextLoop column name
  | openWhile condition => exact runs_openWhile condition
  | gosub ref => exact runs_gosub ref
  | onGosub selector refs => exact runs_onGosub selector refs
  | leaveSub => exact runs_leaveSub
  | clear => exact moves_modify fun m => .clears rfl rfl rfl
  | new => exact Moves.bind (moves_modify fun m => .clears rfl rfl rfl) fun _ => moves_throw _
  | run ref => exact runs_run ref
  | runFile name => exact (runs_loadFile name).bind fun _ => runs_run none
  | load name => exact computes_requireDirect.bind fun _ => runs_loadFile name
  | read targets => exact computes_read targets
  | restore ref => exact computes_restore ref
  | _ => exact rests_command column rfl rfl

/-- **Every instruction is made of moves.** -/
theorem runs_instr (i : Instr) : Moves Runs (instr i) := by
  cases i with
  | command column c => exact runs_command column c
  | jump column target => exact rests_jumpTo _
  | branch column condition target =>
    refine (computes_value condition).bind fun v => (moves_lift _).bind fun holds => ?_
    exact moves_ite (moves_pure ()) (rests_jumpTo target)

end Exec

/-! ## Sessions -/

namespace Session

open Machine

theorem runs_of_reports {m m' : Machine} (h : m.Reports m') : m.Runs m' := by
  obtain ⟨_, _, _, _, rfl⟩ := h
  exact AllowsResting.rests ⟨rfl, rfl, rfl⟩

theorem runs_settle (r : Except Halt Unit) (m : Machine) : m.Runs (settle r m).2 := by
  have hstopped : m.Runs { m with running := false, resume := m.resumeAfter r } :=
    AllowsResting.rests ⟨rfl, rfl, rfl⟩
  exact trans_of Runs hstopped (runs_of_reports (reports_settle r m))

theorem runs_tick : Exec.Moves Runs tick := by
  intro m
  have hturn := turn_tick m
  generalize tick m = r at hturn
  cases hturn with
  | missing | typedEnd => exact refl_of Runs m
  | programEnd | lineEnd | broken => exact AllowsResting.rests ⟨rfl, rfl, rfl⟩
  | cut _ _ _ trace => exact AllowsComputing.writes (writes_of_showTrace trace)
  | @executed _ i m' _ _ _ _ trace run | @halted _ i _ m' _ _ _ _ trace run =>
    have htraced : m.Runs m' := AllowsComputing.writes (writes_of_showTrace trace)
    have hbegins : m'.Runs (m'.atStatement m.position) := AllowsResting.rests ⟨rfl, rfl, rfl⟩
    exact trans_of Runs htraced (trans_of Runs hbegins ((Exec.runs_instr i).of_run run))

/-- **Every step of a session is made of moves.** -/
theorem Step.runs {s t : Session} (h : Step s t) : s.machine.Runs t.machine := by
  cases h with
  | world elsewhere =>
    obtain ⟨_, _, _, _, _, _, _, _, _, rfl⟩ := elsewhere
    exact AllowsResting.rests ⟨rfl, rfl, rfl⟩
  | enter text edited m =>
    have haccepts := accepts_accept text m
    generalize accept text m = r at haccepts
    cases haccepts with
    | stored | nothing | code => exact AllowsResting.rests ⟨rfl, rfl, rfl⟩
    | @refused r m' refused reports =>
      have hruns := runs_of_reports reports
      rcases r with c | _ | _ | _
      · exact hruns
      · exact hruns
      · exact hruns
      · cases refused _ rfl
  | load text edited m =>
    have htakes := takes_load text m
    generalize Machine.load text m = r at htakes
    cases htakes with
    | takes => exact .clears rfl rfl rfl
    | @refused r m' refused reports =>
      have hruns := runs_of_reports reports
      rcases r with c | _ | _ <;> exact hruns
  | start line edited m =>
    have hprepares := prepares_prepare line m
    generalize prepare line m = r at hprepares
    cases hprepares with
    | goes => exact .clears rfl rfl rfl
    | @stays r m' stays reports =>
      have hfresh : m.Runs m.fresh := .clears rfl rfl rfl
      have hruns := trans_of Runs hfresh (runs_of_reports reports)
      rcases r with c | _ | _
      · exact hruns
      · exact hruns
      · cases stays _ rfl
  | ready => exact AllowsResting.rests ⟨rfl, rfl, rfl⟩
  | turn edited m =>
    have hruns := runs_tick m
    cases hrun : tick m with
    | mk r m' =>
      rw [hrun] at hruns
      rcases r with e | _ | _
      · exact trans_of Runs hruns (runs_settle _ m')
      · exact trans_of Runs hruns (runs_settle _ m')
      · exact hruns
  | abandon c edited m => exact runs_settle _ m

theorem Reached.bounded {settings : Settings} {s : Session} (h : Reached settings s) :
    s.machine.memory.calls = 0 ∧ s.machine.Bounded settings.stackLimit.1 := by
  induction h with
  | refl =>
    rw [init_eq]
    exact ⟨rfl, rfl, .nil, le_max_right _ _⟩
  | tail _ hstep ih =>
    obtain ⟨hcalls, hbounded⟩ := ih
    exact ⟨Nat.le_zero.mp (hcalls ▸ hstep.runs.calls), bounded_of_leads hstep.runs.leads hbounded⟩

/-- **In every session all that is open keeps to the limit, and no two FOR loops are over the same
variable**, at every moment: every step is made of moves of the interpreter, and the bound holds
wherever moves lead, also in the middle of calls of functions. Between statements no call of a
function is open. -/
theorem stack_bounded {settings : Settings} {s : Session} (h : Reached settings s) :
    s.machine.memory.calls = 0 ∧
      (∀ t, Step s t → Relation.ReflTransGen Machine.Leads s.machine t.machine) ∧
      ∀ m, Relation.ReflTransGen Machine.Leads s.machine m → m.Bounded settings.stackLimit.1 :=
  ⟨h.bounded.1, fun _ hstep => hstep.runs.leads, fun _ hleads =>
    bounded_of_leads hleads h.bounded.2⟩

/-- Room for three. -/
def roomForThree : Settings := ⟨⟨[("STACK_LIMIT", "3")]⟩⟩

/-- A machine that was given a program with a function, a loop and a subroutine. -/
def withFunction : Session :=
  loaded false (load "10 DEF FNA(X)=X:FOR I=1 TO 2:GOSUB 20\n20 A=FNA(1)" (.new roomForThree))

/-- The loop and the subroutine are open, and the function is about to be called. -/
def besideFunction : Session := (started (prepare none withFunction.machine)).next.next.next

/-- The arguments of the statement that calls it. -/
def functionCall : List Expr := [.userCall 6 "A" [.literal 10 (.single 1.0)]]

/-- All that may be open is open inside the function. -/
theorem stack_bounded_inFunction : ∃ m,
    Relation.ReflTransGen Machine.Leads besideFunction.machine m ∧
    m.stack.returns.length = 1 ∧ m.stack.loops.length = 1 ∧ m.memory.calls = 1 ∧
    m.stackLimit = 3 ∧ m.Bounded 3 := by
  have hfacts : withFunction.phase = .prompt ∧
      (started (prepare none withFunction.machine)).phase = .running ∧
      (started (prepare none withFunction.machine)).next.phase = .running ∧
      (started (prepare none withFunction.machine)).next.next.phase = .running ∧
      roomForThree.stackLimit.1 = 3 ∧
      besideFunction.machine.stack.returns.length = 1 ∧
      besideFunction.machine.stack.loops.length = 1 ∧
      (Observed.memories (observeAll 9 functionCall besideFunction.machine.scope
        besideFunction.machine.memory)).any (fun m => m.calls = 1) = true := by
    decide +kernel
  obtain ⟨hprompt, hfirst, hsecond, hthird, hlimit, hreturns, hloops, hpasses⟩ := hfacts
  have hloaded : Reached roomForThree withFunction :=
    Reached.loaded (s := init roomForThree) .refl rfl _
  have hreached : Reached roomForThree besideFunction :=
    (((hloaded.started hprompt none).next hfirst).next hsecond).next hthird
  obtain ⟨-, -, hbounded⟩ := stack_bounded hreached
  obtain ⟨memory, hmemory, hcalls⟩ := List.any_eq_true.mp hpasses
  have hleads : Relation.ReflTransGen Machine.Leads besideFunction.machine
      { besideFunction.machine with memory } :=
    .single (.evaluates hmemory)
  exact ⟨_, hleads, hreturns, hloops, of_decide_eq_true hcalls,
    (hbounded _ hleads).stackLimit.trans hlimit, hlimit ▸ hbounded _ hleads⟩

end Session

end LineBasic
