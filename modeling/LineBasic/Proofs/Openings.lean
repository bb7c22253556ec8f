import Mathlib
import LineBasic.Proofs.Sessions

/-!
# What statements open and close

What every instruction, and every step of a session, does to the subroutines and loops that are
open.

* `Machine.Remembers`: nothing has changed but the memory.
* `Machine.Rests`, `Exec.rests_command`: what is open is the same, and the commands that leave it
  so.
* `Stacks.Shifts`, `Exec.shiftsTo_instr`: an instruction leaves what is open, closes everything,
  closes or opens a FOR loop, opens or closes a WHILE loop, or calls a subroutine or returns from
  it.
* `Session.Shifts`, `Session.Step.shifts`: the same for what can happen in a session.
-/

namespace LineBasic

namespace Machine

/-- Nothing has changed but the memory. -/
def Remembers (m m' : Machine) : Prop := ∃ memory, m' = { m with memory }

instance : IsPreorder Machine Remembers where
  refl _ := ⟨_, rfl⟩
  trans := by
    rintro _ _ _ ⟨memory, rfl⟩ ⟨memory', rfl⟩
    exact ⟨memory', rfl⟩

/-- What is open is the same. -/
def Stays (m m' : Machine) : Prop := ∃ cursor, m'.stack = { m.stack with cursor }

instance : IsPreorder Machine Stays where
  refl _ := ⟨_, rfl⟩
  trans _ _ _ := by
    rintro ⟨cursor, h⟩ ⟨cursor', h'⟩
    exact ⟨cursor', by rw [h', h]⟩

/-- What is open is the same, calls of functions among it, the DATA items left are, and so is how
much may be open. -/
structure Rests (m m' : Machine) : Prop where
  stack : m'.stack = m.stack
  calls : m'.memory.calls = m.memory.calls
  stackLimit : m'.stackLimit = m.stackLimit

/-- A relation that allows evaluations, and everything that opens and closes nothing. -/
class AllowsResting (R : Machine → Machine → Prop) : Prop extends IsPreorder Machine R where
  evaluates (room : Nat) (es : List Expr) : Exec.Moves R (Exec.ofEval (evaluateAll room es))
  rests {m m' : Machine} (rests : m.Rests m') : R m m'

instance {R : Machine → Machine → Prop} [AllowsResting R] : AllowsComputing R where
  evaluates := AllowsResting.evaluates
  changes _ := AllowsResting.rests ⟨rfl, rfl, rfl⟩
  writes h := by
    obtain ⟨t, b, c, rfl⟩ := h
    exact AllowsResting.rests ⟨rfl, rfl, rfl⟩
  defines _ _ := AllowsResting.rests ⟨rfl, rfl, rfl⟩
  saves _ _ := AllowsResting.rests ⟨rfl, rfl, rfl⟩

instance : AllowsResting Stays where
  evaluates room es m := by
    rw [Exec.run_ofEval]
    exact ⟨_, rfl⟩
  rests h := ⟨_, h.stack⟩

instance : AllowsReading Stays where
  reads _ _ := ⟨_, rfl⟩

/-- The machine with other FOR loops open. -/
def withLoops (m : Machine) (loops : List LoopFrame) : Machine :=
  { m with stack := { m.stack with loops } }

end Machine

/-- The instruction is RUN, CLEAR, NEW or LOAD: everything that is open may be closed. -/
def Instr.clears : Instr → Bool
  | .command _ (.run _) | .command _ (.runFile _) | .command _
      (.load _) | .command _ .clear | .command _ .new => true
  | _ => false

/-- The command may open or close something; every other one leaves what is open. -/
def Command.shifts : Command → Bool
  | .openFor _ _ _ _ | .next _ | .openWhile _ | .gosub _ | .onGosub _ _ | .leaveSub => true
  | .clear | .new | .run _ | .runFile _ | .load _ => true
  | _ => false

/-- The command is READ or RESTORE. -/
def Command.reads : Command → Bool
  | .read _ | .restore _ => true
  | _ => false

/-- The instruction is a GOSUB, or one that ON selects. -/
def Instr.isCall : Instr → Bool
  | .command _ (.gosub _) | .command _ (.onGosub _ _) => true
  | _ => false

/-- The instruction is a RETURN. -/
def Instr.isReturn : Instr → Bool
  | .command _ .leaveSub => true
  | _ => false

/-- The instruction is a WHILE. -/
def Instr.isWhile : Instr → Bool
  | .command _ (.openWhile _) => true
  | _ => false

/-- The instruction is a FOR. -/
def Instr.isFor : Instr → Bool
  | .command _ (.openFor _ _ _ _) => true
  | _ => false

/-- A FOR that lets execution go on behind it has opened its loop; one that skips its loop goes
elsewhere. -/
def Instr.opensLoop (i : Instr) (m : Machine) : Except Halt Unit × Machine → Bool
  | (.ok _, m') => i.isFor && m'.position = m.position
  | (.error _, _) => false

/-- What is open after an instruction at a position, behind which execution goes on, and whether a
FOR loop was opened. -/
inductive Stacks.Shifts (s : Stacks) (here behind : Position) : Instr → Bool → Stacks → Prop where
  | kept {i : Instr} (cursor : Nat) : Shifts s here behind i false { s with cursor }
  | cleared {i : Instr} (clears : i.clears = true) : Shifts s here behind i false {}
  | closesLoops {i : Instr} {loops : List LoopFrame} (suffix : loops <:+ s.loops) :
      Shifts s here behind i false { s with loops }
  | opensLoop {i : Instr} {frame : LoopFrame} (position : frame.position = behind) :
      Shifts s here behind i true { s with loops := frame :: Exec.closeLoop frame.var s.loops }
  | opensWhile {i : Instr} (isWhile : i.isWhile = true) :
      Shifts s here behind i false { s with whiles := here :: s.whiles }
  | closesWhile {i : Instr} {outer : List Position} (isWhile : i.isWhile = true)
      (innermost : s.whiles = here :: outer) :
      Shifts s here behind i false { s with whiles := outer }
  | calls {i : Instr} (isCall : i.isCall = true) :
      Shifts s here behind i false
      { s with returns := ⟨behind, s.loops.length, s.whiles.length⟩ :: s.returns }
  | returns {i : Instr} {frame : ReturnFrame} {outer : List ReturnFrame}
      (isReturn : i.isReturn = true)
      (innermost : s.returns = frame :: outer) :
      Shifts s here behind i false
        { s with
          returns := outer
          loops := Exec.outermost frame.loops s.loops
          whiles := Exec.outermost frame.whiles s.whiles }

/-- An instruction shifts what is open. -/
def Machine.ShiftsTo (m : Machine) (i : Instr) (r : Except Halt Unit × Machine) : Prop :=
  m.stack.Shifts m.current m.position i (i.opensLoop m r) r.2.stack

theorem Instr.opensLoop_of_not_isFor {i : Instr} (h : i.isFor = false) (m : Machine)
    (r : Except Halt Unit × Machine) :
    i.opensLoop m r = false := by
  obtain ⟨_ | _, m'⟩ := r
  · rfl
  · simp [opensLoop, h]

namespace Exec

open Machine

variable {α : Type} {m : Machine}

/-! ## Parts that only change the memory -/

theorem remembers_value (e : Expr) : Moves Remembers (value e) := by
  intro m
  obtain ⟨memory, -, hrun, -⟩ := value_frames e m
  exact ⟨memory, hrun⟩

theorem remembers_setScalar (name : String) (v : Value) : Moves Remembers (setScalar name v) := by
  refine moves_get fun m => ?_
  cases hset : m.memory.store.set name v with
  | error e => exact refl_of Remembers m
  | ok s => exact ⟨_, rfl⟩

theorem remembers_bound (kind : Kind) (e : Expr) : Moves Remembers (bound kind e) :=
  (remembers_value e).bind fun _ => (moves_lift _).bind fun _ => moves_lift _

theorem remembers_checkStack : Moves Remembers checkStack :=
  moves_get fun m => moves_ite (moves_refuse _) (moves_pure _) m

theorem remembers_selected (selector : Expr) (refs : List LineRef) :
    Moves Remembers (selected selector refs) := by
  refine (remembers_value selector).bind fun v => (moves_lift _).bind fun n => ?_
  split
  · exact moves_refuse _
  · split <;> exact moves_pure _

/-- A part that changes the memory is followed by the rest, or it fails and nothing else has
changed. -/
theorem cases_bind {P : Except Halt Unit × Machine → Prop} {x : Exec α} {f : α → Exec Unit}
    (hx : Moves Remembers x) (herror : ∀ e memory, P (.error e, { m with memory }))
    (hok : ∀ a memory, P (f a { m with memory })) :
    P ((x >>= f) m) := by
  obtain ⟨memory, hrun⟩ := hx m
  rw [run_bind]
  cases hresult : x m with
  | mk r m' =>
    rw [hresult] at hrun
    obtain rfl : m' = _ := hrun
    cases r with
    | error e => exact herror e memory
    | ok a => exact hok a memory

/-! ## FOR and NEXT -/

theorem after_ne_of_mem_instrsFrom {line : Option Nat} {index : Nat} {code : Array Instr}
    {p : Position} {i : Instr} (h : (p, i) ∈ instrsFrom line index code) :
    p.line = line ∧ index ≤ p.index := by
  obtain ⟨⟨j, k⟩, hmem, heq⟩ := List.mem_map.mp h
  obtain ⟨rfl, rfl⟩ := Prod.mk.inj heq
  refine ⟨rfl, ?_⟩
  obtain ⟨n, hn, hget⟩ := List.mem_iff_getElem.mp hmem
  rw [List.getElem_drop, List.getElem_zipIdx] at hget
  obtain ⟨-, rfl⟩ := Prod.mk.inj hget
  simp only
  omega

/-- The place behind an instruction farther on is not the place from which it was looked for. -/
theorem after_ne_of_mem_ahead {p q : Position} {i : Instr} (h : (q, i) ∈ m.ahead p) :
    q.after ≠ p := by
  rintro rfl
  unfold Machine.ahead at h
  have hfirst : (q, i) ∉ instrsFrom q.after.line q.after.index
      ((m.codeAt? q.after.line).getD #[]) := by
    intro hmem
    have hindex : q.index + 1 ≤ q.index := (after_ne_of_mem_instrsFrom hmem).2
    omega
  cases hline : q.line with
  | none =>
    simp only [Position.after, hline] at h hfirst
    exact hfirst h
  | some n =>
    simp only [Position.after, hline, List.mem_append, List.mem_flatMap, List.mem_filter,
      decide_eq_true_eq] at h hfirst
    obtain ⟨l, ⟨-, hlater⟩, hmem⟩ := h.resolve_left hfirst
    have hsame := (after_ne_of_mem_instrsFrom hmem).1
    rw [hline, Option.some.injEq] at hsame
    omega

theorem closeLoop_suffix (var : String) (loops : List LoopFrame) :
    closeLoop var loops <:+ loops := by
  unfold closeLoop
  split
  · exact (List.drop_suffix _ _).trans (List.dropWhile_suffix _)
  · exact List.suffix_refl _

theorem suffix_of_loopsFrom? {var : String} {loops outer : List LoopFrame} {frame : LoopFrame}
    (h : loopsFrom? var loops = some (frame :: outer)) :
    frame :: outer <:+ loops ∧ frame.var = var := by
  unfold loopsFrom? at h
  split at h
  · cases h
  · have hfound := Option.some.inj h
    have hhead := List.head_dropWhile_not (fun f : LoopFrame => f.var != var) (l := loops)
      (by rw [hfound]; simp)
    refine ⟨hfound ▸ List.dropWhile_suffix _, ?_⟩
    simpa [hfound] using hhead

theorem missing_of_loopsFrom? {var : String} {loops : List LoopFrame} {frame : LoopFrame}
    (h : loopsFrom? var loops = none) (hmem : frame ∈ loops) : frame.var ≠ var := by
  unfold loopsFrom? at h
  split at h
  · rename_i hnil
    simpa using List.dropWhile_eq_nil_iff.mp hnil frame hmem
  · cases h

theorem loopsFrom?_ne_nil (var : String) (loops : List LoopFrame) :
    loopsFrom? var loops ≠ some [] := by
  unfold loopsFrom?
  split
  · exact nofun
  · rename_i hnil
    simpa using hnil

/-- A variable that took a number holds a number. -/
theorem number_of_set {s s' : Store} {name : String} {x : Float}
    (h : s.set name (.single x) = .ok s') :
    ∃ y, (s'.get name).number = .ok y := by
  obtain ⟨w, hcoerce, rfl, -⟩ := Store.set_eq_ok h
  have hget : Store.get { s with
      scalars := s.scalars.insert (s.resolve name) w
      used := if s.scalars.contains (s.resolve name) then s.used else s.used + 1 } name = w := by
    unfold Store.get
    change ((s.scalars.insert (s.resolve name) w).get? (s.resolve name)).getD _ = w
    rw [Table.insert, Table.get?, Table.find?_put, if_pos rfl, Option.getD_some]
  rw [hget]
  cases hkind : Kind.ofName (s.resolve name) with
  | text =>
    rw [hkind] at hcoerce
    cases hcoerce
  | integer =>
    rw [hkind] at hcoerce
    obtain ⟨n, -, hw⟩ := ok_of_bind hcoerce
    exact ⟨Float.ofInt n, by rw [← Except.ok.inj hw]; rfl⟩
  | double | single =>
    rw [hkind] at hcoerce
    obtain ⟨y, -, hw⟩ := ok_of_bind hcoerce
    obtain ⟨z, -, hw⟩ := ok_of_bind hw
    exact ⟨z, by rw [← Except.ok.inj hw]; rfl⟩

theorem shiftsTo_kept {i : Instr} (hfor : i.isFor = false) {r : Except Halt Unit × Machine}
    (h : m.Stays r.2) : m.ShiftsTo i r := by
  obtain ⟨cursor, hstack⟩ := h
  unfold ShiftsTo
  rw [i.opensLoop_of_not_isFor hfor, hstack]
  exact .kept cursor

/-- An instruction that fails before it opens or closes anything. -/
theorem shiftsTo_error (i : Instr) (e : Halt) (memory : Memory) :
    m.ShiftsTo i (.error e, { m with memory }) :=
  .kept m.stack.cursor

theorem run_loopNumber_bind (v : Value) (f : Float → Exec α) (m : Machine) :
    (loopNumber v >>= f) m =
    match v.number with
    | .ok x => f x m
    | .error _ => (.error (.fault (.crash .stringLoop)), m) := by
  cases v <;> rfl

theorem run_checkStack_bind (f : Unit → Exec α) (m : Machine) : (checkStack >>= f) m =
    if m.stackLimit ≤ m.stack.frames + m.memory.calls then
      (.error (.fault (.error (.of .stackOverflow))), m)
    else f () m := by
  unfold checkStack
  rw [run_bind, run_get_bind]
  by_cases hfull : m.stackLimit ≤ m.stack.frames + m.memory.calls
  · rw [if_pos hfull, if_pos hfull]
    rfl
  · rw [if_neg hfull, if_neg hfull]
    rfl

/-- What becomes of a FOR loop whose variable has its first value: older loops were closed, and it
is skipped, opened or neither. -/
inductive Enters (m : Machine) (number : Except Error Float) (var : String) (limit step : Float) :
    Except Halt Unit × Machine → Prop where
  | unread {e : Error} (read : number = .error e) :
      Enters m number var limit step
      (.error (.fault (.crash .stringLoop)), m.withLoops (closeLoop var m.stack.loops))
  | unended {x : Float} (read : number = .ok x) (past : isPast step x limit = true)
      (missing : findNext? m.memory.store.resolve var 0 (m.ahead m.position) = none) (h : Halt) :
      Enters m number var limit step (.error h, m.withLoops (closeLoop var m.stack.loops))
  | full {x : Float} (read : number = .ok x) (past : isPast step x limit = false)
      (full : m.stackLimit ≤ (m.withLoops (closeLoop var m.stack.loops)).stack.frames +
        m.memory.calls) :
      Enters m number var limit step (.error (.fault (.error (.of .stackOverflow))),
      m.withLoops (closeLoop var m.stack.loops))
  | skips {x : Float} {p : Position} (read : number = .ok x)
      (past : isPast step x limit = true)
      (found : findNext? m.memory.store.resolve var 0 (m.ahead m.position) = some p) :
      Enters m number var limit step
      (.ok (), { m.withLoops (closeLoop var m.stack.loops) with position := p })
  | opens {x : Float} (read : number = .ok x) (past : isPast step x limit = false) :
      Enters m number var limit step
      (.ok (), m.withLoops (⟨var, limit, step, m.position⟩ :: closeLoop var m.stack.loops))

theorem enters_enterLoop (column : Nat) (var : String) (limit step : Float) (m : Machine) :
    Enters m (m.memory.store.get var).number var limit step
      (enterLoop column var limit step m) := by
  unfold enterLoop
  rw [run_modifyStacks_bind, run_get_bind, run_loopNumber_bind]
  cases hnumber : (m.memory.store.get var).number with
  | error e => exact .unread rfl
  | ok x =>
    simp only
    by_cases hpast : isPast step x limit = true
    · rw [if_pos hpast, run_get_bind]
      have hahead : (m.withLoops (closeLoop var m.stack.loops)).ahead m.position =
          m.ahead m.position := rfl
      cases hfind : findNext? m.memory.store.resolve var 0 (m.ahead m.position) with
      | none =>
        have hunended : ∀ h,
            Enters m (.ok x) var limit step (.error h, m.withLoops (closeLoop var m.stack.loops)) :=
          .unended rfl hpast hfind
        rw [← hahead] at hfind
        unfold withLoops at hfind
        simp only [hfind]
        exact hunended _
      | some p =>
        have hskips : Enters m (.ok x) var limit step
            (.ok (), { m.withLoops (closeLoop var m.stack.loops) with position := p }) :=
              .skips rfl hpast hfind
        rw [← hahead] at hfind
        unfold withLoops at hfind
        simp only [hfind]
        exact hskips
    · rw [if_neg hpast, run_checkStack_bind]
      have hopen := Bool.eq_false_iff.mpr hpast
      split
      · rename_i hfull
        exact .full rfl hopen hfull
      · exact .opens rfl hopen

/-- A loop over a variable closes an older one, and is opened or skipped. -/
theorem shiftsTo_of_enters {i : Instr} (hfor : i.isFor = true) {number : Except Error Float}
    {var : String} {limit step : Float} {r : Except Halt Unit × Machine}
    (h : Enters m number var limit step r) : m.ShiftsTo i r := by
  have hclosed : m.stack.Shifts m.current m.position i false
      { m.stack with loops := closeLoop var m.stack.loops } :=
    .closesLoops (closeLoop_suffix var _)
  cases h with
  | unread | unended | full => exact hclosed
  | @skips x p read past found =>
    obtain ⟨q, j, hmem, rfl⟩ := after_of_findNext? found
    have hmoved : q.after ≠ m.position := after_ne_of_mem_ahead hmem
    have hflag : i.opensLoop m
        (.ok (), { m.withLoops (closeLoop var m.stack.loops) with position := q.after }) =
            false := by
      simp [Instr.opensLoop, hmoved]
    unfold ShiftsTo
    rw [hflag]
    exact hclosed
  | opens read past =>
    have hflag : i.opensLoop m
        (.ok (), m.withLoops (⟨var, limit, step, m.position⟩ :: closeLoop var m.stack.loops)) =
            true := by
      simp [Instr.opensLoop, hfor, withLoops]
    unfold ShiftsTo
    rw [hflag]
    exact .opensLoop rfl

theorem shiftsTo_openFor (column : Nat) (name : String) (start limit : Expr) (step : Option Expr) :
    m.ShiftsTo (.command column (.openFor name start limit step))
      (openFor column name start limit step m) := by
  have hfails := shiftsTo_error (m := m) (.command column (.openFor name start limit step))
  have henters : ∀ (limit' step' : Float) (memory : Memory),
    m.ShiftsTo (.command column (.openFor name start limit step))
      (enterLoop column (m.memory.store.resolve name) limit' step' { m with memory }) :=
    fun limit' step' memory => shiftsTo_of_enters (m := { m with memory }) rfl
      (enters_enterLoop _ _ _ _ _)
  unfold openFor
  rw [run_get_bind]
  refine cases_bind (remembers_value start) hfails fun v memory => ?_
  refine cases_bind (m := { m with memory }) (remembers_setScalar _ v) hfails fun _ memory => ?_
  refine cases_bind (m := { m with memory }) (remembers_bound _ limit) hfails
    fun limit' memory => ?_
  cases step with
  | none =>
    exact cases_bind (m := { m with memory }) (moves_pure _) hfails fun step' memory =>
      henters limit' step' memory
  | some e =>
    exact cases_bind (m := { m with memory }) (remembers_bound _ e) hfails fun step' memory =>
      henters limit' step' memory

/-- What NEXT does for the loop that it ends a turn of: loops inside it are closed, its variable is
stepped and tested, and the loop is left or begins anew. -/
inductive EndsTurn (m : Machine) (name : String) (frame : LoopFrame) (outer : List LoopFrame) :
    Except Halt Unit × Machine → Prop where
  | unread {e : Error} (number : (m.memory.store.get name).number = .error e) :
      EndsTurn m name frame outer
      (.error (.fault (.crash .stringLoop)), m.withLoops (frame :: outer))
  | unset {x : Float} {e : Error} (number : (m.memory.store.get name).number = .ok x)
      (set : m.memory.store.set name (.single (x + frame.step)) = .error e) :
      EndsTurn m name frame outer (.error (.fault (.error e)), m.withLoops (frame :: outer))
  | leaves {x y : Float} {store : Store} (number : (m.memory.store.get name).number = .ok x)
      (set : m.memory.store.set name (.single (x + frame.step)) = .ok store)
      (stepped : (store.get name).number = .ok y) (past : isPast frame.step y frame.limit = true) :
      EndsTurn m name frame outer
      (.ok (), { m.withLoops outer with memory := { m.memory with store } })
  | repeats {x y : Float} {store : Store} (number : (m.memory.store.get name).number = .ok x)
      (set : m.memory.store.set name (.single (x + frame.step)) = .ok store)
      (stepped : (store.get name).number = .ok y) (past : isPast frame.step y frame.limit = false) :
      EndsTurn m name frame outer (.ok (),
        { m.withLoops (frame :: outer) with
          memory := { m.memory with store }
          position := frame.position })

theorem run_setScalar_bind (name : String) (v : Value) (f : Unit → Exec α) (m : Machine) :
    (setScalar name v >>= f) m =
    match m.memory.store.set name v with
    | .ok store => f () { m with memory := { m.memory with store } }
    | .error e => (.error (.fault (.error e)), m) := by
  rw [run_bind, run_setScalar]
  cases m.memory.store.set name v <;> rfl

/-- What NEXT comes to: there is no loop for it, or a turn of one ends. -/
inductive Nexts (m : Machine) (name : Option String) : Except Halt Unit × Machine → Prop where
  | fails (missing : ∀ frame ∈ m.stack.loops, ∃ s, name = some s ∧
      frame.var ≠ m.memory.store.resolve s) (h : Halt) :
      Nexts m name (.error h, m)
  | ends {frame : LoopFrame} {outer : List LoopFrame} {r : Except Halt Unit × Machine}
      (suffix : frame :: outer <:+ m.stack.loops)
      (named : ∀ s, name = some s → frame.var = m.memory.store.resolve s)
      (unnamed : name = none → m.stack.loops = frame :: outer)
      (turn : EndsTurn m frame.var frame outer r) : Nexts m name r

theorem nexts_nextLoop (column : Nat) (name : Option String) (m : Machine) :
    Nexts m name (nextLoop column name m) := by
  have hends : ∀ frame outer, EndsTurn m frame.var frame outer ((do
      modifyStacks fun s => { s with loops := frame :: outer }
      let x ← loopNumber (m.memory.store.get frame.var)
      setScalar frame.var (.single (x + frame.step))
      let x ← loopNumber ((← get).memory.store.get frame.var)
      if isPast frame.step x frame.limit then modifyStacks fun s => { s with loops := outer }
      else moveTo frame.position : Exec Unit) m) := by
    intro frame outer
    rw [run_modifyStacks_bind, run_loopNumber_bind]
    cases hnumber : (m.memory.store.get frame.var).number with
    | error e => exact .unread hnumber
    | ok x =>
      simp only
      rw [run_setScalar_bind]
      cases hset : m.memory.store.set frame.var (.single (x + frame.step)) with
      | error e =>
        simp only
        exact .unset hnumber hset
      | ok store =>
        simp only
        rw [run_get_bind, run_loopNumber_bind]
        cases hstepped : (store.get frame.var).number with
        | error e =>
          obtain ⟨y, hy⟩ := number_of_set hset
          rw [hstepped] at hy
          cases hy
        | ok y =>
          simp only
          cases hpast : isPast frame.step y frame.limit with
          | true => exact .leaves hnumber hset hstepped hpast
          | false => exact .repeats hnumber hset hstepped hpast
  unfold nextLoop
  rw [run_get_bind]
  cases name with
  | none =>
    simp only
    cases hloops : m.stack.loops with
    | nil => exact .fails (by rw [hloops]; exact nofun) _
    | cons frame outer =>
      exact .ends (hloops ▸ List.suffix_refl _) nofun (fun _ => hloops) (hends frame outer)
  | some s =>
    simp only
    rcases hfound : loopsFrom? (m.memory.store.resolve s) m.stack.loops with _ | _ | ⟨frame, outer⟩
    · exact .fails (fun frame hframe => ⟨s, rfl, missing_of_loopsFrom? hfound hframe⟩) _
    · exact absurd hfound (loopsFrom?_ne_nil _ _)
    · obtain ⟨hsuffix, hvar⟩ := suffix_of_loopsFrom? hfound
      exact .ends hsuffix (fun s' hs' => by rw [hvar, Option.some.inj hs'])
        nofun (hends frame outer)

theorem shiftsTo_nextLoop (column : Nat) (name : Option String) :
    m.ShiftsTo (.command column (.next name)) (nextLoop column name m) := by
  have hnexts := nexts_nextLoop column name m
  generalize nextLoop column name m = r at hnexts
  unfold ShiftsTo
  rw [Instr.opensLoop_of_not_isFor rfl]
  cases hnexts with
  | fails => exact .kept _
  | ends suffix named unnamed turn =>
    cases turn with
    | unread | unset | repeats => exact .closesLoops suffix
    | leaves => exact .closesLoops ((List.suffix_cons _ _).trans suffix)

/-! ## WHILE, GOSUB and RETURN -/

theorem stack_skipWhile (m : Machine) : ((do
    let m ← get
    match findWend? 0 (m.ahead m.position) with
    | some p => moveTo p
    | none => refuse .whileWithoutWend : Exec Unit) m).2.stack = m.stack := by
  rw [run_get_bind]
  cases findWend? 0 (m.ahead m.position) <;> rfl

/-- WHILE opens its loop if that is not the innermost one already, and closes it only if it is. -/
theorem shiftsTo_openWhile (column : Nat) (condition : Expr) :
    m.ShiftsTo (.command column (.openWhile condition)) (openWhile condition m) := by
  have hfails := shiftsTo_error (m := m) (.command column (.openWhile condition))
  have hkept : ∀ (r : Except Halt Unit × Machine), r.2.stack = m.stack →
      m.ShiftsTo (.command column (.openWhile condition)) r :=
    fun r hstack => shiftsTo_kept rfl ⟨_, hstack⟩
  unfold openWhile
  rw [run_get_bind, run_get_bind]
  refine cases_bind (remembers_value condition) hfails fun v memory => ?_
  refine cases_bind (m := { m with memory }) (moves_lift _) hfails fun holds memory => ?_
  by_cases hopen : m.stack.whiles.head? = some m.current
  · simp only [if_pos hopen]
    cases holds with
    | true => exact hkept _ rfl
    | false =>
      obtain ⟨outer, houter⟩ := List.head?_eq_some_iff.mp hopen
      have hclosed : ∀ (r : Except Halt Unit × Machine), r.2.stack =
          { m.stack with whiles := m.stack.whiles.tail } →
          m.ShiftsTo (.command column (.openWhile condition)) r := by
        intro r hstack
        unfold ShiftsTo
        rw [Instr.opensLoop_of_not_isFor rfl, hstack, houter]
        exact .closesWhile rfl houter
      exact hclosed _ (stack_skipWhile _)
  · simp only [if_neg hopen]
    cases holds with
    | true =>
      refine cases_bind (m := { m with memory }) remembers_checkStack hfails fun _ memory => ?_
      unfold ShiftsTo
      rw [Instr.opensLoop_of_not_isFor rfl]
      exact .opensWhile rfl
    | false => exact hkept _ (stack_skipWhile _)

theorem shiftsTo_gosub {i : Instr} (hcall : i.isCall = true) (hfor : i.isFor = false)
    (ref : LineRef) :
    m.ShiftsTo i (gosub ref m) := by
  unfold gosub
  rw [run_get_bind]
  split
  · exact shiftsTo_kept hfor ⟨_, rfl⟩
  · refine cases_bind remembers_checkStack (shiftsTo_error i) fun _ memory => ?_
    unfold ShiftsTo
    rw [i.opensLoop_of_not_isFor hfor]
    exact .calls hcall

theorem shiftsTo_leaveSub (column : Nat) : m.ShiftsTo (.command column .leaveSub) (leaveSub m) := by
  unfold leaveSub
  rw [run_get_bind]
  cases hreturns : m.stack.returns with
  | nil => exact shiftsTo_kept rfl ⟨_, rfl⟩
  | cons frame outer =>
    unfold ShiftsTo
    rw [Instr.opensLoop_of_not_isFor rfl]
    exact .returns rfl hreturns

/-! ## All instructions -/

theorem shiftsTo_selected {i : Instr} (hfor : i.isFor = false) {f : LineRef → Exec Unit}
    (hf : ∀ ref memory, m.ShiftsTo i (f ref { m with memory })) (selector : Expr)
    (refs : List LineRef) :
    m.ShiftsTo i ((do
      match ← selected selector refs with
      | some ref => f ref
      | none => return () : Exec Unit) m) := by
  refine cases_bind (remembers_selected selector refs) (shiftsTo_error i) fun ref memory => ?_
  cases ref with
  | none => exact shiftsTo_kept hfor ⟨_, rfl⟩
  | some ref => exact hf ref memory

section

variable {R : Machine → Machine → Prop} [AllowsResting R]

theorem rests_moveTo (p : Position) : Moves R (moveTo p) :=
  moves_modify fun _ => AllowsResting.rests ⟨rfl, rfl, rfl⟩

theorem rests_goto (ref : LineRef) : Moves R (goto ref) :=
  moves_get fun m => moves_ite (rests_moveTo _) (moves_refuseAt _ _) m

theorem rests_onGoto (selector : Expr) (refs : List LineRef) : Moves R (do
    match ← selected selector refs with
    | some ref => goto ref
    | none => return () : Exec Unit) := by
  refine (computes_selected selector refs).bind fun ref => ?_
  cases ref with
  | none => exact moves_pure ()
  | some ref => exact rests_goto ref

theorem rests_wend : Moves R wend := by
  refine moves_get fun m => ?_
  cases m.stack.whiles with
  | nil => exact refl_of R m
  | cons p outer => exact rests_moveTo p m

theorem rests_inputLoop (prompt : String) (targets : List Target) (n : Nat) :
    Moves R (inputLoop prompt targets n) := by
  induction n with
  | zero => exact moves_crash _
  | succ n ih =>
    refine moves_get fun m => ?_
    have hasked : R m { m with terminal := (m.terminal.ask prompt).2 } :=
      AllowsResting.rests ⟨rfl, rfl, rfl⟩
    cases hreply : (m.terminal.ask prompt).1 with
    | none =>
      simp only [hreply, run_set_bind]
      exact hasked
    | some reply =>
      cases reply with
      | interrupt =>
        simp only [hreply, run_set_bind]
        exact trans_of R hasked ((rests_moveTo m.current).bind (fun _ => moves_refuse _) _)
      | line text =>
        simp only [hreply, run_set_bind]
        refine trans_of R hasked (Moves.bind (computes_column fun _ => 0) (fun _ => ?_)
          { m with terminal := (m.terminal.ask prompt).2 })
        refine (moves_lift _).bind fun values => ?_
        cases values with
        | some values => exact computes_assignAll _
        | none => exact (computes_write _).bind fun _ => ih

theorem rests_input (prompt : String) (targets : List Target) (question : Bool) :
    Moves R (input prompt targets question) :=
  moves_get fun m => rests_inputLoop _ targets (m.terminal.replies.length + 1) m

theorem rests_finish : Moves R finish :=
  Moves.bind (moves_modify fun _ => AllowsResting.rests ⟨rfl, rfl, rfl⟩) fun _ => moves_throw _

theorem rests_cont : Moves R cont := by
  refine moves_get fun m => ?_
  cases m.resume with
  | none => exact refl_of R m
  | some p => exact AllowsResting.rests ⟨rfl, rfl, rfl⟩

theorem rests_delete (first last : Option Nat) : Moves R (delete first last) := by
  refine computes_requireDirect.bind fun _ => moves_ite (moves_refuse _) ?_
  exact moves_modify fun _ => AllowsResting.rests ⟨rfl, rfl, rfl⟩

theorem rests_renumber (newStart oldStart step : Option Nat) :
    Moves R (renumber newStart oldStart step) := by
  refine computes_requireDirect.bind fun _ => moves_get fun m => ?_
  simp only [run_modify_bind]
  cases (m.program.renumberDefault m.statementRoom newStart oldStart step).1 with
  | error f => exact AllowsResting.rests ⟨rfl, rfl, rfl⟩
  | ok r => exact AllowsResting.rests ⟨rfl, rfl, rfl⟩

theorem rests_jumpTo (target : Option Nat) : Moves R (jumpTo target) :=
  moves_modify fun _ => AllowsResting.rests ⟨rfl, rfl, rfl⟩

/-- Most commands open and close nothing, and take no DATA items. -/
theorem rests_command (column : Nat) {c : Command} (h : c.shifts = false)
    (hreads : c.reads = false) :
    Moves R (command column c) := by
  cases c with
  | openFor | next | openWhile | gosub | onGosub | leaveSub | clear | new | run | runFile | load =>
    cases h
  | read | restore => cases hreads
  | goto ref => exact rests_goto ref
  | onGoto selector refs => exact rests_onGoto selector refs
  | wend => exact rests_wend
  | input prompt targets question => exact rests_input prompt targets question
  | finish => exact rests_finish
  | cont => exact rests_cont
  | delete first last => exact rests_delete first last
  | renumber newStart oldStart step => exact rests_renumber newStart oldStart step
  | data | remark => exact moves_pure ()
  | stop => exact moves_refuse _
  | cls | traceOn | traceOff => exact moves_modify fun _ => AllowsResting.rests ⟨rfl, rfl, rfl⟩
  | assign target e => exact (computes_value e).bind fun v => computes_assign target v
  | assignPart target start length e => exact computes_assignPart target start length e
  | print items => exact computes_print items
  | dim arrays => exact computes_dim arrays
  | define name params body => exact computes_define name params body
  | declare kind letters => exact computes_modifyVariables fun s => .declare s letters kind
  | swap first second => exact computes_swap first second
  | erase names => exact computes_erase names
  | list first last => exact moves_get fun m => computes_writeLines _ m
  | save name => exact computes_requireDirect.bind fun _ => computes_saveFile name

end

theorem stack_run (ref : Option LineRef) (m : Machine) : (run ref m).2.stack = {} := by
  have hstarts := starts_start { m with direct := #[] } (ref.map LineRef.line)
    (ref.map LineRef.column)
  unfold run
  rw [run_modify_bind]
  generalize start (ref.map LineRef.line) (ref.map LineRef.column) { m with direct := #[] } =
    r at hstarts
  cases hstarts <;> rfl

/-- Loading closes everything if it succeeds, and nothing if it fails. -/
theorem stack_loadFile (name : Expr) (m : Machine) :
    match loadFile name m with
    | (.ok _, m') => m'.stack = {}
    | (.error _, m') => m'.stack = m.stack := by
  have hstack : (value name m).2.stack = m.stack := by rw [value_eq, run_ofEval]
  have hfetches := fetches_loadFile name m
  generalize loadFile name m = r at hfetches
  cases hfetches with
  | unnamed => exact hstack
  | fails => exact hstack
  | takes => rfl

theorem shiftsTo_cleared {i : Instr} (hclears : i.clears = true) (hfor : i.isFor = false)
    {r : Except Halt Unit × Machine} (hstack : r.2.stack = {}) : m.ShiftsTo i r := by
  unfold ShiftsTo
  rw [i.opensLoop_of_not_isFor hfor, hstack]
  exact .cleared hclears

theorem shiftsTo_load (column : Nat) (name : Expr) :
    m.ShiftsTo (.command column (.load name)) (command column (.load name) m) := by
  rw [show command column (.load name) = (do requireDirect; loadFile name : Exec Unit) from rfl,
    run_bind, run_requireDirect]
  split
  · rename_i hrun
    split at hrun
    · cases hrun
    · obtain ⟨-, rfl⟩ := Prod.mk.inj hrun
      have hload := stack_loadFile name m
      generalize loadFile name m = r at hload
      obtain ⟨_ | _, m'⟩ := r
      · exact shiftsTo_kept rfl ⟨_, hload⟩
      · exact shiftsTo_cleared rfl rfl hload
  · rename_i hrun
    split at hrun
    · obtain ⟨-, rfl⟩ := Prod.mk.inj hrun
      exact shiftsTo_kept rfl ⟨_, rfl⟩
    · cases hrun

theorem shiftsTo_runFile (column : Nat) (name : Expr) :
    m.ShiftsTo (.command column (.runFile name)) (command column (.runFile name) m) := by
  have hload := stack_loadFile name m
  rw [show command column (.runFile name) = (do loadFile name; run none : Exec Unit) from rfl,
    run_bind]
  generalize loadFile name m = r at hload
  obtain ⟨_ | _, m'⟩ := r
  · exact shiftsTo_kept rfl ⟨_, hload⟩
  · exact shiftsTo_cleared rfl rfl (stack_run none m')

/-- **What every command opens and closes.** -/
theorem shiftsTo_command (column : Nat) (c : Command) (m : Machine) :
    m.ShiftsTo (.command column c) (command column c m) := by
  cases c with
  | openFor name start limit step => exact shiftsTo_openFor column name start limit step
  | next name => exact shiftsTo_nextLoop column name
  | openWhile condition => exact shiftsTo_openWhile column condition
  | gosub ref => exact shiftsTo_gosub rfl rfl ref
  | onGosub selector refs =>
    exact shiftsTo_selected rfl
      (fun ref memory => shiftsTo_gosub (m := { m with memory }) rfl rfl ref) selector refs
  | leaveSub => exact shiftsTo_leaveSub column
  | clear => exact shiftsTo_cleared rfl rfl rfl
  | new => exact shiftsTo_cleared rfl rfl rfl
  | run ref => exact shiftsTo_cleared rfl rfl (stack_run ref m)
  | runFile name => exact shiftsTo_runFile column name
  | load name => exact shiftsTo_load column name
  | read targets => exact shiftsTo_kept rfl (computes_read targets m)
  | restore ref => exact shiftsTo_kept rfl (computes_restore ref m)
  | _ => exact shiftsTo_kept rfl (rests_command column rfl rfl m)

/-- **What every instruction opens and closes.** -/
theorem shiftsTo_instr (i : Instr) (m : Machine) : m.ShiftsTo i (instr i m) := by
  cases i with
  | command column c => exact shiftsTo_command column c m
  | jump column target => exact shiftsTo_kept rfl ⟨_, rfl⟩
  | branch column condition target =>
    refine cases_bind (remembers_value condition) (shiftsTo_error _) fun v memory => ?_
    refine cases_bind (m := { m with memory }) (moves_lift _) (shiftsTo_error _)
      fun holds memory => ?_
    cases holds with
    | true => exact shiftsTo_kept rfl ⟨_, rfl⟩
    | false => exact shiftsTo_kept rfl ⟨_, rfl⟩

end Exec

namespace Session

open Machine

/-! ## Every step -/

/-- The next statement is a FOR, and it opens its loop: execution goes on behind it. -/
def opensLoop (s t : Session) : Bool :=
  s.phase = .running && t.phase = .running && s.machine.upcoming?.any Instr.isFor &&
    t.machine.position = s.machine.position.after

/-- What a step does to all that is open: nothing, what the instruction does that it executes, or,
at the prompt, it closes everything. -/
inductive Shifts (s t : Session) : Prop where
  | rests (opens : opensLoop s t = false) (stack : t.machine.stack = s.machine.stack)
  | forgets (opens : opensLoop s t = false) (prompt : s.phase = .prompt)
      (stack : t.machine.stack = {})
  | executes {i : Instr} (running : s.phase = .running) (upcoming : s.machine.upcoming? = some i)
      (shifts : s.machine.stack.Shifts s.machine.position s.machine.position.after i
        (opensLoop s t) t.machine.stack)

theorem opensLoop_of_prompt {s t : Session} (h : s.phase = .prompt ∨ t.phase = .prompt) :
    opensLoop s t = false := by
  rcases h with h | h <;> simp [opensLoop, h]

theorem stack_of_reports {m m' : Machine} (h : m.Reports m') : m'.stack = m.stack := by
  obtain ⟨_, _, _, _, rfl⟩ := h
  rfl

theorem stack_settle (r : Except Halt Unit) (m : Machine) : (settle r m).2.stack = m.stack := by
  have hstack := stack_of_reports (reports_settle r m)
  exact hstack

/-- A turn does what the instruction does that it executes. -/
theorem shifts_turn (edited : Bool) (m : Machine) :
    Shifts ⟨.running, edited, m⟩ (turned m edited (tick m)) := by
  have hturn := turn_tick m
  generalize tick m = r at hturn
  cases hturn with
  | missing | typedEnd | programEnd | broken =>
    exact .rests (opensLoop_of_prompt (.inr rfl)) (stack_settle _ _)
  | @lineEnd code n k code_eq ended =>
    have hupcoming := upcoming?_eq_none code_eq ended
    exact .rests (by simp [opensLoop, hupcoming]) rfl
  | cut _ _ _ trace =>
    obtain ⟨_, _, _, rfl⟩ := writes_of_showTrace trace
    exact .rests (opensLoop_of_prompt (.inr rfl)) (stack_settle _ _)
  | @executed code i m' m'' code_eq here pending trace run =>
    have hupcoming := upcoming?_eq_some pending code_eq here
    have hshifts := Exec.shiftsTo_instr i (m'.atStatement m.position)
    rw [run] at hshifts
    have hflag : opensLoop ⟨.running, edited, m⟩ (turned m edited (.ok true, m'')) =
        i.opensLoop (m'.atStatement m.position) (.ok (), m'') := by
      simp only [opensLoop, turned, hupcoming, Instr.opensLoop, decide_true, Bool.true_and]
      rfl
    refine .executes rfl hupcoming ?_
    rw [hflag]
    obtain ⟨_, _, _, rfl⟩ := writes_of_showTrace trace
    exact hshifts
  | @halted code i e m' m'' code_eq here pending trace run =>
    have hupcoming := upcoming?_eq_some pending code_eq here
    have hshifts := Exec.shiftsTo_instr i (m'.atStatement m.position)
    rw [run] at hshifts
    obtain ⟨_, _, _, rfl⟩ := writes_of_showTrace trace
    refine .executes rfl hupcoming ?_
    rw [opensLoop_of_prompt (.inr rfl)]
    simp only [turned, stack_settle]
    exact hshifts

/-- **What every step opens and closes.** -/
theorem Step.shifts {s t : Session} (h : Step s t) : Shifts s t := by
  have hprompt : ∀ {edited : Bool} {m : Machine} {t : Session}, t.machine.stack = m.stack →
      Shifts ⟨.prompt, edited, m⟩ t :=
    fun hstack => .rests (opensLoop_of_prompt (.inl rfl)) hstack
  have hforgets : ∀ {edited : Bool} {m : Machine} {t : Session}, t.machine.stack = {} →
      Shifts ⟨.prompt, edited, m⟩ t :=
    fun hstack => .forgets (opensLoop_of_prompt (.inl rfl)) rfl hstack
  cases h with
  | @world phase edited m m' elsewhere =>
    obtain ⟨_, _, _, _, _, _, _, _, _, rfl⟩ := elsewhere
    have hsame : m.position ≠ m.position.after := by
      intro h
      have hindex : m.position.index = m.position.index + 1 := congrArg Position.index h
      omega
    exact .rests (by simp [opensLoop, hsame]) rfl
  | enter text edited m =>
    have haccepts := accepts_accept text m
    generalize accept text m = r at haccepts
    cases haccepts with
    | stored | nothing | code => exact hprompt rfl
    | @refused r m' refused reports =>
      have hstack := stack_of_reports reports
      rcases r with c | _ | _ | _ <;> exact hprompt hstack
  | load text edited m =>
    have htakes := takes_load text m
    generalize Machine.load text m = r at htakes
    cases htakes with
    | takes => exact hforgets rfl
    | @refused r m' refused reports =>
      have hstack := stack_of_reports reports
      rcases r with c | _ | _ <;> exact hprompt hstack
  | start line edited m =>
    have hprepares := prepares_prepare line m
    generalize prepare line m = r at hprepares
    cases hprepares with
    | goes => exact hforgets rfl
    | @stays r m' stays reports =>
      have hstack := stack_of_reports reports
      rcases r with c | _ | _ <;> exact hforgets hstack
  | ready edited m => exact hprompt rfl
  | turn edited m => exact shifts_turn edited m
  | abandon c edited m => exact .rests (opensLoop_of_prompt (.inr rfl)) (stack_settle _ _)

end Session

end LineBasic
