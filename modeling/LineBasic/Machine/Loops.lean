import LineBasic.Machine.Basic

/-!
# Loops and subroutines

FOR keeps a frame per open loop, at most one for each variable. WHILE keeps the position of its
statement. A loop that is not entered at all is skipped by looking ahead for its end in the order of
the code: statements in between are not executed, and loops among them are passed over whole.
-/

namespace LineBasic

/-- The position after another on the same line. -/
def Position.after (p : Position) : Position := ⟨p.line, p.index + 1⟩

/-- The instructions of a line from an index on, with their positions. -/
def instrsFrom (line : Option Nat) (index : Nat) (code : Array Instr) : List (Position × Instr) :=
  (code.toList.zipIdx.drop index).map fun (instr, i) => (⟨line, i⟩, instr)

/-- `_scan_forward`: the instructions from a position on, in the order of the code. They are those
of the rest of its line, then of the lines after it; the typed line has no lines after it. -/
def Machine.ahead (m : Machine) (p : Position) : List (Position × Instr) :=
  let first := instrsFrom p.line p.index ((m.codeAt? p.line).getD #[])
  match p.line with
  | none => first
  | some n =>
    let later := m.program.lines.filter fun l => n < l.number
    first ++ later.flatMap fun l => instrsFrom (some l.number) 0 l.code

/-- `_skip_to_next`: the position after the NEXT that ends a loop over `var`. It names the variable
or none, and stands outside the loops that begin on the way. -/
def findNext? (resolve : String → String) (var : String) :
    Nat → List (Position × Instr) → Option Position
  | _, [] => none
  | depth, (p, .command _ c) :: rest =>
    match c, depth with
    | .openFor _ _ _ _, depth => findNext? resolve var (depth + 1) rest
    | .next _, depth + 1 => findNext? resolve var depth rest
    | .next name, 0 =>
      if name.all fun s => resolve s = var then some p.after else findNext? resolve var 0 rest
    | _, depth => findNext? resolve var depth rest
  | depth, _ :: rest => findNext? resolve var depth rest

/-- The position after the WEND that ends a loop, passing over the loops that begin on the way, as
`_exec_while` looks for it. -/
def findWend? : Nat → List (Position × Instr) → Option Position
  | _, [] => none
  | depth, (p, .command _ c) :: rest =>
    match c, depth with
    | .openWhile _, depth => findWend? (depth + 1) rest
    | .wend, depth + 1 => findWend? depth rest
    | .wend, 0 => some p.after
    | _, depth => findWend? depth rest
  | depth, _ :: rest => findWend? depth rest

namespace Exec

/-- The number that a loop variable holds; it may have become a string since the loop began. -/
def loopNumber : Value → Exec Float
  | .text _ => crash .stringLoop
  | .single x | .double x => return x

/-- The loop is over: its variable has passed the limit in the direction of the step. -/
def isPast (step value limit : Float) : Bool :=
  if step < 0.0 then value < limit else limit < value

/-- The bound of a loop, in the precision of its variable. -/
def bound (kind : Kind) (e : Expr) : Exec Float := do
  let x ← lift (← value e).number
  lift (if kind = .double then toDouble x else toSingle x)

/-- The loops without the one over a variable and those inside it. -/
def closeLoop (var : String) (loops : List LoopFrame) : List LoopFrame :=
  if loops.any fun f => f.var = var then (loops.dropWhile fun f => f.var != var).drop 1 else loops

/-- Opens a FOR loop over a variable that has its first value, or goes behind its NEXT if it is over
at once. -/
def enterLoop (column : Nat) (var : String) (limit step : Float) : Exec Unit := do
  modifyStacks fun s => { s with loops := closeLoop var s.loops }
  let x ← loopNumber ((← get).memory.store.get var)
  if isPast step x limit then
    let m ← get
    match findNext? m.memory.store.resolve var 0 (m.ahead m.position) with
    | some p => moveTo p
    | none => refuseAt .forWithoutNext column
  else
    checkStack
    let position := (← get).position
    modifyStacks fun s => { s with loops := ⟨var, limit, step, position⟩ :: s.loops }

/-- `_exec_for`: begins a FOR loop, or skips it. -/
def openFor (column : Nat) (name : String) (start limit : Expr) (step : Option Expr) :
    Exec Unit := do
  let store := (← get).memory.store
  let var := store.resolve name
  let kind := store.kindOf var
  setScalar var (← value start)
  let limit ← bound kind limit
  let step ← match step with
    | some e => bound kind e
    | none => pure 1.0
  enterLoop column var limit step

/-- The loops from the one over a variable outward; none if there is no such loop. -/
def loopsFrom? (var : String) (loops : List LoopFrame) : Option (List LoopFrame) :=
  match loops.dropWhile fun f => f.var != var with
  | [] => none
  | found => some found

/-- `_exec_next`: ends a turn of the FOR loop that NEXT names, or of the innermost one. -/
def nextLoop (column : Nat) (name : Option String) : Exec Unit := do
  let m ← get
  let found := match name with
    | none => some m.stack.loops
    | some s => loopsFrom? (m.memory.store.resolve s) m.stack.loops
  match found with
  | none | some [] => refuseAt .nextWithoutFor column
  | some (frame :: outer) =>
    modifyStacks fun s => { s with loops := frame :: outer }
    let x ← loopNumber (m.memory.store.get frame.var)
    setScalar frame.var (.single (x + frame.step))
    let x ← loopNumber ((← get).memory.store.get frame.var)
    if isPast frame.step x frame.limit then modifyStacks fun s => { s with loops := outer }
    else moveTo frame.position

/-- `_exec_while`: begins or goes on with a WHILE loop, or skips what is left of it. -/
def openWhile (condition : Expr) : Exec Unit := do
  let here := (← get).current
  let isOpen := (← get).stack.whiles.head? = some here
  if ← lift (← value condition).truth then
    if isOpen then return ()
    else
      checkStack
      modifyStacks fun s => { s with whiles := here :: s.whiles }
  else
    if isOpen then modifyStacks fun s => { s with whiles := s.whiles.tail }
    let m ← get
    match findWend? 0 (m.ahead m.position) with
    | some p => moveTo p
    | none => refuse .whileWithoutWend

/-- `_exec_wend`: goes back to the WHILE of the innermost loop. -/
def wend : Exec Unit := do
  match (← get).stack.whiles with
  | [] => refuse .wendWithoutWhile
  | p :: _ => moveTo p

/-- `_exec_gosub`: opens a subroutine. -/
def gosub (ref : LineRef) : Exec Unit := do
  if !(← get).program.contains ref.line then refuseAt .undefinedLine ref.column
  else
    checkStack
    let m ← get
    let frame := ⟨m.position, m.stack.loops.length, m.stack.whiles.length⟩
    modifyStacks fun s => { s with returns := frame :: s.returns }
    moveTo ⟨some ref.line, 0⟩

/-- The outermost frames of a stack. -/
def outermost {α : Type} (count : Nat) (frames : List α) : List α :=
  frames.drop (frames.length - count)

/-- `_exec_return`: returns from a subroutine and closes the loops that it left open. -/
def leaveSub : Exec Unit := do
  match (← get).stack.returns with
  | [] => refuse .returnWithoutGosub
  | frame :: outer =>
    modifyStacks fun s =>
      { s with
        returns := outer
        loops := outermost frame.loops s.loops
        whiles := outermost frame.whiles s.whiles }
    moveTo frame.position

/-- `_exec_on`: the line that ON selects; none if the selector is zero or beyond the list. -/
def selected (selector : Expr) (refs : List LineRef) : Exec (Option LineRef) := do
  let n ← lift (← value selector).integer
  if n < 0 || 255 < n then refuse .illegalQuantity
  else if n = 0 then return none
  else return refs[n.toNat - 1]?

end Exec

end LineBasic
