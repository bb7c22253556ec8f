import LineBasic.Machine.Evaluate
import LineBasic.Notice
import LineBasic.Storage.Patch
import LineBasic.Storage.Settings
import LineBasic.Terminal

/-!
# The machine

The state of the machine: the program and the line being typed, the variables, what is open, and
where execution stands. A position is an index into the code of a line of the program, or into the
code of the typed line.
-/

namespace LineBasic

/-- A place in the code: the number of a line, or none for the typed line, and an index. -/
structure Position where
  line : Option Nat
  index : Nat
  deriving DecidableEq, Repr, Inhabited

/-- An open subroutine, on the `gosub_stack`: where it returns to, and how many loops of each kind
were open. -/
structure ReturnFrame where
  position : Position
  loops : Nat
  whiles : Nat
  deriving DecidableEq, Repr, Inhabited

/-- An open FOR loop, on the `for_stack`: its variable, its bounds, and where its body begins. -/
structure LoopFrame where
  var : String
  limit : Float
  step : Float
  position : Position
  deriving Inhabited

/-- `ExecutionContext`: what a run has opened, innermost first, and how far it has read the DATA
items. -/
structure Stacks where
  returns : List ReturnFrame := []
  loops : List LoopFrame := []
  whiles : List Position := []
  cursor : Nat := 0
  deriving Inhabited

/-- How many loops and subroutines are open. -/
def Stacks.frames (s : Stacks) : Nat := s.returns.length + s.loops.length + s.whiles.length

/-- `BasicInterpreter`: the machine. -/
structure Machine where
  settings : Settings
  stackLimit : Int := 256
  program : Program := {}
  memory : Memory := {}
  functions : Table Definition := {}
  stack : Stacks := {}
  /-- the code of the typed line -/
  direct : Array Instr := #[]
  position : Position := ⟨none, 0⟩
  /-- the statement being executed -/
  current : Position := ⟨none, 0⟩
  /-- where CONT goes on -/
  resume : Option Position := none
  running : Bool := false
  breakPending : Bool := false
  /-- the column of the cursor, from zero -/
  column : Nat := 0
  trace : Bool := false
  /-- the line that was traced last -/
  traced : Option Nat := none
  lastError : Option Error := none
  terminal : Terminal := {}
  disk : Disk := {}
  network : Network := {}
  /-- the last one first -/
  notices : List Notice := []
  /-- the random states that the next fresh starts take -/
  seeds : List Random := []
  /-- the calls that the host allows at the prompt, beyond those that all it does needs anyway -/
  spare : Nat := 926
  /-- the most array cells that the host has memory for -/
  cells : Nat := 1073741824
  deriving Inhabited

/-- What ends the execution of statements: `ExecutionFinished`, or a fault. -/
inductive Halt where
  | finished
  | fault (f : Fault)
  deriving DecidableEq, Repr, Inhabited

/-- Execution of statements: the machine is kept even when it stops. -/
abbrev Exec := ExceptT Halt (StateM Machine)

/-- What is done at the prompt: only a crash gets out of it. -/
abbrev Act := ExceptT Crash (StateM Machine)

namespace Machine

/-- A machine with the given settings; limits that are no numbers are noted. -/
def new (settings : Settings) : Machine :=
  let (memoryLimit, first) := settings.memoryLimit
  let (stackLimit, second) := settings.stackLimit
  { settings, stackLimit, memory := { store := { limit := memoryLimit } },
    notices := (first ++ second).reverse }

/-- What evaluation reads. -/
def scope (m : Machine) : Scope :=
  ⟨m.functions, m.stack.frames, m.stackLimit, m.column, m.cells⟩

/-- The calls that the host allows at least: enough for all that is done but for what is nested in
lines and expressions. -/
def leastRoom : Nat := 64

/-- The calls that may be open at once, from the one at the prompt on (`enter`, `run` or
`load_program`). -/
def room (m : Machine) : Nat := leastRoom + m.spare

/-- The calls that a statement may open: `enter`, `_execute`, `_loop` and the handler of the
statement itself are open. -/
def statementRoom (m : Machine) : Nat := m.room - 4

/-- `_code_at`: the code of a line of the program or of the typed line. -/
def codeAt? (m : Machine) : Option Nat → Option (Array Instr)
  | none => some m.direct
  | some n => (m.program.line? n).map ProgramLine.code

/-- Where programs come from. -/
def library (m : Machine) : Library :=
  ⟨m.disk, m.network, m.settings.disks, m.settings.patchUrl⟩

/-- `_write_raw`: the machine after a text was written. A request to break that arrives is kept,
unless the interrupt key was struck and no program runs (`on_interrupt`). -/
def writeRaw (s : String) : Act Unit := do
  modify fun m => { m with terminal := m.terminal.write s }
  let m ← get
  match m.terminal.arrived with
  | none => return ()
  | some (.signal _) => set { m with breakPending := true }
  | some (.key _) => if m.running then set { m with breakPending := true } else throw .interruptKey

/-- `_report`: shows an error on a line of its own. -/
def report (e : Error) : Act Unit := do
  modify fun m => { m with lastError := some e }
  writeRaw (e.report (← get).column ++ "\n")
  modify fun m => { m with column := 0 }

/-! ## Fresh starts -/

/-- `_reset_context`: closes everything that is open and starts new random numbers. -/
def resetStacks (m : Machine) : Machine :=
  { m with
    stack := {}
    resume := none
    memory := { m.memory with random := m.seeds.headD {}, calls := 0 }
    seeds := m.seeds.tail }

/-- `_clear_variables`: forgets the variables, and closes everything that is open. -/
def clearVariables (m : Machine) : Machine :=
  resetStacks { m with memory := { m.memory with store := m.memory.store.clear } }

/-- `_new`: forgets the program and all that it made. -/
def clearAll (m : Machine) : Machine :=
  clearVariables { m with program := {}, functions := {}, trace := false }

/-- `_replace_program`: takes another program. -/
def replaceProgram (m : Machine) (p : Program) : Machine :=
  clearVariables { m with program := p, functions := {} }

end Machine

namespace Exec

/-- An error of the given kind. -/
def refuse {α : Type} (kind : ErrorKind) : Exec α :=
  throw (.fault (.error (.of kind)))

/-- An error of the given kind at a column. -/
def refuseAt {α : Type} (kind : ErrorKind) (column : Nat) : Exec α :=
  throw (.fault (.error (.atColumn kind column)))

/-- A condition without a message. -/
def crash {α : Type} (c : Crash) : Exec α :=
  throw (.fault (.crash c))

/-- A result that does not touch the machine. -/
def lift {α : Type} : Except Error α → Exec α
  | .ok a => pure a
  | .error e => throw (.fault (.error e))

/-- A result, which may also be a crash, that does not touch the machine. -/
def liftFault {α : Type} : Except Fault α → Exec α
  | .ok a => pure a
  | .error f => throw (.fault f)

/-- What is done at the prompt, done by a statement. -/
def ofAct {α : Type} (a : Act α) : Exec α := fun m =>
  match a m with
  | (.ok x, m) => (.ok x, m)
  | (.error c, m) => (.error (.fault (.crash c)), m)

/-- `_write`: writes a text and follows the cursor. -/
def write (s : String) : Exec Unit := do
  ofAct (Machine.writeRaw s)
  modify fun m => { m with column := advanceColumn m.column s }

/-- What an evaluation gives a statement. -/
def ofEval {α : Type} (x : Eval α) : Exec α := fun m =>
  match x m.scope m.memory with
  | (.ok a, memory) => (.ok a, { m with memory })
  | (.error f, memory) => (.error (.fault f), { m with memory })

/-- `evaluate`: the value of an expression. -/
def value (e : Expr) : Exec Value := do
  ofEval (evaluate (← get).statementRoom e)

/-- The values of expressions, from left to right, with so many more calls open. -/
def values (calls : Nat) (es : List Expr) : Exec (List Value) := do
  ofEval (evaluateAll ((← get).statementRoom - calls) es)

/-- Changes the variables. -/
def modifyVariables (f : Store → Store) : Exec Unit :=
  modify fun m => { m with memory := { m.memory with store := f m.memory.store } }

/-- `VariableStore.set`: stores a value in a scalar. -/
def setScalar (name : String) (v : Value) : Exec Unit := do
  let store ← lift ((← get).memory.store.set name v)
  modifyVariables fun _ => store

/-- `VariableStore.set_element`: stores a value in an array element. -/
def setElement (name : String) (indices : List Value) (v : Value) : Exec Unit := do
  let m ← get
  let (result, store) := m.memory.store.setElement m.cells (m.statementRoom - 1) name indices v
  modifyVariables fun _ => store
  liftFault result

/-- `_assign`: stores a value in a target; the subscripts are evaluated now. -/
def assign (target : Target) (v : Value) : Exec Unit := do
  match target with
  | .scalar _ name => setScalar name v
  | .element _ name indices =>
    let indices ← values 1 indices
    setElement name indices v

/-- `_check_stack`: refuses to open another loop or subroutine when too much is open. -/
def checkStack : Exec Unit := do
  let m ← get
  if m.stackLimit ≤ m.stack.frames + m.memory.calls then refuse .stackOverflow else return ()

/-- Changes what is open. -/
def modifyStacks (f : Stacks → Stacks) : Exec Unit :=
  modify fun m => { m with stack := f m.stack }

/-- Goes on at a position. -/
def moveTo (p : Position) : Exec Unit :=
  modify fun m => { m with position := p }

/-- `_goto`: goes on at the start of a line. -/
def goto (ref : LineRef) : Exec Unit := do
  if (← get).program.contains ref.line then moveTo ⟨some ref.line, 0⟩
  else refuseAt .undefinedLine ref.column

/-- `_require_direct`: the command must be typed and not be in the program. -/
def requireDirect : Exec Unit := do
  if (← get).current.line.isSome then refuse .illegalDirect else return ()

end Exec

end LineBasic
