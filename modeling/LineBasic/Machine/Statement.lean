import LineBasic.Machine.Loops
import LineBasic.Machine.Printing
import LineBasic.Machine.Reading

/-!
# Executing statements

`Exec.command` is the effect of each command, and `Exec.instr` that of each instruction. When a
statement begins, the position is already that of the one after it.
-/

namespace LineBasic.Exec

/-! ## Variables -/

/-- The text with part of it overwritten, from a place counted from one; its length stays. -/
def overwrite (s : List Char) (start : Nat) (replacement : List Char) : List Char :=
  let head := s.take (start - 1)
  (head ++ replacement ++ s.drop (head.length + replacement.length)).take s.length

/-- `_exec_mid_assign`: overwrites part of a string variable. -/
def assignPart (target : Target) (start : Expr) (length : Option Expr) (e : Expr) : Exec Unit := do
  let s ← lift (← value target.toExpr).string
  let start ← lift (← value start).count
  if start = 0 then refuse .illegalQuantity
  else
    let replacement := (← lift (← value e).string).toList
    let replacement ← match length with
      | none => pure replacement
      | some e => do pure (replacement.take (← lift (← value e).count))
    assign target (.text (String.ofList (overwrite s.toList start replacement)))

/-- `_exec_swap`: exchanges the values of two variables of one kind. -/
def swap (first second : Target) : Exec Unit := do
  let store := (← get).memory.store
  if store.kindOf first.name != store.kindOf second.name then refuse .typeMismatch
  else
    let a ← value first.toExpr
    let b ← value second.toExpr
    assign first b
    assign second a

/-- `_exec_dim`: dimensions arrays. -/
def dim : List (String × List Expr) → Exec Unit
  | [] => return ()
  | (name, bounds) :: rest => do
    let bounds ← values 0 bounds
    let m ← get
    let (result, store) := m.memory.store.dim m.cells m.statementRoom name bounds
    modifyVariables fun _ => store
    discard <| liftFault result
    dim rest

/-- Forgets the named arrays. -/
def eraseNamed : List String → Exec Unit
  | [] => return ()
  | name :: rest => do
    let store ← lift ((← get).memory.store.eraseArray name)
    modifyVariables fun _ => store
    eraseNamed rest

/-- `_exec_erase`: forgets the named arrays, or all of them. -/
def erase (names : List String) : Exec Unit := do
  if names.isEmpty then modifyVariables Store.eraseAll else eraseNamed names

/-- `_exec_def`: defines a function; only a program can. -/
def define (name : String) (params : List String) (body : Expr) : Exec Unit := do
  if (← get).current.line.isNone then refuse .illegalDirect
  else modify fun m => { m with functions := m.functions.insert name ⟨params, body⟩ }

/-! ## Control -/

/-- `_exec_end`: ends the run; a program can be continued after its END. -/
def finish : Exec Unit := do
  modify fun m => { m with resume := if m.position.line.isSome then some m.position else none }
  throw .finished

/-- `_exec_cont`: goes on where the program was stopped. -/
def cont : Exec Unit := do
  match (← get).resume with
  | none => refuse .cannotContinue
  | some p => modify fun m => { m with position := p, resume := none }

/-- `_start`: starts the program afresh at a line, or at its first line. -/
def start (line column : Option Nat) : Exec Unit := do
  modify fun m => Machine.clearVariables { m with functions := {} }
  let p := (← get).program
  match line with
  | none =>
    match p.lowest? with
    | none => throw .finished
    | some n => moveTo ⟨some n, 0⟩
  | some n =>
    if p.contains n then moveTo ⟨some n, 0⟩
    else throw (.fault (.error { kind := .undefinedLine, column }))

/-- `_exec_run`: starts the program afresh and forgets the typed line. -/
def run (ref : Option LineRef) : Exec Unit := do
  modify fun m => { m with direct := #[] }
  start (ref.map LineRef.line) (ref.map LineRef.column)

/-! ## Program and files -/

/-- Takes the program with a name: `_exec_load`, and `_exec_run` with a name. -/
def loadFile (name : Expr) : Exec Unit := do
  let name ← lift (← value name).string
  let m ← get
  let (result, disk) := m.library.load m.statementRoom name
  modify fun m => { m with disk }
  match result.bind (Program.load (m.statementRoom - 1)) with
  | .ok p => modify fun m => m.replaceProgram p
  | .error f => throw (.fault f)

/-- `_exec_save`: saves the program under a name. -/
def saveFile (name : Expr) : Exec Unit := do
  let name ← lift (← value name).string
  let m ← get
  let (result, disk) := Shelf.save m.disk m.settings.disks name m.program.listingAll true
  set { m with disk }
  discard <| liftFault result

/-- Writes lines, each on its own. -/
def writeLines : List String → Exec Unit
  | [] => return ()
  | line :: rest => do
    write (line ++ "\n")
    writeLines rest

/-- `_exec_delete`: removes lines. -/
def delete (first last : Option Nat) : Exec Unit := do
  requireDirect
  if first.isNone && last.isNone then refuse .illegalQuantity
  else modify fun m => { m with program := m.program.eraseRange first last, resume := none }

/-- `_exec_renum`: renumbers the program. -/
def renumber (newStart oldStart step : Option Nat) : Exec Unit := do
  requireDirect
  let m ← get
  let (result, missing) := m.program.renumberDefault m.statementRoom newStart oldStart step
  modify fun m => { m with notices := (missing.map Notice.missingLine).reverse ++ m.notices }
  match result with
  | .ok (p, _) => modify fun m => { m with program := p, resume := none }
  | .error f => throw (.fault f)

/-! ## All statements -/

/-- Executes a command that stands at a column: the handlers `_exec_let` to `_exec_save`. -/
def command (column : Nat) : Command → Exec Unit
  | .assign target e => do assign target (← value e)
  | .assignPart target start length e => assignPart target start length e
  | .print items => print items
  | .input prompt targets question => input prompt targets question
  | .openFor var start limit step => openFor column var start limit step
  | .next var => nextLoop column var
  | .goto ref => goto ref
  | .gosub ref => gosub ref
  | .onGoto selector refs => do
    match ← selected selector refs with
    | some ref => goto ref
    | none => return ()
  | .onGosub selector refs => do
    match ← selected selector refs with
    | some ref => gosub ref
    | none => return ()
  | .leaveSub => leaveSub
  | .dim arrays => dim arrays
  | .data _ => return ()
  | .read targets => read targets
  | .restore ref => restore ref
  | .finish => finish
  | .stop => refuse .interrupted
  | .remark _ => return ()
  | .openWhile condition => openWhile condition
  | .wend => wend
  | .define name params body => define name params body
  | .declare kind letters => modifyVariables fun s => s.declare letters kind
  | .swap first second => swap first second
  | .erase names => erase names
  | .clear => modify Machine.clearVariables
  | .cls => modify fun m => { m with terminal := m.terminal.clear, column := 0 }
  | .cont => cont
  | .traceOn => modify fun m => { m with trace := true }
  | .traceOff => modify fun m => { m with trace := false }
  | .new => do
    modify Machine.clearAll
    throw .finished
  | .run ref => run ref
  | .runFile name => do
    loadFile name
    run none
  | .list first last => do writeLines ((← get).program.listing first last)
  | .delete first last => delete first last
  | .renumber newStart oldStart step => renumber newStart oldStart step
  | .load name => do
    requireDirect
    loadFile name
  | .save name => do
    requireDirect
    saveFile name

/-- `_jump_within_line`: goes on at an index of the line, or at its end. -/
def jumpTo (target : Option Nat) : Exec Unit :=
  modify fun m =>
    let line := m.position.line
    { m with position := ⟨line, target.getD ((m.codeAt? line).getD #[]).size⟩ }

/-- Executes an instruction; `branch` and `jump` are `_exec_if_jump` and `_exec_jump`. -/
def instr : Instr → Exec Unit
  | .command column c => command column c
  | .branch _ condition target => do
    if ← lift (← value condition).truth then return () else jumpTo target
  | .jump _ target => jumpTo (some target)

end LineBasic.Exec
