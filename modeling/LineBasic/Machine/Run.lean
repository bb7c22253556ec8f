import LineBasic.Machine.Statement

/-!
# Running

`tick` is one turn of the machine: it goes to the next line at the end of a line, stops for a break
that was asked for, or executes the instruction at the position. `turns` takes as many turns as it
may. `execute` runs until something stops the run and shows the error if that was one; `enter`,
`load` and `start` are what can be done at the prompt. Their parts (`accept`, `prepare`, `begin`,
`settle`) stand alone, so that a run can also be taken turn by turn.
-/

namespace LineBasic.Machine

/-- Names the line in an error that a statement of the program raised. -/
def placeHalt (line : Option Nat) : Halt → Halt
  | .fault (.error e) => .fault (.error (e.inLine? line))
  | h => h

/-- Executes with errors placed in a line. -/
def inLine (line : Option Nat) (x : Exec Unit) : Exec Unit := fun m =>
  match x m with
  | (.ok u, m) => (.ok u, m)
  | (.error h, m) => (.error (placeHalt line h), m)

/-- Goes to the line after the one that has come to its end. False means that there is none. -/
def nextLine : Exec Bool := do
  let m ← get
  match m.position.line with
  | none => return false
  | some n =>
    match m.program.next? n with
    | none =>
      set { m with resume := none }
      return false
    | some k =>
      set { m with position := ⟨some k, 0⟩ }
      return true

/-- Stops if a break was asked for. -/
def takeBreak : Exec Unit := do
  let m ← get
  if m.breakPending then
    set { m with breakPending := false }
    throw (placeHalt m.position.line (.fault (.error (.of .interrupted))))
  else return ()

/-- Shows the number of a line that is entered, if lines are traced. -/
def showTrace : Exec Unit := do
  let m ← get
  match m.position.line with
  | some n =>
    if m.trace && m.traced != some n then Exec.write ("[" ++ toString n ++ "]") else return ()
  | none => return ()

/-- One turn of `_loop`. False means that the run has come to the end of the code. -/
def tick : Exec Bool := do
  let m ← get
  let here := m.position
  match m.codeAt? here.line with
  | none => Exec.crash .missingLine
  | some code =>
    match code[here.index]? with
    | none => nextLine
    | some instr =>
      takeBreak
      showTrace
      modify fun m => { m with traced := here.line, current := here, position := here.after }
      inLine here.line (Exec.instr instr)
      return true

/-- `_loop`: takes turns until the run stops. A run of more than `fuel` turns is given up. -/
def turns : Nat → Exec Unit
  | 0 => Exec.crash .exhausted
  | fuel + 1 => do
    if ← tick then turns fuel else return ()

/-- Stops a run on an error: after a break the program can be continued. -/
def stopOn (e : Error) : Act Unit := do
  modify fun m =>
    { m with
      running := false
      resume := if e.kind = .interrupted && m.position.line.isSome then some m.position else none }
  report e

/-- The machine at the beginning of a run, as `_execute` sets it. -/
def begin (m : Machine) : Machine :=
  { m with running := true, breakPending := false, traced := none }

/-- What follows a run that has stopped: the handlers of `_execute`, which show an error. -/
def settle : Except Halt Unit → Act Unit
  | .ok () | .error .finished => modify fun m => { m with running := false }
  | .error (.fault (.error e)) => stopOn e
  | .error (.fault (.crash c)) => do
    modify fun m => { m with running := false, resume := none }
    throw c

/-- `_execute`: runs the code at the position until something stops the run. -/
def execute (fuel : Nat) : Act Unit := fun m =>
  let (result, m) := turns fuel m.begin
  settle result m

/-! ## At the prompt -/

/-- `MAX_LINE_LENGTH`: the longest line that can be typed. -/
def maxLineLength : Nat := 255

/-- What becomes of a typed line. -/
inductive Entry where
  /-- it went into the program, or there is nothing in it -/
  | kept
  /-- an error was shown -/
  | refused
  /-- its code waits to be executed -/
  | command
  deriving DecidableEq, Repr, Inhabited

/-- Takes a typed line, up to what `enter` executes: one with a number goes into the program, any
other becomes code. -/
def accept (text : String) : Act Entry := do
  if maxLineLength < text.length then
    report (.of .lineBufferOverflow)
    return .refused
  else
    match Parser.parseLine ((← get).room - 1) text with
    | .error (.error e) =>
      report e
      return .refused
    | .error (.crash c) => throw c
    | .ok l =>
      match l.number with
      | some n =>
        modify fun m =>
          { m with program := m.program.store n l.source l.statements, resume := none }
        return .kept
      | none =>
        if l.statements.isEmpty then return .kept
        else
          modify fun m => { m with direct := compile l.statements, position := ⟨none, 0⟩ }
          return .command

/-- Takes a typed line and executes it. True means that something was executed or an error was
shown. -/
def enter (fuel : Nat) (text : String) : Act Bool := do
  match ← accept text with
  | .kept => return false
  | .refused => return true
  | .command =>
    execute fuel
    return true

/-- `load_program`: takes the program that a text spells. False means that an error was shown. -/
def load (text : String) : Act Bool := do
  match Program.load ((← get).room - 2) text with
  | .ok p =>
    modify fun m => m.replaceProgram p
    return true
  | .error (.error e) =>
    report e
    return false
  | .error (.crash c) => throw c

/-- Gets ready to run the program from a line, or from its first line, up to what `run` executes.
False means that there is nothing to run or that an error was shown. -/
def prepare (line : Option Nat) : Act Bool := fun m =>
  match Exec.start line none { m with direct := #[] } with
  | (.ok (), m) => (.ok true, m)
  | (.error .finished, m) => (.ok false, m)
  | (.error (.fault (.error e)), m) => (do report e; return false : Act Bool) m
  | (.error (.fault (.crash c)), m) => (.error c, m)

/-- `run`: runs the program from a line, or from its first line. -/
def start (fuel : Nat) (line : Option Nat) : Act Unit := do
  if ← prepare line then execute fuel else return ()

/-- What is shown when the machine is ready for a command. -/
def readyText (m : Machine) : String :=
  (if 0 < m.column then "\n" else "") ++ if m.settings.prompt.isEmpty then ""
    else m.settings.prompt ++ "\n"

/-- `ready_prompt`: takes what is shown when the machine is ready; the cursor is then at the start
of a line. -/
def ready : Act String := do
  let text := (← get).readyText
  modify fun m => { m with column := 0 }
  return text

end LineBasic.Machine
