import LineBasic.Machine.Run

/-!
# The console

A conversation: a line is asked for, taken, and answered, until EXIT, BYE or the end of the input.
The interrupt key breaks a running program; at the prompt it abandons the line.
-/

namespace LineBasic.Console

open Machine (writeRaw)

/-- The first thing that is shown. -/
def banner : String := "BASIC interpreter. Type EXIT to leave.\n"

/-- `EXIT_COMMANDS`: the words that end the conversation. -/
def farewells : List String := ["EXIT", "BYE"]

/-- The line ends the conversation. -/
def isFarewell (line : String) : Bool :=
  farewells.contains (Text.capitals (Text.strip line))

/-- Shows that the machine is ready. -/
def showReady : Act Unit := do
  writeRaw (← Machine.ready)

/-- Takes a line. False means that the conversation is over. -/
def takeLine (fuel : Nat) (line : String) : Act Bool := do
  if isFarewell line then return false
  else
    if ← Machine.enter fuel line then showReady
    return true

/-- Asks for a line and takes it. -/
def askLine (fuel : Nat) : Act Bool := do
  let m ← get
  let (reply, terminal) := m.terminal.ask ""
  set { m with terminal }
  match reply with
  | none => return false
  | some .interrupt => throw .interruptKey
  | some (.line line) => takeLine fuel line

/-- Does something of the conversation: the interrupt key abandons it, and the end of the input ends
the conversation. -/
def guarded (x : Act Bool) : Act Bool := fun m =>
  match x m with
  | (.error .interruptKey, m) => (do writeRaw "\n"; return true : Act Bool) m
  | (.error .endOfInput, m) => (.ok false, m)
  | r => r

/-- Asks for lines and takes them; `n` bounds their number. -/
def talk (fuel : Nat) : Nat → Act Unit
  | 0 => return ()
  | n + 1 => do
    if ← guarded (askLine fuel) then talk fuel n else return ()

/-- Shows the banner, runs the program if asked to, and shows that the machine is ready. -/
def greet (fuel : Nat) (autorun : Bool) : Act Unit := do
  writeRaw banner
  if autorun then Machine.start fuel none
  showReady

/-- `run_repl`: the whole conversation. -/
def session (fuel : Nat) (autorun : Bool) : Act Unit := do
  greet fuel autorun
  talk fuel ((← get).terminal.replies.length + 1)
  modify fun m => { m with terminal := m.terminal.shutdown }

end LineBasic.Console
