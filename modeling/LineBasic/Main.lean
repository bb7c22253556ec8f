import LineBasic.CommandLine
import Std.Time

/-!
# The command

The machine at a real terminal, with the files of the current directory. What it does is decided in
the other modules; here lines are read, what the machine shows is printed, and the files that it
changes are written. The machine asks for a line in the middle of a turn, so a turn that lacks one
is taken again once the line is there: turns are functions of the machine, and what was printed the
first time is not printed again.
-/

namespace LineBasic.Host

/-! ## Terminal -/

/-- The log levels at which notices are not shown. -/
def silentLevels : List String := ["ERROR", "CRITICAL", "FATAL"]

/-- Prints what the machine has shown, but for the first `seen` events. -/
def printEvents (seen : Nat) (m : Machine) : IO Unit := do
  let out ← IO.getStdout
  for e in m.terminal.events.reverse.drop seen do
    out.putStr (CommandLine.shown e)
  out.flush

/-- Prints the notices and forgets what was printed. -/
def quiet (m : Machine) : IO Machine := do
  unless silentLevels.contains m.settings.logLevel do
    for n in m.notices.reverse do
      IO.eprintln n.text
  return { m with terminal := { m.terminal with events := [] }, notices := [] }

/-- Reads a line; there is none at the end of the input. -/
def readLine : IO (Option String) := do
  return (Text.feedLines (← (← IO.getStdin).getLine)).head?

/-- Does something at the prompt and prints what it shows. -/
def perform {α : Type} (x : Act α) (m : Machine) : IO (Except Crash α × Machine) := do
  let (a, m) := x m
  printEvents 0 m
  return (a, ← quiet m)

/-! ## Files -/

/-- How many directories deep files are looked for. -/
def deepest : Nat := 3

/-- The size of the largest file that is looked at. -/
def largest : UInt64 := 1048576

/-- Adds the file or directory that an entry of a directory stands for. What cannot be read is left
out. -/
def addEntry : Nat → String → Disk → IO.FS.DirEntry → IO Disk
  | depth, above, d, e => do
    let path := Path.join above e.fileName
    try
      if ← e.path.isDir then
        match depth with
        | 0 => return d
        | depth + 1 =>
          (← e.path.readDir).foldlM (addEntry depth path) (d.add (path ++ "/") ByteArray.empty)
      else if largest < (← e.path.metadata).byteSize then return d
      else return d.add path (← IO.FS.readBinFile e.path)
    catch _ => return d

/-- The files of the current directory. -/
def readDisk : IO Disk := do
  let here ← IO.currentDir
  let home := (Path.parts here.toString).filter (· != "")
  (← here.readDir).foldlM (addEntry deepest "") { home }

/-- Makes the directories and writes the files that were not there before. -/
def writeChanges (before after : Disk) : IO Unit := do
  for route in after.directories do
    unless before.hasDirectory route do
      IO.FS.createDirAll ("/" ++ Path.ofParts route)
  for (route, bytes) in after.files do
    unless before.bytes? route == some bytes do
      IO.FS.writeBinFile ("/" ++ Path.ofParts route) bytes

/-! ## Time and chance -/

/-- The date and the time of day. -/
def now : IO Instant := do
  let t ← Std.Time.PlainDateTime.now
  let two (n : Int) : String := Text.padZeros 2 (toString n)
  return {
    date := two t.month.val ++ "-" ++ two t.day.val ++ "-" ++
    Text.padZeros 4 (toString (t.year : Int))
    time := two t.hour.val ++ ":" ++ two t.minute.val ++ ":" ++ two t.second.val }

/-- A state of the random generators, left to chance. -/
def chance : IO Random := do
  return ⟨← IO.rand 1 30268, ← IO.rand 1 30306, ← IO.rand 1 30322⟩

/-- The machine with the time of now and a random state for the next fresh start. -/
def refresh (m : Machine) : IO Machine := do
  let seeds ← if m.seeds.isEmpty then pure [← chance] else pure m.seeds
  return { m with seeds, memory := { m.memory with clock := { now := ← now } } }

/-! ## Running -/

/-- Whether a turn was stopped for want of a line. -/
def lacksLine : Except Halt Bool → Bool
  | .error (.fault (.crash .endOfInput)) => true
  | _ => false

/-- Takes one turn. While it lacks a line, one is read and the turn is taken again. -/
partial def turn (seen : Nat) (m : Machine) : IO (Except Halt Bool × Machine) := do
  let (result, after) := Machine.tick m
  printEvents seen after
  if lacksLine result then
    if let some line ← readLine then
      let terminal := { m.terminal with replies := m.terminal.replies ++ [.line line] }
      return ← turn after.terminal.events.length { m with terminal }
  return (result, ← quiet after)

/-- How many turns are taken before the clock is looked at again. -/
def patience : Nat := 1024

/-- Takes turns until the run stops. -/
partial def turns (n : Nat) (m : Machine) : IO (Except Halt Unit × Machine) := do
  let m ← if n % patience = 0 || m.seeds.isEmpty then refresh m else pure m
  match ← turn 0 m with
  | (.ok true, m) => turns (n + 1) m
  | (.ok false, m) => return (.ok (), m)
  | (.error h, m) => return (.error h, m)

/-- Runs the code at the position, and writes the files that the run has changed. -/
def execute (m : Machine) : IO (Except Crash Unit × Machine) := do
  let (result, after) ← turns 0 m.begin
  writeChanges m.disk after.disk
  perform (Machine.settle result) after

/-- Holds a conversation until it is over; only a crash has another status than zero. -/
partial def talk (m : Machine) : IO UInt32 := do
  let some line ← readLine | return 0
  if Console.isFarewell line then return 0
  match ← perform (Machine.accept line) m with
  | (.ok .kept, m) => talk m
  | (.ok .refused, m) => talk (← perform Console.showReady m).2
  | (.ok .command, m) =>
    match ← execute m with
    | (.ok (), m) => talk (← perform Console.showReady m).2
    | (.error .endOfInput, _) => return 0
    | (.error _, _) => return 1
  | (.error _, _) => return 1

/-- `run_program`: runs the program with a name. -/
def runProgram (m : Machine) (name : String) : IO UInt32 := do
  let (fetched, after) := CommandLine.fetch m name
  writeChanges m.disk after.disk
  match fetched with
  | .error (.error e) =>
    IO.eprintln e.message
    return 1
  | .error (.crash _) => return 1
  | .ok p =>
    match ← perform (Machine.prepare none) (← refresh { after with program := p }) with
    | (.ok true, m) =>
      match ← execute m with
      | (.ok (), m) => return if m.lastError.isNone then 0 else 1
      | (.error _, _) => return 1
    | (.ok false, m) => return if m.lastError.isNone then 0 else 1
    | (.error _, _) => return 1

/-- What the command does. -/
def run (args : List String) : IO UInt32 := do
  let disk ← readDisk
  match Settings.load disk Settings.fileName with
  | .error _ => return 1
  | .ok (settings, notices) =>
    IO.print (CommandLine.preface args)
    let m ← quiet (CommandLine.machine settings notices "" disk {})
    match CommandLine.names args with
    | name :: _ => runProgram m name
    | [] => talk (← perform (Console.greet 0 false) m).2

end LineBasic.Host

/-- Runs a program, or holds a conversation. -/
def main (args : List String) : IO UInt32 :=
  LineBasic.Host.run args
