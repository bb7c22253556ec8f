import LineBasic.Console

/-!
# The command line

With the name of a program, the program is run; without one, a conversation begins. There is no
window to show anything in, so asking for one is answered with a remark.
-/

namespace LineBasic.CommandLine

/-- The argument that asks for a window. -/
def windowFlag : String := "--gui"

/-- The remark on a window. -/
def noWindow : String := "Tkinter not available. Falling back to console mode...\n"

/-- The names among the arguments. -/
def names (args : List String) : List String := args.filter (· != windowFlag)

/-- What is shown before anything else. -/
def preface (args : List String) : String := if args.contains windowFlag then noWindow else ""

/-- `clear_screen`: what clears the screen of a terminal. -/
def clearScreen : String := "\x1b[2J\x1b[H"

/-- An event as a terminal shows it. -/
def shown : Event → String
  | .text s | .prompt s => s
  | .clear => clearScreen
  | .shutdown => ""

/-- What standard output got. -/
def output (t : Terminal) : String :=
  String.join (t.events.reverse.map shown)

/-- The end of a run from the command line. -/
structure Result where
  status : Except Crash Nat
  stdout : String
  stderr : String
  disk : Disk
  notices : List Notice

/-- Takes the program with a name into a new machine. -/
def fetch (m : Machine) (name : String) : Except Fault Program × Machine :=
  let (result, disk) := m.library.load m.room name
  (result.bind (Program.load m.room), { m with disk })

/-- `run_program`: runs the program with a name; the status tells whether an error was shown. -/
def runProgram (fuel : Nat) (m : Machine) (name : String) : Result :=
  match fetch m name with
  | (.error (.error e), m) => ⟨.ok 1, "", e.message ++ "\n", m.disk, m.notices⟩
  | (.error (.crash c), m) => ⟨.error c, "", "", m.disk, m.notices⟩
  | (.ok p, m) =>
    match Machine.start fuel none { m with program := p } with
    | (.ok (), m) =>
      ⟨.ok (if m.lastError.isNone then 0 else 1), output m.terminal, "", m.disk, m.notices⟩
    | (.error c, m) => ⟨.error c, output m.terminal, "", m.disk, m.notices⟩

/-- `run_repl`: holds a conversation. -/
def converse (fuel : Nat) (m : Machine) : Result :=
  match Console.session fuel false m with
  | (.ok (), m) => ⟨.ok 0, output m.terminal, "", m.disk, m.notices⟩
  | (.error c, m) => ⟨.error c, output m.terminal, "", m.disk, m.notices⟩

/-- A machine for the given settings, input, disk and network. -/
def machine (settings : Settings) (notices : List Notice) (stdin : String) (disk : Disk)
    (network : Network) :
    Machine :=
  let m := Machine.new settings
  { m with
    disk, network
    notices := m.notices ++ notices.reverse
    terminal := { replies := (Text.feedLines stdin).map Reply.line } }

/-- `main`: what the command does. -/
def run (fuel : Nat) (args : List String) (stdin : String) (disk : Disk) (network : Network) :
    Result :=
  match Settings.load disk Settings.fileName with
  | .error c => ⟨.error c, "", "", disk, []⟩
  | .ok (settings, notices) =>
    let m := machine settings notices stdin disk network
    let result := match names args with
      | name :: _ => runProgram fuel m name
      | [] => converse fuel m
    { result with stdout := preface args ++ result.stdout }

end LineBasic.CommandLine
