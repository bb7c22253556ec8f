import LineBasic.Notice
import LineBasic.Storage.Disk
import LineBasic.Table
import LineBasic.Text.Capital

/-!
# Settings

Settings are texts by name, the names in capitals. A settings file has lines `name = value`; lines
that start with `#` are comments. Names of a D and a digit are disks: LOAD looks through them in the
order of their names, and SAVE writes to the first.
-/

namespace LineBasic

/-- `Config`: the settings. -/
structure Settings where
  values : Table String
  deriving Inhabited

namespace Settings

/-- `DEFAULTS`: what holds when nothing is set. -/
def defaults : List (String × String) :=
  [("D0", "basic_programs"),
   ("PATCH_URL", "https://raw.githubusercontent.com/AE9RB/basic-lang/master/patch/"),
   ("STACK_LIMIT", "256"),
   ("MEMORY_LIMIT", "65535"),
   ("LOG_LEVEL", "WARNING"),
   ("PROMPT", "READY.")]

/-- The settings with the given ones in place of the defaults. -/
def ofList (given : List (String × String)) : Settings :=
  ⟨(given.map fun (k, v) => (Text.capitals k, v)).foldl (fun t e => t.insert e.1 e.2) ⟨defaults⟩⟩

/-- A setting by a name in capitals. -/
def value (s : Settings) (key : String) : String := (s.values.get? key).getD ""

/-- `Config.get`: a setting by its name in any spelling. -/
def get? (s : Settings) (key : String) : Option String := s.values.get? (Text.capitals key)

/-- `get_int`: a setting that is a number. If it is none, the default holds and a notice says so. -/
def number (s : Settings) (key : String) (default : Nat) : Int × List Notice :=
  match Text.decimal? (s.value key) with
  | some n => (n, [])
  | none => (default, [.notANumber key (s.value key) (toString default)])

/-- `stack_limit`: how many loops, subroutines and function calls may be open at once. -/
def stackLimit (s : Settings) : Int × List Notice := s.number "STACK_LIMIT" 256

/-- `memory_limit`: how much memory variables may use. -/
def memoryLimit (s : Settings) : Int × List Notice := s.number "MEMORY_LIMIT" 65535

/-- `log_level`: how much the log says. -/
def logLevel (s : Settings) : String := Text.capitals (s.value "LOG_LEVEL")

/-- What is shown when a command is expected. -/
def prompt (s : Settings) : String := s.value "PROMPT"

/-- `patch_url`: where names that start with two slashes are fetched from. -/
def patchUrl (s : Settings) : String := s.value "PATCH_URL"

/-- The name of a setting is that of a disk. -/
def isDisk (key : String) : Bool :=
  match key.toList with
  | ['D', c] => Text.isFigure c
  | _ => false

/-- The disks in the order of their names. -/
def disks (s : Settings) : List String :=
  (s.values.sorted.filter fun e => isDisk e.1).map Prod.snd

/-! ## The settings file -/

/-- The characters before the first equals sign and those after it. -/
def splitEquals? (cs : List Char) : Option (List Char × List Char) :=
  match cs.dropWhile (· != '=') with
  | _ :: rest => some (cs.takeWhile (· != '='), rest)
  | [] => none

/-- Reads the lines of a settings file from the line `number` on. -/
def readLines (path : String) (number : Nat) : List String → List (String × String) × List Notice
  | [] => ([], [])
  | line :: rest =>
    let (entries, notices) := readLines path (number + 1) rest
    let cs := Text.trim line.toList
    if cs.isEmpty || cs.head? = some '#' then (entries, notices)
    else
      match splitEquals? cs with
      | none => (entries, .lineWithoutEquals path number :: notices)
      | some (key, value) =>
        ((String.ofList (Text.trim key), String.ofList (Text.trim value)) :: entries, notices)

/-- `load_config`: the settings in a file; without the file, the defaults. -/
def load (d : Disk) (path : String) : Except Crash (Settings × List Notice) :=
  if !d.holds path then .ok (ofList [], [])
  else
    match d.read path with
    | .error e => .ok (ofList [], [.unreadable path (e.message path)])
    | .ok bytes =>
      match Text.utf8? bytes with
      | .error _ => .error .unreadableSettings
      | .ok s =>
        let (entries, notices) :=
          readLines path 1 (Text.feedLines (String.ofList (Text.unifyLineEnds s.toList)))
        .ok (ofList entries, notices)

/-- `CONFIG_FILE`: the usual name of the settings file. -/
def fileName : String := "BASICINI"

end Settings

end LineBasic
