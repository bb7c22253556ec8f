import LineBasic.Error
import LineBasic.Storage.Disk
import LineBasic.Text.Blank

/-!
# Programs on disk

A program is looked up under its name, then with each of the usual endings; a name without a
directory is looked up in the current directory and then in each of the disks. It is saved in the
first disk, unless its name says where.
-/

namespace LineBasic

/-- `EXTENSIONS`: the endings that a name is tried with. -/
def nameEndings : List String := ["", ".BAS", ".bas"]

namespace Shelf

/-- `_check_name`: the name without the blanks around it; a blank one is refused. -/
def checkName (name : String) : Except Error String :=
  if Text.isAllBlank name || name.toList.contains '\x00' then fail .badFileName
  else .ok (Text.strip name)

/-- `_candidates`: the paths at which a program is looked for, in order. -/
def candidates (disks : List String) (name : String) : List String :=
  let directories := if Path.isPlaced name then [""] else "" :: disks
  directories.flatMap fun directory => nameEndings.map fun ending =>
    Path.join directory (name ++ ending)

/-- `find_program`: the path of a program. -/
def find (d : Disk) (disks : List String) (name : String) : Except Error (Option String) := do
  let name ← checkName name
  return (candidates disks name).find? fun path => d.isFile path

/-- `read_program`: the text of a program. -/
def read (d : Disk) (disks : List String) (name : String) : Except Error String := do
  match ← find d disks name with
  | none => throw (.withDetail .fileNotFound name)
  | some path => (d.readText path).mapError fun detail => .withDetail .diskError detail

/-- The path at which a program is saved. -/
def savePath (disks : List String) (name : String) : String :=
  if Path.isPlaced name then name else Path.join (disks.headD ".") name

/-- A refusal of the disk; the name of a directory with a null character in it has no message. -/
def refusal (e : DiskError) (path : String) : Fault :=
  if e = .nullCharacter then .crash .nullCharacter
  else .error (.withDetail .diskError (e.message path))

/-- Makes the directory of a path, if it is missing. -/
def prepare (d : Disk) (path : String) : Except Fault Unit × Disk :=
  let directory := Path.directory path
  if directory.isEmpty || d.isDirectory directory then (.ok (), d)
  else
    let (result, d) := Disk.makeDirectories (directory.length + 1) d directory
    (result.mapError fun (e, p) => refusal e p, d)

/-- The bytes of lines, each with a line feed after it. -/
def linesBytes (lines : List String) : ByteArray :=
  (String.join (lines.map (· ++ "\n"))).toUTF8

/-- `save_program`: saves lines under a name, and gives the path. Directories that were made stay
even if the file cannot be written. -/
def save (d : Disk) (disks : List String) (name : String) (lines : List String) (overwrite : Bool) :
    Except Fault String × Disk :=
  match checkName name with
  | .error e => (.error (.error e), d)
  | .ok name =>
    let path := savePath disks name
    if lines.isEmpty then (.error (.error (.withDetail .diskError "NOTHING TO SAVE")), d)
    else if !overwrite && d.holds path then (.error (.error (.withDetail .fileExists name)), d)
    else
      match prepare d path with
      | (.error f, d) => (.error f, d)
      | (.ok (), d) =>
        match d.write path (linesBytes lines) with
        | .error e => (.error (refusal e path), d)
        | .ok d => (.ok path, d)

end Shelf

end LineBasic
