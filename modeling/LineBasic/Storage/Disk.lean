import LineBasic.Storage.Path
import LineBasic.Text.Lines
import LineBasic.Text.Utf8

/-!
# Disks

A tree of directories and files, as a list of each, with a current directory from which paths start
that do not start at the root. Path names are walked part by part: a blank part or a dot stays where
it is, two dots go up, and any other part but the last must be a directory.

Making a directory makes those above it that are missing, and these stay even if the last one cannot
be made.
-/

namespace LineBasic

/-- The parts of a path from the root, in order. -/
abbrev Route := List String

/-- Directories and files with their bytes. The current directory and those above it are always
there. -/
structure Disk where
  /-- the current directory -/
  home : Route := ["home"]
  /-- the other directories -/
  directories : List Route := []
  files : List (Route × ByteArray) := []
  deriving Inhabited

/-- Why the disk refuses. -/
inductive DiskError where
  | missing
  | present
  | notDirectory
  | isDirectory
  | nameTooLong
  | nullCharacter
  deriving DecidableEq, Repr, Inhabited

/-- The wording of a refusal. -/
def DiskError.message (e : DiskError) (path : String) : String :=
  match e with
  | missing => "[Errno 2] No such file or directory: " ++ Text.quoted path
  | present => "[Errno 17] File exists: " ++ Text.quoted path
  | notDirectory => "[Errno 20] Not a directory: " ++ Text.quoted path
  | isDirectory => "[Errno 21] Is a directory: " ++ Text.quoted path
  | nameTooLong => "[Errno 36] File name too long: " ++ Text.quoted path
  | nullCharacter => "embedded null byte"

/-- What stands at the end of a path. -/
inductive Found where
  | file (route : Route) (bytes : ByteArray)
  | directory (route : Route)
  /-- nothing, but its directory is there -/
  | vacant (route : Route)
  | refused (e : DiskError)
  deriving Inhabited

namespace Disk

/-- The longest name of a file or directory, in bytes. -/
def longestName : Nat := 255

/-- The longest path, in bytes. -/
def longestPath : Nat := 4095

/-- The bytes of a file. -/
def bytes? (d : Disk) (route : Route) : Option ByteArray :=
  (d.files.find? fun f => f.1 == route).map Prod.snd

/-- There is a directory. -/
def hasDirectory (d : Disk) (route : Route) : Bool :=
  route.isPrefixOf d.home || d.directories.contains route

/-- The part leaves a walk where it is. -/
def isIdle (part : String) : Bool := part = "" || part = "."

/-- Walks the parts of a path from a directory. The root is above itself. -/
def walk (d : Disk) (here : Route) : List String → Found
  | [] => .directory here
  | part :: rest =>
    if isIdle part then d.walk here rest
    else if part = ".." then d.walk here.dropLast rest
    else if longestName < part.utf8ByteSize then .refused .nameTooLong
    else
      let there := here ++ [part]
      if d.hasDirectory there then d.walk there rest
      else
        match d.bytes? there with
        | some bytes => if rest.isEmpty then .file there bytes else .refused .notDirectory
        | none => if rest.isEmpty then .vacant there else .refused .missing

/-- Where the walk along a path begins. -/
def origin (d : Disk) (path : String) : Route :=
  if Path.isAbsolute path then [] else d.home

/-- What stands at the end of a path; at the end of an empty one there is nothing. -/
def find (d : Disk) (path : String) : Found :=
  if path.toList.contains '\x00' then .refused .nullCharacter
  else if path.isEmpty then .refused .missing
  else if longestPath < path.utf8ByteSize then .refused .nameTooLong
  else d.walk (d.origin path) (Path.parts path)

/-- There is a file at the end of a path. -/
def isFile (d : Disk) (path : String) : Bool :=
  match d.find path with
  | .file _ _ => true
  | _ => false

/-- There is a directory at the end of a path. -/
def isDirectory (d : Disk) (path : String) : Bool :=
  match d.find path with
  | .directory _ => true
  | _ => false

/-- There is something at the end of a path. -/
def holds (d : Disk) (path : String) : Bool := d.isFile path || d.isDirectory path

/-- The bytes of the file at the end of a path. -/
def read (d : Disk) (path : String) : Except DiskError ByteArray :=
  match d.find path with
  | .file _ bytes => .ok bytes
  | .directory _ => .error .isDirectory
  | .vacant _ => .error .missing
  | .refused e => .error e

/-- Writes a file at a route. -/
def put (d : Disk) (route : Route) (bytes : ByteArray) : Disk :=
  { d with files := d.files.filter (fun f => f.1 != route) ++ [(route, bytes)] }

/-- Writes the file at the end of a path. -/
def write (d : Disk) (path : String) (bytes : ByteArray) : Except DiskError Disk :=
  match d.find path with
  | .file route _ | .vacant route => .ok (d.put route bytes)
  | .directory _ => .error .isDirectory
  | .refused e => .error e

/-- The disk with a directory at a route. -/
def putDirectory (d : Disk) (route : Route) : Disk :=
  if d.hasDirectory route then d else { d with directories := d.directories ++ [route] }

/-- Makes the directory at the end of a path. A refusal names the path. -/
def makeDirectory (d : Disk) (path : String) : Except (DiskError × String) Unit × Disk :=
  match d.find path with
  | .vacant route => (.ok (), d.putDirectory route)
  | .file _ _ | .directory _ => (.error (.present, path), d)
  | .refused e => (.error (e, path), d)

/-- Makes a directory and those above it that are missing; `n` bounds their number. One of those
above that turns out to be there already is no obstacle, and once a directory is made there is
nothing left to make for a dot behind it. -/
def makeDirectories : Nat → Disk → String → Except (DiskError × String) Unit × Disk
  | 0, d, path => (.error (.missing, path), d)
  | n + 1, d, path =>
    let above := Path.directory path
    if above.isEmpty || d.holds above then d.makeDirectory path
    else
      match makeDirectories n d above with
      | (.ok (), d) | (.error (.present, _), d) =>
        if Path.name path = "." then (.ok (), d) else d.makeDirectory path
      | (.error e, d) => (.error e, d)

/-- The text of a file, every line end being a line feed. -/
def readText (d : Disk) (path : String) : Except String String :=
  match d.read path with
  | .error e => .error (e.message path)
  | .ok bytes =>
    match Text.utf8? bytes with
    | .error e => .error e.message
    | .ok s => .ok (String.ofList (Text.unifyLineEnds s.toList))

/-- Every file below the current directory with its path from there, in the order of the paths. -/
def listing (d : Disk) : List (String × ByteArray) :=
  let below := d.files.filter fun f => d.home.isPrefixOf f.1
  (below.map fun f => (Path.ofParts (f.1.drop d.home.length), f.2)).mergeSort fun a b => a.1 ≤ b.1

/-- Goes along the parts of a path and makes the directories that are missing. -/
def descend (d : Disk) (here : Route) : List String → Route × Disk
  | [] => (here, d)
  | part :: rest =>
    if isIdle part then d.descend here rest
    else if part = ".." then d.descend here.dropLast rest
    else (d.putDirectory (here ++ [part])).descend (here ++ [part]) rest

/-- Adds a file and the directories above it; a path that ends in a slash adds directories only. -/
def add (d : Disk) (path : String) (bytes : ByteArray) : Disk :=
  let (here, d) := d.descend (d.origin path) (Path.parts path).dropLast
  let name := Path.name path
  if name.isEmpty then d else d.put (here ++ [name]) bytes

end Disk

end LineBasic
