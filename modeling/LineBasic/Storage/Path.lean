/-!
# Path names

Path names as text: parts between slashes, the last of which is the name.
-/

namespace LineBasic.Path

/-- The characters up to the last slash and that slash, and those after it. -/
def cutLast (cs : List Char) : List Char × List Char :=
  let name := (cs.reverse.takeWhile (· != '/')).reverse
  (cs.take (cs.length - name.length), name)

/-- The directory part without slashes at its end, unless it is nothing but slashes; and the
name. -/
def split (path : String) : String × String :=
  let (directory, name) := cutLast path.toList
  let trimmed := (directory.reverse.dropWhile (· = '/')).reverse
  (String.ofList (if trimmed.isEmpty then directory else trimmed), String.ofList name)

/-- The directory part. -/
def directory (path : String) : String := (split path).1

/-- The name. -/
def name (path : String) : String := (split path).2

/-- The path starts at the root. -/
def isAbsolute (path : String) : Bool := path.startsWith "/"

/-- The path has a directory part of its own. -/
def isPlaced (path : String) : Bool := !(directory path).isEmpty || isAbsolute path

/-- A name in a directory. -/
def join (directory name : String) : String :=
  if isAbsolute name then name
  else if directory.isEmpty || directory.endsWith "/" then directory ++ name
  else directory ++ "/" ++ name

/-- The parts of a path between slashes. -/
def partsFrom (part : List Char) : List Char → List String
  | [] => [String.ofList part.reverse]
  | c :: cs =>
    if c = '/' then String.ofList part.reverse :: partsFrom [] cs else partsFrom (c :: part) cs

/-- The parts of a path between slashes. -/
def parts (path : String) : List String := partsFrom [] path.toList

/-- The path that parts make. -/
def ofParts (parts : List String) : String := String.intercalate "/" parts

end LineBasic.Path
