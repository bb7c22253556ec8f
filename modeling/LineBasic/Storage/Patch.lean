import LineBasic.Checksum
import LineBasic.Program.Basic
import LineBasic.Storage.Network
import LineBasic.Storage.Shelf
import LineBasic.Text.Integer

/-!
# Patches

A program may come from a disk or the network, and may be a patch file: a file whose first line
begins with a quote. In it, lines that begin with an apostrophe are comments; a line in double
quotes names the file in which the result is saved and may add the checksum and the source of a
program to start from; every other line has a number and replaces the line with that number, or
removes it if nothing follows the number.
-/

namespace LineBasic

/-- `PatchRetriever`: where programs come from. -/
structure Library where
  disk : Disk := {}
  network : Network := {}
  disks : List String := []
  patchUrl : String := ""
  deriving Inhabited

/-- A program text with what is to be done to it. -/
structure PatchedSource where
  text : String
  /-- line numbers with new texts; an empty text removes the line -/
  patches : List (Nat × String) := []
  /-- the checksum that the listing of the text must have -/
  crc : Option Int := none
  outputName : Option String := none
  deriving Inhabited

namespace Library

/-- `REMOTE_PREFIXES`: what an address on the network starts with. -/
def remoteStarts : List String := ["http://", "https://", "file://"]

/-- `is_remote`: the name is to be fetched from the network. -/
def isRemote (name : String) : Bool :=
  name.startsWith "//" || remoteStarts.any fun start =>
    (String.ofList (name.toList.map Char.toLower)).startsWith start

/-- The address that a name stands for. -/
def resolve (l : Library) (name : String) : String :=
  match name.toList with
  | '/' :: '/' :: rest => l.patchUrl ++ String.ofList rest
  | _ => name

/-- The text that the network answers with. -/
def ofResponse : Response → Except Error String
  | .page bytes =>
    match Text.utf8? bytes with
    | .ok s => .ok s
    | .error e => throw (.withDetail .networkError e.message)
  | .status code reason => throw (.withDetail .fileNotFound (toString code ++ " " ++ reason))
  | .unreachable reason => throw (.withDetail .networkError ("<urlopen error " ++ reason ++ ">"))
  | .broken reason => throw (.withDetail .networkError reason)

/-- The text with a name, from the network or a disk. -/
def fetch (l : Library) (name : String) : Except Error String :=
  if isRemote name then ofResponse (l.network.get (l.resolve name))
  else Shelf.read l.disk l.disks name

/-! ## Patch files -/

/-- The file begins as a patch file does. -/
def isPatchFile (lines : List String) : Bool :=
  match lines.head? with
  | some line => line.startsWith "\"" || line.startsWith "'"
  | none => false

/-- Where in a patch file something is wrong. -/
def patchPlace (index : Nat) : String :=
  "In line " ++ toString (index + 1) ++ " of the patch file."

/-- `_parse_filename`: the name between double quotes. -/
def quotedName (field : String) (index : Nat) : Except Error String :=
  if field.length < 3 || !field.startsWith "\"" || !field.endsWith "\"" then
    throw (.withDetail .badFileName (patchPlace index))
  else .ok (String.ofList (field.toList.drop 1).dropLast)

/-- `PATCH_LINE_RE`: reads a line with a number, which is blanks, digits, and then nothing or a
blank and the new text. -/
def numberedPatch? (line : String) : Option (List Char × String) :=
  let cs := line.toList.dropWhile Text.isBlank
  let digits := cs.takeWhile Text.isDigit
  match digits, cs.dropWhile Text.isDigit with
  | [], _ => none
  | _, [] => some (digits, "")
  | _, c :: rest =>
    if Text.isBlank c then some (digits, String.ofList (Text.trim rest)) else none

/-- What has been read of a patch file. -/
structure PatchState where
  base : Option (String × Int) := none
  outputName : Option String := none
  /-- the last one first -/
  patches : List (Nat × String) := []

/-- Reads a line that begins with a double quote, as `_parse_patch_file` does. -/
def readHeader (l : Library) (index : Nat) (line : String) (s : PatchState) :
    Except Error PatchState :=
  match Text.fields line with
  | [name] => do return { s with outputName := some (← quotedName name index) }
  | [name, crc, source] => do
    if s.base.isSome then
      throw (.withDetail .diskError ("Only one base program per patch file. " ++ patchPlace index))
    let name ← quotedName name index
    match Text.hexadecimal? crc with
    | none => throw (.withDetail .diskError ("Unable to parse CRC. " ++ patchPlace index))
    | some crc => return { s with base := some (← l.fetch source, crc), outputName := some name }
  | _ => throw (.withDetail .diskError ("Unable to parse info. " ++ patchPlace index))

/-- Reads a line of a patch file: the body of the loop of `_parse_patch_file`. -/
def readPatchLine (l : Library) (index : Nat) (line : String) (s : PatchState) :
    Except Fault PatchState :=
  if Text.isAllBlank line || line.startsWith "'" then .ok s
  else if line.startsWith "\"" then orFault (l.readHeader index line s)
  else
    match numberedPatch? line with
    | none => .error (.error (.withDetail .directStatementInFile (patchPlace index)))
    | some (digits, text) =>
      if Text.longestDecimal < digits.length then .error (.crash .tooManyDigits)
      else .ok { s with patches := (Text.digitsValue digits, text) :: s.patches }

/-- `_parse_patch_file`: reads the lines of a patch file, of which `index` came before. -/
def readPatchLines (l : Library) (index : Nat) (s : PatchState) :
    List String → Except Fault PatchState
  | [] => .ok s
  | line :: rest => do
    let s ← l.readPatchLine index line s
    l.readPatchLines (index + 1) s rest

/-- The program text with a name, and the patches if it is a patch file. -/
def retrieve (l : Library) (name : String) : Except Fault PatchedSource := do
  let text ← orFault (l.fetch name)
  let lines := Text.lines text
  if isPatchFile lines then
    let s ← l.readPatchLines 0 {} lines
    return ⟨(s.base.map Prod.fst).getD "", s.patches.reverse, s.base.map Prod.snd, s.outputName⟩
  else return { text }

/-! ## Patching -/

/-- Puts the patches into a program, one after the other. -/
def patchProgram (room : Nat) (p : Program) : List (Nat × String) → Except Fault Program
  | [] => .ok p
  | (number, text) :: rest =>
    if text.isEmpty then patchProgram room (p.erase number) rest
    else do
      let l ← Parser.parseLine room (Parser.listedText number text)
      patchProgram room (p.store number l.source l.statements) rest

/-- An error of another family, seen while patching, is an error of the disk. -/
def asPatchError : Fault → Fault
  | .error e =>
    if e.kind.isStorage then .error e
    else
      .error (.withDetail .diskError
        ("Patched program does not load: " ++ Text.dropFront (· = '?') e.message))
  | c => c

/-- The listing must have the checksum, if one is given. -/
def checkCrc (p : Program) : Option Int → Except Error Unit
  | none => .ok ()
  | some expected =>
    let crc := Checksum.ofLines p.listingAll
    if (crc : Int) = expected then .ok ()
    else
      throw (.withDetail .diskError
        ("Expected CRC " ++ Text.hexadecimal expected ++ " got " ++ Text.hexadecimal crc ++ "."))

/-- The listing as one text. -/
def listingText (p : Program) : String :=
  String.intercalate "\n" p.listingAll ++ "\n"

/-- `apply_patches`: the text of the patched program. -/
def applyPatches (room : Nat) (s : PatchedSource) : Except Fault String :=
  let patched := do
    let p ← Program.load (room - 1) s.text
    orFault (checkCrc p s.crc)
    patchProgram (room - 1) p s.patches
  (patched.map listingText).mapError asPatchError

/-- There is nothing to do to the text. -/
def isPlain (s : PatchedSource) : Bool :=
  s.patches.isEmpty && s.crc.isNone && s.outputName.isNone

/-- Fetches a program; a patched one is saved under the name that its patch file gives. -/
def load (l : Library) (room : Nat) (name : String) : Except Fault String × Disk :=
  match l.retrieve name with
  | .error f => (.error f, l.disk)
  | .ok s =>
    if isPlain s then (.ok s.text, l.disk)
    else
      match applyPatches (room - 1) s with
      | .error e => (.error e, l.disk)
      | .ok text =>
        match s.outputName with
        | none => (.ok text, l.disk)
        | some output =>
          match Shelf.save l.disk l.disks output (Text.lines text) false with
          | (.error f, disk) => (.error f, disk)
          | (.ok _, disk) => (.ok text, disk)

end Library

end LineBasic
