import LineBasic.Code
import LineBasic.Parser.Line
import LineBasic.Text.Lines

/-!
# Programs

A program is a list of numbered lines in ascending order. Each line keeps its listed text, its
statements and their code. Storing a line without statements removes the line with its number.
-/

namespace LineBasic

/-- A line of a program. -/
structure ProgramLine where
  number : Nat
  source : String
  statements : List Statement
  code : Array Instr
  deriving Inhabited

namespace ProgramLine

/-- A line with the code of its statements. -/
def new (number : Nat) (source : String) (statements : List Statement) : ProgramLine :=
  ⟨number, source, statements, compile statements⟩

/-- The line as it is listed. -/
def listed (l : ProgramLine) : String := Parser.listedText l.number l.source

/-- The items of the DATA statements among instructions. -/
def itemsOf : Instr → List DataItem
  | .command _ (.data items) => items
  | _ => []

/-- The DATA items of the line, each with the number of the line. -/
def dataItems (l : ProgramLine) : List (Nat × DataItem) :=
  (l.code.toList.flatMap itemsOf).map fun item => (l.number, item)

end ProgramLine

/-- A program: its lines, in ascending order of their numbers. -/
structure Program where
  lines : List ProgramLine := []
  deriving Inhabited

namespace Program

/-- Puts a line in its place, instead of a line with its number. -/
def place (l : ProgramLine) : List ProgramLine → List ProgramLine
  | [] => [l]
  | x :: xs =>
    if l.number < x.number then l :: x :: xs
    else if l.number = x.number then l :: xs
    else x :: place l xs

/-- The numbers of the lines. -/
def numbers (p : Program) : List Nat := p.lines.map ProgramLine.number

/-- The number of lines. -/
def size (p : Program) : Nat := p.lines.length

/-- `get`: the line with a number. -/
def line? (p : Program) (number : Nat) : Option ProgramLine :=
  p.lines.find? fun l => l.number = number

/-- There is a line with the number. -/
def contains (p : Program) (number : Nat) : Bool := (p.line? number).isSome

/-- `delete`: the program without the line with a number. -/
def erase (p : Program) (number : Nat) : Program :=
  ⟨p.lines.filter fun l => l.number != number⟩

/-- `insert_or_replace`: stores a line, or removes it if it has no statements. -/
def store (p : Program) (number : Nat) (source : String) (statements : List Statement) : Program :=
  if statements.isEmpty then p.erase number else ⟨place (.new number source statements) p.lines⟩

/-- The line lies in a range of which either end may be open. -/
def inRange (first last : Option Nat) (number : Nat) : Bool :=
  first.all (fun n => n ≤ number) && last.all (fun n => number ≤ n)

/-- The lines in a range. -/
def linesIn (p : Program) (first last : Option Nat) : List ProgramLine :=
  p.lines.filter fun l => inRange first last l.number

/-- `delete_range`: the program without the lines in a range. -/
def eraseRange (p : Program) (first last : Option Nat) : Program :=
  ⟨p.lines.filter fun l => !inRange first last l.number⟩

/-- The listing of a range of lines. -/
def listing (p : Program) (first last : Option Nat) : List String :=
  (p.linesIn first last).map ProgramLine.listed

/-- The listing of the whole program. -/
def listingAll (p : Program) : List String := p.listing none none

/-- `lowest_line`: the number of the first line. -/
def lowest? (p : Program) : Option Nat := p.lines.head?.map ProgramLine.number

/-- `next_line`: the number of the line after a number. -/
def next? (p : Program) (number : Nat) : Option Nat :=
  (p.lines.find? fun l => number < l.number).map ProgramLine.number

/-- `data_items`: the DATA items of all lines in order. -/
def dataItems (p : Program) : List (Nat × DataItem) :=
  p.lines.flatMap ProgramLine.dataItems

/-! ## Loading -/

/-- Where in a file something is wrong. -/
def fileLine (index : Nat) : String :=
  "In line " ++ toString (index + 1) ++ " of the file."

/-- Adds the lines of a file, of which `index` came before, with `store` to where lines are kept;
blank lines are skipped, and every other line must have a number. -/
def loadFrom {σ : Type} (store : σ → Nat → String → List Statement → σ) (room index : Nat)
    (kept : σ) :
    List String → Except Fault σ
  | [] => .ok kept
  | raw :: rest =>
    if Text.isAllBlank raw then loadFrom store room (index + 1) kept rest
    else
      match Parser.parseLine (room - 1) raw with
      | .error (.error e) => .error (.error { e with detail := some (fileLine index) })
      | .error c => .error c
      | .ok l =>
        match l.number with
        | none => .error (.error (.withDetail .directStatementInFile (fileLine index)))
        | some n => loadFrom store room (index + 1) (store kept n l.source l.statements) rest

/-- `load_text`: the program that a text spells. -/
def load (room : Nat) (text : String) : Except Fault Program :=
  loadFrom store room 0 {} (Text.lines text)

end Program

end LineBasic
