import LineBasic.Program.Renumber
import LineBasic.Table

/-!
# How the lines of a program are kept

The lines are kept in a table by their numbers, with a list of the numbers in ascending order beside
it that is searched by halving. The DATA items are collected when they are first asked for, and kept
until a line changes.
-/

namespace LineBasic

/-! ## Searching by halving -/

/-- Halves the indexes from `low` up to but not including `high`, going on behind the middle as long
as it is passed, for at most so many steps. -/
def halve (passed : Nat → Bool) : Nat → Nat → Nat → Nat
  | 0, low, _ => low
  | steps + 1, low, high =>
    if low < high then
      let middle := (low + high) / 2
      if passed middle then halve passed steps (middle + 1) high else halve passed steps low middle
    else low

/-- `bisect_left`: how many numbers, in ascending order, are less than another. -/
def bisectLeft (numbers : List Nat) (n : Nat) : Nat :=
  halve (fun i => numbers[i]?.any (· < n)) numbers.length 0 numbers.length

/-- `bisect_right`: how many numbers, in ascending order, are at most another. -/
def bisectRight (numbers : List Nat) (n : Nat) : Nat :=
  halve (fun i => numbers[i]?.any (· ≤ n)) numbers.length 0 numbers.length

/-- `insort`: puts a number behind those that are at most as great. -/
def insort (numbers : List Nat) (n : Nat) : List Nat :=
  let place := bisectRight numbers n
  numbers.take place ++ n :: numbers.drop place

/-! ## Lines -/

/-- The lines of a program as `Program` keeps them: their numbers, the lines by number, and the DATA
items if they have been collected. -/
structure LineTable where
  numbers : List Nat := []
  lines : Table ProgramLine Nat := {}
  items : Option (List (Nat × DataItem)) := none
  deriving Inhabited

namespace LineTable

/-- `delete`: takes a line out, and tells whether there was one. -/
def delete (t : LineTable) (number : Nat) : Bool × LineTable :=
  if t.lines.contains number then
    (true, ⟨t.numbers.eraseIdx (bisectLeft t.numbers number), t.lines.erase number, none⟩)
  else (false, t)

/-- `insert_or_replace`: stores a line, or takes it out if it has no statements; and tells whether
anything has changed. -/
def insert (t : LineTable) (number : Nat) (source : String) (statements : List Statement) :
    Bool × LineTable :=
  if statements.isEmpty then t.delete number
  else
    (true, ⟨if t.lines.contains number then t.numbers else insort t.numbers number,
      t.lines.insert number (.new number source statements), none⟩)

/-- The lines after one has been stored. -/
def store (t : LineTable) (number : Nat) (source : String) (statements : List Statement) :
    LineTable :=
  (t.insert number source statements).2

/-- The numbers in a range of which either end may be open. -/
def numbersIn (t : LineTable) (first last : Option Nat) : List Nat :=
  let low := first.elim 0 (bisectLeft t.numbers)
  let high := last.elim t.numbers.length (bisectRight t.numbers)
  (t.numbers.take high).drop low

/-- `list`: the numbers and the texts of the lines in a range. -/
def list (t : LineTable) (first last : Option Nat) : List (Nat × String) :=
  (t.numbersIn first last).filterMap fun n => (t.lines.get? n).map fun l => (n, l.source)

/-- `listing`: the lines in a range as they are listed. -/
def listing (t : LineTable) (first last : Option Nat) : List String :=
  (t.list first last).map fun e => Parser.listedText e.1 e.2

/-- `delete_range`: takes out the lines in a range, and tells how many there were. -/
def deleteRange (t : LineTable) (first last : Option Nat) : Nat × LineTable :=
  let doomed := (t.list first last).map Prod.fst
  (doomed.length, doomed.foldl (fun t n => (t.delete n).2) t)

/-- `lowest_line`: the number of the first line. -/
def lowest? (t : LineTable) : Option Nat := t.numbers.head?

/-- `next_line`: the number of the line after a number. -/
def next? (t : LineTable) (number : Nat) : Option Nat := t.numbers[bisectRight t.numbers number]?

/-- The lines in the order of the numbers. -/
def inOrder (t : LineTable) : List ProgramLine := t.numbers.filterMap t.lines.get?

/-- `data_items`: the DATA items of all lines in order, which are collected only if they are not
there already. -/
def dataItems (t : LineTable) : List (Nat × DataItem) × LineTable :=
  match t.items with
  | some items => (items, t)
  | none =>
    let items := t.inOrder.flatMap ProgramLine.dataItems
    (items, { t with items := some items })

/-- `load_text`: the lines that a text spells. -/
def load (room : Nat) (text : String) : Except Fault LineTable :=
  (Program.loadFrom store room 0 {} (Text.lines text)).map fun t => { t with items := none }

/-- `renumber`: the lines with new numbers, and how many have moved. -/
def renumber (room : Nat) (t : LineTable) (newStart oldStart step : Option Nat) :
    Except Fault (LineTable × Nat) × List MissingRef :=
  match Program.plannedMoves t.numbers (newStart.getD 10) (oldStart.getD 0) (step.getD 10) with
  | .error f => (.error f, [])
  | .ok [] => (.ok (t, 0), [])
  | .ok moves =>
    let (result, missing) :=
      Program.renumberLines store room t.lines.contains moves {} t.inOrder
    (result.map fun new => ({ new with items := none }, moves.length), missing)

end LineTable

end LineBasic
