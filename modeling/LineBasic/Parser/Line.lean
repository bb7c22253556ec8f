import LineBasic.Parser.Statements
import LineBasic.Text.Integer
import LineBasic.Token.Listing

/-!
# Reading a line

A line that starts with a number belongs to the program. Such a line is brought into the form in
which LIST shows it, and its statements are read from that form, so that the columns in errors are
those of the listing. A line without a number is read as typed.
-/

namespace LineBasic

/-- A line that has been read. -/
structure SourceLine where
  number : Option Nat
  statements : List Statement
  /-- the text without the number: as listed if there is a number, else as typed -/
  source : String
  deriving Inhabited

namespace Parser

/-- A number at the start of a line: its digits, the column of the first of them, and how many
characters it takes with the blanks in front and one after it. -/
structure LineStart where
  digits : List Char
  column : Nat
  length : Nat

/-- The value of the number. -/
def LineStart.number (s : LineStart) : Nat := Text.digitsValue s.digits

/-- A blank or a tab. -/
def isGap (c : Char) : Bool :=
  c = ' ' || c = '\t'

/-- `LINE_NUMBER_RE`: the number at the start of a line; a number with a point after it is no line
number. -/
def lineStart? (cs : List Char) : Option LineStart :=
  let gaps := cs.takeWhile isGap
  let afterGaps := cs.dropWhile isGap
  let digits := afterGaps.takeWhile Text.isDigit
  let rest := afterGaps.dropWhile Text.isDigit
  if digits.isEmpty || rest.head? = some '.' then none
  else
    let after := if (rest.head?.map isGap).getD false then 1 else 0
    some ⟨digits, gaps.length + 1, gaps.length + digits.length + after⟩

/-- `_tokenize`: the tokens of the text behind the first `offset` characters, with their columns in
the whole text. -/
def tokensAfter (offset : Nat) (cs : List Char) : Except Fault (List Token) := do
  return (← Lexer.tokenize (cs.drop offset)).map (·.shift offset)

/-- The error with its line, if it is an error. -/
def placeFault (line : Nat) {α : Type} : Except Fault α → Except Fault α
  | .error (.error e) => .error (.error (e.inLine line))
  | r => r

/-- The text of a numbered line as it is listed. -/
def listedText (number : Nat) (source : String) : String :=
  toString number ++ " " ++ source

/-- Reads a numbered line whose number takes the first `offset` characters. -/
def numberedLine (room number offset : Nat) (cs : List Char) : Except Fault SourceLine := do
  let tokens ← tokensAfter offset cs
  let source := Text.dropFront Text.isBlank (Listing.render (offset + 1) tokens)
  let listed := (listedText number source).toList
  let tokens ← if listed = cs then pure tokens
    else tokensAfter ((toString number).length + 1) listed
  let statements ← orFault (parseTokens room (listed.length + 1) tokens)
  return ⟨some number, statements, source⟩

/-- `parse_source`: reads a line. -/
def parseLine (room : Nat) (text : String) : Except Fault SourceLine :=
  let cs := Text.dropEnd Lexer.isReturn text.toList
  match lineStart? cs with
  | some start =>
    if Text.longestDecimal < start.digits.length then .error (.crash .tooManyDigits)
    else if start.number < 1 || maxLineNumber < start.number then
      .error (.error (.atColumn .syntaxError start.column))
    else placeFault start.number (numberedLine (room - 1) start.number start.length cs)
  | none => do
    let tokens ← tokensAfter 0 cs
    let statements ← orFault (parseTokens (room - 1) (cs.length + 1) tokens)
    return ⟨none, statements, String.ofList (Text.trim cs)⟩

end Parser

end LineBasic
