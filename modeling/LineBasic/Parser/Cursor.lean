import LineBasic.Statement
import LineBasic.Token.Basic

/-!
# Reading tokens

A parser takes tokens from the front of a list. A refusal names the column of the token at the
front, or the column after the line when none is left.
-/

namespace LineBasic

/-- A reader of tokens. It knows the column after the line. -/
abbrev Parser := ReaderT Nat (StateT (List Token) (Except Error))

namespace Parser

variable {α : Type}

/-- `peek`: the token at the front. -/
def peek? : Parser (Option Token) := do
  return (← get).head?

/-- `_column`: the column of the token at the front, or the one after the line. -/
def column : Parser Nat := do
  match (← get).head? with
  | some t => return t.column
  | none => read

/-- A syntax error at a column. -/
def refuseAt (column : Nat) : Parser α :=
  throw (.atColumn .syntaxError column)

/-- `_error`: a syntax error at the token at the front. -/
def refuse : Parser α := do
  refuseAt (← column)

/-- The statements or expressions are nested too deeply. -/
def tooDeep : Parser α := do
  throw (.atColumn .outOfMemory (← column))

/-- `accept`: takes the token at the front if `f` knows what to make of it. -/
def accept? (f : Token → Option α) : Parser (Option α) := do
  match ← get with
  | t :: rest =>
    match f t with
    | some a =>
      set rest
      return some a
    | none => return none
  | [] => return none

/-- Takes a token that `f` knows what to make of. -/
def expect (f : Token → Option α) : Parser α := do
  match ← accept? f with
  | some a => return a
  | none => refuse

/-- A token with a certain property. -/
def that (p : TokenKind → Bool) (t : Token) : Option Token :=
  if p t.kind then some t else none

/-- A certain reserved word. -/
def isKeyword (k : Keyword) (t : Token) : Option Token :=
  if t.keyword? = some k then some t else none

/-- Takes a token if it has a property, and says whether it did. -/
def accepts (f : Token → Option Token) : Parser Bool := do
  return (← accept? f).isSome

/-- An opening parenthesis. -/
def isOpening : Token → Option Token := that fun | .opening => true | _ => false

/-- A closing parenthesis. -/
def isClosing : Token → Option Token := that fun | .closing => true | _ => false

/-- A comma. -/
def isComma : Token → Option Token := that fun | .comma => true | _ => false

/-- A colon. -/
def isColon : Token → Option Token := that fun | .colon => true | _ => false

/-- An equals sign. -/
def isEquals : Token → Option Token := that fun | .equals => true | _ => false

/-- A minus sign. -/
def isMinus : Token → Option Token := that fun | .operator (.arithmetic .sub) => true | _ => false

/-- A number. -/
def isNumber : Token → Option Token := that fun | .number _ => true | _ => false

/-- A name, with its column. -/
def name? (t : Token) : Option (String × Nat) :=
  match t.kind with
  | .name _ s => some (s, t.column)
  | _ => none

/-- The name of a variable that holds numbers. -/
def numericName? (t : Token) : Option String :=
  match t.kind with
  | .name .real s | .name .integer s => some s
  | _ => none

/-- Items after the first, each behind a comma; `n` bounds their number. -/
def commaTail (item : Parser α) : Nat → Parser (List α)
  | 0 => return []
  | n + 1 => do
    if ← accepts isComma then
      let a ← item
      let rest ← commaTail item n
      return a :: rest
    else return []

/-- One or more items with commas between them. -/
def commaList (item : Parser α) : Parser (List α) := do
  let a ← item
  let rest ← commaTail item (← get).length
  return a :: rest

/-- `MAX_LINE_NUMBER`: the largest line number. -/
def maxLineNumber : Nat := 65529

/-- The line number that a value is. -/
def lineNumber? : Value → Option Nat
  | .text _ => none
  | .single x | .double x =>
    match Floating.parts? x with
    | some p =>
      if p.isWhole && !(p.negative && p.mantissa != 0) && p.whole ≤ maxLineNumber then some p.whole
      else none
    | none => none

/-- `_line_number`: reads a line number. -/
def lineNumber : Parser Nat := do
  let (v, column) ← expect fun t => match t.kind with
    | .number v => some (v, t.column)
    | _ => none
  match lineNumber? v with
  | some n => return n
  | none => refuseAt column

/-- `_line_reference`: reads a line number and keeps its column. -/
def lineRef : Parser LineRef := do
  let column ← column
  return ⟨← lineNumber, column⟩

end Parser

end LineBasic
