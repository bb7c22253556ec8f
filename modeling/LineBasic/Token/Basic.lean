import LineBasic.Token.Keyword
import LineBasic.Value.Arithmetic

/-!
# Tokens

A token is a word, number, string or sign of a line, with the columns it occupies. Columns count
from one, and `stop` is the column after the last character.
-/

namespace LineBasic

/-- The kinds of identifier, told by the character at the end: `$` for strings, `%` for integers,
any other for reals. -/
inductive NameKind where
  | text
  | integer
  | real
  deriving DecidableEq, Repr, Inhabited

/-- What a token is. -/
inductive TokenKind where
  | number (v : Value)
  | string (s : String)
  | name (kind : NameKind) (name : String)
  | keyword (k : Keyword)
  /-- the question mark, short for PRINT -/
  | question
  /-- the apostrophe, short for REM -/
  | apostrophe
  /-- the text of a remark -/
  | remark (s : String)
  /-- the items of a DATA statement -/
  | dataText (s : String)
  | relation (r : Relation)
  /-- the equals sign, which assigns or compares -/
  | equals
  | operator (op : BinaryOp)
  | opening
  | closing
  | comma
  | semicolon
  | colon
  deriving Inhabited

/-- A token with its place in the line and its text as typed. -/
structure Token where
  kind : TokenKind
  column : Nat
  stop : Nat
  text : String
  deriving Inhabited

namespace Token

/-- A token that occupies the columns of its text. -/
def ofText (kind : TokenKind) (column : Nat) (text : String) : Token :=
  ⟨kind, column, column + text.length, text⟩

/-- The reserved word that a token stands for. -/
def keyword? (t : Token) : Option Keyword :=
  match t.kind with
  | .keyword k => some k
  | .question => some .PRINT
  | .apostrophe => some .REM
  | _ => none

/-- The token moved to the right. -/
def shift (t : Token) (offset : Nat) : Token :=
  { t with column := t.column + offset, stop := t.stop + offset }

end Token

end LineBasic
