import LineBasic.Text.Alphanumeric
import LineBasic.Token.Lexer

/-!
# From tokens to text

The text of a line as LIST shows it. Words come out in capitals, a question mark as PRINT, `GO TO`
as GOTO. The blanks between tokens are kept, and two words that touch get a blank between them; only
FN stays joined to its name.
-/

namespace LineBasic.Listing

/-- How a token reads in a listing. -/
def spelling (t : Token) : String :=
  match t.kind with
  | .number _ => Text.capitals t.text
  | .name _ name => name
  | .keyword k => k.spelling
  | .question => Keyword.PRINT.spelling
  | _ => t.text

/-- The first character of DATA items that would run into the word before them. -/
def joinsWord (s : String) : Bool :=
  match s.toList.head? with
  | some c => Text.isAlphanumeric c || c = '"' || c = '.'
  | none => false

/-- `_is_word`: the token needs a blank beside another word. -/
def isWord (t : Token) : Bool :=
  match t.kind with
  | .number _ | .string _ | .name _ _ | .question | .apostrophe => true
  | .keyword k => !k.isOperator
  | .dataText s => joinsWord s
  | _ => false

/-- The token is the word FN. -/
def isFn (t : Token) : Bool :=
  match t.kind with
  | .keyword .FN => true
  | _ => false

/-- The blanks between two tokens: those that were typed, or one that is needed. -/
def gap (previous t : Token) : String :=
  if previous.stop < t.column then String.ofList (List.replicate (t.column - previous.stop) ' ')
  else if !isFn previous && isWord previous && isWord t then " "
  else ""

/-- The texts of the tokens after one, with the blanks in front of each. -/
def pieces (previous : Token) : List Token → List String
  | [] => []
  | t :: ts => gap previous t :: spelling t :: pieces t ts

/-- The texts of tokens on a line that begins at the column `start`, blanks included. -/
def linePieces (start : Nat) : List Token → List String
  | [] => []
  | t :: ts => String.ofList (List.replicate (t.column - start) ' ') :: spelling t :: pieces t ts

/-- The listed text of tokens on a line that begins at the column `start`, without blanks at its
end. -/
def render (start : Nat) (tokens : List Token) : String :=
  String.ofList (Text.dropEnd Text.isBlank (String.join (linePieces start tokens)).toList)

end LineBasic.Listing
