/-!
# Line ends

A text falls into lines at every Unicode line boundary. Files are read with each of the three usual
line ends as a line feed.
-/

namespace LineBasic.Text

/-- A character that ends a line. -/
def isLineEnd (c : Char) : Bool :=
  let n := c.toNat
  (0x0A ≤ n && n ≤ 0x0D) || (0x1C ≤ n && n ≤ 0x1E) || n == 0x85 || n == 0x2028 || n == 0x2029

/-- Splits the characters into lines; `line` holds the line being read, last character first. A
carriage return and the line feed after it end one line, and nothing after the last line end is no
line. -/
def linesFrom (line : List Char) : List Char → List String
  | [] => if line.isEmpty then [] else [String.ofList line.reverse]
  | '\r' :: '\n' :: cs => String.ofList line.reverse :: linesFrom [] cs
  | c :: cs =>
    if isLineEnd c then String.ofList line.reverse :: linesFrom [] cs else linesFrom (c :: line) cs

/-- The lines of a text without their ends. -/
def lines (s : String) : List String :=
  linesFrom [] s.toList

/-- Reads a carriage return, with or without a line feed after it, as a line feed. -/
def unifyLineEnds : List Char → List Char
  | [] => []
  | '\r' :: '\n' :: cs => '\n' :: unifyLineEnds cs
  | c :: cs => (if c = '\r' then '\n' else c) :: unifyLineEnds cs

/-- The pieces of a text between line feeds; nothing after the last line feed is no piece. -/
def feedLinesFrom (line : List Char) : List Char → List String
  | [] => if line.isEmpty then [] else [String.ofList line.reverse]
  | c :: cs =>
    if c = '\n' then String.ofList line.reverse :: feedLinesFrom [] cs
    else feedLinesFrom (c :: line) cs

/-- The lines that a reader of standard input gets, cut at line feeds only. -/
def feedLines (s : String) : List String :=
  feedLinesFrom [] s.toList

end LineBasic.Text
