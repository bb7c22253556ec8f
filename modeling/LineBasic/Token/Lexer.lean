import LineBasic.Text.Capital
import LineBasic.Token.Basic

/-!
# From text to tokens

A line is read from left to right. Words need no blanks between them: letters are taken one at a
time, and as soon as they spell a reserved word that word is a token, so `FORI=1TO9` is a loop. A
remark takes the rest of the line, and the items of DATA run to the next colon outside quotes.

* `Lexeme`: what one step of the reading finds, and how many characters it takes.
* `scan`: the reading of a whole line.
* `tokenize`: the tokens of a line, with `GO TO` and `GO SUB` as one token each.
-/

namespace LineBasic.Lexer

open Floating (mantissa? exponent?)

/-- What one step of the reading finds: the tokens, and how many characters they take beyond the
first. -/
structure Lexeme where
  tokens : List Token
  more : Nat

/-- A syntax error at a column. -/
def malformed {α : Type} (column : Nat) : Except Fault α :=
  .error (.error (.atColumn .syntaxError column))

/-! ## Numbers -/

/-- A mark after a number that fixes its precision. -/
def isPrecisionMark (c : Char) : Bool :=
  c = '!' || c = '#' || c = '%'

/-- `SINGLE_DIGITS`: a number with more digits than this is in double precision. -/
def singleDigits : Nat := 7

/-- A number as written: its digits, its exponent, its mark, and the text after it. -/
structure NumberText where
  mantissa : Floating.Mantissa
  exponent : Option Floating.Exponent
  mark : Option Char
  rest : List Char

/-- Reads a number at the start of the text. -/
def numberText? (cs : List Char) : Option NumberText :=
  (mantissa? cs).map fun m =>
    let (exponent, rest) := match exponent? m.rest with
      | some (e, rest) => (some e, rest)
      | none => (none, m.rest)
    match rest with
    | c :: r => if isPrecisionMark c then ⟨m, exponent, some c, r⟩ else ⟨m, exponent, none, rest⟩
    | [] => ⟨m, exponent, none, []⟩

/-- An exponent with a sign and no digits. -/
def NumberText.isUnfinished (n : NumberText) : Bool :=
  match n.exponent with
  | some e => e.sign.isSome && e.digits.isEmpty
  | none => false

/-- The value of the number before it is rounded. -/
def NumberText.real (n : NumberText) : Float :=
  Floating.Numeral.toFloat
    ⟨n.mantissa.whole, n.mantissa.fraction, (n.exponent.map Floating.Exponent.value).getD 0⟩

/-- The precision of the number: by its mark, else by its exponent letter, else by the number of its
digits. -/
def NumberText.precision (n : NumberText) : Precision :=
  if n.mark = some '#' || (n.exponent.map Floating.Exponent.isDouble).getD false ||
      (n.mark != some '!' && singleDigits < n.mantissa.whole.length + n.mantissa.fraction.length)
  then .double else .single

/-- `_number`: the value of the number. -/
def NumberText.value (n : NumberText) : Except Error Value :=
  if n.mark = some '%' then (toInteger n.real).map Value.ofInt else n.precision.fit n.real

/-- Reads a number token; a number too large and one with a second point are errors. -/
def number (column : Nat) (cs : List Char) (n : NumberText) : Except Fault Lexeme :=
  if n.rest.head? = some '.' || n.isUnfinished then malformed column
  else
    match n.value with
    | .ok v =>
      let length := cs.length - n.rest.length
      .ok ⟨[.ofText (.number v) column (String.ofList (cs.take length))], length - 1⟩
    | .error _ => malformed column

/-! ## Words -/

/-- A mark at the end of a name. -/
def isSigil (c : Char) : Bool :=
  c = '$' || c = '%' || c = '!' || c = '#'

/-- The letters, then the digits, then at most one mark at the start of the text. -/
def wordRun (cs : List Char) : List Char :=
  let letters := cs.takeWhile Char.isAlpha
  let afterLetters := cs.dropWhile Char.isAlpha
  let digits := afterLetters.takeWhile Char.isDigit
  let afterDigits := afterLetters.dropWhile Char.isDigit
  letters ++ digits ++ (afterDigits.take 1).filter isSigil

/-- The shortest start of a run that is a reserved word, and its length; `start` holds what comes
before the run. -/
def keywordIn? (start : List Char) : List Char → Option (Keyword × Nat)
  | [] => none
  | c :: cs =>
    let word := start ++ [c.toUpper]
    match Keyword.ofSpelling? (String.ofList word) with
    | some k => some (k, word.length)
    | none => keywordIn? word cs

/-- `LONGER_KEYWORDS`: the words that DEF makes with three more letters. -/
def defWords : List (String × Keyword) :=
  [("INT", .DEFINT), ("SNG", .DEFSNG), ("DBL", .DEFDBL), ("STR", .DEFSTR)]

/-- The longer word that DEF starts, if the text after it says so. -/
def defWord? (rest : List Char) : Option Keyword :=
  let ending := (rest.take 3).flatMap Text.capital
  (defWords.find? fun w => w.1.toList = ending).map Prod.snd

/-- The kind of name that a run of characters is. -/
def nameKind (run : List Char) : NameKind :=
  match run.getLast? with
  | some '$' => .text
  | some '%' => .integer
  | _ => .real

/-- `_word`: the reserved word or the name at the start of the text, and how many characters it
takes. -/
def word (cs : List Char) : TokenKind × Nat :=
  let run := wordRun cs
  match keywordIn? [] run with
  | some (.DEF, n) =>
    match defWord? (cs.drop n) with
    | some k => (.keyword k, n + 3)
    | none => (.keyword .DEF, n)
  | some (k, n) => (.keyword k, n)
  | none =>
    let name := run.map Char.toUpper
    (.name (nameKind name) (String.ofList name), run.length)

/-- The text of a word token: a name in capitals, a reserved word as typed. -/
def wordText (kind : TokenKind) (typed : List Char) : String :=
  match kind with
  | .name _ name => name
  | _ => String.ofList typed

/-- `_data_text`: the characters up to a colon that is not between quotes. -/
def dataRun (quoted : Bool) : List Char → List Char
  | [] => []
  | c :: cs =>
    if c = ':' && !quoted then []
    else c :: dataRun (if c = '"' then !quoted else quoted) cs

/-- Reads a word and, after REM and DATA, the text that belongs to it. -/
def wordLexeme (column : Nat) (cs : List Char) : Lexeme :=
  let (kind, length) := word cs
  let typed := cs.take length
  let token := Token.ofText kind column (wordText kind typed)
  let rest := cs.drop length
  let after := column + length
  match kind with
  | .keyword .REM =>
    let remark := String.ofList rest
    ⟨[token, .ofText (.remark remark) after remark], cs.length - 1⟩
  | .keyword .DATA =>
    let run := dataRun false rest
    let items := String.ofList run
    ⟨[token, .ofText (.dataText items) after items], length + run.length - 1⟩
  | _ => ⟨[token], length - 1⟩

/-! ## Signs -/

/-- The comparison that two characters make. -/
def relation? : Char → Char → Option Relation
  | '<', '=' => some .le
  | '=', '<' => some .le
  | '>', '=' => some .ge
  | '=', '>' => some .ge
  | '<', '>' => some .ne
  | '>', '<' => some .ne
  | _, _ => none

/-- What a character is on its own. -/
def sign? : Char → Option TokenKind
  | '<' => some (.relation .lt)
  | '>' => some (.relation .gt)
  | '=' => some .equals
  | '+' => some (.operator (.arithmetic .add))
  | '-' => some (.operator (.arithmetic .sub))
  | '*' => some (.operator (.arithmetic .mul))
  | '/' => some (.operator (.arithmetic .div))
  | '^' => some (.operator (.arithmetic .pow))
  | '\\' => some (.operator (.bitwise .quotient))
  | '?' => some .question
  | '(' => some .opening
  | ')' => some .closing
  | ',' => some .comma
  | ';' => some .semicolon
  | ':' => some .colon
  | _ => none

/-- Reads a sign of one or two characters. A character that starts nothing is an error. -/
def signLexeme (column : Nat) (c : Char) (cs : List Char) : Except Fault Lexeme :=
  match cs.head?.bind (relation? c) with
  | some r => .ok ⟨[.ofText (.relation r) column (String.ofList (c :: cs.take 1))], 1⟩
  | none =>
    match sign? c with
    | some kind => .ok ⟨[.ofText kind column (String.singleton c)], 0⟩
    | none => if c = '\n' then .error (.crash .lineFeed) else malformed column

/-! ## Lines -/

/-- Reads a string up to its closing quote; `ending` is the column after the last character of the
line. -/
def stringLexeme (column ending : Nat) (cs : List Char) : Except Fault Lexeme :=
  let body := cs.takeWhile (· != '"')
  if body.length = cs.length then malformed ending
  else
    let text := String.ofList ('"' :: body ++ ['"'])
    .ok ⟨[.ofText (.string (String.ofList body)) column text], body.length + 1⟩

/-- Reads what starts at a character. -/
def lexeme (column ending : Nat) (c : Char) (cs : List Char) : Except Fault Lexeme :=
  match numberText? (c :: cs) with
  | some n => number column (c :: cs) n
  | none =>
    if c = '"' then stringLexeme column ending cs
    else if c.isAlpha then .ok (wordLexeme column (c :: cs))
    else if c = ' ' || c = '\t' then .ok ⟨[], 0⟩
    else if c = '\'' then
      let remark := String.ofList cs
      .ok ⟨[.ofText .apostrophe column "'", .ofText (.remark remark) (column + 1) remark],
        cs.length⟩
    else signLexeme column c cs

/-- Reads the characters from a column on. -/
def scan (column : Nat) : List Char → Except Fault (List Token)
  | [] => .ok []
  | c :: cs => do
    let found ← lexeme column (column + 1 + cs.length) c cs
    let rest ← scan (column + 1 + found.more) (cs.drop found.more)
    return found.tokens ++ rest
termination_by cs => cs.length
decreasing_by
  simp only [List.length_cons, List.length_drop]
  omega

/-- The jump that two tokens make together. -/
def joined? (first second : Token) : Option Keyword :=
  match first.kind, second.kind with
  | .name .real "GO", .keyword .TO => some .GOTO
  | .name .real "GO", .name .real "SUB" => some .GOSUB
  | _, _ => none

/-- `_collapse_go`: makes one token of each `GO TO` and `GO SUB`. -/
def joinJumps : List Token → List Token
  | first :: second :: rest =>
    match joined? first second with
    | some k => ⟨.keyword k, first.column, second.stop, k.spelling⟩ :: joinJumps rest
    | none => first :: joinJumps (second :: rest)
  | tokens => tokens

/-- A character of a line end. -/
def isReturn (c : Char) : Bool :=
  c = '\r' || c = '\n'

/-- The tokens of a line; line ends after it are not part of it. -/
def tokenize (cs : List Char) : Except Fault (List Token) := do
  return joinJumps (← scan 1 (Text.dropEnd isReturn cs))

end LineBasic.Lexer
