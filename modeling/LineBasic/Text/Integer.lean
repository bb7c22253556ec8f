import LineBasic.Text.Blank
import LineBasic.Text.Digit

/-!
# Written integers

Integers as a person writes them in a settings or patch file: blanks around, a sign, digits of any
script with single underscores between them and, for hexadecimal, an optional `0x` in front.
`hexadecimal` writes them.
-/

namespace LineBasic.Text

/-- The blanks that may stand around a written integer; the information separators may not. -/
def isNumberBlank (c : Char) : Bool :=
  isBlank c && !(0x1C ≤ c.toNat && c.toNat ≤ 0x1F)

/-- The value of a digit in a base of at most sixteen. -/
def digitIn? (base : Nat) (c : Char) : Option Nat :=
  let v := match digitValue? c with
    | some d => some d
    | none =>
      if 'a' ≤ c && c ≤ 'f' then some (c.toNat - 'a'.toNat + 10)
      else if 'A' ≤ c && c ≤ 'F' then some (c.toNat - 'A'.toNat + 10)
      else none
  v.filter (· < base)

/-- Reads digits with single underscores between them, continuing from the value `n`; the text so
far ends in a digit. -/
def digitsFrom? (base n : Nat) : List Char → Option Nat
  | [] => some n
  | '_' :: c :: cs => (digitIn? base c).bind fun d => digitsFrom? base (base * n + d) cs
  | c :: cs => (digitIn? base c).bind fun d => digitsFrom? base (base * n + d) cs

/-- Reads a digit and what `digitsFrom?` reads after it. -/
def digits? (base : Nat) : List Char → Option Nat
  | [] => none
  | c :: cs => (digitIn? base c).bind fun d => digitsFrom? base d cs

/-- The longest decimal integer that is read has this many digits. -/
def longestDecimal : Nat := 4300

/-- Splits off a sign; true means minus. -/
def splitSign : List Char → Bool × List Char
  | '-' :: cs => (true, cs)
  | '+' :: cs => (false, cs)
  | cs => (false, cs)

/-- A digit of any script as one of the ten common figures; any other character as it is. -/
def commonDigit (c : Char) : Char :=
  match digitValue? c with
  | some d => Char.ofNat ('0'.toNat + d)
  | none => c

/-- The characters of a written integer, in common figures and without the blanks that may stand
around it. -/
def trimNumber (s : String) : List Char :=
  (dropEnd isNumberBlank (s.toList.dropWhile isNumberBlank)).map commonDigit

/-- Reads a decimal integer. -/
def decimal? (s : String) : Option Int :=
  let (negative, cs) := splitSign (trimNumber s)
  if longestDecimal < cs.countP isDigit then none
  else (digits? 10 cs).map fun n => if negative then -(n : Int) else n

/-- The characters after an optional hexadecimal mark, and after one underscore behind the mark. -/
def dropHexMark : List Char → List Char
  | '0' :: x :: cs =>
    if x = 'x' || x = 'X' then
      match cs with
      | '_' :: rest => rest
      | _ => cs
    else '0' :: x :: cs
  | cs => cs

/-- Reads a hexadecimal integer. -/
def hexadecimal? (s : String) : Option Int :=
  let (negative, cs) := splitSign (trimNumber s)
  (digits? 16 (dropHexMark cs)).map fun n => if negative then -(n : Int) else n

/-- The digits of a number in a base of at most sixteen, with capital letters. -/
def digitsIn (base n : Nat) : String :=
  String.ofList ((Nat.toDigits base n).map Char.toUpper)

/-- The text with zeros in front up to the given width. -/
def padZeros (width : Nat) (s : String) : String :=
  String.ofList (List.replicate (width - s.length) '0') ++ s

/-- Eight hexadecimal places, of which a minus sign takes one. -/
def hexadecimal (n : Int) : String :=
  if n < 0 then "-" ++ padZeros 7 (digitsIn 16 n.natAbs) else padZeros 8 (digitsIn 16 n.natAbs)

end LineBasic.Text
