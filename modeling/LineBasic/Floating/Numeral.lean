import LineBasic.Floating.Decimal

/-!
# Written numbers

The digits of a number as they stand in a text: some digits with an optional point, or a point and
some digits; then perhaps an exponent letter, a sign and digits.
-/

namespace LineBasic.Floating

/-- The digits of a number before and after its point, and the rest of the text. -/
structure Mantissa where
  whole : List Char
  fraction : List Char
  rest : List Char

/-- Reads digits with an optional point among or after them, or a point with digits after it. -/
def mantissa? (cs : List Char) : Option Mantissa :=
  let whole := cs.takeWhile Text.isDigit
  let rest := cs.dropWhile Text.isDigit
  match rest with
  | '.' :: r =>
    let fraction := r.takeWhile Text.isDigit
    if whole.isEmpty && fraction.isEmpty then none
    else some ⟨whole, fraction, r.dropWhile Text.isDigit⟩
  | _ => if whole.isEmpty then none else some ⟨whole, [], rest⟩

/-- A letter that announces an exponent: E for single, D for double precision. -/
def isExponentLetter (c : Char) : Bool :=
  c = 'E' || c = 'e' || c = 'D' || c = 'd'

/-- A plus or minus sign. -/
def isSign (c : Char) : Bool :=
  c = '+' || c = '-'

/-- An exponent as written: its letter, the sign if there is one, and its digits, of which there may
be none. -/
structure Exponent where
  letter : Char
  sign : Option Char
  digits : List Char

/-- The value of an exponent; without digits it is zero. -/
def Exponent.value (e : Exponent) : Int :=
  let n := Text.digitsValue e.digits
  if e.sign = some '-' then -(n : Int) else n

/-- The exponent letter asks for double precision. -/
def Exponent.isDouble (e : Exponent) : Bool :=
  e.letter = 'D' || e.letter = 'd'

/-- Reads an exponent letter with what belongs to it, and gives the rest of the text. -/
def exponent? : List Char → Option (Exponent × List Char)
  | [] => none
  | c :: cs =>
    if isExponentLetter c then
      match cs with
      | s :: r =>
        if isSign s then some (⟨c, some s, r.takeWhile Text.isDigit⟩, r.dropWhile Text.isDigit)
        else some (⟨c, none, cs.takeWhile Text.isDigit⟩, cs.dropWhile Text.isDigit)
      | [] => some (⟨c, none, []⟩, [])
    else none

/-- Reads a whole text as a number with an optional sign; an exponent needs digits. -/
def ofText? (cs : List Char) : Option Float := do
  let (negative, cs) := match cs with
    | '-' :: r => (true, r)
    | '+' :: r => (false, r)
    | _ => (false, cs)
  let m ← mantissa? cs
  let exponent ← match m.rest with
    | [] => some 0
    | rest => do
      let (e, after) ← exponent? rest
      if e.digits.isEmpty || !after.isEmpty then none else some e.value
  let x := Numeral.toFloat ⟨m.whole, m.fraction, exponent⟩
  return if negative then -x else x

end LineBasic.Floating
