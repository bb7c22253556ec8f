import LineBasic.Error
import LineBasic.Floating.Numeral
import LineBasic.Text.Blank

/-!
# Values

A value is a string, a single-precision or a double-precision number. Both kinds of number are
binary64 numbers; a single-precision one is rounded to binary32 whenever it is computed or stored.

* `toSingle`, `toDouble`, `toInteger`, `toCount`: the conversions and what they refuse.
* `Kind`: what a variable holds, told by the last character of its name; `Kind.coerce` fits a value
  to it.
* `showNumber`: how a number is printed; `readNumber`: how INPUT, READ and VAL read one.
-/

namespace LineBasic

/-- A value of the language. -/
inductive Value where
  | text (s : String)
  | single (x : Float)
  | double (x : Float)
  deriving Inhabited

/-! ## Conversions of numbers -/

-- A power is that of two natural numbers, whichever others are known.
attribute [local instance (high)] instPowNat

/-- `SINGLE_MAX`: the largest single-precision number. -/
def singleMax : Nat := (2 ^ (24 : Nat) - 1) * 2 ^ (104 : Nat)

/-- `to_single`: rounds to single precision. There is no negative zero among the results. -/
def toSingle (x : Float) : Except Error Float :=
  match Floating.parts? x with
  | none => if x.isNaN then fail .illegalQuantity else fail .overflow
  | some p =>
    if singleMax * p.ratio.2 < p.ratio.1 then fail .overflow else .ok (p.round 24 (-149)).toFloat

/-- `to_double`: a double-precision number; only NaN and the infinities are refused. -/
def toDouble (x : Float) : Except Error Float :=
  if x.isNaN then fail .illegalQuantity
  else if x.isInf then fail .overflow
  else .ok (x + 0.0)

/-- `INTEGER_MIN`: the least integer of an integer variable. -/
def integerMin : Int := -32768

/-- `INTEGER_MAX`: the greatest integer of an integer variable. -/
def integerMax : Int := 32767

/-- `to_integer`: rounds to the nearest integer, a half up, and checks the 16-bit range. -/
def toInteger (x : Float) : Except Error Int :=
  match (Floating.parts? x).bind fun _ => Floating.parts? (x + 0.5) with
  | none => fail .overflow
  | some p => if p.floor < integerMin || integerMax < p.floor then fail .overflow else .ok p.floor

/-- `to_count`: an integer that counts something, such as the length of a string. -/
def toCount (x : Float) : Except Error Nat := do
  let n ← toInteger x
  if n < 0 then fail .illegalQuantity else return n.toNat

/-- The precision in which a number is computed. -/
inductive Precision where
  | single
  | double
  deriving DecidableEq, Repr, Inhabited

/-- A number in the given precision. -/
def Precision.fit : Precision → Float → Except Error Value
  | single, x => (toSingle x).map .single
  | double, x => (toDouble x).map .double

/-- `precision_of`: an operation on two numbers is in double precision if one of them is. -/
def Precision.join : Precision → Precision → Precision
  | single, single => single
  | _, _ => double

namespace Value

/-- The number that a value is. -/
def number : Value → Except Error Float
  | text _ => fail .typeMismatch
  | single x | double x => .ok x

/-- The string that a value is. -/
def string : Value → Except Error String
  | text s => .ok s
  | _ => fail .typeMismatch

/-- The precision of a number; strings take part in no computation. -/
def precision : Value → Precision
  | double _ => .double
  | _ => .single

/-- A single-precision number that is an integer. -/
def ofInt (n : Int) : Value := single (Float.ofInt n)

/-- `from_bool`: truth is minus one and falsehood zero. -/
def ofBool (b : Bool) : Value := single (if b then -1.0 else 0.0)

/-- The value is a number other than zero. -/
def truth (v : Value) : Except Error Bool := do
  return (← v.number) != 0.0

/-- The value as a 16-bit integer. -/
def integer (v : Value) : Except Error Int := do
  toInteger (← v.number)

/-- The value as a count. -/
def count (v : Value) : Except Error Nat := do
  toCount (← v.number)

end Value

/-! ## Strings -/

/-- `MAX_STRING`: the longest string that a variable or an operation holds. -/
def maxString : Nat := 255

/-- `check_string`: refuses a string that is too long. -/
def checkString (s : String) : Except Error String :=
  if maxString < s.length then fail .stringTooLong else .ok s

/-! ## Kinds of variable -/

/-- What a variable holds. -/
inductive Kind where
  | text
  | integer
  | single
  | double
  deriving DecidableEq, Repr, Inhabited

namespace Kind

/-- The mark of a kind at the end of a variable's name. -/
def sigil : Kind → String
  | text => "$"
  | integer => "%"
  | single => ""
  | double => "#"

/-- The kind that the last character of a name tells. -/
def ofName (name : String) : Kind :=
  match name.toList.getLast? with
  | some '$' => text
  | some '%' => integer
  | some '#' => double
  | _ => single

/-- `default_for`: what a variable holds before anything is stored in it. -/
def default : Kind → Value
  | text => .text ""
  | double => .double 0.0
  | _ => .single 0.0

/-- Fits a value to a variable of the kind. -/
def coerce : Kind → Value → Except Error Value
  | text, v => do return .text (← checkString (← v.string))
  | integer, v => do return .ofInt (← v.integer)
  | double, v => do return .double (← toDouble (← v.number))
  | single, v => do return .single (← toSingle (← v.number))

/-- The precision in which numbers are read for a variable of the kind. -/
def precision : Kind → Precision
  | double => .double
  | _ => .single

end Kind

/-! ## Written numbers -/

/-- How many significant digits a number shows. -/
def Precision.places : Precision → Nat
  | single => 7
  | double => 16

/-- `format_number`: a number as PRINT and STR$ write it, a blank or a minus sign and then the
digits. -/
def showNumber (precision : Precision) (x : Float) : String :=
  Floating.general precision.places x

/-- `parse_number`: reads a number as INPUT, READ and VAL do; none if the text is no number. -/
def readNumber (precision : Precision) (s : String) : Except Error (Option Value) :=
  match Floating.ofText? (Text.trim s.toList) with
  | none => .ok none
  | some x => (precision.fit x).map some

end LineBasic
