import LineBasic.Value.Basic

/-!
# Operators

The operators on values. Comparisons give minus one or zero; sums, differences, products, quotients
and powers are computed in binary64 and rounded to the wider precision of the two operands; the
logical operators, the integer quotient and the remainder work on 16-bit integers.
-/

namespace LineBasic

/-- Comparisons. -/
inductive Relation where
  | eq
  | ne
  | lt
  | gt
  | le
  | ge
  deriving DecidableEq, Repr, Inhabited

/-- Operators on reals. -/
inductive Arithmetic where
  | add
  | sub
  | mul
  | div
  | pow
  deriving DecidableEq, Repr, Inhabited

/-- Operators on 16-bit integers. -/
inductive Bitwise where
  | and
  | or
  | xor
  | quotient
  | remainder
  deriving DecidableEq, Repr, Inhabited

/-- The operators between two operands. -/
inductive BinaryOp where
  | relation (r : Relation)
  | arithmetic (a : Arithmetic)
  | bitwise (b : Bitwise)
  deriving DecidableEq, Repr, Inhabited

/-- The operators in front of an operand. -/
inductive UnaryOp where
  | minus
  | plus
  | not
  deriving DecidableEq, Repr, Inhabited

namespace Relation

/-- How a comparison is written. -/
def symbol : Relation → String
  | eq => "="
  | ne => "<>"
  | lt => "<"
  | gt => ">"
  | le => "<="
  | ge => ">="

/-- Compares numbers. -/
def holdsReal : Relation → Float → Float → Bool
  | eq, a, b => a == b
  | ne, a, b => a != b
  | lt, a, b => a < b
  | gt, a, b => b < a
  | le, a, b => a ≤ b
  | ge, a, b => b ≤ a

/-- Compares strings, character by character in the order of code points. -/
def holdsText : Relation → String → String → Bool
  | eq, a, b => a == b
  | ne, a, b => a != b
  | lt, a, b => decide (a < b)
  | gt, a, b => decide (b < a)
  | le, a, b => !decide (b < a)
  | ge, a, b => !decide (a < b)

end Relation

/-- How an operator on reals is written. -/
def Arithmetic.symbol : Arithmetic → String
  | add => "+"
  | sub => "-"
  | mul => "*"
  | div => "/"
  | pow => "^"

/-- How an operator on integers is written. -/
def Bitwise.symbol : Bitwise → String
  | and => "AND"
  | or => "OR"
  | xor => "XOR"
  | quotient => "\\"
  | remainder => "MOD"

/-- How an operator is written. -/
def BinaryOp.symbol : BinaryOp → String
  | relation r => r.symbol
  | arithmetic a => a.symbol
  | bitwise b => b.symbol

/-- How an operator in front of its operand is written. -/
def UnaryOp.symbol : UnaryOp → String
  | minus => "-"
  | plus => "+"
  | not => "NOT"

/-- Why a number has no integer part, if it has none. -/
def integerCrash? (x : Float) : Option Crash :=
  if x.isNaN then some .noInteger else if x.isInf then some .infiniteInteger else none

/-- The number is an integer; the question needs an integer part. -/
def isWholeNumber (x : Float) : Except Fault Bool :=
  match integerCrash? x with
  | some c => .error (.crash c)
  | none => .ok ((Floating.parts? x).any Floating.Parts.isWhole)

/-- A negative base needs an integer as exponent, and zero an exponent that is not negative. -/
def checkPower (base exponent : Float) : Except Fault Unit := do
  if base < 0.0 then
    if ← isWholeNumber exponent then return () else orFault (fail .illegalQuantity)
  else if base == 0.0 && exponent < 0.0 then orFault (fail .divisionByZero)
  else return ()

/-- A power. -/
def power (precision : Precision) (base exponent : Float) : Except Fault Value := do
  checkPower base exponent
  orFault (precision.fit (base.pow exponent))

/-- An operator on reals. -/
def Arithmetic.apply (op : Arithmetic) (precision : Precision) (a b : Float) : Except Fault Value :=
  match op with
  | add => orFault (precision.fit (a + b))
  | sub => orFault (precision.fit (a - b))
  | mul => orFault (precision.fit (a * b))
  | div => orFault (if b == 0.0 then fail .divisionByZero else precision.fit (a / b))
  | pow => power precision a b

/-- An operator on integers. The quotient is cut off toward zero, and the remainder goes with it. -/
def Bitwise.apply (op : Bitwise) (a b : Int) : Except Error Int :=
  match op with
  | and => .ok (Int16.ofInt a &&& Int16.ofInt b).toInt
  | or => .ok (Int16.ofInt a ||| Int16.ofInt b).toInt
  | xor => .ok (Int16.ofInt a ^^^ Int16.ofInt b).toInt
  | quotient => if b = 0 then fail .divisionByZero else .ok (a.tdiv b)
  | remainder => if b = 0 then fail .divisionByZero else .ok (a.tmod b)

/-- Compares two values of one kind. -/
def Relation.apply (r : Relation) : Value → Value → Except Error Value
  | .text a, .text b => .ok (.ofBool (r.holdsText a b))
  | .text _, _ | _, .text _ => fail .typeMismatch
  | a, b => do return .ofBool (r.holdsReal (← a.number) (← b.number))

/-- An operator on reals, applied to values; only a sum also joins strings. -/
def Arithmetic.applyValues (op : Arithmetic) : Value → Value → Except Fault Value
  | .text a, .text b =>
      orFault (if op = add then (checkString (a ++ b)).map .text else fail .typeMismatch)
  | a, b => do op.apply (a.precision.join b.precision) (← orFault a.number) (← orFault b.number)

/-- An operator on integers, applied to values. -/
def Bitwise.applyValues (op : Bitwise) (a b : Value) : Except Error Value := do
  let x ← a.number
  let y ← b.number
  return .ofInt (← op.apply (← toInteger x) (← toInteger y))

/-- `_eval_binary`: an operator applied to its operands. -/
def BinaryOp.apply (op : BinaryOp) (a b : Value) : Except Fault Value :=
  match op with
  | relation r => orFault (r.apply a b)
  | arithmetic o => o.applyValues a b
  | bitwise o => orFault (o.applyValues a b)

/-- `_eval_unary`: an operator in front of its operand. -/
def UnaryOp.apply (op : UnaryOp) (v : Value) : Except Error Value := do
  let x ← v.number
  match op with
  | minus => v.precision.fit (-x)
  | plus => return v
  | not => return .ofInt (-(← toInteger x) - 1)

end LineBasic
