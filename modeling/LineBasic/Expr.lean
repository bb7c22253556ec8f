import LineBasic.Builtin.Basic
import LineBasic.Value.Arithmetic

/-!
# Expressions

An expression knows the column of the token it starts at; for an operator between two operands that
is the column of the operator.
-/

namespace LineBasic

/-- An expression. -/
inductive Expr where
  | literal (column : Nat) (v : Value)
  | variable (column : Nat) (name : String)
  | element (column : Nat) (name : String) (indices : List Expr)
  | unary (column : Nat) (op : UnaryOp) (e : Expr)
  | binary (column : Nat) (op : BinaryOp) (left right : Expr)
  | call (column : Nat) (f : Builtin) (args : List Expr)
  /-- a function of the program, by its name without FN -/
  | userCall (column : Nat) (name : String) (args : List Expr)
  deriving Inhabited

/-- What a value can be stored in. -/
inductive Target where
  | scalar (column : Nat) (name : String)
  | element (column : Nat) (name : String) (indices : List Expr)
  deriving Inhabited

namespace Target

/-- The name of the variable or array. -/
def name : Target → String
  | scalar _ name => name
  | element _ name _ => name

/-- The target as an expression, which reads what is stored there. -/
def toExpr : Target → Expr
  | scalar column name => .variable column name
  | element column name indices => .element column name indices

end Target

/-- `BINARY_LEVELS`: how loosely an operator binds, the loosest first. Powers bind tighter than the
operators in front of an operand, and so are not among these levels. -/
def BinaryOp.level? : BinaryOp → Option Nat
  | bitwise .or | bitwise .xor => some 0
  | bitwise .and => some 1
  | relation _ => some 2
  | arithmetic .add | arithmetic .sub => some 3
  | arithmetic .mul | arithmetic .div | bitwise .quotient | bitwise .remainder => some 4
  | arithmetic .pow => none

/-- The number of levels of operators between operands. -/
def binaryLevels : Nat := 5

end LineBasic
