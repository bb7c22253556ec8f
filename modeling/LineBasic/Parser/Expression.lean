import LineBasic.Parser.Cursor

/-!
# Reading expressions

Operators between operands are read level by level, the loosest first, each level from left to
right. An operator in front binds tighter than those, and a power tighter still: `-2^2` is minus
four. The right operand of a power may again have an operator in front.

Every function here takes the number of calls that may still be open inside it, so a line nested
beyond that is refused.
-/

namespace LineBasic.Parser

/-- The operator between operands that a token is. -/
def binaryOp? (t : Token) : Option BinaryOp :=
  match t.kind with
  | .equals => some (.relation .eq)
  | .relation r => some (.relation r)
  | .operator op => some op
  | .keyword .AND => some (.bitwise .and)
  | .keyword .OR => some (.bitwise .or)
  | .keyword .XOR => some (.bitwise .xor)
  | .keyword .MOD => some (.bitwise .remainder)
  | _ => none

/-- `_binary_operator`: the operator of a level that a token is, with its column. -/
def operatorAt? (level : Nat) (t : Token) : Option (BinaryOp × Nat) :=
  match binaryOp? t with
  | some op => if op.level? = some level then some (op, t.column) else none
  | none => none

/-- The operator in front of an operand that a token is, with its column. -/
def unaryOp? (t : Token) : Option (UnaryOp × Nat) :=
  match t.kind with
  | .keyword .NOT => some (.not, t.column)
  | .operator (.arithmetic .sub) => some (.minus, t.column)
  | .operator (.arithmetic .add) => some (.plus, t.column)
  | _ => none

/-- A power sign, with its column. -/
def powerSign? (t : Token) : Option Nat :=
  match t.kind with
  | .operator (.arithmetic .pow) => some t.column
  | _ => none

/-- Reads the operators of one level and their right operands; `n` bounds their number. -/
def operands (level : Nat) (operand : Parser Expr) : Nat → Expr → Parser Expr
  | 0, left => return left
  | n + 1, left => do
    match ← accept? (operatorAt? level) with
    | none => return left
    | some (op, column) =>
      let right ← operand
      operands level operand n (.binary column op left right)

/-- `_fn_name`: the name of a function of the program. DEF FN(X) defines the one without a name. -/
def functionName : Parser String := do
  match ← peek? with
  | some t =>
    if (isOpening t).isSome then return "" else return (← expect name?).1
  | none => refuse

mutual

/-- `_expression`: reads an expression whose operators are of the given level or tighter. -/
def expressionAt : Nat → Nat → Parser Expr
  | 0, _ => tooDeep
  | depth + 1, level => do
    if binaryLevels ≤ level then prefixed depth
    else
      let left ← expressionAt depth (level + 1)
      operands level (expressionAt depth (level + 1)) (← get).length left

/-- `_unary`: reads an operand with operators in front. -/
def prefixed : Nat → Parser Expr
  | 0 => tooDeep
  | depth + 1 => do
    match ← accept? unaryOp? with
    | some (op, column) => return .unary column op (← prefixed depth)
    | none => powered depth

/-- `_power`: reads an operand and the power it is raised to. -/
def powered : Nat → Parser Expr
  | 0 => tooDeep
  | depth + 1 => do
    let base ← primary depth
    match ← accept? powerSign? with
    | some column => return .binary column (.arithmetic .pow) base (← prefixed depth)
    | none => return base

/-- `_primary`: reads a literal, a variable, a call, or an expression in parentheses. -/
def primary : Nat → Parser Expr
  | 0 => tooDeep
  | depth + 1 => do
    match ← get with
    | [] => refuse
    | t :: rest =>
      match t.kind with
      | .number v =>
        set rest
        return .literal t.column v
      | .string s =>
        set rest
        return .literal t.column (.text s)
      | .opening =>
        set rest
        let e ← expressionAt depth 0
        discard <| expect isClosing
        return e
      | .name _ _ => return (← target depth).toExpr
      | .keyword (.builtin f) =>
        set rest
        let args ←
          if ← accepts isOpening then
            if ← accepts isClosing then pure [] else arguments depth
          else pure []
        if f.accepts args.length then return .call t.column f args else refuseAt t.column
      | .keyword .FN =>
        set rest
        let name ← functionName
        let args ← if ← accepts isOpening then arguments depth else pure []
        return .userCall t.column name args
      | _ => refuseAt t.column

/-- `_lvalue`: reads a variable or an array element. -/
def target : Nat → Parser Target
  | 0 => tooDeep
  | depth + 1 => do
    let (name, column) ← expect name?
    if ← accepts isOpening then return .element column name (← arguments depth)
    else return .scalar column name

/-- `_arguments`: reads expressions with commas between them and the closing parenthesis. -/
def arguments : Nat → Parser (List Expr)
  | 0 => tooDeep
  | depth + 1 => do
    let args ← commaList (expressionAt depth 0)
    discard <| expect isClosing
    return args

end

/-- Reads an expression. -/
def expression (depth : Nat) : Parser Expr := expressionAt depth 0

end LineBasic.Parser
