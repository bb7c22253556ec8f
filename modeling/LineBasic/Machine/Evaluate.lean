import LineBasic.Builtin.Apply
import LineBasic.Expr
import LineBasic.Store.Basic

/-!
# Evaluating expressions

Evaluation reads a scope (the functions of the program, the column of the cursor and so on) and
changes a memory: it may make arrays that were never dimensioned, draw random numbers, look at the
clock, and open calls of functions. The parameters of a function are ordinary scalars that get back
their old values when the call is over, however it ends.

The host allows only so many calls to be open at once, and every function that evaluation is made of
takes its own. What may still be opened, the call itself included, is its `room`: `evaluate` takes
one call and the handler of the expression another, a list of parts one more, and the functions that
compute with values take as many as are nested in them.
-/

namespace LineBasic

/-- A function of the program. -/
structure Definition where
  params : List String
  body : Expr
  deriving Inhabited

/-- What evaluation reads. -/
structure Scope where
  functions : Table Definition
  /-- how many loops and subroutines are open -/
  frames : Nat
  stackLimit : Int
  column : Nat
  /-- the most cells that the host has memory for -/
  cells : Nat
  deriving Inhabited

/-- What evaluation changes. -/
structure Memory where
  store : Store := {}
  random : Random := {}
  clock : Clock := {}
  /-- `fn_depth`: how many calls of functions are open -/
  calls : Nat := 0
  deriving Inhabited

/-- Evaluation: the memory is kept even when it fails. -/
abbrev Eval := ReaderT Scope (ExceptT Fault (StateM Memory))

/-! ## How deep the calls of the host are nested -/

/-- The calls that `_eval_unary` nests to apply an operator: `precision_of` or `to_integer`, and one
inside. -/
def UnaryOp.calls : UnaryOp → Nat
  | .plus => 1
  | .minus | .not => 2

/-- The calls that `_eval_binary` nests to apply an operator; `power` rounds its result inside. -/
def BinaryOp.calls : BinaryOp → Nat
  | .relation _ => 1
  | .arithmetic .pow => 3
  | .arithmetic _ | .bitwise _ => 2

/-- The calls that `coerce` nests, itself included. -/
def Kind.calls : Kind → Nat
  | .text => 2
  | .integer | .double | .single => 3

/-- The calls that `Builtins.call` nests for a function, itself included. -/
def Builtin.calls : Builtin → Nat
  | .date | .time => 2
  | .atn | .cos | .sin | .tan | .exp | .log | .sqr | .sgn | .asc | .len | .str | .pos => 3
  | .abs | .int | .fix | .cint | .csng | .cdbl | .instr | .hex | .oct | .tab => 4
  | .rnd | .chr | .left | .right | .mid | .val | .string | .spc => 5

/-- The calls that are nested before a function has an effect: RND takes its step and then rounds
the number. -/
def Builtin.firstCalls (f : Builtin) : Nat :=
  if f = .rnd then 3 else f.calls

/-- The function looks at the clock. -/
def Builtin.looksAtClock : Builtin → Bool
  | .date | .time => true
  | _ => false

namespace Eval

/-- An error of the given kind. -/
def refuse {α : Type} (kind : ErrorKind) : Eval α :=
  throw (.error (.of kind))

/-- A result that does not touch the memory. -/
def lift {α : Type} : Except Error α → Eval α
  | .ok a => pure a
  | .error e => throw (.error e)

/-- A result, which may also be a crash, that does not touch the memory. -/
def liftFault {α : Type} : Except Fault α → Eval α
  | .ok a => pure a
  | .error f => throw f

/-- There must be room for so many calls, one inside the other. -/
def within (calls room : Nat) : Eval Unit :=
  if room < calls then refuse .stackOverflow else return ()

/-- `VariableStore.get`: the value of a scalar. -/
def scalar (room : Nat) (name : String) : Eval Value := do
  within 3 room
  return (← get).store.get name

/-- `VariableStore.get_element`: the value of an array element. The subscripts are read four calls
deep; an array that is made takes more. -/
def element (room : Nat) (name : String) (indices : List Value) : Eval Value := do
  within 4 room
  let scope ← read
  let m ← get
  let (result, store) := m.store.getElement scope.cells room name indices
  set { m with store }
  liftFault result

/-- `Builtins.call`: the value of a built-in function. -/
def builtin (room : Nat) (f : Builtin) (args : List Value) : Eval Value := do
  within f.firstCalls room
  let scope ← read
  let m ← get
  match f.call m.clock.now scope.column args m.random with
  | .ok (v, random) =>
    set { m with random, clock := if f.looksAtClock then m.clock.next else m.clock }
    within f.calls room
    return v
  | .error e => throw e

/-- `_check_stack`: refuses to open another call when too much is open. -/
def checkStack (room : Nat) : Eval Unit := do
  within 2 room
  let scope ← read
  let m ← get
  if scope.stackLimit ≤ scope.frames + m.calls then refuse .stackOverflow else return ()

/-- Stores arguments in parameters. -/
def bindParams (room : Nat) : List (String × Value) → Eval Unit
  | [] => return ()
  | (name, v) :: rest => do
    let m ← get
    within (1 + (m.store.kindOf name).calls) room
    let store ← lift (m.store.set name v)
    set { m with store }
    bindParams room rest

/-- The variables with the old values of parameters put back. -/
def unbindParams (saved : List (String × Option Value)) (store : Store) : Store :=
  saved.foldl (fun s e => s.restore e.1 e.2) store

/-- Evaluates the body of a function with arguments in its parameters. The calls that put back the
old values are not deeper than those that found them. -/
def inCall (room : Nat) (params : List String) (args : List Value) (body : Eval Value) :
    Eval Value := do
  within (if params.isEmpty then 1 else 3) room
  fun scope m =>
    let saved := params.map fun name => (name, m.store.snapshot name)
    let bound : Eval Value := do
      bindParams room (params.zip args)
      body
    let (result, m) := bound scope { m with calls := m.calls + 1 }
    (result, { m with calls := m.calls - 1, store := unbindParams saved m.store })

/-- The result of a function of the program, which is of the kind that its name tells. -/
def coerced (room : Nat) (name : String) (v : Value) : Eval Value := do
  let kind := (← get).store.kindOf name
  within kind.calls room
  lift (kind.coerce v)

end Eval

mutual

/-- `evaluate`: the value of an expression. -/
def evaluate : Nat → Expr → Eval Value
  | 0, _ | 1, _ => Eval.refuse .stackOverflow
  | _ + 2, .literal _ v => return v
  | room + 2, .variable _ name => Eval.scalar room name
  | room + 2, .element _ name indices => do
    let indices ← evaluateAll room indices
    Eval.element room name indices
  | room + 2, .unary _ op e => do
    let v ← evaluate room e
    Eval.within op.calls room
    Eval.lift (op.apply v)
  | room + 2, .binary _ op left right => do
    let a ← evaluate room left
    let b ← evaluate room right
    Eval.within op.calls room
    Eval.liftFault (op.apply a b)
  | room + 2, .call _ f args => do
    let args ← evaluateAll room args
    Eval.builtin room f args
  | room + 2, .userCall _ name args => do
    match (← read).functions.get? name with
    | none => Eval.refuse .undefinedFunction
    | some f =>
      if args.length != f.params.length then Eval.refuse .illegalQuantity
      else
        let args ← evaluateAll room args
        Eval.checkStack room
        let result ← Eval.inCall room f.params args (evaluate room f.body)
        Eval.coerced room name result

/-- The values of expressions, from left to right. The list takes a call of its own. -/
def evaluateAll : Nat → List Expr → Eval (List Value)
  | 0, _ => Eval.refuse .stackOverflow
  | room + 1, es => es.mapM (evaluate room)

end

end LineBasic
