import LineBasic.Builtin.Text
import LineBasic.Random

/-!
# What the built-in functions compute

`Builtin.apply` is every function but RND, which alone has a state. The functions of the print
position read the column of the cursor, and DATE$ and TIME$ the clock.
-/

namespace LineBasic

/-- The date and the time of day as they are shown. -/
structure Instant where
  date : String := "01-01-1980"
  time : String := "00:00:00"
  deriving DecidableEq, Repr, Inhabited

/-- A clock: what it shows now, and what it shows whenever it is looked at after that. -/
structure Clock where
  now : Instant := {}
  later : List Instant := []
  deriving DecidableEq, Repr, Inhabited

/-- The clock after it was looked at. What it shows last it shows from then on. -/
def Clock.next (c : Clock) : Clock :=
  match c.later with
  | [] => c
  | i :: is => ⟨i, is⟩

/-- The longest run of blanks or repeated characters. -/
def maxRun : Nat := 255

namespace Builtin

/-- A function on reals, in single precision. -/
def real (f : Float → Float) (v : Value) : Except Error Value := do
  Precision.single.fit (f (← v.number))

/-- `fn_fix`: a number without its fraction. -/
def cutOff (x : Float) : Float :=
  if x < 0.0 then x.ceil else x.floor

/-- `fn_sgn`: the sign of a number. -/
def signOf (x : Float) : Float :=
  if x == 0.0 then 0.0 else if x < 0.0 then -1.0 else 1.0

/-- `fn_tab`: the blanks that bring the cursor to a column. A negative column stands for the next
multiple of its size. -/
def tabulate (column : Nat) (tab : Int) : String :=
  if tab < 0 then repeated (tab.natAbs - column % tab.natAbs) ' '
  else repeated (tab.toNat - column) ' '

/-- The character that STRING$ repeats (`fn_string`). -/
def fillChar : Value → Except Error Char
  | .text s => match s.toList with
    | c :: _ => .ok c
    | [] => fail .illegalQuantity
  | v => do return Char.ofNat (← v.count)

/-- The value of a function other than RND: `fn_abs` to `fn_tab`. -/
def apply (now : Instant) (column : Nat) : Builtin → List Value → Except Error Value
  | abs, [v] => do v.precision.fit (← v.number).abs
  | atn, [v] => real Float.atan v
  | cos, [v] => real Float.cos v
  | sin, [v] => real Float.sin v
  | tan, [v] => real Float.tan v
  | exp, [v] => real Float.exp v
  | log, [v] => do
    if (← v.number) ≤ 0.0 then fail .illegalQuantity else real Float.log v
  | sqr, [v] => do
    if (← v.number) < 0.0 then fail .illegalQuantity else real Float.sqrt v
  | int, [v] => do v.precision.fit (← v.number).floor
  | fix, [v] => do v.precision.fit (cutOff (← v.number))
  | cint, [v] => do return .ofInt (← v.integer)
  | csng, [v] => do Precision.single.fit (← v.number)
  | cdbl, [v] => do Precision.double.fit (← v.number)
  | sgn, [v] => real signOf v
  | asc, [v] => do
    match (← v.string).toList with
    | c :: _ => return .ofInt c.toNat
    | [] => fail .illegalQuantity
  | chr, [v] => do return .text (String.singleton (Char.ofNat (← v.count)))
  | len, [v] => do return .ofInt (← v.string).length
  | left, [v, n] => do
    let s ← v.string
    return .text (takeText (← n.count) s)
  | right, [v, n] => do
    let n ← n.count
    if n = 0 then return .text "" else return .text (lastText n (← v.string))
  | mid, v :: start :: more => do
    let s ← v.string
    let start ← start.count
    if start = 0 then fail .illegalQuantity
    else
      let rest := dropText (start - 1) s
      match more with
      | [] => return .text rest
      | length :: _ => return .text (takeText (← length.count) rest)
  | instr, [v, pattern] => do
    let s ← v.string
    return .ofInt (search 1 s (← pattern.string))
  | instr, [start, v, pattern] => do
    let start ← start.integer
    let s ← v.string
    let pattern ← pattern.string
    if start ≤ 0 then fail .illegalQuantity else return .ofInt (search start.toNat s pattern)
  | str, [v] => do return .text (showNumber v.precision (← v.number))
  | val, [v] => do leadingNumber (Text.trim (← v.string).toList).reverse
  | hex, [v] => do return .text (Text.digitsIn 16 (unsigned (← v.integer)))
  | oct, [v] => do return .text (Text.digitsIn 8 (unsigned (← v.integer)))
  | string, [n, fill] => do
    let n ← n.count
    if maxRun < n then fail .overflow else return .text (repeated n (← fillChar fill))
  | date, [] => .ok (.text now.date)
  | time, [] => .ok (.text now.time)
  | pos, _ => .ok (.ofInt column)
  | spc, [v] => do
    let n ← v.count
    if maxRun < n then fail .overflow else return .text (repeated n ' ')
  | tab, [v] => do
    let t ← v.integer
    if t < -maxRun || maxRun < t then fail .overflow else return .text (tabulate column t)
  | _, _ => fail .illegalQuantity

/-- The argument of RND, which is one if not given (`fn_rnd`). -/
def drawArgument : List Value → Except Error Float
  | [] => .ok 1.0
  | v :: _ => v.number

/-- Why a function has no value at a number, if it has none: an infinity has no integer part and no
angle. -/
def crashAt? (f : Builtin) (x : Float) : Option Crash :=
  match f with
  | int | fix => integerCrash? x
  | sin | cos | tan => if x.isInf then some .outsideDomain else none
  | _ => none

/-- The function has a value at its argument, as far as that depends on the size of a number. -/
def checkDomain (f : Builtin) : List Value → Except Fault Unit
  | [.single x] | [.double x] =>
    match f.crashAt? x with
    | some c => .error (.crash c)
    | none => .ok ()
  | _ => .ok ()

/-- `Builtins.call`: the value of any function, and the state in which it leaves the random
numbers. -/
def call (now : Instant) (column : Nat) (f : Builtin) (args : List Value) (r : Random) :
    Except Fault (Value × Random) := do
  if !f.accepts args.length then orFault (fail .illegalQuantity)
  else if f = rnd then
    let x ← orFault (drawArgument args)
    let (y, r) ← r.draw x
    return (.single y, r)
  else
    f.checkDomain args
    return (← orFault (f.apply now column args), r)

end Builtin

end LineBasic
