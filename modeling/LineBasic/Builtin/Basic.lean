/-!
# The built-in functions

Their names and how many arguments they take.
-/

namespace LineBasic

/-- The built-in functions. -/
inductive Builtin where
  | abs
  | asc
  | atn
  | cdbl
  | chr
  | cint
  | cos
  | csng
  | date
  | exp
  | fix
  | hex
  | instr
  | int
  | left
  | len
  | log
  | mid
  | oct
  | pos
  | right
  | rnd
  | sgn
  | sin
  | spc
  | sqr
  | str
  | string
  | tab
  | tan
  | time
  | val
  deriving DecidableEq, Repr, Inhabited

namespace Builtin

/-- Every built-in function. -/
def all : List Builtin :=
  [abs, asc, atn, cdbl, chr, cint, cos, csng, date, exp, fix, hex, instr, int, left, len, log, mid,
    oct, pos, right,
   rnd, sgn, sin, spc, sqr, str, string, tab, tan, time, val]

/-- The name of a function. -/
def name : Builtin → String
  | abs => "ABS"
  | asc => "ASC"
  | atn => "ATN"
  | cdbl => "CDBL"
  | chr => "CHR$"
  | cint => "CINT"
  | cos => "COS"
  | csng => "CSNG"
  | date => "DATE$"
  | exp => "EXP"
  | fix => "FIX"
  | hex => "HEX$"
  | instr => "INSTR"
  | int => "INT"
  | left => "LEFT$"
  | len => "LEN"
  | log => "LOG"
  | mid => "MID$"
  | oct => "OCT$"
  | pos => "POS"
  | right => "RIGHT$"
  | rnd => "RND"
  | sgn => "SGN"
  | sin => "SIN"
  | spc => "SPC"
  | sqr => "SQR"
  | str => "STR$"
  | string => "STRING$"
  | tab => "TAB"
  | tan => "TAN"
  | time => "TIME$"
  | val => "VAL"

/-- `FUNCTIONS`: the fewest and the most arguments a function takes. -/
def arity : Builtin → Nat × Nat
  | date | time => (0, 0)
  | pos | rnd => (0, 1)
  | left | right | string => (2, 2)
  | instr | mid => (2, 3)
  | _ => (1, 1)

/-- The function takes this many arguments. -/
def accepts (f : Builtin) (count : Nat) : Bool :=
  f.arity.1 ≤ count && count ≤ f.arity.2

end Builtin

end LineBasic
