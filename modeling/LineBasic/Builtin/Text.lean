import LineBasic.Builtin.Basic
import LineBasic.Text.Integer
import LineBasic.Value.Arithmetic

/-!
# Strings and numbers

The parts of the built-in functions that cut, search and read strings.
-/

namespace LineBasic.Builtin

/-- The first characters of a string. -/
def takeText (n : Nat) (s : String) : String :=
  String.ofList (s.toList.take n)

/-- A string without its first characters. -/
def dropText (n : Nat) (s : String) : String :=
  String.ofList (s.toList.drop n)

/-- `fn_right`: the last characters of a string. -/
def lastText (n : Nat) (s : String) : String :=
  dropText (s.length - n) s

/-- A string of one character repeated. -/
def repeated (n : Nat) (c : Char) : String :=
  String.ofList (List.replicate n c)

/-- Where a pattern first stands in a text, counted from `position`. -/
def indexOf? (pattern : List Char) (position : Nat) : List Char → Option Nat
  | [] => if pattern.isEmpty then some position else none
  | c :: cs =>
    if pattern.isPrefixOf (c :: cs) then some position else indexOf? pattern (position + 1) cs

/-- `fn_instr`: where a pattern stands in a text at or after a position, both counted from one; zero
if nowhere. A start behind the text finds nothing. -/
def search (start : Nat) (s pattern : String) : Nat :=
  if s.length < start then 0 else (indexOf? pattern.toList start (s.toList.drop (start - 1))).getD 0

/-- `fn_val`: the number that the longest start of a text spells, the text being given last
character first. -/
def leadingNumber : List Char → Except Error Value
  | [] => .ok (.single 0.0)
  | c :: cs => do
    match ← readNumber .single (String.ofList (c :: cs).reverse) with
    | some v => return v
    | none => leadingNumber cs

/-- A 16-bit integer as an unsigned number. -/
def unsigned (n : Int) : Nat :=
  (n % 65536).toNat

end LineBasic.Builtin
