import LineBasic.Text.Printable
import LineBasic.Text.Integer

/-!
# Quoted text

A text as it stands in a notice: between single quotes, or between double quotes if it holds a
single quote and no double quote; what has no visible form of its own is written with a backslash.
-/

namespace LineBasic.Text

/-- A number in small hexadecimal digits, with at least the given number of places. -/
def smallHex (width n : Nat) : String :=
  padZeros width (String.ofList (Nat.toDigits 16 n))

/-- One character between quotes of the given kind. -/
def quoteChar (quote c : Char) : String :=
  if c = quote || c = '\\' then String.ofList ['\\', c]
  else if c = '\t' then "\\t"
  else if c = '\n' then "\\n"
  else if c = '\r' then "\\r"
  else if isPrintable c then String.singleton c
  else if c.toNat < 0x100 then "\\x" ++ smallHex 2 c.toNat
  else if c.toNat < 0x10000 then "\\u" ++ smallHex 4 c.toNat
  else "\\U" ++ smallHex 8 c.toNat

/-- The text in quotes. -/
def quoted (s : String) : String :=
  let quote := if s.toList.contains '\'' && !s.toList.contains '"' then '"' else '\''
  String.singleton quote ++ String.join (s.toList.map (quoteChar quote)) ++ String.singleton quote

end LineBasic.Text
