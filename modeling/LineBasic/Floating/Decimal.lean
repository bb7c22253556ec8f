import LineBasic.Floating.Parts
import LineBasic.Text.Digit

/-!
# Decimal reals

`ofDecimal` reads a decimal fraction as the nearest binary64 number. `general` writes a number with
a given number of significant digits: positional notation for moderate sizes, a power of ten
otherwise, no zeros at the end of a fraction. The digits are the nearest ones, and of two equally
near ones the even.
-/

namespace LineBasic.Floating

-- A power is that of two natural numbers, whichever others are known.
attribute [local instance (high)] instPowNat

/-- How many decimal digits a number has. -/
def digitCount (n : Nat) : Nat :=
  (Nat.toDigits 10 n).length

/-- Positive infinity. -/
def infinity : Float := Float.ofBits 0x7FF0000000000000

/-- The number nearest to `m * 10 ^ e`. Sizes far outside the range are decided without computing
the power. -/
def ofDecimal (m : Nat) (e : Int) : Float :=
  let size := (digitCount m : Int) + e
  if m = 0 || size < -330 then 0.0
  else if 310 < size then infinity
  else if 0 ≤ e then ofQuotient (m * 10 ^ e.toNat) 1
  else ofQuotient m (10 ^ (-e).toNat)

/-- A written number: digits before and after the point, and an exponent. -/
structure Numeral where
  whole : List Char
  fraction : List Char
  exponent : Int

/-- The value of a written number. -/
def Numeral.toFloat (n : Numeral) : Float :=
  ofDecimal (Text.digitsValue (n.whole ++ n.fraction)) (n.exponent - n.fraction.length)

/-- The power of ten of the leading digit of `num / den`, for a positive quotient. -/
def leadingPower (num den : Nat) : Int :=
  let k := (digitCount num : Int) - digitCount den
  let atLeast := if 0 ≤ k then den * 10 ^ k.toNat ≤ num else den ≤ num * 10 ^ (-k).toNat
  if atLeast then k else k - 1

/-- The quotient times a power of ten, rounded. -/
def scaledQuotient (num den : Nat) (power : Int) : Nat :=
  if 0 ≤ power then roundQuotient (num * 10 ^ power.toNat) den
  else roundQuotient num (den * 10 ^ (-power).toNat)

/-- The `places` significant digits of a positive quotient, as an integer, and the power of ten of
the first of them. -/
def significant (places num den : Nat) : Nat × Int :=
  let k := leadingPower num den
  let n := scaledQuotient num den (places - 1 - k)
  if n = 10 ^ places then (10 ^ (places - 1), k + 1) else (n, k)

/-- A fraction part without zeros at its end, with the point in front unless nothing is left. -/
def fractionText (digits : List Char) : List Char :=
  match (digits.reverse.dropWhile (· = '0')).reverse with
  | [] => []
  | ds => '.' :: ds

/-- The magnitude of a finite number with at most `places` significant digits. -/
def magnitudeText (places : Nat) (p : Parts) : List Char :=
  if p.mantissa = 0 then ['0']
  else
    let (n, k) := significant places p.ratio.1 p.ratio.2
    let digits := Nat.toDigits 10 n
    if k < -4 || (places : Int) ≤ k then
      let power := Nat.toDigits 10 k.natAbs
      digits.take 1 ++ fractionText (digits.drop 1) ++
        ['E', if k < 0 then '-' else '+'] ++ (if power.length < 2 then '0' :: power else power)
    else if 0 ≤ k then
      digits.take (k.toNat + 1) ++ fractionText (digits.drop (k.toNat + 1))
    else '0' :: fractionText (List.replicate ((-k).toNat - 1) '0' ++ digits)

/-- A number with at most `places` significant digits, a minus sign or a blank in front. Zero has no
sign. -/
def general (places : Nat) (x : Float) : String :=
  match parts? x with
  | some p =>
    let sign := if p.negative && p.mantissa != 0 then '-' else ' '
    String.ofList (sign :: magnitudeText places p)
  | none => if x.isNaN then " NAN" else if x < 0 then "-INF" else " INF"

end LineBasic.Floating
