/-!
# Binary reals, exactly

A finite binary64 number is an integer times a power of two. Its integer part and its decimal digits
are computed from these two integers, so they are exact, and so is a number that is put together
from them.

* `parts?`: takes a number apart.
* `Parts.round`: rounds to a number of binary digits.
* `Parts.toFloat`: puts a number together.
-/

namespace LineBasic.Floating

-- A power is that of two natural numbers, whichever others are known.
attribute [local instance (high)] instPowNat

/-- A finite number: `(-1) ^ negative * mantissa * 2 ^ exponent`. -/
structure Parts where
  negative : Bool
  mantissa : Nat
  exponent : Int

/-- Takes a number apart; infinities and NaN have no parts. -/
def parts? (x : Float) : Option Parts :=
  let bits := x.toBits.toNat
  let negative := bits / 2 ^ (63 : Nat) == 1
  let field : Nat := bits / 2 ^ (52 : Nat) % 2 ^ (11 : Nat)
  let fraction := bits % 2 ^ (52 : Nat)
  if field = 2047 then none
  else if field = 0 then some ⟨negative, fraction, -1074⟩
  else some ⟨negative, 2 ^ (52 : Nat) + fraction, (field : Int) - 1075⟩

/-- The magnitude as a quotient of natural numbers. -/
def Parts.ratio (p : Parts) : Nat × Nat :=
  if 0 ≤ p.exponent then (p.mantissa * 2 ^ p.exponent.toNat, 1)
  else (p.mantissa, 2 ^ (-p.exponent).toNat)

/-- The integer part of the magnitude. -/
def Parts.whole (p : Parts) : Nat :=
  p.ratio.1 / p.ratio.2

/-- The greatest integer that is not above the number. -/
def Parts.floor (p : Parts) : Int :=
  if p.negative then
    if p.ratio.1 % p.ratio.2 = 0 then -(p.whole : Int) else -(p.whole : Int) - 1
  else p.whole

/-- The number is an integer. -/
def Parts.isWhole (p : Parts) : Bool :=
  p.ratio.1 % p.ratio.2 == 0

/-! ## Rounding -/

/-- A quotient rounded to the nearest integer, a half to the even one. -/
def roundQuotient (num den : Nat) : Nat :=
  let q := num / den
  let r := num % den
  if 2 * r < den then q else if den < 2 * r then q + 1 else if q % 2 = 0 then q else q + 1

/-- The nearest number with at most `digits` binary digits, none of them below `2 ^ least`. -/
def Parts.round (digits : Nat) (least : Int) (p : Parts) : Parts :=
  let drop := (max ((p.mantissa.log2 : Int) + 1 - digits) (least - p.exponent)).toNat
  ⟨p.negative, roundQuotient p.mantissa (2 ^ drop), p.exponent + drop⟩

/-- Puts a number together that needs no rounding. What is too large becomes infinite, and there is
no negative zero. -/
def Parts.toFloat (p : Parts) : Float :=
  if p.mantissa = 0 then 0.0
  else
    let sign := if p.negative then 2 ^ (63 : Nat) else 0
    let top := (p.mantissa.log2 : Int) + p.exponent
    let magnitude :=
      if top < -1022 then p.mantissa * 2 ^ (p.exponent + 1074).toNat
      else if 1023 < top then 2047 * 2 ^ (52 : Nat)
      else (top + 1022).toNat * 2 ^ (52 : Nat) + p.mantissa * 2 ^ (52 : Nat) / 2 ^ p.mantissa.log2
    Float.ofBits (sign + magnitude).toUInt64

/-- The binary64 number nearest to a positive quotient. The quotient is first cut to more digits
than the result has; a last digit one says that something was cut off. -/
def ofQuotient (num den : Nat) : Float :=
  let shift := 55 + den.log2 - num.log2
  let scaled := num * 2 ^ shift
  let cut := if scaled % den = 0 then 0 else 1
  (Parts.round 53 (-1074) ⟨false, 2 * (scaled / den) + cut, -(shift + 1 : Nat)⟩).toFloat

end LineBasic.Floating
