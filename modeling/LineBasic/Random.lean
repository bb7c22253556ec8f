import LineBasic.Value.Basic

/-!
# Random numbers

Three small congruential generators whose fractions are added. RND of a positive number draws the
next number, RND(0) repeats the last one, and RND of a negative number starts the sequence that
belongs to it.
-/

namespace LineBasic

-- A power is that of two natural numbers, whichever others are known.
attribute [local instance (high)] instPowNat

/-- `Rng`: the states of the three generators. -/
structure Random where
  first : Nat := 1
  second : Nat := 1
  third : Nat := 1
  deriving DecidableEq, Repr, Inhabited

namespace Random

/-- The state after one step of each generator. -/
def next (r : Random) : Random :=
  ⟨171 * r.first % 30269, 172 * r.second % 30307, 170 * r.third % 30323⟩

/-- The state that a seed starts: the three most significant bytes of the number in single
precision, the most significant one as the lowest; never zero. -/
def ofBits (bits : Nat) : Random :=
  let seed := bits / 2 ^ (24 : Nat) % 2 ^ (8 : Nat) + bits / 2 ^ (16 : Nat) % 2 ^ (8 : Nat) *
    2 ^ (8 : Nat) +
    bits / 2 ^ (8 : Nat) % 2 ^ (8 : Nat) * 2 ^ (16 : Nat)
  let seed := if seed = 0 then 1 else seed
  ⟨seed, seed, seed⟩

/-- The bits of a negative number in single precision; none if it is beyond the range. -/
def seedBits? (p : Floating.Parts) : Option Nat :=
  let q := p.round 24 (-149)
  let top := (q.mantissa.log2 : Int) + q.exponent
  if top < -126 then some (2 ^ (31 : Nat) + q.mantissa * 2 ^ (q.exponent + 149).toNat)
  else if 127 < top then none
  else some (2 ^ (31 : Nat) + (top + 126).toNat * 2 ^ (23 : Nat) + q.mantissa * 2 ^
    (23 : Nat) / 2 ^ q.mantissa.log2)

/-- The state that a negative argument starts; one beyond the range of single precision has none,
but the infinite one has. -/
def ofSeed (x : Float) : Except Fault Random :=
  match Floating.parts? x with
  | none => .ok (ofBits (2 ^ (31 : Nat) + 255 * 2 ^ (23 : Nat)))
  | some p =>
    match seedBits? p with
    | none => .error (.crash .seedRange)
    | some bits => .ok (ofBits bits)

/-- The part of a number behind the point. -/
def behindPoint (x : Float) : Float :=
  match Floating.parts? x with
  | some p => x - Float.ofInt p.floor
  | none => x

/-- The number that a state stands for, added up in single precision. -/
def fraction (r : Random) : Except Error Float := do
  let a ← toSingle (Float.ofNat r.first / 30269.0)
  let b ← toSingle (Float.ofNat r.second / 30307.0)
  let ab ← toSingle (a + b)
  let c ← toSingle (Float.ofNat r.third / 30323.0)
  let total ← toSingle (ab + c)
  toSingle (behindPoint total)

/-- The state in which RND with an argument leaves the generators. -/
def after (r : Random) (x : Float) : Except Fault Random := do
  let r ← if x < 0.0 then ofSeed x else pure r
  return if x == 0.0 then r else r.next

/-- `Rng.next`: the number that RND with an argument gives, and the new state. -/
def draw (r : Random) (x : Float) : Except Fault (Float × Random) := do
  let r ← r.after x
  return (← orFault r.fraction, r)

end Random

end LineBasic
