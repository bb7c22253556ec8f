import LineBasic.Value.Basic

/-!
# Arrays

An array has one or more dimensions, each with subscripts from zero to its bound. Its cells lie in
one row, the last subscript varying fastest.
-/

namespace LineBasic

/-- `BasicArray`: the name under which an array is kept, the bound of each dimension, and its
cells. -/
structure Grid where
  key : String
  bounds : List Nat
  cells : Array Value
  deriving Inhabited

namespace Grid

/-- The number of cells for a list of bounds. -/
def sizeOf (bounds : List Nat) : Nat :=
  bounds.foldl (fun n b => n * (b + 1)) 1

/-- A new array, every cell holding what a new variable of its kind holds. -/
def new (key : String) (bounds : List Nat) : Grid :=
  ⟨key, bounds, Array.replicate (sizeOf bounds) (Kind.ofName key).default⟩

/-- The number of cells. -/
def size (g : Grid) : Nat := sizeOf g.bounds

/-- The place of a cell, continuing from the place that the subscripts so far give; none if a
subscript is above its bound or their number is not that of the dimensions. -/
def placeFrom? (place : Nat) : List Nat → List Nat → Option Nat
  | [], [] => some place
  | b :: bs, i :: is => if i ≤ b then placeFrom? (place * (b + 1) + i) bs is else none
  | _, _ => none

/-- `offset`: the place of the cell with the given subscripts. -/
def place? (g : Grid) (indices : List Nat) : Option Nat :=
  placeFrom? 0 g.bounds indices

/-- The value of the cell at a place. -/
def cell (g : Grid) (place : Nat) : Value :=
  g.cells.getD place (Kind.ofName g.key).default

/-- The array with another value in the cell at a place. -/
def setCell (g : Grid) (place : Nat) (v : Value) : Grid :=
  { g with cells := g.cells.setIfInBounds place v }

end Grid

end LineBasic
