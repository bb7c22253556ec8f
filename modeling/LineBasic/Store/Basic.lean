import LineBasic.Store.Grid
import LineBasic.Table

/-!
# Variables

Scalars and arrays are kept under names that end in the mark of their kind: `$` for strings, `%` for
integers, `#` for double precision and nothing for single precision. `Store.resolve` makes such a
key of a name as written: `!` asks for single precision, and a name without a mark takes the kind
that was declared for its first letter.

Scalars and arrays are separate: `A` and `A(1)` have nothing to do with each other. Each scalar and
each array cell takes one unit of memory, and the store refuses to use more than its limit. Reading
or writing an element of an array that does not exist makes it, with the bound ten in every
dimension, even if the access fails afterwards.
-/

namespace LineBasic

/-- `DEFAULT_BOUND`: the bound of each dimension of an array that was never dimensioned. -/
def defaultBound : Nat := 10

/-- `VariableStore`: the variables and what they may use. -/
structure Store where
  limit : Int := 65535
  scalars : Table Value := {}
  arrays : Table Grid := {}
  /-- kinds declared for first letters; single precision is not recorded -/
  letters : Table Kind := {}
  used : Int := 0
  deriving Inhabited

namespace Store

/-- The store with nothing in it and nothing declared. -/
def clear (s : Store) : Store := { limit := s.limit }

/-! ## Names -/

/-- The key of a name. -/
def resolve (s : Store) (name : String) : String :=
  match name.toList, name.toList.getLast? with
  | first :: _, some last =>
    if last = '!' then String.ofList name.toList.dropLast
    else if last = '$' || last = '%' || last = '#' then name
    else name ++ ((s.letters.get? (String.singleton first)).map Kind.sigil).getD ""
  | _, _ => name

/-- `type_of`: the kind of the variable with a name. -/
def kindOf (s : Store) (name : String) : Kind :=
  Kind.ofName (s.resolve name)

/-- Declares the kind of names without a mark that start with a letter. -/
def declareLetter (s : Store) (letter : String) (kind : Kind) : Store :=
  if kind = .single then { s with letters := s.letters.erase letter }
  else { s with letters := s.letters.insert letter kind }

/-- `deftype`: declares the kind of names that start with one of the letters. -/
def declare (s : Store) (letters : List String) (kind : Kind) : Store :=
  letters.foldl (fun s letter => s.declareLetter letter kind) s

/-! ## Memory -/

/-- `_reserve`: takes memory, if the limit allows it. -/
def reserve (s : Store) (count : Nat) : Except Error Store :=
  if s.limit < s.used + count then fail .outOfMemory else .ok { s with used := s.used + count }

/-! ## Scalars -/

/-- The value of a scalar. -/
def get (s : Store) (name : String) : Value :=
  let key := s.resolve name
  (s.scalars.get? key).getD (Kind.ofName key).default

/-- Stores a value in a scalar. -/
def set (s : Store) (name : String) (v : Value) : Except Error Store := do
  let key := s.resolve name
  let v ← (Kind.ofName key).coerce v
  let s ← if s.scalars.contains key then pure s else s.reserve 1
  return { s with scalars := s.scalars.insert key v }

/-- Forgets a scalar. -/
def delete (s : Store) (name : String) : Store :=
  let key := s.resolve name
  if s.scalars.contains key then { s with scalars := s.scalars.erase key, used := s.used - 1 }
  else s

/-- The value of a scalar, if one was ever stored. -/
def snapshot (s : Store) (name : String) : Option Value :=
  s.scalars.get? (s.resolve name)

/-- Puts back what `snapshot` found. -/
def restore (s : Store) (name : String) : Option Value → Store
  | none => s.delete name
  | some v => { s with scalars := s.scalars.insert (s.resolve name) v }

/-! ## Arrays -/

/-- A bound of an array, as `dim` reads it. -/
def readBound (v : Value) : Except Error Nat := do
  let n ← v.integer
  if n < 0 then fail .illegalQuantity else return n.toNat

/-- The largest number of cells that can be counted. -/
def maxCells : Nat := 9223372036854775807

/-- `BasicArray`: a new array. The host makes it, in calls that are nested four deep with that of
`dim`, and has memory for so many cells. -/
def makeGrid (cells room : Nat) (key : String) (bounds : List Nat) : Except Fault Grid :=
  if room < 4 then orFault (fail .stackOverflow)
  else if maxCells < Grid.sizeOf bounds then .error (.crash .arrayRange)
  else if cells < Grid.sizeOf bounds then .error (.crash .arrayMemory)
  else .ok (Grid.new key bounds)

/-- Makes an array with known bounds, which are checked three calls deep. Its memory is taken first,
and stays taken if the array cannot be made. -/
def addGrid (cells room : Nat) (s : Store) (key : String) (bounds : List Nat) :
    Except Fault Grid × Store :=
  if room < 3 then (orFault (fail .stackOverflow), s)
  else
    match s.reserve (Grid.sizeOf bounds) with
    | .error e => (.error (.error e), s)
    | .ok s =>
      match makeGrid cells room key bounds with
      | .error f => (.error f, s)
      | .ok g => (.ok g, { s with arrays := s.arrays.insert key g })

/-- `dim`: dimensions an array. -/
def dim (cells room : Nat) (s : Store) (name : String) (bounds : List Value) :
    Except Fault Grid × Store :=
  let key := s.resolve name
  if s.arrays.contains key then (orFault (fail .redimensionedArray), s)
  else
    match bounds.mapM readBound with
    | .error e => (.error (.error e), s)
    | .ok bounds => s.addGrid cells room key bounds

/-- `_array`: the array with a name and the given number of dimensions, made if need be. -/
def reach (cells room : Nat) (s : Store) (name : String) (dimensions : Nat) :
    Except Fault Grid × Store :=
  let key := s.resolve name
  match s.arrays.get? key with
  | some g => (.ok g, s)
  | none => s.addGrid cells (room - 1) key (List.replicate dimensions defaultBound)

/-- A subscript, as `_indices` reads it. -/
def readIndex (v : Value) : Except Error Nat := do
  let n ← v.integer
  if n < 0 then fail .subscriptOutOfRange else return n.toNat

/-- `get_element`: the value of an array element. -/
def getElement (cells room : Nat) (s : Store) (name : String) (indices : List Value) :
    Except Fault Value × Store :=
  match indices.mapM readIndex with
  | .error e => (.error (.error e), s)
  | .ok is =>
    match s.reach cells (room - 1) name is.length with
    | (.error f, s) => (.error f, s)
    | (.ok g, s) =>
      match g.place? is with
      | none => (orFault (fail .subscriptOutOfRange), s)
      | some p => (.ok (g.cell p), s)

/-- `set_element`: stores a value in an array element. -/
def setElement (cells room : Nat) (s : Store) (name : String) (indices : List Value) (v : Value) :
    Except Fault Unit × Store :=
  match indices.mapM readIndex with
  | .error e => (.error (.error e), s)
  | .ok is =>
    match s.reach cells (room - 1) name is.length with
    | (.error f, s) => (.error f, s)
    | (.ok g, s) =>
      match (Kind.ofName g.key).coerce v with
      | .error e => (.error (.error e), s)
      | .ok v =>
        match g.place? is with
        | none => (orFault (fail .subscriptOutOfRange), s)
        | some p => (.ok (), { s with arrays := s.arrays.insert g.key (g.setCell p v) })

/-- `erase`: forgets an array. -/
def eraseArray (s : Store) (name : String) : Except Error Store :=
  let key := s.resolve name
  match s.arrays.get? key with
  | none => fail .illegalQuantity
  | some g => .ok { s with arrays := s.arrays.erase key, used := s.used - g.size }

-- An empty sum is the number zero, whichever other zeros are known.
attribute [local instance (high)] Zero.ofOfNat0

/-- `erase_all`: forgets every array. -/
def eraseAll (s : Store) : Store :=
  { s with arrays := {}, used := s.used - (s.arrays.entries.map fun e => e.2.size).sum }

end Store

end LineBasic
