/-!
# Tables

A table gives values to keys, most of which are names. Its entries stay in the order in which the
keys were first given a value, so taking a new key out again restores the table as it was.
-/

namespace LineBasic

/-- Values by key. -/
structure Table (α : Type) (κ : Type := String) where
  entries : List (κ × α) := []
  deriving Inhabited

namespace Table

variable {α κ : Type} [DecidableEq κ]

/-- The value in a list of entries. -/
def find? (key : κ) : List (κ × α) → Option α
  | [] => none
  | e :: es => if e.1 = key then some e.2 else find? key es

/-- The entries with a value changed in its place, or added at the end. -/
def put (key : κ) (a : α) : List (κ × α) → List (κ × α)
  | [] => [(key, a)]
  | e :: es => if e.1 = key then (key, a) :: es else e :: put key a es

/-- The entries without those of a key. -/
def remove (key : κ) : List (κ × α) → List (κ × α)
  | [] => []
  | e :: es => if e.1 = key then remove key es else e :: remove key es

/-- The value of a key. -/
def get? (t : Table α κ) (key : κ) : Option α := find? key t.entries

/-- The table has a value for the key. -/
def contains (t : Table α κ) (key : κ) : Bool := (t.get? key).isSome

/-- The table with a value for the key. -/
def insert (t : Table α κ) (key : κ) (a : α) : Table α κ := ⟨put key a t.entries⟩

/-- The table without a value for the key. -/
def erase (t : Table α κ) (key : κ) : Table α κ := ⟨remove key t.entries⟩

/-- How many keys have a value. -/
def size (t : Table α κ) : Nat := t.entries.length

/-- The entries in the order of their names. -/
def sorted (t : Table α) : List (String × α) :=
  t.entries.mergeSort fun a b => a.1 ≤ b.1

end Table

end LineBasic
