import LineBasic.Machine.Basic

/-!
# PRINT

The items of PRINT are put together first and written at once, so an error among them leaves nothing
on the screen. While they are put together the column follows them: TAB, POS and commas see where
the text before them ends.
-/

namespace LineBasic

/-- The width of the zones that commas advance to. -/
def zoneWidth : Nat := 14

/-- A value as PRINT shows it: numbers with a blank after them. -/
def Value.printed : Value → String
  | .text s => s
  | .single x => showNumber .single x ++ " "
  | .double x => showNumber .double x ++ " "

namespace Exec

/-- The text of an item at the column of the cursor. -/
def itemText : PrintItem → Exec String
  | .value e => do return (← value e).printed
  | .semicolon => return ""
  | .comma => do return String.ofList (List.replicate (zoneWidth - (← get).column % zoneWidth) ' ')

/-- The texts of items, the cursor following them. -/
def itemTexts : List PrintItem → Exec (List String)
  | [] => return []
  | item :: rest => do
    let text ← itemText item
    modify fun m => { m with column := advanceColumn m.column text }
    let texts ← itemTexts rest
    return text :: texts

/-- Does something and puts the cursor back. -/
def keepColumn {α : Type} (x : Exec α) : Exec α := fun m =>
  let (result, m') := x m
  (result, { m' with column := m.column })

/-- The line ends after the items, unless the last of them is a separator. -/
def endsLine (items : List PrintItem) : Bool :=
  match items.getLast? with
  | some .semicolon | some .comma => false
  | _ => true

/-- `_exec_print`: writes items. -/
def print (items : List PrintItem) : Exec Unit := do
  let texts ← keepColumn (itemTexts items)
  write (String.join texts ++ if endsLine items then "\n" else "")

end Exec

end LineBasic
