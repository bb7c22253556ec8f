import LineBasic.Machine.Basic
import LineBasic.Parser.DataText

/-!
# INPUT, READ and RESTORE

INPUT takes one reply for all its targets, and asks again until the reply fits them; nothing is
stored before that. READ takes the next DATA item for each target.
-/

namespace LineBasic

/-- The reply in which a text stands between quotes, without them. -/
def unquote (s : String) : String :=
  match s.toList with
  | '"' :: rest => if rest.getLast? = some '"' then String.ofList rest.dropLast else s
  | _ => s

/-- An item of a reply for a variable of a kind; none if it does not fit. -/
def replyItem (kind : Kind) (item : String) : Except Error (Option Value) :=
  let item := Text.strip item
  if kind = .text then .ok (some (.text (unquote item)))
  else if item.isEmpty then .ok (some (.single 0.0))
  else readNumber kind.precision item

/-- The items of a reply for variables of the given kinds; none if one of them does not fit. -/
def replyItems : List (Kind × String) → Except Error (Option (List Value))
  | [] => .ok (some [])
  | (kind, item) :: rest => do
    match ← replyItem kind item with
    | none => return none
    | some v => return (← replyItems rest).map (v :: ·)

/-- `_parse_reply`: the values in a reply; none if it does not fit. A single target takes the whole
reply. -/
def replyValues (kinds : List Kind) (reply : String) : Except Error (Option (List Value)) :=
  let items := if kinds.length = 1 then [reply] else commaPieces reply
  if items.length = kinds.length then replyItems (kinds.zip items) else .ok none

namespace Exec

/-- Stores values in targets, from left to right. -/
def assignAll : List (Target × Value) → Exec Unit
  | [] => return ()
  | (target, v) :: rest => do
    assign target v
    assignAll rest

/-- Asks for a reply until one fits; `n` bounds the number of replies. -/
def inputLoop (prompt : String) (targets : List Target) : Nat → Exec Unit
  | 0 => crash .endOfInput
  | n + 1 => do
    let m ← get
    let (reply, terminal) := m.terminal.ask prompt
    set { m with terminal }
    match reply with
    | none => crash .endOfInput
    | some .interrupt =>
      moveTo m.current
      refuse .interrupted
    | some (.line s) =>
      modify fun m => { m with column := 0 }
      match ← lift (replyValues (targets.map fun t => m.memory.store.kindOf t.name) s) with
      | some values => assignAll (targets.zip values)
      | none =>
        write "?REDO FROM START\n"
        inputLoop prompt targets n

/-- `_exec_input`: asks for values. -/
def input (prompt : String) (targets : List Target) (question : Bool) : Exec Unit := do
  inputLoop (prompt ++ if question then "? " else "") targets ((← get).terminal.replies.length + 1)

/-- A DATA item for a variable of a kind. -/
def itemValue (kind : Kind) (item : DataItem) : Exec Value := do
  if kind = .text then return .text item.text
  else if item.quoted then refuse .typeMismatch
  else if item.text.isEmpty then return .single 0.0
  else
    match ← lift (readNumber kind.precision item.text) with
    | some v => return v
    | none => refuse .typeMismatch

/-- Takes DATA items for targets, from left to right. -/
def readAll (items : List (Nat × DataItem)) : List Target → Exec Unit
  | [] => return ()
  | target :: rest => do
    let m ← get
    match items[m.stack.cursor]? with
    | none => refuse .outOfData
    | some (_, item) =>
      modifyStacks fun s => { s with cursor := s.cursor + 1 }
      let v ← itemValue (m.memory.store.kindOf target.name) item
      assign target v
      readAll items rest

/-- `_exec_read`: takes DATA items. -/
def read (targets : List Target) : Exec Unit := do
  readAll (← get).program.dataItems targets

/-- `_exec_restore`: goes back to the first DATA item, or to the first one in a line or after it. -/
def restore : Option LineRef → Exec Unit
  | none => modifyStacks fun s => { s with cursor := 0 }
  | some ref => do
    let p := (← get).program
    if p.contains ref.line then
      let before := p.dataItems.takeWhile fun item => item.1 < ref.line
      modifyStacks fun s => { s with cursor := before.length }
    else refuseAt .undefinedLine ref.column

end Exec

end LineBasic
