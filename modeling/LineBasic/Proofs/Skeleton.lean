import Mathlib
import LineBasic.Statement

/-!
# Statements without their places

What a statement says, apart from the columns it is written at. `Statement.reform line remark` puts
every column to zero, changes every line reference by `line` and the text of every remark by
`remark`. Two statements say the same if they are reformed alike.
-/

namespace LineBasic

mutual

/-- The expression without its columns. -/
def Expr.plain : Expr → Expr
  | .literal _ v => .literal 0 v
  | .variable _ name => .variable 0 name
  | .element _ name indices => .element 0 name (plainList indices)
  | .unary _ op e => .unary 0 op e.plain
  | .binary _ op left right => .binary 0 op left.plain right.plain
  | .call _ f args => .call 0 f (plainList args)
  | .userCall _ name args => .userCall 0 name (plainList args)

/-- The expressions without their columns. -/
def plainList : List Expr → List Expr
  | [] => []
  | e :: es => e.plain :: plainList es

end

theorem plainList_eq_map (es : List Expr) : plainList es = es.map Expr.plain := by
  induction es with
  | nil => rfl
  | cons e es ih => rw [plainList, ih, List.map_cons]

/-- The target without its columns. -/
def Target.plain : Target → Target
  | .scalar _ name => .scalar 0 name
  | .element _ name indices => .element 0 name (indices.map Expr.plain)

theorem Target.plain_toExpr (t : Target) : t.toExpr.plain = t.plain.toExpr := by
  cases t with
  | scalar column name => rfl
  | element column name indices => simp only [toExpr, Expr.plain, plain, plainList_eq_map]

/-- The item without its columns. -/
def PrintItem.plain : PrintItem → PrintItem
  | .value e => .value e.plain
  | .semicolon => .semicolon
  | .comma => .comma

/-- The reference without its column, to another line. -/
def LineRef.reform (line : Nat → Nat) (r : LineRef) : LineRef := ⟨line r.line, 0⟩

/-- The command without its columns, with its references and remarks changed. -/
def Command.reform (line : Nat → Nat) (remark : String → String) : Command → Command
  | .assign target e => .assign target.plain e.plain
  | .assignPart target start length e =>
    .assignPart target.plain start.plain (length.map Expr.plain) e.plain
  | .print items => .print (items.map PrintItem.plain)
  | .input prompt targets question => .input prompt (targets.map Target.plain) question
  | .openFor var start limit step => .openFor var start.plain limit.plain (step.map Expr.plain)
  | .next var => .next var
  | .goto ref => .goto (ref.reform line)
  | .gosub ref => .gosub (ref.reform line)
  | .onGoto selector refs => .onGoto selector.plain (refs.map (LineRef.reform line))
  | .onGosub selector refs => .onGosub selector.plain (refs.map (LineRef.reform line))
  | .leaveSub => .leaveSub
  | .dim arrays => .dim (arrays.map fun a => (a.1, a.2.map Expr.plain))
  | .data items => .data items
  | .read targets => .read (targets.map Target.plain)
  | .restore ref => .restore (ref.map (LineRef.reform line))
  | .finish => .finish
  | .stop => .stop
  | .remark text => .remark (remark text)
  | .openWhile condition => .openWhile condition.plain
  | .wend => .wend
  | .define name params e => .define name params e.plain
  | .declare kind letters => .declare kind letters
  | .swap first second => .swap first.plain second.plain
  | .erase names => .erase names
  | .clear => .clear
  | .cls => .cls
  | .cont => .cont
  | .traceOn => .traceOn
  | .traceOff => .traceOff
  | .new => .new
  | .run ref => .run (ref.map (LineRef.reform line))
  | .runFile name => .runFile name.plain
  | .list first last => .list first last
  | .delete first last => .delete first last
  | .renumber newStart oldStart step => .renumber newStart oldStart step
  | .load name => .load name.plain
  | .save name => .save name.plain

mutual

/-- The statement without its columns, with its references and remarks changed. -/
def Statement.reform (line : Nat → Nat) (remark : String → String) : Statement → Statement
  | .command _ c => .command 0 (c.reform line remark)
  | .branch _ condition thenPart elsePart =>
    .branch 0 condition.plain (reformList line remark thenPart) (reformList line remark elsePart)

/-- The statements without their columns, with their references and remarks changed. -/
def reformList (line : Nat → Nat) (remark : String → String) : List Statement → List Statement
  | [] => []
  | s :: ss => s.reform line remark :: reformList line remark ss

end

variable {line : Nat → Nat} {remark : String → String}

theorem reformList_eq_map (ss : List Statement) :
    reformList line remark ss = ss.map (Statement.reform line remark) := by
  induction ss with
  | nil => rfl
  | cons s ss ih => rw [reformList, ih, List.map_cons]

theorem reformList_append (ss rs : List Statement) :
    reformList line remark (ss ++ rs) = reformList line remark ss ++ reformList line remark rs := by
  simp only [reformList_eq_map, List.map_append]

end LineBasic
