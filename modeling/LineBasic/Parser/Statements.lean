import LineBasic.Parser.DataText
import LineBasic.Parser.Expression

/-!
# Reading statements

Statements are separated by colons. A statement ends at the end of the line, at a colon or at ELSE.
THEN and ELSE may be followed by a line number, which is a jump to that line; an ELSE belongs to the
nearest IF before it that has none.
-/

namespace LineBasic.Parser

/-- `STATEMENT_END`: the token ends a statement. -/
def endsStatement (t : Token) : Bool :=
  (isColon t).isSome || (isKeyword .ELSE t).isSome

/-- `_at_statement_end`: the statement has come to its end. -/
def atEnd : Parser Bool := do
  match ← peek? with
  | some t => return endsStatement t
  | none => return true

/-- The token at the front has a property. -/
def sees (f : Token → Option Token) : Parser Bool := do
  return ((← peek?).bind f).isSome

/-! ## Parts of commands -/

/-- `_let`: reads the target, the equals sign and the expression of an assignment. -/
def assignment (depth : Nat) : Parser Command := do
  let target ← target depth
  discard <| expect isEquals
  return .assign target (← expression depth)

/-- `_mid_assign`: reads what follows MID$ when it is assigned to. -/
def partAssignment (depth : Nat) : Parser Command := do
  discard <| expect isOpening
  let target ← target depth
  discard <| expect isComma
  let start ← expression depth
  let length ← if ← accepts isComma then some <$> expression depth else pure none
  discard <| expect isClosing
  discard <| expect isEquals
  return .assignPart target start length (← expression depth)

/-- `_stmt_print`: reads the items of PRINT; `n` bounds their number. -/
def printItems (depth : Nat) : Nat → Parser (List PrintItem)
  | 0 => return []
  | n + 1 => do
    match ← peek? with
    | none => return []
    | some t =>
      if endsStatement t then return []
      else
        let item ← match t.kind with
          | .semicolon => do modify List.tail; pure .semicolon
          | .comma => do modify List.tail; pure .comma
          | _ => .value <$> expression depth
        let rest ← printItems depth n
        return item :: rest

/-- The text that a string token holds. -/
def stringText? (t : Token) : Option String :=
  match t.kind with
  | .string s => some s
  | _ => none

/-- The mark after the prompt of INPUT: a semicolon asks for a question mark. -/
def promptMark? (t : Token) : Option Bool :=
  match t.kind with
  | .semicolon => some true
  | .comma => some false
  | _ => none

/-- `_stmt_input`: reads the prompt and the targets of INPUT. -/
def inputCommand (depth : Nat) : Parser Command := do
  discard <| accepts isComma
  match ← accept? stringText? with
  | some prompt =>
    let question ← expect promptMark?
    return .input prompt (← commaList (target depth)) question
  | none => return .input "" (← commaList (target depth)) true

/-- `_stmt_for`: reads the variable and the bounds of FOR. -/
def forCommand (depth : Nat) : Parser Command := do
  let var ← expect numericName?
  discard <| expect isEquals
  let start ← expression depth
  discard <| expect (isKeyword .TO)
  let limit ← expression depth
  let step ← if ← accepts (isKeyword .STEP) then some <$> expression depth else pure none
  return .openFor var start limit step

/-- `_stmt_next`: reads the variables of NEXT, each of which closes a loop of its own. -/
def nextCommands : Parser (List Command) := do
  if ← atEnd then return [.next none]
  else
    let vars ← commaList (expect numericName?)
    return vars.map fun var => .next (some var)

/-- The jump of ON: true for GOSUB. -/
def jumpKind? (t : Token) : Option Bool :=
  match t.kind with
  | .keyword .GOTO => some false
  | .keyword .GOSUB => some true
  | _ => none

/-- `_stmt_on`: reads the selector and the lines of ON. -/
def onCommand (depth : Nat) : Parser Command := do
  let selector ← expression depth
  let isGosub ← expect jumpKind?
  let refs ← commaList lineRef
  return if isGosub then .onGosub selector refs else .onGoto selector refs

/-- `_stmt_dim`: reads the name and the bounds of an array. -/
def dimension (depth : Nat) : Parser (String × List Expr) := do
  let (name, _) ← expect name?
  discard <| expect isOpening
  return (name, ← arguments depth)

/-- The text of DATA items. -/
def dataText? (t : Token) : Option String :=
  match t.kind with
  | .dataText s => some s
  | _ => none

/-- The text of a remark. -/
def remarkText? (t : Token) : Option String :=
  match t.kind with
  | .remark s => some s
  | _ => none

/-- Reads the parameters of a function up to the closing parenthesis. -/
def parameters : Parser (List String) := do
  if ← accepts isClosing then return []
  else
    let names ← commaList (Prod.fst <$> expect name?)
    discard <| expect isClosing
    return names

/-- `_stmt_def`: reads the definition of a function. -/
def defineCommand (depth : Nat) : Parser Command := do
  discard <| expect (isKeyword .FN)
  let name ← functionName
  let params ← if ← accepts isOpening then parameters else pure []
  discard <| expect isEquals
  return .define name params (← expression depth)

/-- `_letter`: reads a single letter, with its column. -/
def letter : Parser (Char × Nat) := do
  let (name, column) ← expect fun t => match t.kind with
    | .name .real s => some (s, t.column)
    | _ => none
  match name.toList with
  | [c] => return (c, column)
  | _ => refuseAt column

/-- The letters from one to another. -/
def lettersBetween (first last : Char) : List String :=
  (List.range (last.toNat + 1 - first.toNat)).map fun i =>
    String.singleton (Char.ofNat (first.toNat + i))

/-- Reads a letter or a range of letters. -/
def letterRange : Parser (List String) := do
  let (first, _) ← letter
  if ← accepts isMinus then
    let (last, column) ← letter
    if last < first then refuseAt column else return lettersBetween first last
  else return lettersBetween first first

/-- `_deftype`: reads the letters of a declaration. -/
def declareCommand (kind : Kind) : Parser Command := do
  return .declare kind (← commaList letterRange).flatten

/-- `_stmt_erase`: reads names, each but the last with a comma after it; `n` bounds their number. -/
def eraseNames : Nat → Parser (List String)
  | 0 => return []
  | n + 1 => do
    if ← atEnd then return []
    else
      let (name, _) ← expect name?
      if ← accepts isComma then return name :: (← eraseNames n) else return [name]

/-- The tokens from the end of the statement on. -/
def skipStatement : List Token → List Token
  | [] => []
  | t :: ts => if endsStatement t then t :: ts else skipStatement ts

/-- `_line_range`: reads a range of lines, which is `n`, `n-`, `-m`, `n-m` or nothing. -/
def lineRange : Parser (Option Nat × Option Nat) := do
  let last := do
    if ← sees isNumber then some <$> lineNumber else pure none
  if ← sees isNumber then
    let first ← lineNumber
    if ← accepts isMinus then return (some first, ← last) else return (some first, some first)
  else if ← accepts isMinus then return (none, ← last)
  else return (none, none)

/-- Reads a number if there is one. -/
def optionalNumber : Parser (Option Nat) := do
  if ← sees isNumber then some <$> lineNumber else pure none

/-- `_stmt_renum`: reads the numbers of RENUM, any of which may be missing. -/
def renumberCommand : Parser Command := do
  let newStart ← optionalNumber
  if ← accepts isComma then
    let oldStart ← optionalNumber
    if ← accepts isComma then return .renumber newStart oldStart (← optionalNumber)
    else return .renumber newStart oldStart none
  else return .renumber newStart none none

/-- `_stmt_run`: reads what follows RUN. -/
def runCommand (depth : Nat) : Parser Command := do
  if ← sees isNumber then return .run (some (← lineRef))
  else if ← atEnd then return .run none
  else return .runFile (← expression depth)

/-! ## Commands -/

/-- Reads what follows the first word of a command: the handlers `_stmt_let` to `_stmt_save`. -/
def keywordCommands (depth : Nat) : Keyword → Option (Parser (List Command))
  | .LET => some do
    if ← accepts (isKeyword (.builtin .mid)) then return [← partAssignment depth]
    else return [← assignment depth]
  | .builtin .mid => some do return [← partAssignment depth]
  | .PRINT => some do return [.print (← printItems depth (← get).length)]
  | .INPUT => some do return [← inputCommand depth]
  | .FOR => some do return [← forCommand depth]
  | .NEXT => some nextCommands
  | .GOTO => some do return [.goto (← lineRef)]
  | .GOSUB => some do return [.gosub (← lineRef)]
  | .ON => some do return [← onCommand depth]
  | .RETURN => some (return [.leaveSub])
  | .DIM => some do return [.dim (← commaList (dimension depth))]
  | .DATA => some do return [.data (dataItems (← expect dataText?))]
  | .READ => some do return [.read (← commaList (target depth))]
  | .RESTORE => some do
    if ← atEnd then return [.restore none] else return [.restore (some (← lineRef))]
  | .END => some (return [.finish])
  | .STOP => some (return [.stop])
  | .REM => some do return [.remark ((← accept? remarkText?).getD "")]
  | .WHILE => some do return [.openWhile (← expression depth)]
  | .WEND => some (return [.wend])
  | .DEF => some do return [← defineCommand depth]
  | .DEFINT => some do return [← declareCommand .integer]
  | .DEFSNG => some do return [← declareCommand .single]
  | .DEFDBL => some do return [← declareCommand .double]
  | .DEFSTR => some do return [← declareCommand .text]
  | .SWAP => some do
    let first ← target depth
    discard <| expect isComma
    return [.swap first (← target depth)]
  | .ERASE => some do return [.erase (← eraseNames (← get).length)]
  | .CLEAR => some do
    modify skipStatement
    return [.clear]
  | .CLS => some (return [.cls])
  | .CONT => some (return [.cont])
  | .TRON => some (return [.traceOn])
  | .TROFF => some (return [.traceOff])
  | .NEW => some (return [.new])
  | .RUN => some do return [← runCommand depth]
  | .LIST => some do
    let (first, last) ← lineRange
    return [.list first last]
  | .DELETE => some do
    let (first, last) ← lineRange
    return [.delete first last]
  | .RENUM => some do return [← renumberCommand]
  | .LOAD => some do return [.load (← expression depth)]
  | .SAVE => some do return [.save (← expression depth)]
  | _ => none

/-! ## Statement lists -/

/-- Reads statements up to the end of the line or an ELSE; `n` bounds the number of steps, each of
which takes a token. -/
def statementLoop (statement : Parser (List Statement)) : Nat → Parser (List Statement)
  | 0 => return []
  | n + 1 => do
    match ← peek? with
    | none => return []
    | some t =>
      if (isColon t).isSome then
        modify List.tail
        statementLoop statement n
      else if (isKeyword .ELSE t).isSome then return []
      else
        let first ← statement
        if ← atEnd then return first ++ (← statementLoop statement n) else refuse

mutual

/-- `_statement_list`: reads statements up to the end of the line or an ELSE. -/
def statementList : Nat → Parser (List Statement)
  | 0 => tooDeep
  | depth + 1 => do statementLoop (statement depth) (← get).length

/-- `_statement`: reads a statement; NEXT with several variables is several. -/
def statement : Nat → Parser (List Statement)
  | 0 => tooDeep
  | depth + 1 => do
    match ← get with
    | [] => refuse
    | t :: rest =>
      match t.kind with
      | .name _ _ => return [.command t.column (← assignment depth)]
      | _ =>
        match t.keyword? with
        | none => refuseAt t.column
        | some .IF =>
          set rest
          return [← branchStatement depth t.column]
        | some k =>
          match keywordCommands depth k with
          | none => refuseAt t.column
          | some p =>
            set rest
            return (← p).map (.command t.column)

/-- `_stmt_if`: reads what follows IF. -/
def branchStatement : Nat → Nat → Parser Statement
  | 0, _ => tooDeep
  | depth + 1, column => do
    let condition ← expression depth
    let thenPart ←
      match ← accept? (isKeyword .GOTO) with
      | some t =>
        let jump := Statement.command t.column (.goto (← lineRef))
        pure (jump :: (← statementList depth))
      | none =>
        discard <| expect (isKeyword .THEN)
        branchPart depth
    let elsePart ← if ← accepts (isKeyword .ELSE) then branchPart depth else pure []
    return .branch column condition thenPart elsePart

/-- `_branch`: reads what follows THEN or ELSE, a line number to jump to or statements. -/
def branchPart : Nat → Parser (List Statement)
  | 0 => tooDeep
  | depth + 1 => do
    match ← peek? with
    | some t =>
      if (isNumber t).isSome then
        let jump := Statement.command t.column (.goto (← lineRef))
        return jump :: (← statementList depth)
      else statementList depth
    | none => statementList depth

end

/-- `parse_line`: reads a whole line of tokens; `ending` is the column after it. -/
def parseTokens (room ending : Nat) (tokens : List Token) : Except Error (List Statement) :=
  match (statementList (room - 1)).run ending |>.run tokens with
  | .error e => .error e
  | .ok (statements, []) => .ok statements
  | .ok (_, t :: _) => .error (.atColumn .syntaxError t.column)

end LineBasic.Parser
