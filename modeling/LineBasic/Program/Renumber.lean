import LineBasic.Program.Basic

/-!
# Renumbering

The lines from a given one on get new numbers in equal steps. The line numbers written after GOTO,
GOSUB, THEN, ELSE, RESTORE and RUN follow the lines they name; one that names no line stays and is
noted. Nothing changes if the new numbers do not fit.
-/

namespace LineBasic

/-- A reference to a line that does not exist. -/
structure MissingRef where
  line : Nat
  target : Nat
  deriving DecidableEq, Repr, Inhabited

namespace Program

/-- Whether the next number in a line is a line reference: after GOTO and GOSUB there may be a list
of them, after the other words there is one. -/
inductive RefState where
  | none
  | list
  | one
  | more
  deriving DecidableEq, Repr, Inhabited

/-- The state after a token that is no reference. -/
def RefState.next (s : RefState) (t : Token) : RefState :=
  match t.kind with
  | .comma => if s = more then list else none
  | .keyword .GOTO | .keyword .GOSUB => list
  | .keyword .THEN | .keyword .ELSE | .keyword .RESTORE | .keyword .RUN => one
  | _ => none

/-- The state after a reference. -/
def RefState.afterRef : RefState → RefState
  | list => more
  | _ => none

/-- The line number that a token refers to in a state. -/
def RefState.target? (s : RefState) (t : Token) : Option Nat :=
  if s = list || s = one then
    match t.kind with
    | .number (.single x) | .number (.double x) => (Floating.parts? x).map Floating.Parts.whole
    | _ => Option.none
  else Option.none

/-- New numbers by old ones. -/
abbrev Moves := List (Nat × Nat)

/-- The new number of a line that moves. -/
def Moves.get? (m : Moves) (n : Nat) : Option Nat := (m.find? fun e => e.1 = n).map Prod.snd

/-- `_renumber_references`: the tokens of a line with its references changed, and those that name
no line. -/
def retarget (contains : Nat → Bool) (moves : Moves) (line : Nat) :
    RefState → List Token → List Token × List MissingRef
  | _, [] => ([], [])
  | s, t :: ts =>
    match s.target? t with
    | some n =>
      let (rest, missing) := retarget contains moves line s.afterRef ts
      match moves.get? n with
      | some new => ({ t with text := toString new } :: rest, missing)
      | none => (t :: rest, if contains n then missing else ⟨line, n⟩ :: missing)
    | none =>
      let (rest, missing) := retarget contains moves line (s.next t) ts
      (t :: rest, missing)

/-- The lines with their new numbers and references, added with `store` to those that are `done`;
and the references that name no line, up to the line at which an error stops the work. -/
def renumberLines {σ : Type} (store : σ → Nat → String → List Statement → σ) (room : Nat)
    (contains : Nat → Bool) (moves : Moves) (done : σ) :
    List ProgramLine → Except Fault σ × List MissingRef
  | [] => (.ok done, [])
  | l :: ls =>
    match Lexer.tokenize l.source.toList with
    | .error e => (.error e, [])
    | .ok tokens =>
      let (tokens, missing) := retarget contains moves l.number .none tokens
      let number := (moves.get? l.number).getD l.number
      match Parser.parseLine (room - 1) (Parser.listedText number (Listing.render 1 tokens)) with
      | .error e => (.error e, missing)
      | .ok new =>
        let (result, more) :=
          renumberLines store room contains moves (store done number new.source new.statements) ls
        (result, missing ++ more)

/-- The numbers from `oldStart` on with their new numbers `newStart`, `newStart + step`, …, if these
fit. -/
def plannedMoves (numbers : List Nat) (newStart oldStart step : Nat) : Except Fault Moves :=
  let moving := numbers.filter fun n => oldStart ≤ n
  let kept := numbers.filter fun n => n < oldStart
  if step < 1 then orFault (fail .illegalQuantity)
  else if moving.isEmpty then .ok []
  else if Parser.maxLineNumber < newStart + (moving.length - 1) * step ||
      kept.getLast?.any (fun n => newStart ≤ n) then orFault (fail .illegalQuantity)
  else .ok (moving.zipIdx.map fun (n, i) => (n, newStart + i * step))

/-- `renumber`: gives the lines from `oldStart` on the numbers `newStart`, `newStart + step`, …. The
result is the new program and the number of lines that moved. -/
def renumber (room : Nat) (p : Program) (newStart oldStart step : Nat) :
    Except Fault (Program × Nat) × List MissingRef :=
  match plannedMoves p.numbers newStart oldStart step with
  | .error f => (.error f, [])
  | .ok [] => (.ok (p, 0), [])
  | .ok moves =>
    let (result, missing) := renumberLines store room p.contains moves {} p.lines
    (result.map fun q => (q, moves.length), missing)

/-- The default numbers of RENUM: the whole program is numbered from ten in steps of ten. -/
def renumberDefault (room : Nat) (p : Program) (newStart oldStart step : Option Nat) :
    Except Fault (Program × Nat) × List MissingRef :=
  p.renumber room (newStart.getD 10) (oldStart.getD 0) (step.getD 10)

end Program

end LineBasic
