import LineBasic.Statement

/-!
# Straight-line code

The statements of a line as a list of instructions. IF becomes an instruction that goes on when its
condition holds and jumps when it does not; a THEN part with an ELSE part after it ends in a jump
over that part. Targets are indices into the same list, always later ones; an IF without ELSE has no
target and goes to the end of the line.
-/

namespace LineBasic

/-- An instruction. -/
inductive Instr where
  | command (column : Nat) (c : Command)
  /-- goes to the target, or the end of the line, unless the condition holds -/
  | branch (column : Nat) (condition : Expr) (target : Option Nat)
  | jump (column : Nat) (target : Nat)
  deriving Inhabited

mutual

/-- `_emit`: the code of a statement whose first instruction has the given index. -/
def Statement.codeAt (index : Nat) : Statement → List Instr
  | .command column c => [.command column c]
  | .branch column condition thenPart [] =>
    .branch column condition none :: codeListAt (index + 1) thenPart
  | .branch column condition thenPart (s :: elsePart) =>
    let first := codeListAt (index + 1) thenPart
    let target := index + 1 + first.length + 1
    let second := codeListAt target (s :: elsePart)
    .branch column condition (some target) :: first ++
      .jump column (target + second.length) :: second

/-- The code of statements whose first instruction has the given index. -/
def codeListAt (index : Nat) : List Statement → List Instr
  | [] => []
  | s :: ss =>
    let first := s.codeAt index
    first ++ codeListAt (index + first.length) ss

end

/-- `compile_statements`: the code of a line. -/
def compile (statements : List Statement) : Array Instr :=
  (codeListAt 0 statements).toArray

end LineBasic
