import Mathlib
import LineBasic.Parser.Expression
import LineBasic.Token.Lexer

/-!
# Expressions that are written

An expression is written with parentheses only where its operators would bind in another way without
them. Reading what is written gives the expression back.

Every expression has a rank, which says how tightly it binds: that of an operator between operands
is its level, 0 to 4, an operator in front of an operand has rank 6, a power 7, and anything else 8.
Where the parser looks for an expression of some rank, one of a lower rank needs parentheses. Rank 5
is that of the levels' end, and no expression has it.

* `Expr.written`, `Expr.within`: the tokens of an expression, and those of one where a rank is
  wanted.
* `Expr.Proper`: expressions that can be written at all.
* `Expr.height`, `Expr.needs`: how many calls of the parser are open at once while an expression is
  read.
* `Expr.beginsWell_within`: what an expression can begin with.
-/

namespace LineBasic

open LineBasic.Parser

/-- Expressions by structure, those in lists included. -/
@[elab_as_elim]
theorem Expr.structural {P : Expr → Prop} (literal : ∀ column v, P (.literal column v))
    (scalar : ∀ column name, P (.variable column name))
    (element : ∀ column name indices, (∀ e ∈ indices, P e) → P (.element column name indices))
    (unary : ∀ column op e, P e → P (.unary column op e))
    (binary : ∀ column op left right, P left → P right → P (.binary column op left right))
    (call : ∀ column f args, (∀ e ∈ args, P e) → P (.call column f args))
    (userCall : ∀ column name args, (∀ e ∈ args, P e) → P (.userCall column name args)) (e : Expr) :
    P e :=
  @Expr.rec P (fun es => ∀ e ∈ es, P e) literal scalar element unary binary call userCall
    (fun _ h => absurd h List.not_mem_nil) (fun _ _ he hes => List.forall_mem_cons.mpr ⟨he, hes⟩) e

/-! ## Tokens -/

/-- The token of a literal. -/
def Value.tokenKind : Value → TokenKind
  | .text s => .string s
  | v => .number v

/-- The token of a name. -/
def nameToken (name : String) : TokenKind := .name (Lexer.nameKind name.toList) name

/-- The name of a function of the program; there is one without a name. -/
def functionTokens (name : String) : List TokenKind := if name = "" then [] else [nameToken name]

/-- The token of an operator in front of an operand. -/
def UnaryOp.tokenKind : UnaryOp → TokenKind
  | minus => .operator (.arithmetic .sub)
  | plus => .operator (.arithmetic .add)
  | not => .keyword .NOT

/-- The token of an operator between operands. -/
def BinaryOp.tokenKind : BinaryOp → TokenKind
  | relation .eq => .equals
  | relation r => .relation r
  | bitwise .and => .keyword .AND
  | bitwise .or => .keyword .OR
  | bitwise .xor => .keyword .XOR
  | bitwise .remainder => .keyword .MOD
  | op => .operator op

theorem binaryOp?_of_tokenKind {t : Token} {op : BinaryOp} (h : t.kind = op.tokenKind) :
    binaryOp? t = some op := by
  unfold binaryOp?
  rw [h]
  cases op with
  | relation r => cases r <;> rfl
  | arithmetic a => rfl
  | bitwise b => cases b <;> rfl

theorem unaryOp?_of_tokenKind {t : Token} {op : UnaryOp} (h : t.kind = op.tokenKind) :
    unaryOp? t = some (op, t.column) := by
  unfold unaryOp?
  rw [h]
  cases op <;> rfl

/-- Items with commas between them. -/
def commaSeparated : List (List TokenKind) → List TokenKind
  | [] => []
  | item :: items => item ++ items.flatMap (.comma :: ·)

/-- Items in parentheses, with commas between them. -/
def inParentheses (items : List (List TokenKind)) : List TokenKind :=
  .opening :: (commaSeparated items ++ [.closing])

/-- The arguments of a call: without any there are no parentheses. -/
def callTokens : List (List TokenKind) → List TokenKind
  | [] => []
  | item :: items => inParentheses (item :: items)

/-! ## Ranks -/

/-- How tightly an operator between operands binds. -/
def BinaryOp.rank (op : BinaryOp) : Nat := op.level?.getD 7

/-- The ranks that are wanted to the left and to the right of an operator: levels are read from left
to right, and a power may have an operator in front of its right operand. -/
def BinaryOp.operandRanks (op : BinaryOp) : Nat × Nat :=
  match op.level? with
  | some level => (level, level + 1)
  | none => (8, 6)

/-- How tightly an expression binds. -/
def Expr.rank : Expr → Nat
  | .binary _ op _ _ => op.rank
  | .unary _ _ _ => 6
  | _ => 8

theorem BinaryOp.level?_lt {op : BinaryOp} {level : Nat} (h : op.level? = some level) :
    level < binaryLevels := by
  cases op with
  | relation r => cases h; decide
  | arithmetic a => cases a <;> cases h <;> decide
  | bitwise b => cases b <;> cases h <;> decide

theorem BinaryOp.eq_pow {op : BinaryOp} (h : op.level? = none) : op = .arithmetic .pow := by
  cases op with
  | relation r => cases h
  | arithmetic a => cases a <;> first | rfl | cases h
  | bitwise b => cases b <;> cases h

theorem Expr.rank_le (e : Expr) : e.rank ≤ 8 := by
  cases e with
  | binary column op left right =>
    cases hlevel : op.level? with
    | none => simp [rank, BinaryOp.rank, hlevel]
    | some level =>
      have hlt : level < 5 := BinaryOp.level?_lt hlevel
      simp only [rank, BinaryOp.rank, hlevel, Option.getD_some]
      omega
  | _ => simp [rank]

/-! ## Writing -/

/-- The tokens, in parentheses if they bind too loosely. -/
def enclosed (least rank : Nat) (tokens : List TokenKind) : List TokenKind :=
  if least ≤ rank then tokens else .opening :: (tokens ++ [.closing])

mutual

/-- The tokens of an expression. -/
def Expr.written : Expr → List TokenKind
  | .literal _ v => [v.tokenKind]
  | .variable _ name => [nameToken name]
  | .element _ name indices => nameToken name :: inParentheses (writtenEach indices)
  | .unary _ op e => op.tokenKind :: enclosed 6 e.rank e.written
  | .binary _ op left right =>
    enclosed op.operandRanks.1 left.rank left.written ++
      op.tokenKind :: enclosed op.operandRanks.2 right.rank right.written
  | .call _ f args => .keyword (.builtin f) :: callTokens (writtenEach args)
  | .userCall _ name args =>
    .keyword .FN :: (functionTokens name ++ callTokens (writtenEach args))

/-- The tokens of each of the expressions. -/
def writtenEach : List Expr → List (List TokenKind)
  | [] => []
  | e :: es => e.written :: writtenEach es

end

/-- The tokens of an expression where a rank is wanted. -/
def Expr.within (least : Nat) (e : Expr) : List TokenKind := enclosed least e.rank e.written

mutual

/-- The expression can be written: elements have indices, functions as many arguments as they take,
and a function of the program without a name has arguments. -/
def Expr.Proper : Expr → Prop
  | .literal _ _ | .variable _ _ => True
  | .element _ _ indices => indices ≠ [] ∧ ProperEach indices
  | .unary _ _ e => e.Proper
  | .binary _ _ left right => left.Proper ∧ right.Proper
  | .call _ f args => f.accepts args.length = true ∧ ProperEach args
  | .userCall _ name args => (name ≠ "" ∨ args ≠ []) ∧ ProperEach args

/-- Each of the expressions can be written. -/
def ProperEach : List Expr → Prop
  | [] => True
  | e :: es => e.Proper ∧ ProperEach es

end

/-! ## Nesting -/

/-- The calls that are open at once while an expression of some rank and height is read where
another rank is wanted: one for each rank between, and parentheses begin anew. -/
def neededCalls (least rank height : Nat) : Nat :=
  if least ≤ rank then rank - least + height else 9 - least + (rank + height)

mutual

/-- The calls that are open at once while the expression is read where its own rank is wanted. -/
def Expr.height : Expr → Nat
  | .literal _ _ => 1
  | .variable _ _ => 2
  | .element _ _ indices => 3 + heightOfEach indices
  | .unary _ _ e => 1 + neededCalls 6 e.rank e.height
  | .binary _ op left right =>
    match op.level? with
    | some level =>
      max (neededCalls level left.rank left.height)
        (1 + neededCalls (level + 1) right.rank right.height)
    | none => 1 + max (neededCalls 8 left.rank left.height) (neededCalls 6 right.rank right.height)
  | .call _ _ args | .userCall _ _ args => if args.isEmpty then 1 else 2 + heightOfEach args

/-- The calls that are open at once while the expressions are read one after the other. -/
def heightOfEach : List Expr → Nat
  | [] => 0
  | e :: es => max (neededCalls 0 e.rank e.height) (heightOfEach es)

end

/-- The calls that are open at once while an expression is read where a rank is wanted. -/
def Expr.needs (least : Nat) (e : Expr) : Nat := neededCalls least e.rank e.height

theorem Expr.height_pos (e : Expr) : 0 < e.height := by
  cases e with
  | binary column op left right =>
    unfold height
    split <;> omega
  | call column f args | userCall column name args =>
    unfold height
    split <;> omega
  | _ =>
    unfold height
    omega

section

variable {e : Expr} {es : List Expr} {least : Nat}

theorem Expr.needs_pos (e : Expr) (hleast : least ≤ 8) : 0 < e.needs least := by
  have hheight := e.height_pos
  unfold needs neededCalls
  split <;> omega

/-- One rank farther down one call more is open, unless the expression is of that rank. -/
theorem Expr.needs_eq (hleast : least < 8) (hrank : e.rank ≠ least) :
    e.needs least = e.needs (least + 1) + 1 := by
  unfold needs neededCalls
  split_ifs <;> omega

theorem Expr.within_eq (hrank : e.rank ≠ least) : e.within least = e.within (least + 1) := by
  unfold within enclosed
  have hiff : least ≤ e.rank ↔ least + 1 ≤ e.rank := by omega
  simp only [hiff]

theorem Expr.within_of_le (h : least ≤ e.rank) : e.within least = e.written := if_pos h

theorem Expr.within_binary {op : BinaryOp} {level column : Nat} {left right : Expr}
    (hop : op.level? = some level) :
    (binary column op left right).within level = left.within level ++ op.tokenKind ::
      right.within (level + 1) := by
  have hrank : (binary column op left right).rank = level := by simp [rank, BinaryOp.rank, hop]
  rw [within_of_le hrank.ge, written, BinaryOp.operandRanks, hop]
  rfl

theorem Expr.within_power {column : Nat} {left right : Expr} :
    (binary column (.arithmetic .pow) left right).within 7 =
      left.within 8 ++ (BinaryOp.arithmetic .pow).tokenKind :: right.within 6 := by
  have hrank : (binary column (.arithmetic .pow) left right).rank = 7 := rfl
  rw [within_of_le hrank.ge, written]
  rfl

theorem Expr.needs_binary {op : BinaryOp} {level column : Nat} {left right : Expr}
    (hop : op.level? = some level) :
    (binary column op left right).needs level =
      max (left.needs level) (1 + right.needs (level + 1)) := by
  have hrank : (binary column op left right).rank = level := by simp [rank, BinaryOp.rank, hop]
  rw [needs, hrank, neededCalls, if_pos le_rfl, Nat.sub_self, Nat.zero_add, height, hop]
  rfl

theorem Expr.needs_power {column : Nat} {left right : Expr} :
    (binary column (.arithmetic .pow) left right).needs 7 =
      1 + max (left.needs 8) (right.needs 6) := by
  have hrank : (binary column (.arithmetic .pow) left right).rank = 7 := rfl
  rw [needs, hrank, neededCalls, if_pos le_rfl, Nat.sub_self, Nat.zero_add, height]
  rfl

theorem writtenEach_eq_map (es : List Expr) : writtenEach es = es.map Expr.written := by
  induction es with
  | nil => rfl
  | cons e es ih => rw [writtenEach, ih, List.map_cons]

theorem properEach_iff : ProperEach es ↔ ∀ e ∈ es, e.Proper := by
  induction es with
  | nil => simp [ProperEach]
  | cons e es ih => simp [ProperEach, ih]

end

/-! ## Beginnings -/

theorem unaryOp?_eq_none_of_tokenKind {t : Token} {v : Value} (h : t.kind = v.tokenKind) :
    unaryOp? t = none := by
  unfold unaryOp?
  rw [h]
  cases v <;> rfl

/-- The tokens begin with something other than a closing parenthesis, and if the rank is that of an
operand, with no operator. -/
def BeginsWell (rank : Nat) (kinds : List TokenKind) : Prop :=
  ∃ k ks, kinds = k :: ks ∧ k ≠ .closing ∧ (7 ≤ rank → ∀ t : Token, t.kind = k → unaryOp? t = none)

theorem BeginsWell.append {rank : Nat} {kinds : List TokenKind} (h : BeginsWell rank kinds)
    (more : List TokenKind) :
    BeginsWell rank (kinds ++ more) := by
  obtain ⟨k, ks, rfl, hk⟩ := h
  exact ⟨k, ks ++ more, rfl, hk⟩

theorem BeginsWell.mono {rank rank' : Nat} {kinds : List TokenKind} (h : BeginsWell rank kinds)
    (hle : 7 ≤ rank' → 7 ≤ rank) : BeginsWell rank' kinds := by
  obtain ⟨k, ks, heq, hclosing, hunary⟩ := h
  exact ⟨k, ks, heq, hclosing, fun h => hunary (hle h)⟩

theorem beginsWell_enclosed {least rank : Nat} {kinds : List TokenKind}
    (h : BeginsWell rank kinds) :
    BeginsWell least (enclosed least rank kinds) := by
  unfold enclosed
  split
  · exact h.mono fun _ => by omega
  · refine ⟨.opening, kinds ++ [.closing], rfl, by simp, fun _ t ht => ?_⟩
    unfold unaryOp?
    rw [ht]

/-- What is written begins as an expression of its rank. -/
theorem Expr.beginsWell_written (e : Expr) : BeginsWell e.rank e.written := by
  -- an operator between operands begins with its left operand
  induction e using Expr.structural with
  | literal column v =>
    refine ⟨v.tokenKind, [], by rw [written], ?_, fun _ t => unaryOp?_eq_none_of_tokenKind⟩
    cases v <;> simp [Value.tokenKind]
  | scalar column name | element column name indices =>
    refine ⟨nameToken name, _, by rw [written], by simp [nameToken], fun _ t ht => ?_⟩
    unfold unaryOp?
    rw [ht, nameToken]
  | unary column op e =>
    refine ⟨op.tokenKind, _, by rw [written], ?_, fun h => absurd h (by simp [rank])⟩
    cases op <;> simp [UnaryOp.tokenKind]
  | binary column op left right hleft =>
    rw [written]
    refine (BeginsWell.mono (beginsWell_enclosed hleft) fun h => ?_).append _
    cases hlevel : op.level? with
    | none => simp [BinaryOp.operandRanks, hlevel]
    | some level =>
      have hlt : level < 5 := BinaryOp.level?_lt hlevel
      simp only [rank, BinaryOp.rank, hlevel, Option.getD_some] at h
      omega
  | call column f args | userCall column name args =>
    refine ⟨_, _, by rw [written], by simp, fun _ t ht => ?_⟩
    unfold unaryOp?
    rw [ht]

theorem Expr.beginsWell_within (e : Expr) (least : Nat) : BeginsWell least (e.within least) :=
  beginsWell_enclosed e.beginsWell_written

end LineBasic
