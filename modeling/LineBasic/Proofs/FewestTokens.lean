import Mathlib
import LineBasic.Parser.Statements
import LineBasic.Proofs.ReadingBack

/-!
# Parentheses only where they are needed

However an expression has been given to the parser, it took at least as many tokens as writing the
expression takes. So no parenthesis that is written could be left out.

* `Parser.Takes`: a result weighs no more than the tokens that were taken for it.
* `Parser.expressionsTake`: it holds of every function that reads expressions, however deep they may
  be nested.
* `Parser.expression_inverts_written`: what is written is read back, unless it is nested too deeply,
  and nothing shorter is read as the same expression.
-/

namespace LineBasic

open LineBasic.Parser

/-! ## Lengths -/

theorem length_enclosed_le {least least' : Nat} (h : least ≤ least') (rank : Nat)
    (kinds : List TokenKind) :
    (enclosed least rank kinds).length ≤ (enclosed least' rank kinds).length := by
  unfold enclosed
  split_ifs
  · exact le_rfl
  · simp only [List.length_cons, List.length_append]
    omega
  · omega
  · exact le_rfl

theorem Expr.length_within_le {least least' : Nat} (h : least ≤ least') (e : Expr) :
    (e.within least).length ≤ (e.within least').length :=
  length_enclosed_le h e.rank e.written

theorem Expr.length_within_le_add_two (least : Nat) (e : Expr) :
    (e.within least).length ≤ e.written.length + 2 := by
  unfold within enclosed
  split
  · omega
  · simp

theorem length_callTokens_le (items : List (List TokenKind)) :
    (callTokens items).length ≤ (commaSeparated items).length + 2 := by
  cases items with
  | nil => exact Nat.zero_le _
  | cons item items => simp [callTokens, inParentheses]

theorem length_functionTokens_le (name : String) : (functionTokens name).length ≤ 1 := by
  unfold functionTokens
  split <;> simp

namespace Parser

variable {α β : Type} {credit depth : Nat} {weight : α → Nat}

/-! ## What a parser takes -/

/-- A result weighs no more than the tokens that were taken for it, `credit` of them before the
parser began. -/
def Takes (credit : Nat) (p : Parser α) (weight : α → Nat) : Prop :=
  ∀ n ts a rest, p n ts = .ok (a, rest) → rest.length + weight a ≤ ts.length + credit

namespace Takes

theorem pure {a : α} (h : weight a ≤ credit) : Takes credit (pure a) weight := by
  intro n ts b rest hrun
  obtain ⟨rfl, rfl⟩ := run_pure_eq_ok hrun
  omega

theorem bind {p : Parser α} {f : α → Parser β} {total : β → Nat} (h : Takes 0 p weight)
    (hf : ∀ a, Takes (credit + weight a) (f a) total) : Takes credit (p >>= f) total := by
  intro n ts b rest hrun
  obtain ⟨a, us, hp, hrun⟩ := run_bind_eq_ok hrun
  have hfirst := h n ts a us hp
  have hsecond := hf a n us b rest hrun
  omega

theorem weaken {p : Parser α} {weight' : α → Nat} (h : Takes credit p weight)
    (hle : ∀ a, weight' a ≤ weight a) :
    Takes credit p weight' := by
  intro n ts a rest hrun
  have := h n ts a rest hrun
  have := hle a
  omega

theorem more {p : Parser α} {credit' : Nat} (h : Takes credit p weight) (hle : credit ≤ credit') :
    Takes credit' p weight :=
  fun n ts a rest hrun => (h n ts a rest hrun).trans (Nat.add_le_add_left hle ts.length)

theorem tooDeep : Takes credit (tooDeep : Parser α) weight :=
  fun _ _ _ _ hrun => absurd hrun run_tooDeep

theorem get {f : List Token → Parser α} (h : ∀ ts, Takes credit (f ts) weight) :
    Takes credit (get >>= f) weight := by
  intro n ts a rest hrun
  exact h ts n ts a rest hrun

theorem accept {f : Token → Option α} : Takes 0 (accept? f) fun a => a.toList.length := by
  intro n ts a rest hrun
  obtain ⟨rfl, rfl⟩ | ⟨t, a, rfl, -, rfl⟩ := run_accept_eq_ok hrun
  · exact le_rfl
  · exact le_rfl

theorem accepts {f : Token → Option Token} : Takes 0 (accepts f) Bool.toNat := by
  refine accept.bind fun a => pure ?_
  cases a <;> exact le_rfl

theorem expect {f : Token → Option α} : Takes 0 (expect f) fun _ => 1 := by
  intro n ts a rest hrun
  obtain ⟨t, rfl, -⟩ := run_expect_eq_ok hrun
  exact le_rfl

theorem discard {f : Token → Option α} : Takes 0 (discard (Parser.expect f)) fun _ => 1 := by
  have h : Takes 0 (Parser.expect f >>= fun _ => Pure.pure PUnit.unit) fun _ => 1 :=
    expect.bind fun _ => pure le_rfl
  rw [bind_pure_comp] at h
  exact h

theorem commaTail {item : Parser Expr} (h : Takes 0 item fun e => e.written.length) (k : Nat) :
    Takes 0 (commaTail item k) fun es => ((writtenEach es).flatMap (.comma :: ·)).length := by
  induction k with
  | zero => exact pure le_rfl
  | succ k ih =>
    refine accepts.bind fun more => ?_
    cases more with
    | false => exact pure le_rfl
    | true =>
      refine h.bind fun e => ih.bind fun es => pure ?_
      simp [writtenEach]

theorem commaList {item : Parser Expr} (h : Takes 0 item fun e => e.written.length) :
    Takes 0 (commaList item) fun es => (commaSeparated (writtenEach es)).length := by
  refine h.bind fun e => get fun ts => (commaTail h ts.length).bind fun es => pure ?_
  simp [writtenEach, commaSeparated]

theorem level?_of_operatorAt? {level column : Nat} {t : Token} {op : BinaryOp}
    (h : operatorAt? level t = some (op, column)) : op.level? = some level := by
  unfold operatorAt? at h
  split at h
  · split_ifs at h with hlevel
    cases h
    exact hlevel
  · cases h

/-- Every round of the loop takes the operator and its right operand. -/
theorem operands {level : Nat} {operand : Parser Expr}
    (h : Takes 0 operand fun e => (e.within (level + 1)).length) (k : Nat) (left : Expr) :
    Takes (left.within level).length (operands level operand k left) fun e =>
      (e.within level).length := by
  induction k generalizing left with
  | zero => exact pure le_rfl
  | succ k ih =>
    intro n ts e rest hrun
    obtain ⟨found, us, haccept, hround⟩ := run_bind_eq_ok hrun
    obtain ⟨rfl, rfl⟩ | ⟨t, ⟨op, column⟩, rfl, hop, rfl⟩ := run_accept_eq_ok haccept
    · obtain ⟨rfl, rfl⟩ := run_pure_eq_ok hround
      exact le_rfl
    · obtain ⟨right, vs, hright, hnext⟩ := run_bind_eq_ok hround
      have hoperand : vs.length + (right.within (level + 1)).length ≤ us.length :=
        h n us right vs hright
      have hloop : rest.length + (e.within level).length ≤
          vs.length + ((Expr.binary column op left right).within level).length :=
          ih _ n vs e rest hnext
      rw [Expr.within_binary (level?_of_operatorAt? hop), List.length_append, List.length_cons]
        at hloop
      simp only [List.length_cons]
      omega

end Takes

/-! ## Reading expressions -/

/-- What the functions that read expressions take, for one bound on nested calls. -/
structure ExpressionsTake (depth : Nat) : Prop where
  expressionAt : ∀ level ≤ 5, Takes 0 (expressionAt depth level) fun e => (e.within level).length
  prefixed : Takes 0 (prefixed depth) fun e => (e.within 6).length
  powered : Takes 0 (powered depth) fun e => (e.within 7).length
  primary : Takes 0 (primary depth) fun e => (e.within 8).length
  target : Takes 0 (target depth) fun x => x.toExpr.written.length
  arguments : Takes 0 (arguments depth) fun es => (commaSeparated (writtenEach es)).length + 1

namespace ExpressionsTake

theorem zero : ExpressionsTake 0 where
  expressionAt level _ := by rw [Parser.expressionAt]; exact .tooDeep
  prefixed := by rw [Parser.prefixed]; exact .tooDeep
  powered := by rw [Parser.powered]; exact .tooDeep
  primary := by rw [Parser.primary]; exact .tooDeep
  target := by rw [Parser.target]; exact .tooDeep
  arguments := by rw [Parser.arguments]; exact .tooDeep

theorem expression (h : ExpressionsTake depth) :
    Takes 0 (Parser.expressionAt depth 0) fun e => e.written.length :=
  (h.expressionAt 0 (Nat.zero_le 5)).weaken fun e => by rw [Expr.within_of_le (Nat.zero_le _)]

theorem expressionAt_succ (h : ExpressionsTake depth) (level : Nat) (hlevel : level ≤ 5) :
    Takes 0 (Parser.expressionAt (depth + 1) level) fun e => (e.within level).length := by
  rw [Parser.expressionAt]
  split_ifs with hlast
  · exact h.prefixed.weaken (Expr.length_within_le (by omega))
  · have hlt : level < 5 := Nat.lt_of_not_le hlast
    refine (h.expressionAt (level + 1) hlt).bind fun left => .get fun ts => ?_
    have hleft := Expr.length_within_le (Nat.le_add_right level 1) left
    exact (Takes.operands (h.expressionAt (level + 1) hlt) ts.length left).more (by omega)

theorem prefixed_succ (h : ExpressionsTake depth) :
    Takes 0 (Parser.prefixed (depth + 1)) fun e => (e.within 6).length := by
  rw [Parser.prefixed]
  refine Takes.accept.bind fun found => ?_
  cases found with
  | none => exact h.powered.weaken (Expr.length_within_le (by decide))
  | some sign =>
    refine h.prefixed.bind fun e => .pure ?_
    obtain ⟨op, column⟩ := sign
    have hrank : (Expr.unary column op e).rank = 6 := rfl
    rw [Expr.within_of_le hrank.ge, Expr.written, List.length_cons, ← Expr.within]
    exact (Nat.add_comm _ _).le

theorem powered_succ (h : ExpressionsTake depth) :
    Takes 0 (Parser.powered (depth + 1)) fun e => (e.within 7).length := by
  rw [Parser.powered]
  refine h.primary.bind fun base => Takes.accept.bind fun found => ?_
  cases found with
  | none => exact .pure (by simpa using Expr.length_within_le (by decide) base)
  | some column =>
    refine h.prefixed.bind fun power => .pure ?_
    rw [Expr.within_power, List.length_append, List.length_cons]
    simp only [Option.toList_some, List.length_singleton]
    omega

/-- One token has been taken, and another parser goes on behind it. -/
theorem length_of_rest {n : Nat} {t : Token} {ts rest : List Token} {e : Expr} {p q : Parser Expr}
    (hq : Takes 1 q fun e => (e.within 8).length) (heq : p n (t :: ts) = q n ts)
    (hrun : p n (t :: ts) = .ok (e, rest)) : rest.length + (e.within 8).length ≤ (t :: ts).length :=
  hq n ts e rest (heq ▸ hrun)

/-- The arguments are in parentheses, of which the opening one has been taken. -/
theorem takes_arguments (h : ExpressionsTake depth) {call : List Expr → Parser Expr}
    (hcall : ∀ es, Takes (credit + (callTokens (writtenEach es)).length) (call es) fun e =>
      (e.within 8).length) :
    Takes (credit + 1) (Parser.arguments depth >>= call) fun e => (e.within 8).length := by
  refine h.arguments.bind fun es => (hcall es).more ?_
  have := length_callTokens_le (writtenEach es)
  omega

theorem takes_builtinCall (column : Nat) (f : Builtin) (es : List Expr) :
    Takes (1 + (callTokens (writtenEach es)).length) (builtinCall column f es) fun e =>
      (e.within 8).length := by
  unfold builtinCall
  split_ifs
  · have hwithin : (Expr.call column f es).within 8 = (Expr.call column f es).written := rfl
    refine .pure ?_
    rw [hwithin, Expr.written, List.length_cons]
    omega
  · exact fun _ _ _ _ hrun => by cases hrun

theorem takes_builtin (h : ExpressionsTake depth) (column : Nat) (f : Builtin) :
    Takes 1 (do
      if ← Parser.accepts isOpening then
        if ← Parser.accepts isClosing then builtinCall column f []
        else Parser.arguments depth >>= builtinCall column f
      else builtinCall column f []) fun e => (e.within 8).length := by
  refine Takes.accepts.bind fun opened => ?_
  cases opened with
  | false => exact takes_builtinCall column f []
  | true =>
    refine Takes.accepts.bind fun closed => ?_
    cases closed with
    | true => exact (takes_builtinCall column f []).more (by decide)
    | false => exact h.takes_arguments (takes_builtinCall column f)

theorem takes_functionName : Takes 0 functionName fun name => (functionTokens name).length := by
  intro n ts name rest hrun
  cases ts with
  | nil => cases hrun
  | cons t ts =>
    by_cases hopening : t.kind = .opening
    · rw [run_functionName_opening hopening] at hrun
      cases hrun
      exact le_rfl
    · rw [run_functionName_of_ne hopening] at hrun
      have hname : Takes 0 (do return (← expect name?).1) fun name =>
          (functionTokens name).length :=
        Takes.expect.bind fun x => .pure (length_functionTokens_le x.1)
      exact hname n (t :: ts) name rest hrun

theorem takes_userCall (column : Nat) (name : String) (es : List Expr) :
    Takes (1 + (functionTokens name).length + (callTokens (writtenEach es)).length)
      (pure (Expr.userCall column name es)) fun e => (e.within 8).length := by
  have hwithin : (Expr.userCall column name es).within 8 =
      (Expr.userCall column name es).written := rfl
  refine .pure ?_
  rw [hwithin, Expr.written, List.length_cons, List.length_append]
  omega

theorem takes_FN (h : ExpressionsTake depth) (column : Nat) :
    Takes 1 (do
      let name ← functionName
      if ← Parser.accepts isOpening then Parser.arguments depth >>= fun es =>
        return Expr.userCall column name es
      else return Expr.userCall column name []) fun e => (e.within 8).length := by
  refine takes_functionName.bind fun name => Takes.accepts.bind fun opened => ?_
  cases opened with
  | false => exact takes_userCall column name []
  | true => exact h.takes_arguments (takes_userCall column name)

theorem primary_succ (h : ExpressionsTake depth) :
    Takes 0 (Parser.primary (depth + 1)) fun e => (e.within 8).length := by
  intro n ts e rest hrun
  cases ts with
  | nil =>
    rw [Parser.primary] at hrun
    cases hrun
  | cons t ts =>
    cases hkind : t.kind with
    | number v =>
      rw [run_primary_number hkind] at hrun
      cases hrun
      exact le_rfl
    | string s =>
      rw [run_primary_string hkind] at hrun
      cases hrun
      exact le_rfl
    | opening =>
      refine length_of_rest ?_ (run_primary_opening hkind) hrun
      refine h.expression.bind fun e => Takes.discard.bind fun _ => .pure ?_
      have := e.length_within_le_add_two 8
      omega
    | name kind name =>
      rw [run_primary_name hkind] at hrun
      have htarget : Takes 0 (do return (← Parser.target depth).toExpr) fun e =>
          (e.within 8).length :=
        h.target.bind fun x => .pure (by cases x <;> exact (Nat.zero_add _).ge)
      exact htarget n (t :: ts) e rest hrun
    | keyword k =>
      cases k with
      | builtin f =>
        exact length_of_rest (h.takes_builtin t.column f) (run_primary_builtin hkind) hrun
      | FN => exact length_of_rest (h.takes_FN t.column) (run_primary_FN hkind) hrun
      | _ =>
        rw [Parser.primary] at hrun
        obtain ⟨kind, i, stop, text⟩ := t
        cases hkind
        cases hrun
    | _ =>
      rw [Parser.primary] at hrun
      obtain ⟨kind, i, stop, text⟩ := t
      cases hkind
      cases hrun

theorem target_succ (h : ExpressionsTake depth) :
    Takes 0 (Parser.target (depth + 1)) fun x => x.toExpr.written.length := by
  rw [Parser.target]
  refine Takes.expect.bind fun found => ?_
  obtain ⟨name, column⟩ := found
  refine Takes.accepts.bind fun indexed => ?_
  cases indexed with
  | false => exact .pure (by simp [Target.toExpr, Expr.written])
  | true =>
    refine h.arguments.bind fun es => .pure ?_
    simp only [Target.toExpr, Expr.written, inParentheses, List.length_cons, List.length_append,
      List.length_nil, Bool.toNat_true]
    omega

theorem arguments_succ (h : ExpressionsTake depth) :
    Takes 0 (Parser.arguments (depth + 1)) fun es =>
      (commaSeparated (writtenEach es)).length + 1 := by
  rw [Parser.arguments]
  exact h.expression.commaList.bind fun es => Takes.discard.bind fun _ => .pure (by omega)

end ExpressionsTake

/-- **Nothing is read from fewer tokens than writing it takes.** -/
theorem expressionsTake (depth : Nat) : ExpressionsTake depth := by
  induction depth with
  | zero => exact .zero
  | succ depth ih =>
    exact ⟨ih.expressionAt_succ, ih.prefixed_succ, ih.powered_succ, ih.primary_succ, ih.target_succ,
      ih.arguments_succ⟩

end Parser

/-! ## Columns -/

theorem Expr.rank_plain (e : Expr) : e.plain.rank = e.rank := by
  cases e <;> rfl

theorem writtenEach_plainList {es : List Expr} (h : ∀ e ∈ es, e.plain.written = e.written) :
    writtenEach (plainList es) = writtenEach es := by
  rw [plainList_eq_map, writtenEach_eq_map, writtenEach_eq_map, List.map_map]
  exact List.map_congr_left h

/-- What is written does not depend on the columns. -/
theorem Expr.written_plain (e : Expr) : e.plain.written = e.written := by
  induction e using Expr.structural with
  | literal column v => rfl
  | scalar column name => rfl
  | element column name indices ih => rw [plain, written, written, writtenEach_plainList ih]
  | unary column op e ih => rw [plain, written, written, rank_plain, ih]
  | binary column op left right ihleft ihright =>
    rw [plain, written, written, rank_plain, rank_plain, ihleft, ihright]
  | call column f args ih => rw [plain, written, written, writtenEach_plainList ih]
  | userCall column name args ih => rw [plain, written, written, writtenEach_plainList ih]

/-! ## Writing and reading -/

/-- **Reading inverts writing.** What is written is read as the same expression, columns aside, and
exactly its tokens are taken, if the nesting allows as many open calls as the expression needs; else
it is refused for that. Nothing shorter is read as the same expression, so that parentheses are
written only where they are needed. -/
theorem Parser.expression_inverts_written {e : Expr} (he : e.Proper) {ts rest : List Token}
    (hts : ts.map Token.kind = e.written) (hrest : ∀ t ∈ rest.head?, binaryOp? t = none ∧
      isOpening t = none)
    (depth n : Nat) :
    (e.needs 0 ≤ depth → ∃ e', expression depth n (ts ++ rest) = .ok (e', rest) ∧
      e'.plain = e.plain) ∧
    (depth < e.needs 0 → ∃ i, expression depth n (ts ++ rest) = .error (.atColumn .outOfMemory i)) ∧
    ∀ (depth' n' : Nat) (us rest' : List Token) (e' : Expr),
      expression depth' n' (us ++ rest') = .ok (e', rest') → e'.plain = e.plain →
        ts.length ≤ us.length := by
  have hstops : Stops 0 rest := by
    intro t ht
    refine ⟨(hrest t ht).2, fun op hop => ?_⟩
    rw [(hrest t ht).1] at hop
    cases hop
  have hwithin : ts.map Token.kind = e.within 0 :=
    hts.trans (Expr.within_of_le (Nat.zero_le _)).symm
  have hread := (Expr.isReadBack he).readAt 0 (Nat.zero_le 8) depth n ts rest hwithin hstops
  refine ⟨hread.reads, fun hdeep => hread.refuses (Nat.not_le_of_lt hdeep), ?_⟩
  intro depth' n' us rest' e' hrun hplain
  have htaken : rest'.length + e'.written.length ≤ (us ++ rest').length :=
    (expressionsTake depth').expression n' (us ++ rest') e' rest' hrun
  have hlength : ts.length = e'.written.length := by
    rw [← e'.written_plain, hplain, e.written_plain, ← hts, List.length_map]
  rw [List.length_append] at htaken
  omega

/-- NOT A=B OR A-(B-C)*-A^-B^C. -/
def Expr.mixed : Expr :=
  let a := Expr.variable 0 "A"
  let b := Expr.variable 0 "B"
  let c := Expr.variable 0 "C"
  let power :=
    Expr.binary 0 (.arithmetic .pow) a (.unary 0 .minus (.binary 0 (.arithmetic .pow) b c))
  .binary 0 (.bitwise .or) (.binary 0 (.relation .eq) (.unary 0 .not a) b)
    (.binary 0 (.arithmetic .sub) a
      (.binary 0 (.arithmetic .mul) (.binary 0 (.arithmetic .sub) b c) (.unary 0 .minus power)))

/-- The expression has one pair of parentheses and is read back, with 19 calls open at once. -/
theorem Parser.expression_inverts_written_mixed :
    let ts : List Token :=
  [.keyword .NOT, .name .real "A", .equals, .name .real "B", .keyword .OR, .name .real "A",
      .operator (.arithmetic .sub), .opening, .name .real "B", .operator (.arithmetic .sub),
        .name .real "C", .closing,
      .operator (.arithmetic .mul), .operator (.arithmetic .sub), .name .real "A",
        .operator (.arithmetic .pow),
      .operator (.arithmetic .sub), .name .real "B", .operator (.arithmetic .pow),
        .name .real "C"].map (⟨·, 1, 1, ""⟩)
    let colon : Token := ⟨.colon, 2, 2, ":"⟩
    Expr.mixed.Proper ∧ ts.map Token.kind = Expr.mixed.written ∧ Expr.mixed.needs 0 = 19 ∧
    (∃ e', expression 19 3 (ts ++ [colon]) = .ok (e', [colon]) ∧ e'.plain = Expr.mixed.plain) ∧
    ∃ i, expression 18 3 (ts ++ [colon]) = .error (.atColumn .outOfMemory i) := by
  intro ts colon
  have hproper : Expr.mixed.Proper := by simp [Expr.mixed, Expr.Proper]
  have hts : ts.map Token.kind = Expr.mixed.written := rfl
  have hneeds : Expr.mixed.needs 0 = 19 := rfl
  have hcolon : ∀ t ∈ [colon].head?, binaryOp? t = none ∧ isOpening t = none := by
    rintro _ ⟨⟩
    exact ⟨rfl, rfl⟩
  refine ⟨hproper, hts, hneeds, ?_, ?_⟩
  · exact (Parser.expression_inverts_written hproper hts hcolon 19 3).1 (by rw [hneeds])
  · exact (Parser.expression_inverts_written hproper hts hcolon 18 3).2.1 (by rw [hneeds]; decide)

end LineBasic
