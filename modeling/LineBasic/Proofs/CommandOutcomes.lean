import Mathlib
import LineBasic.Proofs.ParserOutcomes
import LineBasic.Proofs.ReadingBack
import LineBasic.Proofs.TwoReadings

/-!
# What reading a command comes to

Every parser of an expression or a command takes tokens of its own statement only, refuses what it
cannot read at one of their columns, and gives the same result when more calls may be open.

* `ExpressionsSettle`, `expressionsSettle`: an expression of `k` tokens needs room for `9 * k + 10`
  calls at most.
* `LineRef.IsWritten`: a reference to a line is a number among the tokens.
* `settles_keywordCommands`: the commands behind a reserved word, whose references are written
  behind the word.
* `steady_operands`, `steady_printItems`, `steady_eraseNames`: loops that are not ended by the count
  of their rounds.
-/

namespace LineBasic

/-- The references to lines in a command. -/
def Command.refs : Command → List LineRef
  | .goto ref | .gosub ref => [ref]
  | .onGoto _ refs | .onGosub _ refs => refs
  | .restore ref | .run ref => ref.toList
  | _ => []

open LineBasic.Parser in
/-- The reference is one of these tokens: a number that a line can have, in the column of the
token. -/
structure LineRef.IsWritten (ts : List Token) (r : LineRef) : Prop where
  range : r.line ≤ 65529
  number : ∃ t ∈ ts, ∃ v, t.kind = .number v ∧ lineNumber? v = some r.line ∧ t.column = r.column

namespace Parser

variable {α : Type} {columns : Set Nat} {room : Int} {n depth : Nat} {t : Token} {ts : List Token}

/-! ## Tests -/

theorem spares_isOpening : Spares isOpening := spares_that rfl fun _ => rfl

theorem spares_isClosing : Spares isClosing := spares_that rfl fun _ => rfl

theorem spares_isEquals : Spares isEquals := spares_that rfl fun _ => rfl

theorem spares_isMinus : Spares isMinus := spares_that rfl fun _ => rfl

theorem spares_isKeyword {k : Keyword} (helse : k ≠ .ELSE) (hif : k ≠ .IF) :
    Spares (isKeyword k) := by
  rintro t (h | h | h) <;> simp [isKeyword, Token.keyword?, h, helse.symm, hif.symm]

theorem spares_name : Spares name? := by
  rintro t (h | h | h) <;> simp [name?, h]

theorem spares_numericName : Spares numericName? := by
  rintro t (h | h | h) <;> simp [numericName?, h]

theorem spares_operatorAt (level : Nat) : Spares (operatorAt? level) := by
  rintro t (h | h | h) <;> simp [operatorAt?, binaryOp?, h]

theorem spares_unaryOp : Spares unaryOp? := by
  rintro t (h | h | h) <;> simp [unaryOp?, h]

theorem spares_powerSign : Spares powerSign? := by
  rintro t (h | h | h) <;> simp [powerSign?, h]

theorem spares_stringText : Spares stringText? := by
  rintro t (h | h | h) <;> simp [stringText?, h]

theorem spares_promptMark : Spares promptMark? := by
  rintro t (h | h | h) <;> simp [promptMark?, h]

theorem spares_jumpKind : Spares jumpKind? := by
  rintro t (h | h | h) <;> simp [jumpKind?, h]

theorem spares_dataText : Spares dataText? := by
  rintro t (h | h | h) <;> simp [dataText?, h]

theorem spares_remarkText : Spares remarkText? := by
  rintro t (h | h | h) <;> simp [remarkText?, h]

/-! ## Expressions -/

theorem Settles.operands {operand operand' : Parser Expr}
    (h : Settles columns n room Advances operand operand') (level k : Nat) (left : Expr) :
    Settles columns n room Any (operands level operand k left)
      (operands level operand' k left) := by
  induction k generalizing left with
  | zero => exact .pure trivial
  | succ k ih =>
    refine (Settles.accept (spares_operatorAt level)).bind fun found taken hfound => ?_
    cases hfound with
    | none => exact .pure trivial
    | @some _ found holds =>
      obtain ⟨op, column⟩ := found
      exact h.bind fun right _ _ => ih _

theorem settles_functionName : Settles columns n room Any functionName functionName := by
  intro ts hknown
  cases ts with
  | nil => exact .refuse hknown
  | cons t ts =>
    by_cases hopening : t.kind = .opening
    · rw [run_functionName_opening hopening]
      exact .ok [] rfl ⟨plain_nil, trivial⟩
    · rw [run_functionName_of_ne hopening]
      have hname : Settles columns n room Any (do return (← expect name?).1)
          (do return (← expect name?).1) :=
        (Settles.expect spares_name).bind fun _ _ _ => .pure trivial
      exact hname (t :: ts) hknown

/-- What comes of the functions that read expressions, with `depth` calls open inside them. A token
makes room for nine calls, which are those from an expression to the next one inside it. -/
structure ExpressionsSettle (columns : Set Nat) (n depth : Nat) : Prop where
  expressionAt : ∀ level : Nat, level ≤ 5 →
    Settles columns n (depth + level - 10) Advances (expressionAt depth level)
    (expressionAt (depth + 1) level)
  prefixed : Settles columns n (depth - 4) Advances (prefixed depth) (prefixed (depth + 1))
  powered : Settles columns n (depth - 3) Advances (powered depth) (powered (depth + 1))
  primary : Settles columns n (depth - 2) Advances (primary depth) (primary (depth + 1))
  target : Settles columns n (depth - 1) Advances (target depth) (target (depth + 1))
  arguments : Settles columns n (depth - 11) Any (arguments depth) (arguments (depth + 1))

namespace ExpressionsSettle

theorem zero : ExpressionsSettle columns n 0 where
  expressionAt level hlevel := by
    nth_rewrite 1 [Parser.expressionAt]
    exact .noRoom (by omega)
  prefixed := by
    nth_rewrite 1 [Parser.prefixed]
    exact .noRoom (by decide)
  powered := by
    nth_rewrite 1 [Parser.powered]
    exact .noRoom (by decide)
  primary := by
    nth_rewrite 1 [Parser.primary]
    exact .noRoom (by decide)
  target := by
    nth_rewrite 1 [Parser.target]
    exact .noRoom (by decide)
  arguments := by
    nth_rewrite 1 [Parser.arguments]
    exact .noRoom (by decide)

theorem expressionAt_succ (h : ExpressionsSettle columns n depth) (level : Nat)
    (hlevel : level ≤ 5) :
    Settles columns n (↑(depth + 1) + level - 10) Advances (Parser.expressionAt (depth + 1) level)
      (Parser.expressionAt (depth + 1 + 1) level) := by
  rw [Parser.expressionAt, Parser.expressionAt]
  split_ifs with hlast
  · have hfive : 5 ≤ level := hlast
    exact h.prefixed.less (by omega)
  · have hnext : level + 1 ≤ 5 := Nat.lt_of_not_le hlast
    have hoperand :=
      (h.expressionAt (level + 1) hnext).less (show (↑(depth + 1) + level - 10 : Int) ≤ _ by omega)
    refine hoperand.bind fun left taken htaken => .get fun ts => ?_
    refine (hoperand.operands level ts.length left).weaken le_rfl fun more e _ => ?_
    exact List.append_ne_nil_of_left_ne_nil htaken more

theorem prefixed_succ (h : ExpressionsSettle columns n depth) :
    Settles columns n (↑(depth + 1) - 4) Advances (Parser.prefixed (depth + 1))
      (Parser.prefixed (depth + 1 + 1)) := by
  rw [Parser.prefixed, Parser.prefixed]
  refine (Settles.accept spares_unaryOp).bindBehind fun found taken hfound => ?_
  cases hfound with
  | none => exact h.powered.less (by simp only [List.length_nil]; omega)
  | @some _ found holds =>
    obtain ⟨op, column⟩ := found
    obtain ⟨t, rfl, -⟩ := holds
    refine (h.prefixed.less ?_).bind fun e _ _ => .pure (List.cons_ne_nil _ _)
    simp only [List.length_singleton]
    omega

theorem powered_succ (h : ExpressionsSettle columns n depth) :
    Settles columns n (↑(depth + 1) - 3) Advances (Parser.powered (depth + 1))
      (Parser.powered (depth + 1 + 1)) := by
  rw [Parser.powered, Parser.powered]
  have hprimary := h.primary.less (show (↑(depth + 1) - 3 : Int) ≤ _ by omega)
  refine hprimary.bind fun base first hfirst => (Settles.accept spares_powerSign).bindBehind
    fun found taken hfound => ?_
  cases hfound with
  | none => exact .pure (List.append_ne_nil_of_left_ne_nil hfirst _)
  | @some _ found holds =>
    obtain ⟨t, rfl, -⟩ := holds
    refine (h.prefixed.less ?_).bind fun e _ _ => .pure (List.append_ne_nil_of_left_ne_nil hfirst _)
    simp only [List.length_singleton]
    omega

theorem target_succ (h : ExpressionsSettle columns n depth) :
    Settles columns n (↑(depth + 1) - 1) Advances (Parser.target (depth + 1))
      (Parser.target (depth + 1 + 1)) := by
  rw [Parser.target, Parser.target]
  refine (Settles.expect spares_name).bindBehind fun found first hfirst => ?_
  obtain ⟨name, column⟩ := found
  obtain ⟨t, rfl, -⟩ := hfirst
  refine .ifAccepts spares_isOpening (fun u => ?_) (.pure (List.cons_ne_nil _ _))
  refine (h.arguments.less ?_).bind fun es _ _ => .pure (List.cons_ne_nil _ _)
  simp only [List.length_singleton]
  omega

theorem arguments_succ (h : ExpressionsSettle columns n depth) :
    Settles columns n (↑(depth + 1) - 11) Any (Parser.arguments (depth + 1))
      (Parser.arguments (depth + 1 + 1)) := by
  rw [Parser.arguments, Parser.arguments]
  have hitem : Settles columns n (↑(depth + 1) - 11) Any (Parser.expressionAt depth 0)
      (Parser.expressionAt (depth + 1) 0) :=
    (h.expressionAt 0 (by omega)).weaken (by omega) fun _ _ _ => trivial
  refine (hitem.commaList lasting_any).bind fun es _ _ => ?_
  exact (Settles.discard spares_isClosing).bind fun _ _ _ => .pure trivial

theorem settles_builtinCall {V : List Token → Expr → Prop} {column : Nat}
    (hcolumn : column ∈ columns) (f : Builtin) (es : List Expr) (hV : V [] (.call column f es)) :
    Settles columns n room V (builtinCall column f es) (builtinCall column f es) := by
  unfold builtinCall
  split_ifs
  · exact .pure hV
  · exact .refuseAt hcolumn

theorem primary_succ (h : ExpressionsSettle columns n depth) :
    Settles columns n (↑(depth + 1) - 2) Advances (Parser.primary (depth + 1))
      (Parser.primary (depth + 1 + 1)) := by
  intro ts hknown
  cases ts with
  | nil =>
    rw [Parser.primary, Parser.primary]
    exact .refuse hknown
  | cons t ts =>
    have hcolumn : t.column ∈ columns := hknown.token t List.mem_cons_self
    cases hkind : t.kind with
    | number v =>
      rw [run_primary_number hkind, run_primary_number hkind]
      exact .ok [t] rfl ⟨plain_nil.cons (by simp [Apart, hkind]), List.cons_ne_nil _ _⟩
    | string s =>
      rw [run_primary_string hkind, run_primary_string hkind]
      exact .ok [t] rfl ⟨plain_nil.cons (by simp [Apart, hkind]), List.cons_ne_nil _ _⟩
    | opening =>
      rw [run_primary_opening hkind, run_primary_opening hkind]
      refine Settles.behind ?_ (by simp [Apart, hkind]) hknown
      have hinner :=
        (h.expressionAt 0 (by omega)).less (show (↑(depth + 1) - 2 - 9 : Int) ≤ _ by omega)
      exact hinner.bind fun e _ _ => (Settles.discard spares_isClosing).bind fun _ _ _ =>
        .pure (List.cons_ne_nil _ _)
    | name kind name =>
      rw [run_primary_name hkind, run_primary_name hkind]
      have htarget := h.target.less (show (↑(depth + 1) - 2 : Int) ≤ _ by omega)
      have hread : Settles columns n (↑(depth + 1) - 2) Advances
        (do return (← Parser.target depth).toExpr)
          (do return (← Parser.target (depth + 1)).toExpr) :=
        htarget.bind fun x _ hx => .pure (List.append_ne_nil_of_left_ne_nil hx _)
      exact hread (t :: ts) hknown
    | keyword k =>
      cases k with
      | builtin f =>
        rw [run_primary_builtin hkind, run_primary_builtin hkind]
        refine Settles.behind ?_ (by simp [Apart, hkind]) hknown
        refine .ifAccepts spares_isOpening (fun u => ?_)
          (settles_builtinCall hcolumn f [] (List.cons_ne_nil _ _))
        refine .ifAccepts spares_isClosing
          (fun u => settles_builtinCall hcolumn f [] (List.cons_ne_nil _ _)) ?_
        refine (h.arguments.less (by omega)).bind fun es _ _ => ?_
        exact settles_builtinCall hcolumn f es (List.cons_ne_nil _ _)
      | FN =>
        rw [run_primary_FN hkind, run_primary_FN hkind]
        refine Settles.behind ?_ (by simp [Apart, hkind]) hknown
        refine settles_functionName.bind fun name _ _ => ?_
        refine .ifAccepts spares_isOpening (fun u => ?_) (.pure (List.cons_ne_nil _ _))
        exact (h.arguments.less (by omega)).bind fun es _ _ => .pure (List.cons_ne_nil _ _)
      | _ =>
        rw [Parser.primary, Parser.primary]
        obtain ⟨kind, i, stop, text⟩ := t
        cases hkind
        exact .refused hcolumn
    | _ =>
      rw [Parser.primary, Parser.primary]
      obtain ⟨kind, i, stop, text⟩ := t
      cases hkind
      exact .refused hcolumn

end ExpressionsSettle

/-- **What comes of reading an expression**, however many calls may be open. -/
theorem expressionsSettle (columns : Set Nat) (n depth : Nat) :
    ExpressionsSettle columns n depth := by
  induction depth with
  | zero => exact .zero
  | succ depth ih =>
    exact ⟨ih.expressionAt_succ, ih.prefixed_succ, ih.powered_succ, ih.primary_succ, ih.target_succ,
      ih.arguments_succ⟩

theorem settles_expression :
    Settles columns n (depth - 11) Advances (expression depth) (expression (depth + 1)) :=
  ((expressionsSettle columns n depth).expressionAt 0 (by omega)).less (by omega)

theorem settles_target :
    Settles columns n (depth - 11) Advances (target depth) (target (depth + 1)) :=
  (expressionsSettle columns n depth).target.less (by omega)

theorem settles_arguments :
    Settles columns n (depth - 11) Any (arguments depth) (arguments (depth + 1)) :=
  (expressionsSettle columns n depth).arguments

theorem settles_targets :
    Settles columns n (depth - 11) Any (commaList (target depth))
      (commaList (target (depth + 1))) :=
  ((settles_target.weaken le_rfl fun _ _ _ => trivial).commaList lasting_any).weaken le_rfl
    fun _ _ _ => trivial

/-! ## References -/

theorem lasting_isWritten : Lasting LineRef.IsWritten := by
  rintro before after taken r ⟨hrange, t, ht, hnumber⟩
  exact ⟨hrange, t, by simp [ht], hnumber⟩

theorem lineNumber?_le {v : Value} {k : Nat} (h : lineNumber? v = some k) : k ≤ 65529 := by
  cases v with
  | text s => cases h
  | single x | double x =>
    simp only [lineNumber?] at h
    split at h
    · split_ifs at h with hline
      cases h
      simp only [Bool.and_eq_true, decide_eq_true_eq] at hline
      exact hline.2
    · cases h

/-- A line number is the value of the token that was taken. -/
theorem settles_lineNumber : Settles columns n room
    (fun taken k => ∃ t v, taken = [t] ∧ t.kind = .number v ∧ lineNumber? v = some k) lineNumber
      lineNumber := by
  intro ts hknown
  cases ts with
  | nil => exact .refused hknown.ending
  | cons t ts =>
    have hcolumn : t.column ∈ columns := hknown.token t List.mem_cons_self
    by_cases hnumber : ∃ v, t.kind = .number v
    · obtain ⟨v, hv⟩ := hnumber
      rw [Change.run_lineNumber hv]
      cases hk : lineNumber? v with
      | none => exact .refused hcolumn
      | some k =>
        exact .ok [t] rfl ⟨plain_nil.cons (by simp [Apart, hv]), t, v, rfl, hv, hk⟩
    · rw [Change.run_lineNumber_refuse fun v hv => hnumber ⟨v, hv⟩]
      exact .refused hcolumn

theorem settles_lineRef :
    Settles columns n room (fun taken r => ∃ t, taken = [t] ∧ r.IsWritten [t]) lineRef lineRef := by
  intro ts hknown
  cases ts with
  | nil => exact .refused hknown.ending
  | cons t ts =>
    change Outcome columns room _ (t :: ts)
      ((do return ⟨← lineNumber, t.column⟩ : Parser LineRef) n (t :: ts))
      ((do return ⟨← lineNumber, t.column⟩ : Parser LineRef) n (t :: ts))
    refine (settles_lineNumber (t :: ts) hknown).bind fun taken k rest split hold => ?_
    obtain ⟨hplain, u, v, rfl, hu, hv⟩ := hold
    obtain ⟨rfl, rfl⟩ := List.cons.inj split
    refine .ok [] rfl ⟨(List.append_nil [t]).symm ▸ hplain, t, rfl, lineNumber?_le hv, ?_⟩
    exact ⟨t, List.mem_cons_self, v, hu, hv, rfl⟩

theorem settles_writtenRef :
    Settles columns n room (fun taken r => r.IsWritten taken) lineRef lineRef :=
  settles_lineRef.weaken le_rfl fun _ _ ⟨_, hone, hwritten⟩ => hone ▸ hwritten

/-! ## Parts of commands -/

theorem settles_atEnd : Settles columns n room Any atEnd atEnd := by
  intro ts hknown
  cases ts with
  | nil => exact .ok [] rfl ⟨plain_nil, trivial⟩
  | cons t ts => exact .ok [] rfl ⟨plain_nil, trivial⟩

theorem settles_sees {f : Token → Option Token} : Settles columns n room Any (sees f) (sees f) :=
  fun _ _ => .ok [] rfl ⟨plain_nil, trivial⟩

/-- The references in a command are among the tokens. -/
def Refers (taken : List Token) (c : Command) : Prop := ∀ r ∈ c.refs, r.IsWritten taken

/-- There are no references in a command. -/
def Bare (_ : List Token) (c : Command) : Prop := c.refs = []

theorem Bare.refers {taken : List Token} {c : Command} (h : Bare taken c) : Refers taken c := by
  intro r hr
  rw [h] at hr
  cases hr

theorem settles_assignment :
    Settles columns n (depth - 11) (fun taken c => taken ≠ [] ∧ Bare taken c) (assignment depth)
    (assignment (depth + 1)) := by
  refine settles_target.bind fun x taken htaken =>
    (Settles.discard spares_isEquals).bind fun _ _ _ => ?_
  exact settles_expression.bind fun e _ _ => .pure ⟨List.append_ne_nil_of_left_ne_nil htaken _, rfl⟩

/-- An expression behind a sign, if the sign is there. -/
theorem settles_optional {f : Token → Option Token} (hf : Spares f) {V : List Token → α → Prop}
    {p q : Option Expr → Parser α}
    (h : ∀ e taken, Settles columns n (depth - 11) (fun more => V (taken ++ more)) (p e) (q e)) :
    Settles columns n (depth - 11) V
      (accepts f >>= fun b => if b = true then some <$> expression depth >>= p else pure none >>= p)
      (accepts f >>= fun b => if b = true then some <$> expression (depth + 1) >>= q
        else pure none >>= q) := by
  refine .ifAccepts hf (fun t => ?_) (h none [])
  refine Settles.less (?_ : Settles columns n (depth - 11) _ _ _) (by omega)
  have hsome : Settles columns n (depth - 11) Any (some <$> expression depth)
      (some <$> expression (depth + 1)) :=
    settles_expression.map fun _ _ _ => trivial
  exact hsome.bind fun e taken _ => h e (t :: taken)

theorem settles_partAssignment :
    Settles columns n (depth - 11) Bare (partAssignment depth) (partAssignment (depth + 1)) := by
  refine (Settles.discard spares_isOpening).bind fun _ _ _ => settles_target.bind fun x _ _ => ?_
  refine (Settles.discard spares_isComma).bind fun _ _ _ =>
    settles_expression.bind fun start _ _ => ?_
  refine settles_optional spares_isComma fun length _ => ?_
  refine (Settles.discard spares_isClosing).bind fun _ _ _ =>
    (Settles.discard spares_isEquals).bind fun _ _ _ => ?_
  exact settles_expression.bind fun e _ _ => .pure rfl

theorem settles_printItems (k : Nat) :
    Settles columns n (depth - 11) Any (printItems depth k) (printItems (depth + 1) k) := by
  induction k with
  | zero => exact .pure trivial
  | succ k ih =>
    intro ts hknown
    refine .peek ?_
    cases ts with
    | nil => exact .ok [] rfl ⟨plain_nil, trivial⟩
    | cons t ts =>
      simp only [List.head?_cons]
      cases endsStatement t with
      | true => exact .ok [] rfl ⟨plain_nil, trivial⟩
      | false =>
        have hvalue : Settles columns n (depth - 11) Any
            (PrintItem.value <$> expression depth >>= fun item => printItems depth k >>= fun rest =>
              pure (item :: rest))
            (PrintItem.value <$> expression (depth + 1) >>= fun item =>
              printItems (depth + 1) k >>= fun rest => pure (item :: rest)) := by
          have hitem : Settles columns n (depth - 11) Any (PrintItem.value <$> expression depth)
              (PrintItem.value <$> expression (depth + 1)) :=
                settles_expression.map fun _ _ _ => trivial
          exact hitem.bind fun item _ _ => ih.bind fun rest _ _ => .pure trivial
        have hrest : ∀ item : PrintItem, Settles columns n (depth - 11 - 9) Any
          (do return item :: (← printItems depth k))
            (do return item :: (← printItems (depth + 1) k)) :=
          fun item => (ih.less (by omega)).bind fun rest _ _ => .pure trivial
        obtain ⟨kind, i, stop, text⟩ := t
        cases kind with
        | semicolon => exact Settles.behind (V := Any) (hrest .semicolon) (by simp [Apart]) hknown
        | comma => exact Settles.behind (V := Any) (hrest .comma) (by simp [Apart]) hknown
        | _ => exact hvalue _ hknown

theorem settles_inputCommand :
    Settles columns n (depth - 11) Bare (inputCommand depth) (inputCommand (depth + 1)) := by
  have hcomma : Settles columns n (depth - 11) Any (discard (accepts isComma))
      (discard (accepts isComma)) :=
    (Settles.accepts spares_isComma).map fun _ _ _ => trivial
  refine hcomma.bind fun _ _ _ => (Settles.accept spares_stringText).bind fun found _ hfound => ?_
  cases hfound with
  | none => exact settles_targets.bind fun targets _ _ => .pure rfl
  | some _ =>
    refine (Settles.expect spares_promptMark).bind fun question _ _ => ?_
    exact settles_targets.bind fun targets _ _ => .pure rfl

theorem settles_forCommand :
    Settles columns n (depth - 11) Bare (forCommand depth) (forCommand (depth + 1)) := by
  refine (Settles.expect spares_numericName).bind fun var _ _ =>
    (Settles.discard spares_isEquals).bind fun _ _ _ => ?_
  refine settles_expression.bind fun start _ _ => ?_
  refine (Settles.discard (spares_isKeyword (by decide) (by decide))).bind fun _ _ _ => ?_
  refine settles_expression.bind fun limit _ _ => ?_
  exact settles_optional (spares_isKeyword (by decide) (by decide)) fun step _ => .pure rfl

/-- The references in the commands of a statement, of which there is one at least, are among the
tokens. -/
def AllRefer (taken : List Token) (cs : List Command) : Prop := cs ≠ [] ∧ ∀ c ∈ cs, Refers taken c

theorem allRefer_singleton {taken : List Token} {c : Command} (h : Refers taken c) :
    AllRefer taken [c] :=
  ⟨List.cons_ne_nil _ _, List.forall_mem_singleton.mpr h⟩

theorem lasting_allRefer : Lasting AllRefer := by
  rintro before after taken cs ⟨hne, hrefer⟩
  exact ⟨hne, fun c hc r hr => lasting_isWritten before after (hrefer c hc r hr)⟩

theorem settles_nextCommands : Settles columns n room AllRefer nextCommands nextCommands := by
  refine settles_atEnd.bind fun ended _ _ => ?_
  cases ended with
  | true => exact .pure (allRefer_singleton (Bare.refers rfl))
  | false =>
    have hvar : Settles columns n room Any (expect numericName?) (expect numericName?) :=
      (Settles.expect spares_numericName).weaken le_rfl fun _ _ _ => trivial
    refine (hvar.commaList lasting_any).bind fun vars _ hvars => .pure ⟨by simpa using hvars.1, ?_⟩
    exact List.forall_mem_map.mpr fun var _ => Bare.refers rfl

theorem settles_onCommand :
    Settles columns n (depth - 11) Refers (onCommand depth) (onCommand (depth + 1)) := by
  refine settles_expression.bind fun selector first _ =>
    (Settles.expect spares_jumpKind).bind fun isGosub second _ => ?_
  refine (settles_writtenRef.commaList lasting_isWritten).bind fun refs third hrefs => .pure ?_
  have hwritten : ∀ r ∈ refs, r.IsWritten (first ++ (second ++ (third ++ []))) := fun r hr => by
    simpa using lasting_isWritten (first ++ second) [] (hrefs.2 r hr)
  cases isGosub <;> exact hwritten

theorem settles_dimension :
    Settles columns n (depth - 11) Any (dimension depth) (dimension (depth + 1)) := by
  refine (Settles.expect spares_name).bind fun found _ _ =>
    (Settles.discard spares_isOpening).bind fun _ _ _ => ?_
  exact settles_arguments.bind fun es _ _ => .pure trivial

theorem settles_parameters : Settles columns n room Any parameters parameters := by
  refine .ifAccepts spares_isClosing (fun t => .pure trivial) ?_
  have hname : Settles columns n room Any (Prod.fst <$> expect name?) (Prod.fst <$> expect name?) :=
    (Settles.expect spares_name).map fun _ _ _ => trivial
  refine (hname.commaList lasting_any).bind fun names _ _ => ?_
  exact (Settles.discard spares_isClosing).bind fun _ _ _ => .pure trivial

theorem settles_defineCommand :
    Settles columns n (depth - 11) Bare (defineCommand depth) (defineCommand (depth + 1)) := by
  refine (Settles.discard (spares_isKeyword (by decide) (by decide))).bind fun _ _ _ => ?_
  refine settles_functionName.bind fun name _ _ => ?_
  have hbody : ∀ params : List String, Settles columns n (depth - 11) Bare
      (discard (expect isEquals) >>= fun _ => expression depth >>= fun e =>
        pure (.define name params e))
      (discard (expect isEquals) >>= fun _ => expression (depth + 1) >>= fun e =>
          pure (.define name params e)) :=
    fun params => (Settles.discard spares_isEquals).bind fun _ _ _ =>
      settles_expression.bind fun e _ _ => .pure rfl
  refine .ifAccepts spares_isOpening (fun t => ?_) (hbody [])
  exact settles_parameters.bind fun params _ _ => (hbody params).less (by omega)

theorem spares_realName : Spares fun t : Token => match t.kind with
    | .name .real s => some (s, t.column)
    | _ => none := by
  rintro t (h | h | h) <;> simp [h]

theorem settles_letter : Settles columns n room (fun _ x => x.2 ∈ columns) letter letter := by
  refine (Settles.expect spares_realName).bind fun found _ hfound => ?_
  obtain ⟨name, column⟩ := found
  obtain ⟨t, -, ht, hcolumn⟩ := hfound
  have hname : column ∈ columns := by
    simp only at ht
    split at ht
    · cases ht
      exact hcolumn
    · cases ht
  simp only
  split
  · exact .pure hname
  · exact .refuseAt hname

theorem settles_letterRange : Settles columns n room Any letterRange letterRange := by
  refine settles_letter.bind fun first _ _ => .ifAccepts spares_isMinus (fun t => ?_)
    (.pure trivial)
  refine settles_letter.bind fun last _ hlast => ?_
  simp only
  split_ifs
  · exact .refuseAt hlast
  · exact .pure trivial

theorem settles_declareCommand (kind : Kind) :
    Settles columns n room Bare (declareCommand kind) (declareCommand kind) :=
  (settles_letterRange.commaList lasting_any).bind fun _ _ _ => .pure rfl

theorem settles_eraseNames (k : Nat) :
    Settles columns n room Any (eraseNames k) (eraseNames k) := by
  induction k with
  | zero => exact .pure trivial
  | succ k ih =>
    refine settles_atEnd.bind fun ended _ _ => ?_
    cases ended with
    | true => exact .pure trivial
    | false =>
      refine (Settles.expect spares_name).bind fun found _ _ => ?_
      exact .ifAccepts spares_isComma
        (fun t => (ih.less (by omega)).bind fun names _ _ => .pure trivial) (.pure trivial)

theorem settles_optionalNumber : Settles columns n room Any optionalNumber optionalNumber := by
  refine settles_sees.bind fun seen _ _ => ?_
  cases seen with
  | false => exact .pure trivial
  | true => exact settles_lineNumber.map fun _ _ _ => trivial

theorem settles_lineRange : Settles columns n room Any lineRange lineRange := by
  refine settles_sees.bind fun seen _ _ => ?_
  cases seen with
  | true =>
    refine settles_lineNumber.bind fun first _ _ => .ifAccepts spares_isMinus (fun t => ?_)
      (.pure trivial)
    exact settles_optionalNumber.bind fun last _ _ => .pure trivial
  | false =>
    refine .ifAccepts spares_isMinus (fun t => ?_) (.pure trivial)
    exact settles_optionalNumber.bind fun last _ _ => .pure trivial

theorem settles_renumberCommand : Settles columns n room Bare renumberCommand renumberCommand := by
  refine settles_optionalNumber.bind fun newStart _ _ => ?_
  refine .ifAccepts spares_isComma (fun t => ?_) (.pure rfl)
  refine settles_optionalNumber.bind fun oldStart _ _ => ?_
  refine .ifAccepts spares_isComma (fun u => ?_) (.pure rfl)
  exact settles_optionalNumber.bind fun step _ _ => .pure rfl

theorem settles_runCommand :
    Settles columns n (depth - 11) Refers (runCommand depth) (runCommand (depth + 1)) := by
  refine settles_sees.bind fun seen first _ => ?_
  cases seen with
  | true =>
    refine settles_writtenRef.bind fun r taken hr => .pure ?_
    exact List.forall_mem_singleton.mpr (by simpa using lasting_isWritten first [] hr)
  | false =>
    refine settles_atEnd.bind fun ended _ _ => ?_
    cases ended with
    | true => exact .pure (Bare.refers rfl)
    | false => exact settles_expression.bind fun e _ _ => .pure (Bare.refers rfl)

/-! ## Commands -/

namespace Settles

/-- One command that is made of what is read. -/
theorem one {V : List Token → α → Prop} {p q : Parser α} {f : α → Command}
    (h : Settles columns n room V p q) (hf : ∀ taken a, V taken a → Refers taken (f a)) :
    Settles columns n room AllRefer (p >>= fun a => Pure.pure [f a])
      (q >>= fun a => Pure.pure [f a]) := by
  refine h.bind fun a taken ha => .pure (allRefer_singleton ?_)
  rw [List.append_nil]
  exact hf taken a ha

/-- One command without a reference. -/
theorem bare {V : List Token → α → Prop} {p q : Parser α} {f : α → Command}
    (h : Settles columns n room V p q) (hf : ∀ a, (f a).refs = []) :
    Settles columns n room AllRefer (p >>= fun a => Pure.pure [f a])
      (q >>= fun a => Pure.pure [f a]) :=
  h.one fun _ a _ => Bare.refers (hf a)

end Settles

/-- **What comes of the commands behind a reserved word.** Their references are written behind the
word. CLEAR is left out: it may take an IF with the rest of its statement. -/
theorem settles_keywordCommands (columns : Set Nat) (n depth : Nat) {k : Keyword}
    (hclear : k ≠ .CLEAR) :
    Option.Rel (Settles columns n (depth - 11) AllRefer) (keywordCommands depth k)
      (keywordCommands (depth + 1) k) := by
  have hbare : ∀ {p q : Parser Command}, Settles columns n (depth - 11) Bare p q →
      Settles columns n (depth - 11) AllRefer (do return [← p]) (do return [← q]) :=
    fun h => h.one fun _ _ => Bare.refers
  cases k with
  | LET =>
    refine .some (.ifAccepts (spares_isKeyword (by decide) (by decide)) (fun t => ?_) ?_)
    · exact ((hbare settles_partAssignment).last lasting_allRefer [t]).less (by omega)
    · exact hbare (settles_assignment.weaken le_rfl fun _ _ => And.right)
  | builtin f =>
    cases f with
    | mid => exact .some (hbare settles_partAssignment)
    | _ => exact .none
  | PRINT => exact .some (.get fun ts => (settles_printItems ts.length).bare fun _ => rfl)
  | INPUT => exact .some (hbare settles_inputCommand)
  | FOR => exact .some (hbare settles_forCommand)
  | NEXT => exact .some settles_nextCommands
  | GOTO => exact .some (settles_writtenRef.one fun _ _ hr => List.forall_mem_singleton.mpr hr)
  | GOSUB => exact .some (settles_writtenRef.one fun _ _ hr => List.forall_mem_singleton.mpr hr)
  | ON => exact .some (settles_onCommand.one fun _ _ => id)
  | DIM =>
    exact .some ((settles_dimension.commaList lasting_any).bare fun _ => rfl)
  | DATA => exact .some ((Settles.expect spares_dataText).bare fun _ => rfl)
  | READ => exact .some (settles_targets.bare fun _ => rfl)
  | RESTORE =>
    refine .some (settles_atEnd.bind fun ended taken _ => Settles.last ?_ lasting_allRefer taken)
    cases ended with
    | true => exact .pure (allRefer_singleton (Bare.refers rfl))
    | false => exact settles_writtenRef.one fun _ _ hr => List.forall_mem_singleton.mpr hr
  | REM => exact .some ((Settles.accept spares_remarkText).bare fun _ => rfl)
  | WHILE | LOAD | SAVE => exact .some (settles_expression.bare fun _ => rfl)
  | DEF => exact .some (hbare settles_defineCommand)
  | DEFINT | DEFSNG | DEFDBL | DEFSTR => exact .some (hbare (settles_declareCommand _))
  | SWAP =>
    refine .some
      (settles_target.bind fun first _ _ => (Settles.discard spares_isComma).bind fun _ _ _ => ?_)
    exact settles_target.bind fun second _ _ => .pure (allRefer_singleton (Bare.refers rfl))
  | ERASE => exact .some (.get fun ts => (settles_eraseNames ts.length).bare fun _ => rfl)
  | CLEAR => exact absurd rfl hclear
  | RUN => exact .some (settles_runCommand.one fun _ _ => id)
  | LIST | DELETE => exact .some (settles_lineRange.bare fun _ => rfl)
  | RENUM => exact .some (hbare settles_renumberCommand)
  | RETURN | END | STOP | WEND | CLS | CONT | TRON | TROFF | NEW =>
    exact .some (.pure (allRefer_singleton (Bare.refers rfl)))
  | _ => exact .none

/-! ## Loops -/

theorem steady_operands {operand : Parser Expr}
    (h : ∀ n ts e rest, operand n ts = .ok (e, rest) → rest.length ≤ ts.length) (level : Nat)
    (left : Expr) :
    Steady fun k => operands level operand k left := by
  refine steady_of_rounds (operands level operand) (fun k left n => ?_)
    (fun k k' n ts hrest left => ?_) left
  · cases k <;> rfl
  · refine run_bind_congr rfl fun found us hfound => ?_
    obtain ⟨rfl, -⟩ | ⟨t, ⟨op, column⟩, rfl, -, rfl⟩ := run_accept_eq_ok hfound
    · rfl
    · exact run_bind_congr rfl fun right left' hright =>
        hrest _ left' (Nat.lt_succ_of_le (h n us right left' hright))

theorem steady_printItems (depth : Nat) : Steady (printItems depth) := by
  refine steady_of_rounds (fun k (_ : Unit) => printItems depth k) (fun k _ n => ?_)
    (fun k k' n ts hrest _ => ?_) ()
  · cases k <;> rfl
  · refine run_bind_congr rfl fun head us hhead => ?_
    obtain ⟨rfl, rfl⟩ := run_pure_eq_ok (n := n) (a := ts.head?) hhead
    cases us with
    | nil => rfl
    | cons t us =>
      simp only [List.head?_cons]
      split_ifs
      · rfl
      · -- a separator is taken, anything else begins an expression
        have hvalue : ∀ item left, (PrintItem.value <$> expression depth : Parser PrintItem) n
          (t :: us) = .ok (item, left) →
            left.length < (t :: us).length := by
          intro item left hitem
          rw [← bind_pure_comp] at hitem
          obtain ⟨e, vs, he, hitem⟩ := run_bind_eq_ok hitem
          obtain ⟨-, rfl⟩ := run_pure_eq_ok hitem
          exact settles_expression.length_lt he
        obtain ⟨kind, i, stop, text⟩ := t
        cases kind with
        | semicolon | comma =>
          refine run_bind_congr rfl fun _ left htail =>
            run_bind_congr rfl fun item left' hitem => ?_
          obtain ⟨-, rfl⟩ := run_pure_eq_ok (show (pure () : Parser Unit) n us = _ from htail)
          obtain ⟨-, rfl⟩ := run_pure_eq_ok hitem
          exact run_bind_congr (hrest () _ (Nat.lt_succ_self _)) fun _ _ _ => rfl
        | _ =>
          refine run_bind_congr rfl fun item left hitem =>
            run_bind_congr (hrest () left ?_) fun _ _ _ => rfl
          exact hvalue item left hitem

theorem steady_eraseNames : Steady eraseNames := by
  refine steady_of_rounds (fun k (_ : Unit) => eraseNames k) (fun k _ n => ?_)
    (fun k k' n ts hrest _ => ?_) ()
  · cases k <;> rfl
  · refine run_bind_congr rfl fun ended us hended => ?_
    have hatEnd : Settles Set.univ n 0 Any atEnd atEnd := settles_atEnd
    have hsame := hatEnd.length_le hended
    cases ended with
    | true => rfl
    | false =>
      refine run_bind_congr rfl fun found vs hfound => ?_
      obtain ⟨t, rfl, -⟩ := run_expect_eq_ok hfound
      refine run_bind_congr rfl fun more ws hmore => ?_
      cases more with
      | false => rfl
      | true =>
        have hcomma := length_of_accepts hmore
        rw [List.length_cons] at hsame
        exact run_bind_congr (hrest () ws (by omega)) fun _ _ _ => rfl

end Parser

end LineBasic
