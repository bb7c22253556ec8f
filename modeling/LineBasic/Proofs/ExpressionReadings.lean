import Mathlib
import LineBasic.Proofs.TwoReadings

/-!
# Two readings of an expression

Where no reference may stand, two lists of tokens that say the same are read as the same
expressions, columns aside.

* `Change.Reads.commaList`: lists with commas between their items are read item by item.
* `Change.ReadsAlike`: what the functions that read expressions have in common, for one bound on
  nested calls.
* `Change.readsAlike`: it holds for every bound.
-/

namespace LineBasic

open LineBasic.Parser
open LineBasic.Program (RefState)

namespace Change

variable {c : Change} {α : Type}

/-! ## Lists -/

section Lists

variable {R : α → α → Prop} {item : Parser α}

theorem Reads.commaTail (h : c.Reads R item item) (n : Nat) :
    c.Reads (List.Forall₂ R) (commaTail item n) (commaTail item n) := by
  induction n with
  | zero => exact .pure .nil
  | succ n ih =>
    refine agrees_isComma.accepts.bind ?_
    rintro more _ rfl
    cases more with
    | false => exact .pure .nil
    | true => exact h.bind fun a b hab => ih.bind fun as bs habs => .pure (.cons hab habs)

theorem Reads.commaList (h : c.Reads R item item) :
    c.Reads (List.Forall₂ R) (commaList item) (commaList item) := by
  refine h.bind fun a b hab => .get fun ts us hlength => ?_
  rw [hlength]
  exact (h.commaTail us.length).bind fun as bs habs => .pure (.cons hab habs)

/-- Lists whose items are made the same. -/
theorem map_eq_of_forall₂ {β γ : Type} {f : α → γ} {g : β → γ} {as : List α} {bs : List β}
    (h : List.Forall₂ (fun a b => f a = g b) as bs) : as.map f = bs.map g := by
  induction h with
  | nil => rfl
  | cons hab _ ih => rw [List.map_cons, List.map_cons, hab, ih]

end Lists

/-- Expressions that are the same but for their columns. -/
def SameExpr (e e' : Expr) : Prop := e.plain = e'.plain

theorem map_plain {es es' : List Expr} (h : List.Forall₂ SameExpr es es') :
    es.map Expr.plain = es'.map Expr.plain := map_eq_of_forall₂ h

/-! ## Operators and names -/

theorem reads_operands {operand : Parser Expr} (h : c.Reads SameExpr operand operand)
    (level n : Nat) {e e' : Expr} (he : SameExpr e e') :
    c.Reads SameExpr (operands level operand n e) (operands level operand n e') := by
  induction n generalizing e e' with
  | zero => exact .pure he
  | succ n ih =>
    refine (agrees_operatorAt level).accept.bind fun a b hab => ?_
    cases hab with
    | none => exact .pure he
    | @some x y hop =>
      obtain ⟨op, i⟩ := x
      obtain ⟨op', j⟩ := y
      obtain rfl : op = op' := hop
      refine h.bind fun right right' hright => ih ?_
      unfold SameExpr at *
      rw [Expr.plain, Expr.plain, he, hright]

theorem reads_functionName : c.Reads Eq functionName functionName := by
  refine Follows.peek fun ts us h => ?_
  cases h with
  | nil => exact .refuse fun _ _ h => h.loose ⟨.none, .nil⟩
  | @cons _ t u ts us pair rest =>
    have hall : c.Aligned .none (t :: ts) (u :: us) := .cons pair rest
    have hopen := agrees_isOpening.pair (.inl rfl) t u pair
    have hisSome : (isOpening t).isSome = (isOpening u).isSome := by
      generalize isOpening t = a at hopen ⊢
      generalize isOpening u = b at hopen ⊢
      cases hopen <;> rfl
    simp only [List.head?_cons, hisSome]
    cases (isOpening u).isSome with
    | true => exact Follows.exactly (Reads.pure rfl) hall
    | false =>
      refine Follows.exactly ?_ hall
      exact agrees_name.expect.bind fun a b hab => .pure hab

/-! ## Expressions -/

/-- Targets that are the same but for their columns. -/
def SameTarget (x y : Target) : Prop := x.plain = y.plain

/-- The functions that read expressions read alike, with `depth` calls open inside them. -/
structure ReadsAlike (c : Change) (depth : Nat) : Prop where
  expressionAt : ∀ level, c.Reads SameExpr (expressionAt depth level) (expressionAt depth level)
  prefixed : c.Reads SameExpr (prefixed depth) (prefixed depth)
  powered : c.Reads SameExpr (powered depth) (powered depth)
  primary : c.Reads SameExpr (primary depth) (primary depth)
  target : c.Reads SameTarget (target depth) (target depth)
  arguments : c.Reads (List.Forall₂ SameExpr) (arguments depth) (arguments depth)

namespace ReadsAlike

variable {depth : Nat}

theorem zero : c.ReadsAlike 0 where
  expressionAt _ := by rw [Parser.expressionAt]; exact .tooDeep
  prefixed := by rw [Parser.prefixed]; exact .tooDeep
  powered := by rw [Parser.powered]; exact .tooDeep
  primary := by rw [Parser.primary]; exact .tooDeep
  target := by rw [Parser.target]; exact .tooDeep
  arguments := by rw [Parser.arguments]; exact .tooDeep

theorem expressionAt_succ (h : c.ReadsAlike depth) (level : Nat) :
    c.Reads SameExpr (Parser.expressionAt (depth + 1) level)
      (Parser.expressionAt (depth + 1) level) := by
  rw [Parser.expressionAt]
  split
  · exact h.prefixed
  · refine (h.expressionAt (level + 1)).bind fun e e' he => .get fun ts us hlength => ?_
    rw [hlength]
    exact reads_operands (h.expressionAt (level + 1)) level us.length he

theorem prefixed_succ (h : c.ReadsAlike depth) :
    c.Reads SameExpr (Parser.prefixed (depth + 1)) (Parser.prefixed (depth + 1)) := by
  rw [Parser.prefixed]
  refine agrees_unaryOp.accept.bind fun a b hab => ?_
  cases hab with
  | none => exact h.powered
  | @some x y hop =>
    obtain ⟨op, i⟩ := x
    obtain ⟨op', j⟩ := y
    obtain rfl : op = op' := hop
    refine h.prefixed.bind fun e e' he => .pure ?_
    unfold SameExpr at *
    rw [Expr.plain, Expr.plain, he]

theorem powered_succ (h : c.ReadsAlike depth) :
    c.Reads SameExpr (Parser.powered (depth + 1)) (Parser.powered (depth + 1)) := by
  rw [Parser.powered]
  refine h.primary.bind fun base base' hbase => agrees_powerSign.accept.bind fun a b hab => ?_
  cases hab with
  | none => exact .pure hbase
  | some _ =>
    refine h.prefixed.bind fun e e' he => .pure ?_
    unfold SameExpr at *
    rw [Expr.plain, Expr.plain, hbase, he]

theorem target_succ (h : c.ReadsAlike depth) :
    c.Reads SameTarget (Parser.target (depth + 1)) (Parser.target (depth + 1)) := by
  rw [Parser.target]
  refine agrees_name.expect.bind fun x y hname => ?_
  obtain ⟨name, i⟩ := x
  obtain ⟨name', j⟩ := y
  obtain rfl : name = name' := hname
  refine agrees_isOpening.accepts.bind ?_
  rintro indexed _ rfl
  cases indexed with
  | false => exact .pure rfl
  | true =>
    refine h.arguments.bind fun es es' hes => .pure ?_
    unfold SameTarget
    rw [Target.plain, Target.plain, map_plain hes]

theorem arguments_succ (h : c.ReadsAlike depth) :
    c.Reads (List.Forall₂ SameExpr) (Parser.arguments (depth + 1))
      (Parser.arguments (depth + 1)) := by
  rw [Parser.arguments]
  exact (h.expressionAt 0).commaList.bind fun es es' hes =>
    agrees_isClosing.discard.bind fun _ _ _ => .pure hes

/-- The token at the front is taken. -/
theorem taken {R : α → α → Prop} {p q : Parser α} {t u : Token} {ts us : List Token}
    (h : c.Reads R p q) (hrest : c.Aligned .none ts us) :
    c.Follows (Exactly (t :: ts) (u :: us)) (set ts >>= fun _ => p) (set us >>= fun _ => q)
      fun a b ts us =>
      R a b ∧ c.Aligned .none ts us :=
  Follows.set.bind fun _ _ => Follows.exactly h hrest

/-- A call of a function is refused if the function does not take that many arguments. -/
theorem call {i j : Nat} (hcolumn : c.column i j) (f : Builtin) {es es' : List Expr}
    (h : List.Forall₂ SameExpr es es') :
    c.Reads SameExpr (if f.accepts es.length = true then Pure.pure (.call i f es) else refuseAt i)
      (if f.accepts es'.length = true then Pure.pure (.call j f es') else refuseAt j) := by
  rw [h.length_eq]
  split
  · refine .pure ?_
    unfold SameExpr
    rw [Expr.plain, Expr.plain, plainList_eq_map, plainList_eq_map, map_plain h]
  · exact .refuseAt hcolumn

theorem primary_succ (h : c.ReadsAlike depth) :
    c.Reads SameExpr (Parser.primary (depth + 1)) (Parser.primary (depth + 1)) := by
  rw [Parser.primary]
  refine Follows.get fun ts us haligned => ?_
  cases haligned with
  | nil => exact .refuse fun _ _ h => h.loose ⟨.none, .nil⟩
  | @cons _ t u ts us pair rest =>
    have haligned : c.Aligned .none (t :: ts) (u :: us) := .cons pair rest
    obtain ⟨kind, i, stop, text⟩ := t
    obtain ⟨kind', j, stop', text'⟩ := u
    have hsame : c.Same kind kind' := pair.means
    have hcolumn : c.column i j := pair.column
    cases hsame with
    | question | dataText items | remark text => exact .refuseAt hcolumn
    | refl =>
      cases kind with
      | number v => exact taken (.pure rfl) rest
      | string s => exact taken (.pure rfl) rest
      | opening =>
        refine taken ?_ rest
        exact (h.expressionAt 0).bind fun e e' he => agrees_isClosing.discard.bind fun _ _ _ =>
          .pure he
      | name kind name =>
        refine Follows.exactly ?_ haligned
        refine h.target.bind fun x y hxy => .pure ?_
        unfold SameExpr
        rw [Target.plain_toExpr, Target.plain_toExpr, hxy]
      | keyword k =>
        cases k with
        | FN =>
          refine taken ?_ rest
          have hcall : ∀ name {es es' : List Expr}, List.Forall₂ SameExpr es es' →
              SameExpr (.userCall i name es) (.userCall j name es') := by
            intro name es es' hes
            unfold SameExpr
            rw [Expr.plain, Expr.plain, plainList_eq_map, plainList_eq_map, map_plain hes]
          refine reads_functionName.bind ?_
          rintro name _ rfl
          refine agrees_isOpening.accepts.bind ?_
          rintro opened _ rfl
          cases opened with
          | false => exact .pure (hcall name .nil)
          | true => exact h.arguments.bind fun es es' hes => .pure (hcall name hes)
        | builtin f =>
          refine taken ?_ rest
          refine agrees_isOpening.accepts.bind ?_
          rintro opened _ rfl
          cases opened with
          | false => exact call hcolumn f .nil
          | true =>
            refine agrees_isClosing.accepts.bind ?_
            rintro closed _ rfl
            cases closed with
            | true => exact call hcolumn f .nil
            | false => exact h.arguments.bind fun es es' hes => call hcolumn f hes
        | _ => exact .refuseAt hcolumn
      | _ => exact .refuseAt hcolumn

end ReadsAlike

/-- **Expressions are read alike**, however deep they may be nested. -/
theorem readsAlike (depth : Nat) : c.ReadsAlike depth := by
  induction depth with
  | zero => exact .zero
  | succ depth ih =>
    exact ⟨ih.expressionAt_succ, ih.prefixed_succ, ih.powered_succ, ih.primary_succ, ih.target_succ,
      ih.arguments_succ⟩

theorem reads_expression (depth : Nat) : c.Reads SameExpr (expression depth) (expression depth) :=
  (readsAlike depth).expressionAt 0

end Change

end LineBasic
