import Mathlib
import LineBasic.Proofs.CommandReadings

/-!
# Two readings of a line of statements

Two lists of tokens that say the same are read as the same statements.

* `Parser.run_statement_name` and those after it: what is read is told by the first token.
* `Change.StatementsAlike`, `Change.statementsAlike`: statements are read alike, at every depth.
* `Change.parseTokens_follows`: so is a whole line.
-/

namespace LineBasic

open LineBasic.Parser
open LineBasic.Program (RefState)

namespace Parser

/-! ## A statement by its first token -/

variable {depth n : Nat} {t : Token} {ts : List Token}

theorem keyword?_eq_some {k : Keyword} (h : t.keyword? = some k) :
    t.kind = .keyword k ∨ t.kind = .question ∧ k = .PRINT ∨ t.kind = .apostrophe ∧ k = .REM := by
  unfold Token.keyword? at h
  split at h <;> simp_all

theorem run_statement_name {kind : NameKind} {name : String} (h : t.kind = .name kind name) :
    statement (depth + 1) n (t :: ts) =
      (do return [.command t.column (← assignment depth)] : Parser (List Statement)) n
        (t :: ts) := by
  obtain ⟨k, i, stop, text⟩ := t
  obtain rfl : k = .name kind name := h
  rw [statement]
  rfl

theorem run_statement_branch (h : t.keyword? = some .IF) :
    statement (depth + 1) n (t :: ts) =
      (do return [← branchStatement depth t.column] : Parser (List Statement)) n ts := by
  obtain ⟨kind, i, stop, text⟩ := t
  have hkind : kind = .keyword .IF := by simpa using keyword?_eq_some h
  subst hkind
  rw [statement]
  rfl

theorem run_statement_nil : statement (depth + 1) n [] = .error (.atColumn .syntaxError n) := by
  rw [statement]
  rfl

theorem run_statement_of_keyword (k : Keyword) (i stop : Nat) (text : String) :
    statement (depth + 1) n (⟨.keyword k, i, stop, text⟩ :: ts) = (match some k with
      | none => refuseAt i
      | some .IF => (do set ts; return [← branchStatement depth i] : Parser (List Statement))
      | some k =>
        match keywordCommands depth k with
        | none => refuseAt i
        | some p =>
          (do set ts; return (← p).map (.command i))) n (⟨.keyword k, i, stop, text⟩ :: ts) := by
  rw [statement]
  rfl

theorem run_statement_cons {k : Keyword} (h : t.keyword? = some k) (hk : k ≠ .IF) :
    statement (depth + 1) n (t :: ts) =
      match keywordCommands depth k with
      | none => .error (.atColumn .syntaxError t.column)
      | some p => (do return (← p).map (.command t.column) : Parser (List Statement)) n ts := by
  have hkind := keyword?_eq_some h
  obtain ⟨kind, i, stop, text⟩ := t
  rcases hkind with rfl | ⟨rfl, rfl⟩ | ⟨rfl, rfl⟩
  · rw [run_statement_of_keyword]
    simp only
    cases keywordCommands depth k <;> rfl
  · rw [statement]
    rfl
  · rw [statement]
    rfl

theorem run_statement_keyword {k : Keyword} {p : Parser (List Command)} (h : t.keyword? = some k)
    (hk : k ≠ .IF) (hp : keywordCommands depth k = some p) :
    statement (depth + 1) n (t :: ts) =
      (do return (← p).map (.command t.column) : Parser (List Statement)) n ts := by
  rw [run_statement_cons h hk, hp]

theorem run_statement_unknown {k : Keyword} (h : t.keyword? = some k) (hk : k ≠ .IF)
    (hp : keywordCommands depth k = none) :
    statement (depth + 1) n (t :: ts) = .error (.atColumn .syntaxError t.column) := by
  rw [run_statement_cons h hk, hp]

theorem run_parseTokens (room n : Nat) (ts : List Token) :
    parseTokens room n ts = match statementList (room - 1) n ts with
    | .error e => .error e
    | .ok (statements, []) => .ok statements
    | .ok (_, t :: _) => .error (.atColumn .syntaxError t.column) := rfl

theorem run_statement_refuse (hkeyword : t.keyword? = none)
    (hname : ∀ kind name, t.kind ≠ .name kind name) :
    statement (depth + 1) n (t :: ts) = .error (.atColumn .syntaxError t.column) := by
  obtain ⟨kind, i, stop, text⟩ := t
  rw [statement]
  cases kind with
  | name kind name => exact absurd rfl (hname kind name)
  | keyword k => cases hkeyword
  | question | apostrophe => cases hkeyword
  | _ => rfl

end Parser

namespace Change

variable {c : Change} {s : RefState}

/-! ## Statements -/

/-- Statements that are the same but for their columns, their references and their remarks. -/
def SameStatements (c : Change) (ss rs : List Statement) : Prop :=
  reformList c.line c.remark ss = reformList id c.remark rs

theorem SameStatements.append {ss ss' rs rs' : List Statement} (h : c.SameStatements ss rs)
    (h' : c.SameStatements ss' rs') : c.SameStatements (ss ++ ss') (rs ++ rs') := by
  unfold SameStatements at *
  rw [reformList_append, reformList_append, h, h']

theorem sameStatements_commands {as bs : List Command} (h : List.Forall₂ c.SameCommand as bs)
    (i j : Nat) :
    c.SameStatements (as.map (.command i)) (bs.map (.command j)) := by
  induction h with
  | nil => rfl
  | @cons a b as bs hab _ ih =>
    unfold SameStatements at *
    rw [List.map_cons, List.map_cons, reformList, reformList, ih, Statement.reform,
      Statement.reform, hab]

/-- A jump in front of statements. -/
theorem SameStatements.jump {ss rs : List Statement} (h : c.SameStatements ss rs) {r r' : LineRef}
    (hr : c.SameRef r r') (i j : Nat) :
    c.SameStatements (.command i (.goto r) :: ss) (.command j (.goto r') :: rs) :=
  have hjump : c.SameCommand (.goto r) (.goto r') := congrArg Command.goto hr
  (sameStatements_commands (.cons hjump .nil) i j).append h

/-- Both parsers read the same statements. -/
def ReadsStatements (c : Change) (P : List Token → List Token → Prop)
    (p q : Parser (List Statement)) : Prop :=
  c.Follows P p q fun a b ts us => c.SameStatements a b ∧ c.Loose ts us

theorem Aligned.loose {ts us : List Token} (h : c.Aligned s ts us) : c.Loose ts us := ⟨s, h⟩

theorem readsStatements_loop {p : Parser (List Statement)} (h : c.ReadsStatements c.Loose p p)
    (n : Nat) :
    c.ReadsStatements c.Loose (statementLoop p n) (statementLoop p n) := by
  induction n with
  | zero => exact Follows.pure fun _ _ hloose => ⟨rfl, hloose⟩
  | succ n ih =>
    refine Follows.peek fun ts us ⟨s, haligned⟩ => ?_
    cases haligned with
    | nil => exact .exactly (.pure fun _ _ hloose => ⟨rfl, hloose⟩) ⟨s, .nil⟩
    | @cons _ t u ts us pair rest =>
      have hloose : c.Loose (t :: ts) (u :: us) := ⟨s, .cons pair rest⟩
      simp only [List.head?_cons, pair.isColon_eq, pair.isKeyword_eq .ELSE]
      split
      · exact Follows.tail.bind fun _ _ => .exactly ih rest.loose
      · split
        · exact .exactly (.pure fun _ _ hloose => ⟨rfl, hloose⟩) hloose
        · refine .exactly ?_ hloose
          refine Follows.bind h fun ss rs => .lists fun ts us ⟨hss, r, hrest⟩ => .exactly ?_ hrest
          refine (follows_atEnd r).bind fun ended ended' => .lists fun ts us ⟨heq, hrest⟩ => ?_
          subst heq
          cases ended with
          | false => exact .refuse fun _ _ h => h.loose hrest.loose
          | true =>
            refine .exactly ?_ hrest.loose
            exact Follows.bind ih fun ss' rs' => .pure fun _ _ ⟨hss', hrest⟩ =>
              ⟨hss.append hss', hrest⟩

/-- The functions that read statements read alike, with `depth` calls open inside them. -/
structure StatementsAlike (c : Change) (depth : Nat) : Prop where
  statementList : c.ReadsStatements c.Loose (statementList depth) (statementList depth)
  statement : c.ReadsStatements c.Loose (statement depth) (statement depth)
  branchStatement : ∀ i j, c.Follows (c.Aligned .none) (branchStatement depth i)
    (branchStatement depth j)
    fun a b ts us => c.SameStatements [a] [b] ∧ c.Loose ts us
  branchPart : c.ReadsStatements (c.Aligned .one) (branchPart depth) (branchPart depth)

namespace StatementsAlike

variable {depth : Nat}

theorem zero : c.StatementsAlike 0 where
  statementList := by rw [Parser.statementList]; exact .tooDeep fun _ _ h => h
  statement := by rw [Parser.statement]; exact .tooDeep fun _ _ h => h
  branchStatement i j := by
    rw [Parser.branchStatement, Parser.branchStatement]; exact .tooDeep fun _ _ => Aligned.loose
  branchPart := by rw [Parser.branchPart]; exact .tooDeep fun _ _ => Aligned.loose

theorem statementList_succ (h : c.StatementsAlike depth) :
    c.ReadsStatements c.Loose (Parser.statementList (depth + 1))
      (Parser.statementList (depth + 1)) := by
  rw [Parser.statementList]
  refine Follows.get fun ts us hloose => .exactly ?_ hloose
  obtain ⟨s, haligned⟩ := hloose
  rw [haligned.length_eq]
  exact readsStatements_loop h.statement us.length

theorem branchPart_succ (h : c.StatementsAlike depth) :
    c.ReadsStatements (c.Aligned .one) (Parser.branchPart (depth + 1))
      (Parser.branchPart (depth + 1)) := by
  rw [Parser.branchPart]
  refine Follows.peek fun ts us haligned => ?_
  cases haligned with
  | nil => exact .exactly h.statementList ⟨.one, .nil⟩
  | @cons _ t u ts us pair rest =>
    have haligned : c.Aligned .one (t :: ts) (u :: us) := .cons pair rest
    simp only [List.head?_cons, pair.isNumber_eq]
    split
    · refine .exactly ?_ haligned
      refine (follows_lineRef (Or.inr rfl)).bind fun r r' => .lists fun ts us ⟨hr, hrest⟩ => ?_
      refine .exactly ?_ hrest.loose
      exact Follows.bind h.statementList fun ss rs => .pure fun _ _ ⟨hss, hrest⟩ =>
        ⟨hss.jump hr _ _, hrest⟩
    · exact .exactly h.statementList haligned.loose

/-- Reads ELSE and what follows it, or nothing. -/
theorem elsePart (h : c.StatementsAlike depth) (i j : Nat) {e e' : Expr} (he : SameExpr e e')
    {ss rs : List Statement} (hss : c.SameStatements ss rs) :
    c.Follows c.Loose
      (do
        if ← accepts (isKeyword .ELSE) then return .branch i e ss (← Parser.branchPart depth)
        else return .branch i e ss [])
      (do
        if ← accepts (isKeyword .ELSE) then return .branch j e' rs (← Parser.branchPart depth)
        else return .branch j e' rs [])
      fun a b ts us => c.SameStatements [a] [b] ∧ c.Loose ts us := by
  have hbranch : ∀ {ss' rs' : List Statement}, c.SameStatements ss' rs' →
      c.SameStatements [.branch i e ss ss'] [.branch j e' rs rs'] := by
    intro ss' rs' hss'
    unfold SameExpr SameStatements at *
    simp only [reformList, Statement.reform, he, hss, hss']
  refine .lists fun ts us hloose => ?_
  obtain ⟨s, haligned⟩ := hloose
  refine .exactly ?_ haligned
  refine (follows_accepts (s := s) fun t u pair => rel_isKeyword .ELSE pair.keyword?_eq).bind
    fun given given' => ?_
  refine .lists fun ts us hgiven => ?_
  obtain ⟨rfl, hfalse, htrue⟩ := hgiven
  cases given with
  | false => exact .exactly (.pure fun _ _ hloose => ⟨hbranch rfl, hloose⟩) (hfalse rfl).1.loose
  | true =>
    obtain ⟨t, x, ht, hrest⟩ := htrue rfl
    rw [after_of_keyword? (keyword?_of_isKeyword ht)] at hrest
    refine .exactly ?_ hrest
    exact Follows.bind h.branchPart fun ss' rs' => .pure fun _ _ hpart => ⟨hbranch hpart.1, hpart.2⟩

theorem branchStatement_succ (h : c.StatementsAlike depth) (i j : Nat) :
    c.Follows (c.Aligned .none) (Parser.branchStatement (depth + 1) i)
      (Parser.branchStatement (depth + 1) j)
      fun a b ts us => c.SameStatements [a] [b] ∧ c.Loose ts us := by
  rw [Parser.branchStatement, Parser.branchStatement]
  refine Follows.bind (reads_expression depth) fun e e' => .lists fun ts us ⟨he, hrest⟩ =>
    .exactly ?_ hrest
  refine (follows_accept (s := .none) fun t u pair => rel_isKeyword .GOTO pair.keyword?_eq).bind
    fun a b => ?_
  refine .lists fun ts us ⟨hrel, hnone, hsome⟩ => ?_
  cases hrel with
  | none =>
    refine .exactly ?_ (hnone rfl).1
    refine Follows.bind (Q := fun _ _ ts us => c.Aligned .one ts us) ?_ fun _ _ => ?_
    · refine (follows_expect (s := .none) fun t u pair =>
        rel_isKeyword .THEN pair.keyword?_eq).map ?_
      rintro x y ts us ⟨-, t, ht, hrest⟩
      rwa [after_of_keyword? (keyword?_of_isKeyword ht)] at hrest
    · refine Follows.bind h.branchPart fun ss rs => .lists fun ts us ⟨hss, hrest⟩ =>
        .exactly ?_ hrest
      exact h.elsePart i j he hss
  | @some x y _ =>
    obtain ⟨t, ht, hrest⟩ := hsome x rfl
    rw [after_of_keyword? (keyword?_of_isKeyword ht)] at hrest
    refine .exactly ?_ hrest
    refine (follows_lineRef (Or.inl rfl)).bind fun r r' => .lists fun ts us ⟨hr, hrest⟩ =>
      .exactly ?_ hrest.loose
    refine Follows.bind h.statementList fun ss rs => .lists fun ts us ⟨hss, hrest⟩ =>
      .exactly ?_ hrest
    exact h.elsePart i j he (hss.jump hr _ _)

theorem statement_succ (h : c.StatementsAlike depth) :
    c.ReadsStatements c.Loose (Parser.statement (depth + 1)) (Parser.statement (depth + 1)) := by
  refine .lists fun ts us ⟨s, haligned⟩ => ?_
  cases haligned with
  | nil => exact .refused (fun _ _ => id) (fun _ => run_statement_nil) fun _ => run_statement_nil
  | @cons _ t u ts us pair rest =>
    have haligned : c.Aligned s (t :: ts) (u :: us) := .cons pair rest
    have hkeyword := pair.keyword?_eq
    by_cases hname : ∃ kind name, t.kind = .name kind name
    · obtain ⟨kind, name, ht⟩ := hname
      have hcalm : c.Aligned .none (t :: ts) (u :: us) := haligned.calm fun x hx => by
        obtain rfl : t = x := Option.some.inj hx
        simp [ht]
      refine .run (fun _ => run_statement_name ht)
        (fun _ => run_statement_name (pair.kind_eq_name.mp ht))
        (List.suffix_refl _) (.exactly ?_ hcalm)
      refine Follows.bind (reads_assignment depth) fun a b => .pure fun _ _ ⟨hab, hrest⟩ =>
        ⟨?_, hrest.loose⟩
      exact sameStatements_commands (.cons hab .nil) _ _
    · cases hk : t.keyword? with
      | none =>
        have ht : ∀ kind name, t.kind ≠ .name kind name :=
          fun kind name ht => hname ⟨kind, name, ht⟩
        have hu : ∀ kind name, u.kind ≠ .name kind name :=
          fun kind name hu => ht kind name (pair.kind_eq_name.mpr hu)
        exact .refused (fun _ _ _ => pair.column) (fun _ => run_statement_refuse hk ht)
          fun _ => run_statement_refuse (hkeyword ▸ hk) hu
      | some k =>
        rw [after_of_keyword? hk] at rest
        by_cases hif : k = .IF
        · subst hif
          refine .run (fun _ => run_statement_branch hk)
            (fun _ => run_statement_branch (hkeyword ▸ hk))
            (List.suffix_cons t ts) (.exactly ?_ rest)
          exact (h.branchStatement _ _).bind fun a b => .pure fun _ _ hpost => hpost
        · cases hp : keywordCommands depth k with
          | none =>
            exact .refused (fun _ _ _ => pair.column) (fun _ => run_statement_unknown hk hif hp)
              fun _ => run_statement_unknown (hkeyword ▸ hk) hif hp
          | some p =>
            refine .run (fun _ => run_statement_keyword hk hif hp)
              (fun _ => run_statement_keyword (hkeyword ▸ hk) hif hp) (List.suffix_cons t ts)
                (.exactly ?_ rest)
            refine Follows.bind (follows_keywordCommands hp) fun as bs =>
              .pure fun _ _ ⟨hab, hrest⟩ => ⟨?_, hrest⟩
            exact sameStatements_commands hab _ _

end StatementsAlike

/-- **Statements are read alike**, however deep they may be nested. -/
theorem statementsAlike (depth : Nat) : c.StatementsAlike depth := by
  induction depth with
  | zero => exact .zero
  | succ depth ih =>
    exact ⟨ih.statementList_succ, ih.statement_succ, ih.branchStatement_succ, ih.branchPart_succ⟩

/-- **A whole line is read alike**: if the first list of tokens is accepted, so is the second, and
the statements are the same; if the change is strict and the first is refused, so is the second,
with an error of the same kind at a column that belongs to the first one. -/
theorem parseTokens_alike {ts us : List Token} (h : c.Aligned .none ts us) (room : Nat) {n m : Nat}
    (hcolumn : c.column n m) :
    match parseTokens room n ts with
    | .ok ss => ∃ rs, parseTokens room m us = .ok rs ∧ c.SameStatements ss rs
    | .error e => c.strict → ∃ e', parseTokens room m us = .error e' ∧ c.SameError e e' := by
  have hlist := (statementsAlike (room - 1)).statementList n m ts us hcolumn h.loose
  rw [run_parseTokens, run_parseTokens]
  cases hfirst : statementList (room - 1) n ts with
  | error e =>
    rw [hfirst] at hlist
    intro hs
    obtain ⟨e', hsecond, hsame⟩ := hlist hs
    exact ⟨e', by rw [hsecond], hsame⟩
  | ok r =>
    obtain ⟨ss, left⟩ := r
    rw [hfirst] at hlist
    obtain ⟨rs, left', hsecond, ⟨hss, s, hleft⟩, -⟩ := hlist
    rw [hsecond]
    cases hleft with
    | nil => exact ⟨rs, rfl, hss⟩
    | cons pair rest => exact fun _ => ⟨_, rfl, .atColumn _ pair.column⟩

/-- The same where columns do not matter. -/
theorem parseTokens_follows {ts us : List Token} (h : c.Aligned .none ts us) (room n m : Nat)
    (hcolumn : c.column n m := by trivial) :
    match parseTokens room n ts with
    | .ok ss => ∃ rs, parseTokens room m us = .ok rs ∧ c.SameStatements ss rs
    | .error e => c.strict → ∃ e', parseTokens room m us = .error e' ∧ e'.kind = e.kind := by
  have halike := parseTokens_alike h room hcolumn
  cases hparse : parseTokens room n ts with
  | ok ss =>
    rw [hparse] at halike
    exact halike
  | error e =>
    rw [hparse] at halike
    intro hs
    obtain ⟨e', hsecond, hsame⟩ := halike hs
    exact ⟨e', hsecond, hsame.kind_eq⟩

end Change

end LineBasic
