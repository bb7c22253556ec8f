import Mathlib
import LineBasic.Proofs.Execution
import LineBasic.Proofs.ListedLine
import LineBasic.Proofs.StatementReadings

/-!
# Where an IF stands

An IF takes everything behind it up to the end of the line or to an ELSE that it does not take, so
it is the last statement of the list it stands in.

* `BranchesLast`: an IF is the last statement of its list, and so in both of its parts.
* `Parser.suffix_of_keywordCommands` and those beside it: a parser leaves an end of the tokens that
  it was given.
* `Parser.Placed`, `Parser.placed`: statements are read with every IF in the last place, at every
  depth.
* `Parser.branchesLast_of_parseLine`: so are the statements of every line.
-/

namespace LineBasic

/-- An IF is the last statement of its list, and so in both of its parts. -/
inductive BranchesLast : List Statement → Prop where
  | nil : BranchesLast []
  | command {column : Nat} {c : Command} {ss : List Statement} (rest : BranchesLast ss) :
      BranchesLast (.command column c :: ss)
  | branch {column : Nat} {condition : Expr} {thenPart elsePart : List Statement}
      (yes : BranchesLast thenPart)
      (no : BranchesLast elsePart) : BranchesLast [.branch column condition thenPart elsePart]

theorem BranchesLast.commands {ss : List Statement} (h : BranchesLast ss) (column : Nat)
    (cs : List Command) :
    BranchesLast (cs.map (.command column) ++ ss) := by
  induction cs with
  | nil => exact h
  | cons c cs ih => exact .command ih

namespace Parser

variable {α β : Type} {n depth : Nat} {ts rest : List Token}

/-! ## What is left -/

/-- A list of tokens says the same as itself. -/
theorem aligned_self (ts : List Token) (s : Program.RefState) :
    (⟨id, id, True, Eq⟩ : Change).Aligned s ts ts :=
  Change.aligned_of_same rfl (List.forall₂_same.mpr fun t _ => ⟨.refl t.kind, rfl⟩) s

/-- A parser that reads like itself leaves an end of the tokens that it was given. -/
theorem suffix_of_follows {P : List Token → List Token → Prop} {p : Parser α}
    {Q : α → α → List Token → List Token → Prop} (h : (⟨id, id, True, Eq⟩ : Change).Follows P p p Q)
    (hp : P ts ts) {a : α} (hrun : p n ts = .ok (a, rest)) : rest <:+ ts := by
  have hfollows := h n n ts ts rfl hp
  rw [hrun] at hfollows
  obtain ⟨-, -, -, -, hsuffix⟩ := hfollows
  exact hsuffix

theorem suffix_of_keywordCommands {k : Keyword} {p : Parser (List Command)}
    (hp : keywordCommands depth k = some p) {cs : List Command} (hrun : p n ts = .ok (cs, rest)) :
    rest <:+ ts :=
  suffix_of_follows (Change.follows_keywordCommands hp) (aligned_self ts _) hrun

theorem suffix_of_target {t : Target} (hrun : target depth n ts = .ok (t, rest)) : rest <:+ ts :=
  suffix_of_follows (Change.reads_target depth) (aligned_self ts _) hrun

theorem suffix_of_expression {e : Expr} (hrun : expression depth n ts = .ok (e, rest)) :
    rest <:+ ts :=
  suffix_of_follows (Change.reads_expression depth) (aligned_self ts _) hrun

theorem suffix_of_branchStatement {i : Nat} {s : Statement}
    (hrun : branchStatement depth i n ts = .ok (s, rest)) :
    rest <:+ ts :=
  suffix_of_follows ((Change.statementsAlike depth).branchStatement i i) (aligned_self ts _) hrun

/-- An assignment takes a token at least: its equals sign. -/
theorem length_of_assignment {c : Command} (hrun : assignment depth n ts = .ok (c, rest)) :
    rest.length < ts.length := by
  obtain ⟨t, us, htarget, hrun⟩ := run_bind_eq_ok hrun
  obtain ⟨_, vs, hequals, hrun⟩ := run_bind_eq_ok hrun
  obtain ⟨e, ws, hexpression, hrun⟩ := run_bind_eq_ok hrun
  obtain ⟨-, rfl⟩ := run_pure_eq_ok hrun
  obtain ⟨x, vs', hexpect, hunit⟩ :=
    run_bind_eq_ok (p := expect isEquals) (f := fun _ => pure ()) hequals
  obtain ⟨-, rfl⟩ := run_pure_eq_ok hunit
  obtain ⟨u, rfl, -⟩ := run_expect_eq_ok hexpect
  have hfirst := (suffix_of_target htarget).length_le
  have hlast := (suffix_of_expression hexpression).length_le
  simp only [List.length_cons] at hfirst
  omega

/-! ## Statements -/

/-- Nothing is left of the list of statements: the line ends here, or an ELSE follows. -/
def Ended (ts : List Token) : Prop := ∀ t ∈ ts.head?, (isKeyword .ELSE t).isSome

/-- What the reading of one statement leaves: it takes a token, and what was read is commands, or an
IF behind which its list ends. -/
structure ReadsOne (ts : List Token) (ss : List Statement) (rest : List Token) : Prop where
  shorter : rest.length < ts.length
  placed : (∃ column cs, ss = List.map (.command column) cs) ∨ BranchesLast ss ∧ Ended rest

theorem keyword?_of_ended {t : Token} (h : Ended (t :: ts)) : t.keyword? = some .ELSE := by
  obtain ⟨u, hu⟩ := Option.isSome_iff_exists.mp (h t rfl)
  exact Change.keyword?_of_isKeyword hu

/-- Behind the last statement of a list no more are read. -/
theorem loop_of_ended {p : Parser (List Statement)} (h : Ended ts) (k : Nat) {ss : List Statement}
    (hrun : statementLoop p k n ts = .ok (ss, rest)) : ss = [] ∧ rest = ts := by
  cases k with
  | zero => exact run_pure_eq_ok hrun
  | succ k =>
    cases ts with
    | nil => exact run_pure_eq_ok (n := n) hrun
    | cons t ts =>
      have hcolon : (isColon t).isSome = false := by
        rcases keyword?_eq_some (keyword?_of_ended h) with hkind | ⟨hkind, -⟩ | ⟨hkind, -⟩ <;>
          simp [isColon, that, hkind]
      obtain ⟨head, us, hpeek, hrun⟩ := run_bind_eq_ok hrun
      obtain ⟨rfl, rfl⟩ := run_pure_eq_ok (n := n) (a := some t) hpeek
      simp only [hcolon, h t rfl, Bool.false_eq_true, if_false, if_true] at hrun
      exact run_pure_eq_ok hrun

theorem run_atEnd_eq_ok {b : Bool} (h : atEnd n ts = .ok (b, rest)) : rest = ts := by
  obtain ⟨head, us, hpeek, h⟩ := run_bind_eq_ok h
  obtain ⟨rfl, rfl⟩ := run_pure_eq_ok (n := n) (a := ts.head?) hpeek
  cases us <;> exact (run_pure_eq_ok h).2

/-- A list of statements is read with every IF in the last place if each statement is. -/
theorem branchesLast_of_loop {p : Parser (List Statement)}
    (hp : ∀ ts ss rest, p n ts = .ok (ss, rest) → ReadsOne ts ss rest) (k : Nat)
    {ss : List Statement} (hk : ts.length ≤ k) (hrun : statementLoop p k n ts = .ok (ss, rest)) :
    BranchesLast ss ∧ Ended rest := by
  induction k generalizing ts ss with
  | zero =>
    obtain ⟨rfl, rfl⟩ := run_pure_eq_ok hrun
    obtain rfl : rest = [] := List.length_eq_zero_iff.mp (Nat.le_zero.mp hk)
    exact ⟨.nil, nofun⟩
  | succ k ih =>
    obtain ⟨head, us, hpeek, hrun⟩ := run_bind_eq_ok hrun
    obtain ⟨rfl, rfl⟩ := run_pure_eq_ok (n := n) (a := ts.head?) hpeek
    cases us with
    | nil =>
      obtain ⟨rfl, rfl⟩ := run_pure_eq_ok hrun
      exact ⟨.nil, nofun⟩
    | cons t us =>
      simp only [List.head?_cons] at hrun
      split at hrun
      · obtain ⟨_, vs, htail, hrun⟩ := run_bind_eq_ok hrun
        obtain ⟨-, rfl⟩ := run_pure_eq_ok (show (pure () : Parser Unit) n us = _ from htail)
        exact ih (Nat.le_of_succ_le_succ hk) hrun
      · split at hrun
        · rename_i helse
          obtain ⟨rfl, rfl⟩ := run_pure_eq_ok hrun
          exact ⟨.nil, fun u hu => Option.some.inj hu ▸ helse⟩
        · obtain ⟨first, vs, hfirst, hrun⟩ := run_bind_eq_ok hrun
          obtain ⟨hshorter, hplaced⟩ := hp _ _ _ hfirst
          obtain ⟨ended, vs', hend, hrun⟩ := run_bind_eq_ok hrun
          obtain rfl := run_atEnd_eq_ok hend
          cases ended with
          | false =>
            obtain ⟨_, _, -, hrun⟩ := run_bind_eq_ok hrun
            cases hrun
          | true =>
            obtain ⟨more, ws, hmore, hrun⟩ := run_bind_eq_ok hrun
            obtain ⟨rfl, rfl⟩ := run_pure_eq_ok hrun
            simp only [List.length_cons] at hshorter hk
            obtain ⟨column, cs, rfl⟩ | ⟨hlast, hended⟩ := hplaced
            · obtain ⟨hlast, hended⟩ := ih (by omega) hmore
              exact ⟨hlast.commands column cs, hended⟩
            · obtain ⟨rfl, rfl⟩ := loop_of_ended hended k hmore
              exact ⟨(List.append_nil first).symm ▸ hlast, hended⟩

/-- What the functions that read statements give, with `depth` calls open inside them. -/
structure Placed (n depth : Nat) : Prop where
  statementList : ∀ ts ss rest, statementList depth n ts = .ok (ss, rest) →
    BranchesLast ss ∧ Ended rest
  statement : ∀ ts ss rest, statement depth n ts = .ok (ss, rest) → ReadsOne ts ss rest
  branchStatement : ∀ i ts s rest, branchStatement depth i n ts = .ok (s, rest) →
    BranchesLast [s] ∧ Ended rest
  branchPart : ∀ ts ss rest, branchPart depth n ts = .ok (ss, rest) → BranchesLast ss ∧ Ended rest

namespace Placed

theorem zero : Placed n 0 where
  statementList _ _ _ h := by rw [Parser.statementList] at h; exact absurd h run_tooDeep
  statement _ _ _ h := by rw [Parser.statement] at h; exact absurd h run_tooDeep
  branchStatement _ _ _ _ h := by rw [Parser.branchStatement] at h; exact absurd h run_tooDeep
  branchPart _ _ _ h := by rw [Parser.branchPart] at h; exact absurd h run_tooDeep

theorem statementList_succ (h : Placed n depth) {ss : List Statement}
    (hrun : Parser.statementList (depth + 1) n ts = .ok (ss, rest)) :
    BranchesLast ss ∧ Ended rest := by
  rw [Parser.statementList] at hrun
  exact branchesLast_of_loop h.statement ts.length (Nat.le_refl _) hrun

/-- A jump in front of a list of statements. -/
theorem jump (h : Placed n depth) {i : Nat} {ss : List Statement}
    (hrun : (do
      let jump := Statement.command i (.goto (← lineRef))
      return jump :: (← Parser.statementList depth) : Parser (List Statement)) n ts =
        .ok (ss, rest)) :
    BranchesLast ss ∧ Ended rest := by
  obtain ⟨ref, us, -, hrun⟩ := run_bind_eq_ok hrun
  obtain ⟨more, vs, hlist, hrun⟩ := run_bind_eq_ok hrun
  obtain ⟨rfl, rfl⟩ := run_pure_eq_ok hrun
  obtain ⟨hlast, hended⟩ := h.statementList _ _ _ hlist
  exact ⟨.command hlast, hended⟩

theorem branchPart_succ (h : Placed n depth) {ss : List Statement}
    (hrun : Parser.branchPart (depth + 1) n ts = .ok (ss, rest)) :
    BranchesLast ss ∧ Ended rest := by
  rw [Parser.branchPart] at hrun
  obtain ⟨head, us, hpeek, hrun⟩ := run_bind_eq_ok hrun
  obtain ⟨rfl, rfl⟩ := run_pure_eq_ok (n := n) (a := ts.head?) hpeek
  cases us with
  | nil => exact h.statementList _ _ _ hrun
  | cons t us =>
    simp only [List.head?_cons] at hrun
    split at hrun
    · exact h.jump hrun
    · exact h.statementList _ _ _ hrun

/-- What follows the first part of an IF. -/
theorem elsePart (h : Placed n depth) {i : Nat} {condition : Expr} {yes : List Statement}
    {s : Statement} (hyes : BranchesLast yes) (hended : Ended ts)
    (hrun : (do
      if ← accepts (isKeyword .ELSE) then return .branch i condition yes (← Parser.branchPart depth)
      else return .branch i condition yes [] : Parser Statement) n ts = .ok (s, rest)) :
    BranchesLast [s] ∧ Ended rest := by
  obtain ⟨given, us, haccepts, htail⟩ := run_bind_eq_ok hrun
  obtain ⟨found, us', haccept, hgiven⟩ := run_bind_eq_ok haccepts
  obtain ⟨rfl, rfl⟩ := run_pure_eq_ok hgiven
  obtain ⟨rfl, rfl⟩ | ⟨t, a, -, -, rfl⟩ := run_accept_eq_ok haccept
  · obtain ⟨rfl, rfl⟩ := run_pure_eq_ok (n := n) (a := Statement.branch i condition yes []) htail
    exact ⟨.branch hyes .nil, hended⟩
  · obtain ⟨no, vs, hno, hrun⟩ := run_bind_eq_ok htail
    obtain ⟨rfl, rfl⟩ := run_pure_eq_ok hrun
    obtain ⟨hlast, hended⟩ := h.branchPart _ _ _ hno
    exact ⟨.branch hyes hlast, hended⟩

theorem branchStatement_succ (h : Placed n depth) {i : Nat} {s : Statement}
    (hrun : Parser.branchStatement (depth + 1) i n ts = .ok (s, rest)) :
    BranchesLast [s] ∧ Ended rest := by
  rw [Parser.branchStatement] at hrun
  obtain ⟨condition, us, -, hrun⟩ := run_bind_eq_ok hrun
  obtain ⟨found, us, -, hrun⟩ := run_bind_eq_ok hrun
  cases found with
  | none =>
    obtain ⟨_, vs, -, hrun⟩ := run_bind_eq_ok hrun
    obtain ⟨yes, ws, hpart, hrun⟩ := run_bind_eq_ok hrun
    obtain ⟨hyes, hended⟩ := h.branchPart _ _ _ hpart
    exact h.elsePart hyes hended hrun
  | some t =>
    obtain ⟨ref, vs, -, hrun⟩ := run_bind_eq_ok hrun
    obtain ⟨more, ws, hlist, hrun⟩ := run_bind_eq_ok hrun
    obtain ⟨hmore, hended⟩ := h.statementList _ _ _ hlist
    exact h.elsePart (.command hmore) hended hrun

theorem statement_succ (h : Placed n depth) {ss : List Statement}
    (hrun : Parser.statement (depth + 1) n ts = .ok (ss, rest)) : ReadsOne ts ss rest := by
  cases ts with
  | nil => rw [run_statement_nil] at hrun; cases hrun
  | cons t ts =>
    by_cases hname : ∃ kind name, t.kind = .name kind name
    · obtain ⟨kind, name, hname⟩ := hname
      rw [run_statement_name hname] at hrun
      obtain ⟨c, us, hassign, hrun⟩ := run_bind_eq_ok hrun
      obtain ⟨rfl, rfl⟩ := run_pure_eq_ok hrun
      exact ⟨length_of_assignment hassign, .inl ⟨t.column, [c], rfl⟩⟩
    · cases hk : t.keyword? with
      | none =>
        rw [run_statement_refuse hk fun kind name ht => hname ⟨kind, name, ht⟩] at hrun
        cases hrun
      | some k =>
        by_cases hif : k = .IF
        · subst hif
          rw [run_statement_branch hk] at hrun
          obtain ⟨s, us, hbranch, hrun⟩ := run_bind_eq_ok hrun
          obtain ⟨rfl, rfl⟩ := run_pure_eq_ok hrun
          have hshorter := (suffix_of_branchStatement hbranch).length_le
          exact ⟨Nat.lt_succ_of_le hshorter, .inr (h.branchStatement _ _ _ _ hbranch)⟩
        · cases hp : keywordCommands depth k with
          | none =>
            rw [run_statement_unknown hk hif hp] at hrun
            cases hrun
          | some p =>
            rw [run_statement_keyword hk hif hp] at hrun
            obtain ⟨cs, us, hcommands, hrun⟩ := run_bind_eq_ok hrun
            obtain ⟨rfl, rfl⟩ := run_pure_eq_ok hrun
            have hshorter := (suffix_of_keywordCommands hp hcommands).length_le
            exact ⟨Nat.lt_succ_of_le hshorter, .inl ⟨t.column, cs, rfl⟩⟩

end Placed

/-- **Statements are read with every IF in the last place**, however deep they may be nested. -/
theorem placed (n depth : Nat) : Placed n depth := by
  induction depth with
  | zero => exact .zero
  | succ depth ih =>
    exact ⟨fun _ _ _ => ih.statementList_succ, fun _ _ _ => ih.statement_succ,
      fun _ _ _ _ => ih.branchStatement_succ, fun _ _ _ => ih.branchPart_succ⟩

theorem branchesLast_of_parseTokens {room : Nat} {ss : List Statement}
    (h : parseTokens room n ts = .ok ss) : BranchesLast ss := by
  rw [run_parseTokens] at h
  cases hrun : statementList (room - 1) n ts with
  | error e => rw [hrun] at h; cases h
  | ok r =>
    obtain ⟨statements, left⟩ := r
    rw [hrun] at h
    cases left with
    | cons t left => cases h
    | nil =>
      obtain rfl := Except.ok.inj h
      exact ((placed n (room - 1)).statementList _ _ _ hrun).1

/-- The statements of a line come from some tokens. -/
theorem parseTokens_of_parseLine {room : Nat} {text : String} {l : SourceLine}
    (h : parseLine room text = .ok l) :
    ∃ ending ts, parseTokens (room - 1) ending ts = .ok l.statements := by
  unfold parseLine at h
  simp only at h
  split at h
  · rename_i start hstart
    split at h
    · cases h
    · split at h
      · cases h
      · have hline := placeFault_eq_ok h
        unfold numberedLine at hline
        obtain ⟨ts, -, hline⟩ := ok_of_bind hline
        obtain ⟨us, hstatements⟩ : ∃ us, (do
            let statements ← orFault
              (parseTokens (room - 1) ((listedText start.number (Text.dropFront Text.isBlank
                (Listing.render (start.length + 1) ts))).toList.length + 1) us)
            return ⟨some start.number, statements, Text.dropFront Text.isBlank
              (Listing.render (start.length + 1) ts)⟩ : Except Fault SourceLine) = .ok l := by
          simp only at hline
          split at hline
          · exact ⟨ts, hline⟩
          · obtain ⟨us, -, hline⟩ := ok_of_bind hline
            exact ⟨us, hline⟩
        obtain ⟨statements, hparse, hl⟩ := ok_of_bind hstatements
        obtain rfl := Except.ok.inj hl
        exact ⟨_, us, orFault_eq_ok hparse⟩
  · obtain ⟨ts, -, h⟩ := ok_of_bind h
    obtain ⟨statements, hparse, hl⟩ := ok_of_bind h
    obtain rfl := Except.ok.inj hl
    exact ⟨_, ts, orFault_eq_ok hparse⟩

/-- **In every line that is read an IF is the last statement of its list.** -/
theorem branchesLast_of_parseLine {room : Nat} {text : String} {l : SourceLine}
    (h : parseLine room text = .ok l) :
    BranchesLast l.statements := by
  obtain ⟨ending, ts, hstatements⟩ := parseTokens_of_parseLine h
  exact branchesLast_of_parseTokens hstatements

end Parser

end LineBasic
