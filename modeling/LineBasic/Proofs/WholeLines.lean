import Mathlib
import LineBasic.Proofs.BranchPlacement
import LineBasic.Proofs.CommandOutcomes

/-!
# Whole lines

A line of tokens is read to its end or refused. Which of the two it is does not depend on the counts
that bound the loops of the parser, and on the bound on open calls only in that a line may be nested
beyond it.

* `Spells`: which tokens are those of which statements. An ELSE goes to the innermost IF that has
  none yet.
* `LinesSettle`, `linesSettle`: what comes of reading statements, at every depth.
* `LoopsEnd`, `loopsEnd`: no loop is ended by the count of its rounds.
* **`parseTokens_whole`**: a line of `k` tokens needs at most `9 * k + 13` open calls. If so many
  may be open as it needs, it is read as the statements that all its tokens spell, or refused at the
  column of a token or after the line.
* `parseLine_room`: in another room a line is read as the same one, or is nested too deeply for it.
-/

namespace LineBasic

/-! ## Tokens of statements -/

/-- Where tokens stand that spell statements: in a list of statements, behind THEN or ELSE, or
behind the condition of an IF. -/
inductive Place where
  | list
  | part
  | condition

open LineBasic.Parser in
/-- The tokens spell the statements. The first list has the IFs in front of the tokens that are
still without an ELSE, the innermost first, and the last one has those behind them. -/
inductive Spells : Place → List Token → List Token → List Statement → List Token → Prop where
  | nil {waiting : List Token} : Spells .list waiting [] [] waiting
  | colon {waiting waiting' ts : List Token} {t : Token} {ss : List Statement}
      (sign : t.kind = .colon)
      (rest : Spells .list waiting ts ss waiting') : Spells .list waiting (t :: ts) ss waiting'
  /-- commands in the column of their first token, whose references are among the others -/
  | commands {waiting waiting' body ts : List Token} {t : Token} {cs : List Command}
      {ss : List Statement}
      (plain : Plain (t :: body)) (refer : AllRefer body cs)
      (rest : Spells .list waiting ts ss waiting') :
      Spells .list waiting (t :: body ++ ts) (cs.map (.command t.column) ++ ss) waiting'
  /-- CLEAR, behind which anything may stand up to the end of the statement -/
  | clear {waiting waiting' body ts : List Token} {t : Token} {ss : List Statement}
      (word : t.keyword? = some .CLEAR)
      (inside : ∀ u ∈ body, endsStatement u = false) (rest : Spells .list waiting ts ss waiting') :
      Spells .list waiting (t :: body ++ ts) (.command t.column .clear :: ss) waiting'
  /-- an IF without an ELSE, which waits for one from then on -/
  | branch {waiting waiting' condition ts : List Token} {t : Token} {e : Expr}
      {yes : List Statement}
      (word : t.keyword? = some .IF) (plain : Plain condition)
      (part : Spells .condition (t :: waiting) ts yes waiting') :
      Spells .list waiting (t :: condition ++ ts) [.branch t.column e yes []] waiting'
  /-- an IF that is the innermost one without an ELSE when the ELSE comes -/
  | branchElse {waiting waiting' condition ts us : List Token} {t u : Token} {e : Expr}
      {yes no : List Statement}
      (word : t.keyword? = some .IF) (plain : Plain condition)
      (part : Spells .condition (t :: waiting) ts yes (t :: waiting))
      (word' : u.keyword? = some .ELSE)
      (part' : Spells .part waiting us no waiting') :
      Spells .list waiting (t :: condition ++ ts ++ u :: us) [.branch t.column e yes no] waiting'
  | statements {waiting waiting' ts : List Token} {ss : List Statement}
      (spells : Spells .list waiting ts ss waiting') :
      Spells .part waiting ts ss waiting'
  | jump {waiting waiting' ts : List Token} {t : Token} {r : LineRef} {ss : List Statement}
      (written : r.IsWritten [t])
      (rest : Spells .list waiting ts ss waiting') :
      Spells .part waiting (t :: ts) (.command t.column (.goto r) :: ss) waiting'
  | THEN {waiting waiting' ts : List Token} {t : Token} {ss : List Statement}
      (word : t.keyword? = some .THEN)
      (part : Spells .part waiting ts ss waiting') : Spells .condition waiting (t :: ts) ss waiting'
  | GOTO {waiting waiting' ts : List Token} {t u : Token} {r : LineRef} {ss : List Statement}
      (word : t.keyword? = some .GOTO) (written : r.IsWritten [u])
      (rest : Spells .list waiting ts ss waiting') :
      Spells .condition waiting (t :: u :: ts) (.command t.column (.goto r) :: ss) waiting'

/-! ## Places of statements -/

namespace Statement

/-- The column of a statement. -/
def column : Statement → Nat
  | .command column _ => column
  | .branch column _ _ _ => column

/-- The references to lines in a statement, those in its parts aside. -/
def refs : Statement → List LineRef
  | .command _ c => c.refs
  | .branch _ _ _ _ => []

/-- The statement is one of these or stands in a part of one, however deep. -/
inductive Occurs (s : Statement) : List Statement → Prop where
  | head {ss : List Statement} : s.Occurs (s :: ss)
  | tail {r : Statement} {ss : List Statement} (occurs : s.Occurs ss) : s.Occurs (r :: ss)
  | yes {column : Nat} {e : Expr} {yes no ss : List Statement} (occurs : s.Occurs yes) :
      s.Occurs (.branch column e yes no :: ss)
  | no {column : Nat} {e : Expr} {yes no ss : List Statement} (occurs : s.Occurs no) :
      s.Occurs (.branch column e yes no :: ss)

/-- The statement is in the column of a token, and its references are among the tokens. -/
structure Located (ts : List Token) (s : Statement) : Prop where
  column : ∃ t ∈ ts, t.column = s.column
  refs : ∀ r ∈ s.refs, r.IsWritten ts

theorem Located.mono {ts us : List Token} {s : Statement} (h : s.Located ts) (hsub : ts ⊆ us) :
    s.Located us := by
  obtain ⟨⟨t, ht, hcolumn⟩, hrefs⟩ := h
  refine ⟨⟨t, hsub ht, hcolumn⟩, fun r hr => ?_⟩
  obtain ⟨hrange, u, hu, hnumber⟩ := hrefs r hr
  exact ⟨hrange, u, hsub hu, hnumber⟩

theorem Occurs.of_append {s : Statement} {ss rs : List Statement} (h : s.Occurs (ss ++ rs)) :
    s.Occurs ss ∨ s.Occurs rs := by
  induction ss with
  | nil => exact .inr h
  | cons r ss ih =>
    cases h with
    | head => exact .inl .head
    | tail occurs => exact (ih occurs).imp .tail id
    | yes occurs => exact .inl (.yes occurs)
    | no occurs => exact .inl (.no occurs)

theorem Occurs.of_commands {s : Statement} {i : Nat} {cs : List Command}
    (h : s.Occurs (cs.map (.command i))) :
    ∃ c ∈ cs, s = .command i c := by
  induction cs with
  | nil => cases h
  | cons c cs ih =>
    cases h with
    | head => exact ⟨c, List.mem_cons_self, rfl⟩
    | tail occurs =>
      obtain ⟨c', hc, hs⟩ := ih occurs
      exact ⟨c', List.mem_cons_of_mem c hc, hs⟩

end Statement

/-- **Statements that are spelled are located** among their tokens, with all that they contain. -/
theorem Spells.located {place : Place} {waiting waiting' ts : List Token} {ss : List Statement}
    (h : Spells place waiting ts ss waiting') {s : Statement} (hs : s.Occurs ss) :
    s.Located ts := by
  induction h with
  | nil => cases hs
  | colon _ _ ih => exact (ih hs).mono (List.subset_cons_self _ _)
  | @commands _ _ body ts t cs ss _ refer _ ih =>
    rcases hs.of_append with hs | hs
    · obtain ⟨c, hc, rfl⟩ := hs.of_commands
      refine ⟨⟨t, by simp, rfl⟩, fun r hr => ?_⟩
      exact Parser.lasting_isWritten [t] ts (refer.2 c hc r hr)
    · exact (ih hs).mono (List.subset_append_right _ _)
  | @clear _ _ body ts t ss _ _ _ ih =>
    cases hs with
    | head => exact ⟨⟨t, by simp, rfl⟩, List.forall_mem_nil _⟩
    | tail occurs => exact (ih occurs).mono (List.subset_append_right _ _)
  | @branch _ _ condition ts t e yes _ _ _ ih =>
    cases hs with
    | head => exact ⟨⟨t, by simp, rfl⟩, List.forall_mem_nil _⟩
    | tail occurs => cases occurs
    | yes occurs => exact (ih occurs).mono (List.subset_append_right _ _)
    | no occurs => cases occurs
  | @branchElse _ _ condition ts us t u e yes no _ _ _ _ _ ih ih' =>
    cases hs with
    | head => exact ⟨⟨t, by simp, rfl⟩, List.forall_mem_nil _⟩
    | tail occurs => cases occurs
    | yes occurs => exact (ih occurs).mono fun x hx => by simp [hx]
    | no occurs => exact (ih' occurs).mono fun x hx => by simp [hx]
  | statements _ ih => exact ih hs
  | @jump _ _ ts t r ss written _ ih =>
    cases hs with
    | head =>
      exact ⟨⟨t, by simp, rfl⟩,
        List.forall_mem_singleton.mpr (Parser.lasting_isWritten [] ts written)⟩
    | tail occurs => exact (ih occurs).mono (List.subset_cons_self _ _)
  | THEN _ _ ih => exact (ih hs).mono (List.subset_cons_self _ _)
  | @GOTO _ _ ts t u r ss _ written _ ih =>
    cases hs with
    | head =>
      exact ⟨⟨t, by simp, rfl⟩,
        List.forall_mem_singleton.mpr (Parser.lasting_isWritten [t] ts written)⟩
    | tail occurs => exact (ih occurs).mono fun x hx => by simp [hx]

namespace Parser

variable {columns : Set Nat} {room : Int} {n depth : Nat} {t : Token} {ts taken rest : List Token}

/-! ## Lists of statements -/

/-- Statements have been read up to the end of the line or to an ELSE. Where an ELSE follows, every
IF among them has one. -/
structure Ending (place : Place) (taken : List Token) (ss : List Statement) (rest : List Token) :
    Prop where
  ended : Ended rest
  spells : ∀ waiting, ∃ waiting', Spells place waiting taken ss waiting' ∧
    (rest ≠ [] → waiting' = waiting)

/-- A statement has been read, which others may follow, or behind which its list ends. -/
structure Single (taken : List Token) (ss : List Statement) (rest : List Token) : Prop where
  advances : taken ≠ []
  follows : (∀ waiting ts rs waiting', Spells .list waiting ts rs waiting' →
    Spells .list waiting (taken ++ ts) (ss ++ rs) waiting') ∨ Ending .list taken ss rest

theorem ending_nil (h : Ended ts) : Ending .list [] [] ts :=
  ⟨h, fun waiting => ⟨waiting, .nil, fun _ => rfl⟩⟩

theorem ended_nil : Ended [] := by
  rintro t ⟨⟩

theorem run_atEnd (n : Nat) (ts : List Token) : ∃ b, atEnd n ts = .ok (b, ts) := by
  cases ts with
  | nil => exact ⟨true, rfl⟩
  | cons t ts => exact ⟨endsStatement t, rfl⟩

/-- Behind the last statement of a list no more are read. -/
theorem run_loop_of_ended (p : Parser (List Statement)) (h : Ended ts) (k : Nat) :
    statementLoop p k n ts = .ok ([], ts) := by
  cases k with
  | zero => rfl
  | succ k =>
    cases ts with
    | nil => rfl
    | cons t ts =>
      have hcolon : (isColon t).isSome = false := by
        rcases keyword?_eq_some (keyword?_of_ended h) with hkind | ⟨hkind, -⟩ | ⟨hkind, -⟩ <;>
          simp [isColon, that, hkind]
      have hpeek : peek? n (t :: ts) = .ok (some t, t :: ts) := rfl
      rw [statementLoop, run_bind_of_ok hpeek]
      simp only [hcolon, h t rfl, Bool.false_eq_true, if_false, if_true]
      rfl

/-- CLEAR takes the rest of its statement. -/
theorem exists_skipped (ts : List Token) :
    ∃ body, ts = body ++ skipStatement ts ∧ ∀ t ∈ body, endsStatement t = false := by
  induction ts with
  | nil => exact ⟨[], rfl, List.forall_mem_nil _⟩
  | cons t ts ih =>
    unfold skipStatement
    split
    · exact ⟨[], rfl, List.forall_mem_nil _⟩
    · rename_i hends
      obtain ⟨body, split, hbody⟩ := ih
      exact ⟨t :: body, congrArg (t :: ·) split,
        List.forall_mem_cons.mpr ⟨Bool.eq_false_of_not_eq_true hends, hbody⟩⟩

theorem eq_of_isKeyword {k : Keyword} {u : Token} (h : isKeyword k t = some u) : t = u := by
  unfold isKeyword at h
  split_ifs at h
  exact Option.some.inj h

theorem kind_of_isColon (h : (isColon t).isSome = true) : t.kind = .colon := by
  unfold isColon that at h
  cases hkind : t.kind <;> simp [hkind] at h ⊢

theorem Ending.map {place place' : Place} {taken' : List Token} {ss ss' : List Statement}
    (h : Ending place taken ss rest)
    (hS : ∀ waiting waiting', Spells place waiting taken ss waiting' →
      Spells place' waiting taken' ss' waiting') :
    Ending place' taken' ss' rest := by
  refine ⟨h.ended, fun waiting => ?_⟩
  obtain ⟨waiting', hspells, hrest⟩ := h.spells waiting
  exact ⟨waiting', hS waiting waiting' hspells, hrest⟩

/-- A list of statements is read like its statements. -/
theorem outcome_loop {p q : Parser (List Statement)}
    (h : ∀ ts, Known columns n ts → Outcome columns room Single ts (p n ts) (q n ts)) (k : Nat)
    (hk : ts.length ≤ k) (hknown : Known columns n ts) :
    Outcome columns room (Ending .list) ts (statementLoop p k n ts) (statementLoop q k n ts) := by
  induction k generalizing ts with
  | zero =>
    obtain rfl := List.length_eq_zero_iff.mp (Nat.le_zero.mp hk)
    exact .ok [] rfl (ending_nil ended_nil)
  | succ k ih =>
    refine .peek ?_
    cases ts with
    | nil => exact .ok [] rfl (ending_nil ended_nil)
    | cons t ts =>
      simp only [List.head?_cons]
      split_ifs with hcolon helse
      · refine .behindToken ?_
        refine (ih (Nat.le_of_succ_le_succ hk) hknown.of_cons).weaken
          (by omega) fun more ss rest _ hending => ?_
        exact hending.map fun _ _ => .colon (kind_of_isColon hcolon)
      · exact .ok [] rfl (ending_nil fun u hu => Option.some.inj hu ▸ helse)
      · refine (h (t :: ts) hknown).bind fun taken ss rest split hsingle => ?_
        obtain ⟨ended, hend⟩ := run_atEnd n rest
        rw [run_bind_of_ok hend, run_bind_of_ok hend]
        rw [split] at hknown
        cases ended with
        | false => exact .refuse hknown.of_append
        | true =>
          obtain hmore | hlast := hsingle.follows
          · have hlength : rest.length ≤ k := by
              have := List.length_pos_of_ne_nil hsingle.advances
              rw [split, List.length_append] at hk
              omega
            have hrest :=
              (ih hlength hknown.of_append).less (show room - 9 * taken.length ≤ room by omega)
            refine hrest.bind fun more rs left _ hending => .ok [] rfl ?_
            rw [List.append_nil]
            exact hending.map fun waiting waiting' => hmore waiting more rs waiting'
          · change Outcome columns _ _ rest
              ((statementLoop p k >>= fun rs => pure (ss ++ rs)) n rest)
              ((statementLoop q k >>= fun rs => pure (ss ++ rs)) n rest)
            rw [run_bind_of_ok (run_loop_of_ended p hlast.ended k),
              run_bind_of_ok (run_loop_of_ended q hlast.ended k)]
            refine .ok [] rfl ?_
            rw [List.append_nil, List.append_nil]
            exact hlast

/-! ## Statements -/

/-- What comes of the functions that read statements, with `depth` calls open inside them. -/
structure LinesSettle (columns : Set Nat) (n depth : Nat) : Prop where
  statementList : ∀ ts, Known columns n ts →
    Outcome columns (depth - 13) (Ending .list) ts (statementList depth n ts)
    (statementList (depth + 1) n ts)
  statement : ∀ ts, Known columns n ts →
    Outcome columns (depth - 12) Single ts (statement depth n ts) (statement (depth + 1) n ts)
  branchStatement : ∀ t, t.keyword? = some .IF → ∀ ts, Known columns n ts →
    Outcome columns (depth - 15) (fun taken s => Ending .list (t :: taken) [s]) ts
    (branchStatement depth t.column n ts)
      (branchStatement (depth + 1) t.column n ts)
  branchPart : ∀ ts, Known columns n ts →
    Outcome columns (depth - 14) (Ending .part) ts (branchPart depth n ts)
    (branchPart (depth + 1) n ts)

namespace LinesSettle

theorem zero : LinesSettle columns n 0 where
  statementList ts hknown := by
    nth_rewrite 1 [Parser.statementList]
    exact .noRoom hknown (by decide)
  statement ts hknown := by
    nth_rewrite 1 [Parser.statement]
    exact .noRoom hknown (by decide)
  branchStatement t _ ts hknown := by
    nth_rewrite 1 [Parser.branchStatement]
    exact .noRoom hknown (by decide)
  branchPart ts hknown := by
    nth_rewrite 1 [Parser.branchPart]
    exact .noRoom hknown (by decide)

theorem statementList_succ (h : LinesSettle columns n depth) (ts : List Token)
    (hknown : Known columns n ts) :
    Outcome columns (↑(depth + 1) - 13) (Ending .list) ts (Parser.statementList (depth + 1) n ts)
      (Parser.statementList (depth + 1 + 1) n ts) := by
  rw [Parser.statementList, Parser.statementList]
  exact (outcome_loop h.statement ts.length le_rfl hknown).less (by omega)

theorem branchPart_succ (h : LinesSettle columns n depth) (ts : List Token)
    (hknown : Known columns n ts) :
    Outcome columns (↑(depth + 1) - 14) (Ending .part) ts (Parser.branchPart (depth + 1) n ts)
      (Parser.branchPart (depth + 1 + 1) n ts) := by
  rw [Parser.branchPart, Parser.branchPart]
  have hlist : ∀ ts, Known columns n ts → Outcome columns (↑(depth + 1) - 14) (Ending .part) ts
      (Parser.statementList depth n ts) (Parser.statementList (depth + 1) n ts) := fun ts hknown =>
    (h.statementList ts hknown).weaken (by omega) fun _ _ _ _ hending =>
      hending.map fun _ _ => .statements
  refine .peek ?_
  cases ts with
  | nil => exact hlist [] hknown
  | cons t ts =>
    simp only [List.head?_cons]
    split_ifs
    · refine (settles_lineRef (t :: ts) hknown).bind fun taken r rest split hold => ?_
      obtain ⟨-, u, rfl, hwritten⟩ := hold
      obtain ⟨rfl, rfl⟩ := List.cons.inj split
      refine ((h.statementList ts hknown.of_cons).less ?_).bind fun more ss rest _ hending =>
        .ok [] rfl ?_
      · simp only [List.length_singleton]
        omega
      · rw [List.append_nil]
        exact hending.map fun _ _ => .jump hwritten
    · exact hlist (t :: ts) hknown

/-- What follows the first part of an IF. An ELSE that stands there goes to this IF. -/
theorem elsePart (h : LinesSettle columns n depth) (hword : t.keyword? = some .IF)
    {condition : List Token} (e : Expr) (hcondition : Plain condition) {yes : List Statement}
    (hyes : Ending .condition taken yes rest) (hknown : Known columns n rest) :
    Outcome columns (depth - 14)
      (fun more s => Ending .list (t :: (condition ++ (taken ++ more))) [s]) rest
      ((do
        if ← accepts (isKeyword .ELSE) then
          return .branch t.column e yes (← Parser.branchPart depth)
        else return .branch t.column e yes [] : Parser Statement) n rest)
      ((do
        if ← accepts (isKeyword .ELSE) then
          return .branch t.column e yes (← Parser.branchPart (depth + 1))
        else return .branch t.column e yes [] : Parser Statement) n rest) := by
  cases rest with
  | nil =>
    refine .ok [] rfl ⟨ended_nil, fun waiting => ?_⟩
    obtain ⟨waiting', hspells, -⟩ := hyes.spells (t :: waiting)
    refine ⟨waiting', ?_, fun hne => absurd rfl hne⟩
    rw [List.append_nil]
    exact .branch hword hcondition hspells
  | cons u us =>
    have helse : u.keyword? = some .ELSE := keyword?_of_ended hyes.ended
    have haccepts : accepts (isKeyword .ELSE) n (u :: us) = .ok (true, us) :=
      run_accepts_of_some (if_pos helse)
    rw [run_bind_of_ok haccepts, run_bind_of_ok haccepts]
    refine .behindToken ?_
    have hpart := (h.branchPart us hknown.of_cons).less (show (depth - 14 - 9 : Int) ≤ _ by omega)
    refine hpart.bind fun more no left _ hno => .ok [] rfl ?_
    refine ⟨hno.ended, fun waiting => ?_⟩
    obtain ⟨inner, hspells, hinner⟩ := hyes.spells (t :: waiting)
    obtain rfl := hinner (List.cons_ne_nil u us)
    obtain ⟨waiting', hspells', hrest⟩ := hno.spells waiting
    refine ⟨waiting', ?_, hrest⟩
    have hbranch := Spells.branchElse (e := e) hword hcondition hspells helse hspells'
    simpa using hbranch

theorem branchStatement_succ (h : LinesSettle columns n depth) (t : Token)
    (hword : t.keyword? = some .IF) (ts : List Token) (hknown : Known columns n ts) :
    Outcome columns (↑(depth + 1) - 15) (fun taken s => Ending .list (t :: taken) [s]) ts
      (Parser.branchStatement (depth + 1) t.column n ts)
        (Parser.branchStatement (depth + 1 + 1) t.column n ts) := by
  rw [Parser.branchStatement, Parser.branchStatement]
  have hexpression :=
    (settles_expression ts hknown).less (show (↑(depth + 1) - 15 : Int) ≤ depth - 11 by omega)
  refine hexpression.bind fun condition e us hus hold => ?_
  obtain ⟨hcondition, -⟩ := hold
  rw [hus] at hknown
  replace hknown := hknown.of_append
  refine (Settles.accept (spares_isKeyword (by decide) (by decide)) us hknown).bind
    fun taken found vs hvs hold => ?_
  obtain ⟨-, hfound⟩ := hold
  cases hfound with
  | none =>
    obtain rfl : us = vs := hvs
    refine (Settles.discard (spares_isKeyword (by decide) (by decide)) us hknown).bind
      fun taken _ ws hws hold => ?_
    obtain ⟨-, u, w, rfl, hw, -⟩ := hold
    rw [hws] at hknown
    replace hknown := hknown.of_append
    refine ((h.branchPart ws hknown).less ?_).bind fun more yes rest hrest hyes => ?_
    · simp only [List.length_nil, List.length_singleton]
      omega
    · have hpart : Ending .condition (w :: more) yes rest :=
        hyes.map fun _ _ => .THEN (Change.keyword?_of_isKeyword hw)
      rw [hrest] at hknown
      refine (h.elsePart hword e hcondition hpart hknown.of_append).less ?_
      simp only [List.length_nil, List.length_singleton]
      omega
  | some holds =>
    obtain ⟨w, rfl, hw, -⟩ := holds
    obtain rfl := eq_of_isKeyword hw
    rw [hvs] at hknown
    replace hknown := hknown.of_append
    refine (settles_lineRef vs hknown).bind fun taken r ws hws hold => ?_
    obtain ⟨-, u, rfl, hwritten⟩ := hold
    rw [hws] at hknown
    replace hknown := hknown.of_append
    refine ((h.statementList ws hknown).less ?_).bind fun more ss rest hrest hss => ?_
    · simp only [List.length_singleton]
      omega
    · have hpart : Ending .condition (w :: u :: more) (.command w.column (.goto r) :: ss) rest :=
        hss.map fun _ _ => .GOTO (Change.keyword?_of_isKeyword hw) hwritten
      rw [hrest] at hknown
      refine (h.elsePart hword e hcondition hpart hknown.of_append).less ?_
      simp only [List.length_singleton]
      omega

/-- An assignment without its word. -/
theorem statement_name {kind : NameKind} {name : String} (hname : t.kind = .name kind name)
    (hknown : Known columns n (t :: ts)) :
    Outcome columns (depth - 11) Single (t :: ts) (Parser.statement (depth + 1) n (t :: ts))
      (Parser.statement (depth + 1 + 1) n (t :: ts)) := by
  rw [run_statement_name hname, run_statement_name hname]
  refine (settles_assignment (t :: ts) hknown).bind fun taken c rest split hold => .ok [] rfl ?_
  obtain ⟨hplain, hne, hbare⟩ := hold
  obtain ⟨u, body, rfl⟩ := List.exists_cons_of_ne_nil hne
  obtain ⟨rfl, -⟩ := List.cons.inj split
  rw [List.append_nil]
  exact ⟨hne, .inl fun _ _ _ _ =>
    .commands hplain (allRefer_singleton (show Bare body c from hbare).refers)⟩

/-- The commands of a reserved word, if there are any. -/
theorem statement_keyword {k : Keyword} (hk : t.keyword? = some k) (hif : k ≠ .IF)
    (hclear : k ≠ .CLEAR) (hknown : Known columns n (t :: ts)) :
    Outcome columns (depth - 2) Single (t :: ts) (Parser.statement (depth + 1) n (t :: ts))
      (Parser.statement (depth + 1 + 1) n (t :: ts)) := by
  have hcommands := settles_keywordCommands columns n depth hclear
  generalize hp : keywordCommands depth k = p at hcommands
  generalize hq : keywordCommands (depth + 1) k = q at hcommands
  cases hcommands with
  | none =>
    rw [run_statement_unknown hk hif hp, run_statement_unknown hk hif hq]
    exact .refused (hknown.token t List.mem_cons_self)
  | some hsettles =>
    rw [run_statement_keyword hk hif hp, run_statement_keyword hk hif hq]
    have hapart : ¬Apart t := by
      rintro (hkind | hkind | hkind) <;> simp only [Token.keyword?, hkind] at hk <;> cases hk
      · cases hp
      · exact hif rfl
    refine .behindToken ?_
    refine ((hsettles ts hknown.of_cons).less (by omega)).bind
      fun body cs rest _ hold => .ok [] rfl ⟨List.cons_ne_nil _ _, .inl fun _ _ _ _ => ?_⟩
    rw [List.append_nil]
    exact .commands (hold.1.cons hapart) hold.2

theorem statement_succ (h : LinesSettle columns n depth) (ts : List Token)
    (hknown : Known columns n ts) :
    Outcome columns (↑(depth + 1) - 12) Single ts (Parser.statement (depth + 1) n ts)
      (Parser.statement (depth + 1 + 1) n ts) := by
  cases ts with
  | nil =>
    rw [run_statement_nil, run_statement_nil]
    exact .refused hknown.ending
  | cons t ts =>
    by_cases hname : ∃ kind name, t.kind = .name kind name
    · obtain ⟨kind, name, hname⟩ := hname
      exact (statement_name hname hknown).less (by omega)
    · cases hk : t.keyword? with
      | none =>
        have ht : ∀ kind name, t.kind ≠ .name kind name :=
          fun kind name ht => hname ⟨kind, name, ht⟩
        rw [run_statement_refuse hk ht, run_statement_refuse hk ht]
        exact .refused (hknown.token t List.mem_cons_self)
      | some k =>
        by_cases hif : k = .IF
        · subst hif
          rw [run_statement_branch hk, run_statement_branch hk]
          refine .behindToken ?_
          refine ((h.branchStatement t hk ts hknown.of_cons).less (by omega)).bind
            fun taken s rest _ hending => .ok [] rfl ⟨List.cons_ne_nil _ _, .inr ?_⟩
          rw [List.append_nil]
          exact hending
        · by_cases hclear : k = .CLEAR
          · subst hclear
            rw [run_statement_keyword hk hif rfl, run_statement_keyword hk hif rfl]
            obtain ⟨body, split, hinside⟩ := exists_skipped ts
            refine .ok (t :: body) (congrArg (t :: ·) split)
              ⟨List.cons_ne_nil _ _, .inl fun _ _ _ _ => ?_⟩
            exact .clear hk hinside
          · exact (statement_keyword hk hif hclear hknown).less (by omega)

end LinesSettle

/-- **What comes of reading statements**, however many calls may be open. -/
theorem linesSettle (columns : Set Nat) (n depth : Nat) : LinesSettle columns n depth := by
  induction depth with
  | zero => exact .zero
  | succ depth ih =>
    exact ⟨ih.statementList_succ, ih.statement_succ, ih.branchStatement_succ, ih.branchPart_succ⟩

/-! ## Loops -/

/-- No loop of the parser is ended by the count of its rounds. -/
structure LoopsEnd (depth : Nat) : Prop where
  statements : Steady (statementLoop (statement depth))
  items : Steady (printItems depth)
  operands : ∀ level, level < 5 →
    ∀ left, Steady fun k => operands level (expressionAt depth (level + 1)) k left
  arguments : Steady (commaTail (expressionAt depth 0))
  targets : Steady (commaTail (target depth))
  dimensions : Steady (commaTail (dimension depth))
  refs : Steady (commaTail lineRef)
  counters : Steady (commaTail (expect numericName?))
  parameters : Steady (commaTail (Prod.fst <$> expect name?))
  letters : Steady (commaTail letterRange)
  erased : Steady eraseNames

theorem steady_statementLoop {p : Parser (List Statement)}
    (h : ∀ n ts ss rest, p n ts = .ok (ss, rest) → rest.length < ts.length) :
    Steady (statementLoop p) := by
  refine steady_of_rounds (fun k (_ : Unit) => statementLoop p k) (fun k _ n => ?_)
    (fun k k' n ts hrest _ => ?_) ()
  · cases k <;> rfl
  · refine run_bind_congr rfl fun head us hhead => ?_
    obtain ⟨rfl, rfl⟩ := run_pure_eq_ok (n := n) (a := ts.head?) hhead
    cases us with
    | nil => rfl
    | cons t us =>
      simp only [List.head?_cons]
      split_ifs
      · refine run_bind_congr rfl fun _ left htail => ?_
        obtain ⟨-, rfl⟩ := run_pure_eq_ok (show (pure () : Parser Unit) n us = _ from htail)
        exact hrest () _ (Nat.lt_succ_self _)
      · rfl
      · refine run_bind_congr rfl fun first left hfirst =>
          run_bind_congr rfl fun ended left' hended => ?_
        obtain rfl := run_atEnd_eq_ok hended
        cases ended with
        | false => rfl
        | true => exact run_bind_congr (hrest () _ (h n _ first _ hfirst)) fun _ _ _ => rfl

theorem loopsEnd (depth : Nat) : LoopsEnd depth where
  statements := steady_statementLoop fun n ts ss rest hrun =>
    ((placed n depth).statement ts ss rest hrun).shorter
  items := steady_printItems depth
  operands level hlevel left :=
    steady_operands
      (fun n ts e rest => ((expressionsSettle _ n depth).expressionAt (level + 1) hlevel).length_le)
        level left
  arguments := steady_commaTail fun n ts e rest =>
    ((expressionsSettle _ n depth).expressionAt 0 (by omega)).length_le
  targets := steady_commaTail fun n ts e rest => settles_target.length_le
  dimensions := steady_commaTail fun n ts e rest => settles_dimension.length_le
  refs := steady_commaTail fun n ts r rest =>
    (settles_lineRef : Settles Set.univ n 0 _ _ _).length_le
  counters := steady_commaTail fun n ts x rest =>
    (Settles.expect spares_numericName : Settles Set.univ n 0 _ _ _).length_le
  parameters := steady_commaTail fun n ts x rest =>
    (Settles.map (Settles.expect spares_name) fun _ _ _ =>
      trivial : Settles Set.univ n 0 Any _ _).length_le
  letters := steady_commaTail fun n ts x rest =>
    (settles_letterRange : Settles Set.univ n 0 _ _ _).length_le
  erased := steady_eraseNames

/-! ## Whole lines -/

/-- Too many calls would have been open at once. -/
def OutOfRoom {α : Type} (r : Except Error α) : Prop := ∃ i, r = .error (.atColumn .outOfMemory i)

theorem not_outOfRoom_ok {α : Type} {a : α} : ¬OutOfRoom (.ok a : Except Error α) := by
  rintro ⟨i, ⟨⟩⟩

theorem not_outOfRoom_syntaxError {α : Type} {i : Nat} :
    ¬OutOfRoom (.error (.atColumn .syntaxError i) : Except Error α) := by
  rintro ⟨j, ⟨⟩⟩

/-- The columns at which a line may be refused: those of its tokens and the one after it. -/
def columnsOf (n : Nat) (ts : List Token) : Set Nat := {i | i = n ∨ ∃ t ∈ ts, t.column = i}

theorem known_columnsOf (n : Nat) (ts : List Token) : Known (columnsOf n ts) n ts :=
  ⟨.inl rfl, fun t ht => .inr ⟨t, ht, rfl⟩⟩

theorem outcome_line (n depth : Nat) (ts : List Token) :
    Outcome (columnsOf n ts) (depth - 13) (Ending .list) ts (statementList depth n ts)
      (statementList (depth + 1) n ts) :=
  (linesSettle (columnsOf n ts) n depth).statementList ts (known_columnsOf n ts)

namespace Outcome

variable {α : Type} {Q : List Token → α → List Token → Prop} {r r' : Except Error (α × List Token)}

theorem eq_of_room (h : Outcome columns room Q ts r r') (hroom : ¬OutOfRoom r) : r' = r := by
  cases h with
  | ok | refused => rfl
  | tooDeep => exact absurd ⟨_, rfl⟩ hroom

theorem short (h : Outcome columns room Q ts r r') (hroom : OutOfRoom r) :
    room < 9 * ts.length := by
  obtain ⟨i, hi⟩ := hroom
  cases h with
  | ok | refused => cases hi
  | tooDeep _ short => exact short

end Outcome

/-- A line needs room for so many open calls: with less it is nested too deeply, with more it is
read in the same way. -/
theorem exists_need (n : Nat) (ts : List Token) : ∃ need ≤ 9 * ts.length + 13,
    (∀ depth, OutOfRoom (statementList depth n ts) ↔ depth < need) ∧
    ∀ depth, need ≤ depth → statementList depth n ts = statementList need n ts := by
  have henough : ¬OutOfRoom (statementList (9 * ts.length + 13) n ts) := by
    intro hroom
    have := (outcome_line n (9 * ts.length + 13) ts).short hroom
    omega
  obtain ⟨need, hneed, hleast⟩ : ∃ need, ¬OutOfRoom (statementList need n ts) ∧
      ∀ depth < need, OutOfRoom (statementList depth n ts) := by
    classical
    have hexists : ∃ depth, ¬OutOfRoom (statementList depth n ts) := ⟨_, henough⟩
    exact ⟨Nat.find hexists, Nat.find_spec hexists, fun depth hdepth =>
      not_not.mp (Nat.find_min hexists hdepth)⟩
  have hsame : ∀ depth, need ≤ depth → statementList depth n ts = statementList need n ts := by
    intro depth hdepth
    induction depth, hdepth using Nat.le_induction with
    | base => rfl
    | succ depth _ ih => exact ((outcome_line n depth ts).eq_of_room (ih ▸ hneed)).trans ih
  refine ⟨need, not_lt.mp fun hlt => henough (hleast _ hlt), fun depth =>
    ⟨fun hroom => ?_, hleast depth⟩, hsame⟩
  exact not_le.mp fun hle => hneed (hsame depth hle ▸ hroom)

/-- What a line is read as that needs room for `need` open calls. -/
inductive LineRead (n : Nat) (ts : List Token) (need depth : Nat) :
    Except Error (List Statement) → Prop where
  /-- all of its tokens spell the statements, and an IF is the last one of its list -/
  | ok {ss : List Statement} {waiting : List Token} (room : need ≤ depth)
      (spells : Spells .list [] ts ss waiting) (last : BranchesLast ss)
      (located : ∀ s : Statement, s.Occurs ss → s.Located ts) : LineRead n ts need depth (.ok ss)
  | syntaxError {i : Nat} (room : need ≤ depth) (column : i ∈ columnsOf n ts) :
      LineRead n ts need depth (.error (.atColumn .syntaxError i))
  /-- the line is nested too deeply -/
  | outOfMemory {i : Nat} (short : depth < need) (column : i ∈ columnsOf n ts) :
      LineRead n ts need depth (.error (.atColumn .outOfMemory i))

theorem lineRead_parseTokens {n need : Nat} {ts : List Token}
    (hneed : ∀ depth, OutOfRoom (statementList depth n ts) ↔ depth < need) (room : Nat) :
    LineRead n ts need (room - 1) (parseTokens room n ts) := by
  have houtcome := outcome_line n (room - 1) ts
  have hroom := hneed (room - 1)
  rw [run_parseTokens]
  generalize statementList (room - 1 + 1) n ts = r at houtcome
  cases hlist : statementList (room - 1) n ts with
  | ok result =>
    obtain ⟨ss, left⟩ := result
    rw [hlist] at houtcome hroom
    have hle : need ≤ room - 1 := not_lt.mp (mt hroom.mpr not_outOfRoom_ok)
    cases houtcome with
    | ok taken split hending =>
      cases left with
      | nil =>
        rw [List.append_nil] at split
        subst split
        obtain ⟨waiting, hspells, -⟩ := hending.spells []
        exact .ok hle hspells ((placed n (room - 1)).statementList _ _ _ hlist).1
          fun s => hspells.located
      | cons t left => exact .syntaxError hle (.inr ⟨t, by simp [split], rfl⟩)
  | error e =>
    rw [hlist] at houtcome hroom
    cases houtcome with
    | refused column =>
      exact .syntaxError (not_lt.mp (mt hroom.mpr not_outOfRoom_syntaxError)) column
    | tooDeep column => exact .outOfMemory (hroom.mp ⟨_, rfl⟩) column

/-- **A line is read to its end or refused.** No loop of the parser is ended by its count. A line
needs room for some number of open calls, at most nine for each token and thirteen more. With less
room it is nested too deeply, with more it is read in the same way: as the statements that all of
its tokens spell, or as a syntax error at the column of a token or the one after the line. -/
theorem parseTokens_whole (n : Nat) (ts : List Token) :
    (∀ depth, LoopsEnd depth) ∧ ∃ need ≤ 9 * ts.length + 13,
      (∀ depth, OutOfRoom (statementList depth n ts) ↔ depth < need) ∧
      (∀ depth, need ≤ depth → statementList depth n ts = statementList need n ts) ∧
      ∀ room, LineRead n ts need (room - 1) (parseTokens room n ts) := by
  obtain ⟨need, hbound, hneed, hsame⟩ := exists_need n ts
  exact ⟨loopsEnd, need, hbound, hneed, hsame, lineRead_parseTokens hneed⟩

/-! ## More room and less -/

/-- In another room the tokens of a line are read as the same statements, or they are nested too
deeply for it; in more room they are not. -/
theorem parseTokens_room {room n : Nat} {ts : List Token} {ss : List Statement}
    (h : parseTokens room n ts = .ok ss) (room' : Nat) :
    parseTokens room' n ts = .ok ss ∨ room' < room ∧ OutOfRoom (parseTokens room' n ts) := by
  obtain ⟨need, -, hneed, hsame⟩ := exists_need n ts
  have henough : need ≤ room - 1 := by
    refine not_lt.mp fun hlt => ?_
    obtain ⟨i, hi⟩ := (hneed _).mpr hlt
    rw [run_parseTokens, hi] at h
    cases h
  by_cases hle : need ≤ room' - 1
  · refine .inl ?_
    rw [run_parseTokens, hsame _ hle, ← hsame _ henough, ← run_parseTokens, h]
  · obtain ⟨i, hi⟩ := (hneed _).mpr (not_le.mp hle)
    exact .inr ⟨by omega, i, by rw [run_parseTokens, hi]⟩

/-- What is read of a line are its tokens, in any room. -/
theorem parseLine_eq_of_ok {room : Nat} {text : String} {l : SourceLine}
    (h : parseLine room text = .ok l) : ∃ (ending : Nat) (ts : List Token) (place : Error → Error),
      (∀ e, (place e).kind = e.kind) ∧ ∀ room', parseLine room' text =
        match parseTokens (room' - 1) ending ts with
        | .ok ss => .ok { l with statements := ss }
        | .error e => .error (.error (place e)) := by
  have hbind : ∀ (r : Except Error (List Statement)) (number : Option Nat) (source : String),
      (do return (⟨number, ← orFault r, source⟩ : SourceLine) : Except Fault SourceLine) =
        match r with
        | .ok ss => .ok ⟨number, ss, source⟩
        | .error e => .error (.error e) := by
    intro r number source
    cases r <;> rfl
  unfold parseLine at h ⊢
  simp only at h ⊢
  split at h
  · rename_i start hstart
    split at h
    · cases h
    · rename_i hdigits
      split at h
      · cases h
      · rename_i hrange
        have hline := placeFault_eq_ok h
        cases htokens : tokensAfter start.length (Text.dropEnd Lexer.isReturn text.toList) with
        | error e =>
          unfold numberedLine at hline
          rw [htokens] at hline
          cases hline
        | ok us =>
          obtain ⟨ts, hts, -⟩ := tokensAfter_eq_ok htokens
          have heq := fun room => numberedLine_eq (n := start.number) room hts fun hcs =>
            length_of_listed (hcs ▸ hstart)
          generalize (listedText start.number (Listing.source ts)).toList.length + 1 = ending at heq
          generalize (Listing.relistedLine ts).map (·.shift ((toString start.number).length + 1)) =
            us at heq
          rw [heq] at hline
          cases hparse : parseTokens (room - 1) ending us with
          | error e => rw [hparse] at hline; cases hline
          | ok ss =>
            rw [hparse] at hline
            obtain rfl := Except.ok.inj hline
            refine ⟨ending, us, fun e => e.inLine start.number, fun e => ?_, fun room' => ?_⟩
            · simp only [Error.inLine]
              split <;> rfl
            · rw [if_neg hdigits, if_neg hrange, heq]
              cases parseTokens (room' - 1) ending us <;> rfl
  · obtain ⟨ts, hts, h⟩ := ok_of_bind h
    obtain ⟨statements, -, hl⟩ := ok_of_bind h
    obtain rfl := Except.ok.inj hl
    refine ⟨(Text.dropEnd Lexer.isReturn text.toList).length + 1, ts, id, fun _ => rfl,
      fun room' => ?_⟩
    rw [hts]
    exact hbind _ _ _

/-- **In another room a line is read as the same line, or is refused as nested too deeply**; in more
room it is not refused. -/
theorem parseLine_room {room : Nat} {text : String} {l : SourceLine}
    (h : parseLine room text = .ok l) (room' : Nat) : parseLine room' text = .ok l ∨
      room' < room ∧ ∃ e : Error, e.kind = .outOfMemory ∧
        parseLine room' text = .error (.error e) := by
  obtain ⟨ending, ts, place, hkind, heq⟩ := parseLine_eq_of_ok h
  rw [heq] at h ⊢
  cases hparse : parseTokens (room - 1) ending ts with
  | error e => rw [hparse] at h; cases h
  | ok ss =>
    rw [hparse] at h
    rcases parseTokens_room hparse (room' - 1) with hsame | ⟨hlt, i, hdeep⟩
    · rw [hsame]
      exact .inl h
    · rw [hdeep]
      exact .inr ⟨by omega, _, hkind _, rfl⟩

theorem parseLine_mono {room room' : Nat} {text : String} {l : SourceLine}
    (h : parseLine room text = .ok l) (hle : room ≤ room') : parseLine room' text = .ok l :=
  (parseLine_room h room').resolve_right fun hless => absurd hless.1 (not_lt.mpr hle)

/-- A line is read as one line only, whatever the room. -/
theorem parseLine_unique {room room' : Nat} {text : String} {l l' : SourceLine}
    (h : parseLine room text = .ok l) (h' : parseLine room' text = .ok l') : l = l' := by
  rcases parseLine_room h room' with hsame | ⟨-, e, -, hdeep⟩
  · exact Except.ok.inj (hsame.symm.trans h')
  · rw [hdeep] at h'
    cases h'

end Parser

end LineBasic
