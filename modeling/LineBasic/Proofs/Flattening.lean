import Mathlib
import LineBasic.Proofs.BranchPlacement
import LineBasic.Proofs.Turns

/-!
# Flattened lines

The code of a line does what its statements say. Both are followed step by step, with the outcome of
each condition left open: it may depend on all that was done before.

* `Deed`: a command that was executed or a condition that was tested.
* `performList`: what statements do, part by part from left to right; an IF that does not hold and
  has no ELSE does nothing.
* `todoStep`: one step of it, on the statements that are still to be done.
* `codeStep`: one step of the code; `Machine.takesStep_of_tick`: the machine takes such steps.
* `Lays`: the code from an index on does what is still to be done. `lays_compile`: the code of a
  line does all of it.
* `compile_performs`: the main result.
-/

namespace LineBasic

/-! ## Statements -/

/-- Something that is done in a line: a command is executed, or a condition turns out to hold or
not. -/
inductive Deed where
  | ran (column : Nat) (c : Command)
  | found (condition : Expr) (holds : Bool)

/-- How conditions turn out after what was done before. -/
abbrev Outcomes := List Deed → Expr → Bool

mutual

/-- All that was done when a statement is over. -/
def Statement.perform (holds : Outcomes) (past : List Deed) : Statement → List Deed
  | .command column c => past ++ [.ran column c]
  | .branch _ condition thenPart elsePart =>
    if holds past condition then performList holds (past ++ [.found condition true]) thenPart
    else performList holds (past ++ [.found condition false]) elsePart

/-- All that was done when statements are over. -/
def performList (holds : Outcomes) (past : List Deed) : List Statement → List Deed
  | [] => past
  | s :: ss => performList holds (s.perform holds past) ss

end

/-- One step of statements: what was done, and what is still to be done. -/
def todoStep (holds : Outcomes) : List Deed × List Statement → Option (List Deed × List Statement)
  | (_, []) => none
  | (past, .command column c :: todo) => some (past ++ [.ran column c], todo)
  | (past, .branch _ condition thenPart elsePart :: todo) =>
    if holds past condition then some (past ++ [.found condition true], thenPart ++ todo)
    else some (past ++ [.found condition false], elsePart ++ todo)

theorem performList_append (holds : Outcomes) (past : List Deed) (ss rs : List Statement) :
    performList holds past (ss ++ rs) = performList holds (performList holds past ss) rs := by
  induction ss generalizing past with
  | nil => rfl
  | cons s ss ih => exact ih _

/-- Step by step the same is done. -/
theorem performList_of_todoStep {holds : Outcomes} {past past' : List Deed}
    {todo todo' : List Statement} (h : todoStep holds (past, todo) = some (past', todo')) :
    performList holds past todo = performList holds past' todo' := by
  cases todo with
  | nil => cases h
  | cons s todo =>
    cases s with
    | command column c =>
      obtain ⟨rfl, rfl⟩ := Prod.mk.inj (Option.some.inj h)
      rfl
    | branch column condition thenPart elsePart =>
      simp only [todoStep] at h
      split at h <;> rename_i hholds <;> obtain ⟨rfl, rfl⟩ := Prod.mk.inj (Option.some.inj h) <;>
        simp [performList, Statement.perform, hholds, performList_append]

/-! ## Code -/

/-- One step of code: what was done, and the index of the next instruction. A condition that does
not hold leads to the target, or to the end of the line. -/
def codeStep (code : Array Instr) (holds : Outcomes) : List Deed × Nat → Option (List Deed × Nat)
  | (past, i) =>
    match code[i]? with
    | none => none
    | some (.command column c) => some (past ++ [.ran column c], i + 1)
    | some (.branch _ condition target) =>
      if holds past condition then some (past ++ [.found condition true], i + 1)
      else some (past ++ [.found condition false], target.getD code.size)
    | some (.jump _ target) => some (past, target)

/-- One state leads to another in any number of steps. -/
def Leads {σ : Type} (step : σ → Option σ) : σ → σ → Prop :=
  Relation.ReflTransGen fun s t => step s = some t

/-- Executing code from an index on comes to the end of the line when all of `done` was done. -/
def Ends (code : Array Instr) (holds : Outcomes) (past : List Deed) (i : Nat) (done : List Deed) :
    Prop :=
  ∃ j, code.size ≤ j ∧ Leads (codeStep code holds) (past, i) (done, j)

/-- The index that an instruction may jump to. -/
def Instr.target? : Instr → Option Nat
  | .command _ _ => none
  | .branch _ _ target => target
  | .jump _ target => some target

/-- Every jump goes forward, and not past the end of the line. -/
def Forward (code : Array Instr) : Prop :=
  ∀ i instr target, code[i]? = some instr → instr.target? = some target → i < target ∧
    target ≤ code.size

/-! ## Code that does what is to be done -/

/-- The code from an index on does what is still to be done. -/
inductive Lays (code : Array Instr) : Nat → List Statement → Prop where
  | done {i : Nat} (ended : code.size ≤ i) : Lays code i []
  | jump {i column target : Nat} {todo : List Statement}
      (here : code[i]? = some (.jump column target))
      (next : Lays code target todo) : Lays code i todo
  | command {i column : Nat} {c : Command} {todo : List Statement}
      (here : code[i]? = some (.command column c))
      (next : Lays code (i + 1) todo) : Lays code i (.command column c :: todo)
  | branch {i column : Nat} {condition : Expr} {target : Option Nat}
      {thenPart elsePart : List Statement}
      (here : code[i]? = some (.branch column condition target)) (yes : Lays code (i + 1) thenPart)
      (no : Lays code (target.getD code.size) elsePart) :
        Lays code i [.branch column condition thenPart elsePart]

variable {code : Array Instr}

/-- Code that does what is to be done comes to the end of the line, and has then done it. -/
theorem Lays.ends {i : Nat} {todo : List Statement} (h : Lays code i todo) (holds : Outcomes)
    (past : List Deed) :
    Ends code holds past i (performList holds past todo) := by
  induction h generalizing past with
  | @done i ended => exact ⟨i, ended, .refl⟩
  | @jump i column target todo here next ih =>
    obtain ⟨j, hj, hleads⟩ := ih past
    exact ⟨j, hj, .head (by simp [codeStep, here]) hleads⟩
  | @command i column c todo here next ih =>
    obtain ⟨j, hj, hleads⟩ := ih (past ++ [.ran column c])
    exact ⟨j, hj, .head (by simp [codeStep, here]) hleads⟩
  | @branch i column condition target thenPart elsePart here yes no ihyes ihno =>
    cases hholds : holds past condition with
    | true =>
      obtain ⟨j, hj, hleads⟩ := ihyes (past ++ [.found condition true])
      have hdone : performList holds past [.branch column condition thenPart elsePart] =
          performList holds (past ++ [.found condition true]) thenPart := by
        simp [performList, Statement.perform, hholds]
      rw [hdone]
      exact ⟨j, hj, .head (by simp [codeStep, here, hholds]) hleads⟩
    | false =>
      obtain ⟨j, hj, hleads⟩ := ihno (past ++ [.found condition false])
      have hdone : performList holds past [.branch column condition thenPart elsePart] =
          performList holds (past ++ [.found condition false]) elsePart := by
        simp [performList, Statement.perform, hholds]
      rw [hdone]
      exact ⟨j, hj, .head (by simp [codeStep, here, hholds]) hleads⟩

/-- A step of such code is a step of what is to be done, or a jump. -/
theorem Lays.step {holds : Outcomes} {past past' : List Deed} {i i' : Nat} {todo : List Statement}
    (h : Lays code i todo) (hstep : codeStep code holds (past, i) = some (past', i')) :
    ∃ todo', Lays code i' todo' ∧ Leads (todoStep holds) (past, todo) (past', todo') := by
  cases h with
  | done ended => simp [codeStep, ended] at hstep
  | jump here next =>
    simp only [codeStep, here] at hstep
    obtain ⟨rfl, rfl⟩ := Prod.mk.inj (Option.some.inj hstep)
    exact ⟨todo, next, .refl⟩
  | command here next =>
    simp only [codeStep, here] at hstep
    obtain ⟨rfl, rfl⟩ := Prod.mk.inj (Option.some.inj hstep)
    exact ⟨_, next, .single rfl⟩
  | @branch i column condition target thenPart elsePart here yes no =>
    simp only [codeStep, here] at hstep
    cases hholds : holds past condition with
    | true =>
      rw [if_pos hholds] at hstep
      obtain ⟨rfl, rfl⟩ := Prod.mk.inj (Option.some.inj hstep)
      exact ⟨thenPart, yes, .single (by simp [todoStep, hholds])⟩
    | false =>
      rw [if_neg (by simp [hholds])] at hstep
      obtain ⟨rfl, rfl⟩ := Prod.mk.inj (Option.some.inj hstep)
      exact ⟨elsePart, no, .single (by simp [todoStep, hholds])⟩

/-- So is every number of steps. -/
theorem Lays.leads {holds : Outcomes} {past : List Deed} {i : Nat} {todo : List Statement}
    (h : Lays code i todo) {s : List Deed × Nat}
    (hleads : Leads (codeStep code holds) (past, i) s) :
    ∃ todo', Lays code s.2 todo' ∧ Leads (todoStep holds) (past, todo) (s.1, todo') := by
  induction hleads with
  | refl => exact ⟨todo, h, .refl⟩
  | @tail s t _ hstep ih =>
    obtain ⟨todo', hlays, hfirst⟩ := ih
    obtain ⟨todo'', hlays', hlast⟩ := hlays.step hstep
    exact ⟨todo'', hlays', hfirst.trans hlast⟩

/-- At a command of such code that command is to be done next. -/
theorem Lays.of_command {i column : Nat} {c : Command} {todo : List Statement}
    (h : Lays code i todo) (here : code[i]? = some (.command column c)) :
    ∃ todo', todo = .command column c :: todo' ∧ Lays code (i + 1) todo' := by
  cases h with
  | done ended => simp [ended] at here
  | jump here' _ => cases here.symm.trans here'
  | branch here' _ _ => cases here.symm.trans here'
  | command here' next =>
    obtain ⟨rfl, rfl⟩ := Instr.command.inj (Option.some.inj (here.symm.trans here'))
    exact ⟨_, rfl, next⟩

/-! ## The code of a line -/

/-- The instruction at an index, and those behind it. -/
theorem getElem?_of_prefix {i : Nat} {instr : Instr} {more : List Instr}
    (h : instr :: more <+: code.toList.drop i) :
    code[i]? = some instr ∧ more <+: code.toList.drop (i + 1) := by
  obtain ⟨after, h⟩ := h
  constructor
  · rw [← Array.getElem?_toList, ← List.head?_drop, ← h]
    rfl
  · refine ⟨after, ?_⟩
    rw [← List.tail_drop, ← h]
    rfl

theorem prefix_of_append {i : Nat} {first second : List Instr}
    (h : first ++ second <+: code.toList.drop i) :
    first <+: code.toList.drop i ∧ second <+: code.toList.drop (i + first.length) := by
  obtain ⟨after, h⟩ := h
  refine ⟨⟨second ++ after, by rw [← h, List.append_assoc]⟩, ⟨after, ?_⟩⟩
  rw [← List.drop_drop, ← h, List.append_assoc, List.drop_left]

theorem codeListAt_command (i column : Nat) (c : Command) (ss : List Statement) :
    codeListAt i (.command column c :: ss) = .command column c :: codeListAt (i + 1) ss := rfl

theorem codeListAt_branch_nil (i column : Nat) (condition : Expr) (thenPart : List Statement) :
    codeListAt i [.branch column condition thenPart []] =
      .branch column condition none :: codeListAt (i + 1) thenPart := by
  change Statement.codeAt i (.branch column condition thenPart []) ++ [] = _
  rw [List.append_nil]
  rfl

theorem codeListAt_branch_cons (i column : Nat) (condition : Expr) (thenPart : List Statement)
    (s : Statement) (elsePart : List Statement) {target : Nat}
    (htarget : target = i + 1 + (codeListAt (i + 1) thenPart).length + 1) :
    codeListAt i [.branch column condition thenPart (s :: elsePart)] =
      .branch column condition (some target) :: (codeListAt (i + 1) thenPart ++
        .jump column (target + (codeListAt target (s :: elsePart)).length) ::
          codeListAt target (s :: elsePart)) := by
  subst htarget
  change Statement.codeAt i (.branch column condition thenPart (s :: elsePart)) ++ [] = _
  rw [List.append_nil]
  rfl

/-- Statements with every IF in the last place are done by their code, if the end of the line
follows. -/
theorem lays_codeListAt {ss : List Statement} (h : BranchesLast ss) {i : Nat}
    (hcode : codeListAt i ss <+: code.toList.drop i)
    (hend : Lays code (i + (codeListAt i ss).length) []) :
    Lays code i ss := by
  induction h generalizing i with
  | nil => exact hend
  | @command column c ss _ ih =>
    rw [codeListAt_command] at hcode hend
    obtain ⟨hhere, hmore⟩ := getElem?_of_prefix hcode
    refine .command hhere (ih hmore ?_)
    rwa [List.length_cons, Nat.add_comm _ 1, ← Nat.add_assoc] at hend
  | @branch column condition thenPart elsePart _ _ ihyes ihno =>
    cases elsePart with
    | nil =>
      rw [codeListAt_branch_nil] at hcode hend
      obtain ⟨hhere, hmore⟩ := getElem?_of_prefix hcode
      refine .branch hhere (ihyes hmore ?_) (.done (Nat.le_refl _))
      rwa [List.length_cons, Nat.add_comm _ 1, ← Nat.add_assoc] at hend
    | cons s elsePart =>
      rw [codeListAt_branch_cons i column condition thenPart s elsePart rfl] at hcode hend
      obtain ⟨hhere, hmore⟩ := getElem?_of_prefix hcode
      obtain ⟨hfirst, hmore⟩ := prefix_of_append hmore
      obtain ⟨hjump, hsecond⟩ := getElem?_of_prefix hmore
      simp only [List.length_cons, List.length_append] at hend
      -- both parts are followed by the end of the line: the first one through its jump
      have hlast : Lays code (i + 1 + (codeListAt (i + 1) thenPart).length + 1 +
          (codeListAt (i + 1 + (codeListAt (i + 1) thenPart).length + 1)
            (s :: elsePart)).length) [] := by
        convert hend using 1
        omega
      exact .branch hhere (ihyes hfirst (.jump hjump hlast)) (ihno hsecond hlast)

theorem lays_compile {ss : List Statement} (h : BranchesLast ss) : Lays (compile ss) 0 ss := by
  refine lays_codeListAt h (by simp [compile]) (.done ?_)
  simp [compile]

/-! ## Jumps go forward -/

/-- The jumps in the code of statements stay in that code. -/
theorem target_codeListAt {ss : List Statement} (h : BranchesLast ss) {i k target : Nat}
    {instr : Instr} (hhere : (codeListAt i ss)[k]? = some instr)
    (htarget : instr.target? = some target) :
    i + k < target ∧ target ≤ i + (codeListAt i ss).length := by
  induction h generalizing i k with
  | nil => cases hhere
  | @command column c ss _ ih =>
    rw [codeListAt_command] at hhere ⊢
    cases k with
    | zero =>
      obtain rfl := Option.some.inj hhere
      cases htarget
    | succ k =>
      have := ih hhere
      simp only [List.length_cons]
      omega
  | @branch column condition thenPart elsePart _ _ ihyes ihno =>
    cases elsePart with
    | nil =>
      rw [codeListAt_branch_nil] at hhere ⊢
      cases k with
      | zero =>
        obtain rfl := Option.some.inj hhere
        cases htarget
      | succ k =>
        have := ihyes hhere
        simp only [List.length_cons]
        omega
    | cons s elsePart =>
      rw [codeListAt_branch_cons i column condition thenPart s elsePart rfl] at hhere ⊢
      simp only [List.length_cons, List.length_append]
      cases k with
      | zero =>
        obtain rfl := Option.some.inj hhere
        obtain rfl := Option.some.inj htarget
        omega
      | succ k =>
        rw [List.getElem?_cons_succ] at hhere
        by_cases hk : k < (codeListAt (i + 1) thenPart).length
        · rw [List.getElem?_append_left hk] at hhere
          have := ihyes hhere
          omega
        · rw [List.getElem?_append_right (Nat.not_lt.mp hk)] at hhere
          obtain ⟨l, hl⟩ : ∃ l, k = (codeListAt (i + 1) thenPart).length + l :=
            ⟨_, (Nat.add_sub_cancel' (Nat.not_lt.mp hk)).symm⟩
          rw [hl, Nat.add_sub_cancel_left] at hhere
          cases l with
          | zero =>
            obtain rfl := Option.some.inj hhere
            obtain rfl := Option.some.inj htarget
            omega
          | succ l =>
            have := ihno hhere
            omega

theorem forward_compile {ss : List Statement} (h : BranchesLast ss) : Forward (compile ss) := by
  intro i instr target hhere htarget
  have := target_codeListAt h (i := 0) (k := i) (by simpa [compile] using hhere) htarget
  simpa [compile] using this

/-! ## The machine -/

theorem Exec.run_jumpTo {m : Machine} {line : Option Nat} (hline : m.position.line = line)
    (hcode : m.codeAt? line = some code) (target : Option Nat) :
    jumpTo target m = (.ok (), { m with position := ⟨line, target.getD code.size⟩ }) := by
  subst hline
  change (Except.ok (),
    { m with
      position := (⟨_, target.getD ((m.codeAt? m.position.line).getD #[]).size⟩ : Position) }) = _
  rw [hcode]
  rfl

/-- An IF that is executed finds out whether its condition holds, and jumps if it does not. -/
theorem Exec.run_branch {m m' : Machine} {column : Nat} {condition : Expr} {target : Option Nat}
    (h : instr (.branch column condition target) m = (.ok (), m')) :
    ∃ v memory b, value condition m = (.ok v, { m with memory }) ∧ v.truth = .ok b ∧
      (if b then pure () else jumpTo target : Exec Unit) { m with memory } = (.ok (), m') := by
  rw [show instr (.branch column condition target) = (do
    if ← lift (← value condition).truth then return () else jumpTo target : Exec Unit) from rfl,
    run_bind] at h
  have hmemory := run_ofEval (evaluate m.statementRoom condition) m
  rw [← value_eq] at hmemory
  cases hvalue : value condition m with
  | mk r m₂ =>
    rw [hvalue] at h hmemory
    obtain ⟨-, rfl⟩ := Prod.mk.inj hmemory
    cases r with
    | error e => cases h
    | ok v =>
      simp only at h
      rw [run_bind, run_lift] at h
      cases htruth : v.truth with
      | error e => rw [htruth] at h; cases h
      | ok b =>
        rw [htruth] at h
        exact ⟨v, _, b, rfl, htruth, h⟩

/-- The machine has taken the step of the code at an instruction: a command has begun with the
position behind it, and otherwise the machine is where the step leads to, with the condition of an
IF turning out as its value does. -/
def Machine.TakesStep (code : Array Instr) (m m' : Machine) : Instr → Prop
  | .command column c =>
    ∃ m₁, m.Writes m₁ ∧ Exec.command column c (m₁.atStatement m.position) = (.ok (), m')
  | .branch _ condition _ => ∃ m₁ v m₂ b i, m.Writes m₁ ∧
      Exec.value condition (m₁.atStatement m.position) = (.ok v, m₂) ∧ v.truth = .ok b ∧
      codeStep code (fun _ _ => b) ([], m.position.index) = some ([.found condition b], i) ∧
      m' = { m₂ with position := ⟨m.position.line, i⟩ }
  | .jump _ _ =>
    ∃ m₁ i, m.Writes m₁ ∧ codeStep code (fun _ _ => false) ([], m.position.index) = some ([], i) ∧
      m' = { m₁.atStatement m.position with position := ⟨m.position.line, i⟩ }

theorem Machine.takesStep_of_tick {m m' : Machine} (hcode : m.codeAt? m.position.line = some code)
    {instr : Instr} (hhere : code[m.position.index]? = some instr)
    (hrun : tick m = (.ok true, m')) : TakesStep code m m' instr := by
  have hturn := turn_tick m
  rw [hrun] at hturn
  cases hturn with
  | lineEnd hcode' hended =>
    obtain rfl := Option.some.inj (hcode.symm.trans hcode')
    cases hhere.symm.trans hended
  | @executed _ _ m₁ _ hcode' hhere' _ htrace hinstr =>
    obtain rfl := Option.some.inj (hcode.symm.trans hcode')
    obtain rfl := Option.some.inj (hhere.symm.trans hhere')
    have hwrites := writes_of_showTrace htrace
    replace hcode : ∀ memory, { m₁.atStatement m.position with memory }.codeAt? m.position.line =
        some code := by
      obtain ⟨t, b, c, rfl⟩ := hwrites
      exact fun _ => hcode
    cases instr with
    | command column c => exact ⟨m₁, hwrites, hinstr⟩
    | jump column target =>
      rw [show Exec.instr (.jump column target) = Exec.jumpTo (some target) from rfl,
        Exec.run_jumpTo rfl (hcode _) (some target)] at hinstr
      exact ⟨m₁, target, hwrites, by simp [codeStep, hhere], (Prod.mk.inj hinstr).2.symm⟩
    | branch column condition target =>
      obtain ⟨v, memory, b, hvalue, htruth, hgo⟩ := Exec.run_branch hinstr
      cases b with
      | true =>
        obtain ⟨-, rfl⟩ := Prod.mk.inj hgo
        exact ⟨m₁, v, _, true, m.position.index + 1, hwrites, hvalue,
          htruth, by simp [codeStep, hhere], rfl⟩
      | false =>
        have hjump := Exec.run_jumpTo (m := { m₁.atStatement m.position with memory }) rfl
          (hcode memory) target
        obtain ⟨-, rfl⟩ := Prod.mk.inj (hjump.symm.trans hgo)
        exact ⟨m₁, v, _, false, target.getD code.size, hwrites, hvalue,
          htruth, by simp [codeStep, hhere], rfl⟩

/-! ## The main result -/

/-- Step by step, what is still to be done completes what was done. -/
theorem performList_of_leads {holds : Outcomes} {s t : List Deed × List Statement}
    (h : Leads (todoStep holds) s t) :
    performList holds s.1 s.2 = performList holds t.1 t.2 := by
  induction h with
  | refl => rfl
  | tail _ hstep ih => exact ih.trans (performList_of_todoStep hstep)

/-- **Flattening a line keeps what it does.** In the code of every line that is read:

* jumps go forward, and at most to the end;
* however the conditions turn out, the code executes the commands and tests the conditions that its
  statements do, in the same order, and comes to the end;
* at every command that it comes to, the statements are at the same command, and going on behind it,
  whatever was done in the meantime and however the conditions turn out then, does what the
  statements have left to do;
* the machine takes the steps of the code. -/
theorem compile_performs {room : Nat} {text : String} {l : SourceLine}
    (h : Parser.parseLine room text = .ok l) :
    Forward (compile l.statements) ∧
    (∀ (holds : Outcomes) (past : List Deed),
      Ends (compile l.statements) holds past 0 (performList holds past l.statements) ∧
      ∀ (past' : List Deed) (i column : Nat) (c : Command),
        Leads (codeStep (compile l.statements) holds) (past, 0) (past', i) →
        (compile l.statements)[i]? = some (.command column c) →
        ∃ todo, Leads (todoStep holds) (past, l.statements) (past', .command column c :: todo) ∧
          performList holds past' (.command column c :: todo) =
            performList holds past l.statements ∧
          ∀ (holds' : Outcomes) (between : List Deed),
            Ends (compile l.statements) holds' between (i + 1) (performList holds' between todo)) ∧
    ∀ (m m' : Machine) (instr : Instr), m.codeAt? m.position.line = some (compile l.statements) →
      (compile l.statements)[m.position.index]? = some instr → Machine.tick m = (.ok true, m') →
      Machine.TakesStep (compile l.statements) m m' instr := by
  have hlast := Parser.branchesLast_of_parseLine h
  have hlays := lays_compile hlast
  refine ⟨forward_compile hlast, fun holds past => ⟨hlays.ends holds past, ?_⟩, ?_⟩
  · intro past' i column c hleads hhere
    obtain ⟨todo', hlays', htodo⟩ := hlays.leads hleads
    obtain ⟨todo, rfl, hnext⟩ := hlays'.of_command hhere
    exact ⟨todo, htodo, (performList_of_leads htodo).symm, fun holds' between =>
      hnext.ends holds' between⟩
  · intro m m' instr hcode hhere hrun
    exact Machine.takesStep_of_tick hcode hhere hrun

/-- A line with an IF in the first part of another, both with an ELSE. -/
theorem compile_performs_nested : ∃ l : SourceLine,
    Parser.parseLine 990 "10 IF A THEN IF B THEN CLS:GOSUB 100 ELSE STOP ELSE END" = .ok l ∧
      (compile l.statements).toList.map Instr.target? =
        [some 7, some 5, none, none, some 6, none, some 8, none] ∧
      Forward (compile l.statements) ∧
      ∀ holds, Ends (compile l.statements) holds [] 0 (performList holds [] l.statements) := by
  have h : (Parser.parseLine 990
    "10 IF A THEN IF B THEN CLS:GOSUB 100 ELSE STOP ELSE END").toOption.map
      (fun l => (compile l.statements).toList.map Instr.target?) =
        some [some 7, some 5, none, none, some 6, none, some 8, none] := by
    decide +kernel
  cases hl : Parser.parseLine 990 "10 IF A THEN IF B THEN CLS:GOSUB 100 ELSE STOP ELSE END" with
  | error e => rw [hl] at h; cases h
  | ok l =>
    rw [hl] at h
    have hperforms := compile_performs hl
    exact ⟨l, rfl, Option.some.inj h, hperforms.1, fun holds => (hperforms.2.1 holds []).1⟩

end LineBasic
