import Mathlib
import LineBasic.Proofs.SilentCommands
import LineBasic.Proofs.SkippedLoops
import LineBasic.Proofs.Swapping

/-!
# DATA items in order

READ takes the next DATA item for each of its targets, wherever it stands in the program, and
RESTORE goes back. A tally is kept beside a session: which items there were when they were last gone
back to, the line that RESTORE named, and how many targets have taken an item since.

* `Program.Orderly.dataItems`: the items stand in the order of their lines.
* `Exec.handOut`, `Exec.run_read`: what READ does, told by the items that are left and by nothing
  else.
* `Machine.Unread`, `Exec.cursor_command`: which item is next does not change but by READ, RESTORE
  and a fresh start.
* `Ledger`, `Tally.Step`, `Tally.Step.inOrder`: the tally, and the machine keeps to it.
* `Tally.reads_in_order`: the main result.
-/

namespace LineBasic

/-! ## The order of the items -/

theorem Program.Orderly.dataItems {P : ProgramLine → Prop} {p : Program} (h : p.Orderly P) :
    p.dataItems.Pairwise fun a b => a.1 ≤ b.1 := by
  have hnumber : ∀ l : ProgramLine, ∀ item ∈ l.dataItems, item.1 = l.number := by
    intro l item hitem
    obtain ⟨_, -, rfl⟩ := List.mem_map.mp hitem
    rfl
  refine List.pairwise_flatMap.mpr ⟨fun l _ => ?_, h.ascending.imp fun {l l'} hlt => ?_⟩
  · refine List.pairwise_of_forall_mem_list fun a ha b hb => ?_
    rw [hnumber l a ha, hnumber l b hb]
  · intro a ha b hb
    rw [hnumber l a ha, hnumber l' b hb]
    exact hlt.le

/-- How many items stand in front of the first one in a line or after it. -/
def itemsBefore (n : Nat) (items : List (Nat × DataItem)) : Nat :=
  items.findIdx fun item => n ≤ item.1

theorem itemsBefore_eq (n : Nat) (items : List (Nat × DataItem)) :
    itemsBefore n items = (items.takeWhile fun item => item.1 < n).length := by
  unfold itemsBefore
  induction items with
  | nil => rfl
  | cons item items ih =>
    rw [List.findIdx_cons, List.takeWhile_cons]
    by_cases hbelow : item.1 < n
    · simp [hbelow, Nat.not_le_of_lt hbelow, ih]
    · simp [hbelow, Nat.le_of_not_lt hbelow]

theorem lt_of_mem_take_itemsBefore {n : Nat} {items : List (Nat × DataItem)} {item : Nat × DataItem}
    (h : item ∈ items.take (itemsBefore n items)) : item.1 < n := by
  rw [itemsBefore_eq, ← List.prefix_iff_eq_take.mp (List.takeWhile_prefix _)] at h
  simpa using List.mem_takeWhile_imp h

/-- Behind the first item in a line or after it there is none of an earlier line. -/
theorem le_of_mem_drop_itemsBefore {n : Nat} {items : List (Nat × DataItem)} {item : Nat × DataItem}
    (hsorted : items.Pairwise fun a b => a.1 ≤ b.1) (h : item ∈ items.drop (itemsBefore n items)) :
    n ≤ item.1 := by
  induction items with
  | nil => cases List.drop_nil ▸ h
  | cons first items ih =>
    rw [List.pairwise_cons] at hsorted
    unfold itemsBefore at h ih
    rw [List.findIdx_cons] at h
    by_cases hbelow : n ≤ first.1
    · simp only [hbelow, decide_true, cond_true, List.drop_zero, List.mem_cons] at h
      rcases h with rfl | hmem
      · exact hbelow
      · exact hbelow.trans (hsorted.1 item hmem)
    · simp only [hbelow, decide_false, cond_false, List.drop_succ_cons] at h
      exact ih hsorted.2 h

/-! ## READ without a cursor -/

/-- The machine that has taken another number of items. -/
def Machine.readTo (m : Machine) (n : Nat) : Machine :=
  { m with stack := { m.stack with cursor := n } }

namespace Exec

open Machine

/-- Stores an item in a target. -/
def storeItem (target : Target) (item : DataItem) : Exec Unit := do
  let v ← itemValue ((← get).memory.store.kindOf target.name) item
  assign target v

/-- Hands out items to targets: each target takes the next item, and there must be one. The number
says how many targets have taken one, the last of them perhaps in vain. -/
def handOut : List (Nat × DataItem) → List Target → Machine → Nat × Except Halt Unit × Machine
  | _, [], m => (0, .ok (), m)
  | [], _ :: _, m => (0, refuse .outOfData m)
  | item :: items, target :: targets, m =>
    match storeItem target item.2 m with
    | (.error h, m') => (1, .error h, m')
    | (.ok _, m') => ((handOut items targets m').1 + 1, (handOut items targets m').2)

@[simp]
theorem handOut_nil (items : List (Nat × DataItem)) (m : Machine) :
    handOut items [] m = (0, .ok (), m) := by
  cases items <;> rfl

-- without the attribute, what an item is stored by is unfolded on the way
attribute [local irreducible] storeItem in
theorem handOut_cons (item : Nat × DataItem) (items : List (Nat × DataItem)) (target : Target)
    (targets : List Target) (m : Machine) :
    handOut (item :: items) (target :: targets) m =
      match storeItem target item.2 m with
      | (.error h, m') => (1, .error h, m')
      | (.ok _, m') => ((handOut items targets m').1 + 1, (handOut items targets m').2) :=
  rfl

section

variable (n : Nat)

theorem commutes_readTo_values (calls : Nat) (es : List Expr) :
    Commutes (fun m => m.readTo n) (values calls es) := by
  intro m
  rw [values_eq, values_eq, run_ofEval, run_ofEval]
  rfl

theorem commutes_readTo_modifyVariables (f : Store → Store) :
    Commutes (fun m => m.readTo n) (modifyVariables f) :=
  commutes_modify fun _ => rfl

theorem commutes_readTo_assign (target : Target) (v : Value) :
    Commutes (fun m => m.readTo n) (assign target v) := by
  cases target with
  | scalar column name =>
    exact commutes_get (fun _ => rfl) fun m => (commutes_lift _).bind fun _ =>
      commutes_readTo_modifyVariables n _
  | element column name indices =>
    refine (commutes_readTo_values n 1 indices).bind fun is => ?_
    exact commutes_get (fun _ => rfl) fun m =>
      (commutes_readTo_modifyVariables n _).bind fun _ => commutes_liftFault _

theorem commutes_readTo_itemValue (kind : Kind) (item : DataItem) :
    Commutes (fun m => m.readTo n) (itemValue kind item) := by
  refine commutes_ite (commutes_pure _)
    (commutes_ite (commutes_throw _) (commutes_ite (commutes_pure _) ?_))
  refine (commutes_lift _).bind fun v => ?_
  cases v with
  | none => exact commutes_throw _
  | some v => exact commutes_pure v

/-- How many items were taken makes no difference to an item that is stored. -/
theorem commutes_readTo_storeItem (target : Target) (item : DataItem) :
    Commutes (fun m => m.readTo n) (storeItem target item) :=
  commutes_get (fun _ => rfl) fun _ =>
    (commutes_readTo_itemValue n _ item).bind fun v => commutes_readTo_assign n target v

theorem handOut_readTo (items : List (Nat × DataItem)) (targets : List Target) (m : Machine) :
    handOut items targets (m.readTo n) =
      ((handOut items targets m).1, (handOut items targets m).2.1,
        (handOut items targets m).2.2.readTo n) := by
  induction targets generalizing items m with
  | nil => simp only [handOut_nil]
  | cons target targets ih =>
    cases items with
    | nil => rfl
    | cons item items =>
      rw [handOut_cons, handOut_cons, commutes_readTo_storeItem n target item.2 m]
      rcases storeItem target item.2 m with ⟨_ | _, m'⟩
      · rfl
      · simp only [ih items m']

end

theorem run_readAll_cons (items : List (Nat × DataItem)) (target : Target) (targets : List Target)
    (m : Machine) :
    readAll items (target :: targets) m =
      match items[m.stack.cursor]? with
      | none => refuse .outOfData m
      | some item =>
        (do storeItem target item.2; readAll items targets : Exec Unit)
            (m.readTo (m.stack.cursor + 1)) := by
  rw [readAll, run_get_bind]
  cases items[m.stack.cursor]? with
  | none => rfl
  | some item =>
    simp only [storeItem, bind_assoc]
    rfl

/-- **READ hands out the items that are left**, and the machine counts them. -/
theorem run_readAll (items : List (Nat × DataItem)) (targets : List Target) (m : Machine) :
    readAll items targets m =
      ((handOut (items.drop m.stack.cursor) targets m).2.1,
        (handOut (items.drop m.stack.cursor) targets m).2.2.readTo
          (m.stack.cursor + (handOut (items.drop m.stack.cursor) targets m).1)) := by
  induction targets generalizing m with
  | nil =>
    rw [handOut_nil]
    rfl
  | cons target targets ih =>
    rw [run_readAll_cons]
    cases hitem : items[m.stack.cursor]? with
    | none =>
      rw [List.drop_eq_nil_of_le (List.getElem?_eq_none_iff.mp hitem)]
      rfl
    | some item =>
      obtain ⟨hlt, rfl⟩ := List.getElem?_eq_some_iff.mp hitem
      rw [List.drop_eq_getElem_cons hlt, handOut_cons]
      simp only
      rw [run_bind, commutes_readTo_storeItem (m.stack.cursor + 1)]
      rcases storeItem target items[m.stack.cursor].2 m with ⟨_ | _, m'⟩
      · rfl
      · have hcursor : (m'.readTo (m.stack.cursor + 1)).stack.cursor = m.stack.cursor + 1 := rfl
        simp only [ih, hcursor, handOut_readTo, Nat.add_assoc, Nat.add_comm 1]
        rfl

theorem run_read (targets : List Target) (m : Machine) :
    read targets m =
      ((handOut (m.program.dataItems.drop m.stack.cursor) targets m).2.1,
        (handOut (m.program.dataItems.drop m.stack.cursor) targets m).2.2.readTo
          (m.stack.cursor + (handOut (m.program.dataItems.drop m.stack.cursor) targets m).1)) :=
  run_readAll m.program.dataItems targets m

theorem run_restore_line (ref : LineRef) (m : Machine) : restore (some ref) m =
    if m.program.contains ref.line then
      (.ok (), m.readTo (itemsBefore ref.line m.program.dataItems))
    else (.error (.fault (.error (.atColumn .undefinedLine ref.column))), m) := by
  rw [itemsBefore_eq, restore, run_get_bind]
  split <;> rfl

theorem unbroken_storeItem (target : Target) (item : DataItem) :
    Unbroken (storeItem target item) := by
  have hmismatch : Unbroken (refuse .typeMismatch : Exec Value) := fun _ =>
    avoids_halt (by decide : (.typeMismatch : ErrorKind) ∉ ErrorKind.control)
  have hvalue : ∀ kind, Unbroken (itemValue kind item) := by
    intro kind
    unfold itemValue
    split
    · exact unbroken_pure _
    · split
      · exact hmismatch
      · split
        · exact unbroken_pure _
        · refine (unbroken_lift (avoids_readNumber _ _)).bind fun v => ?_
          cases v with
          | none => exact hmismatch
          | some v => exact unbroken_pure v
  intro m
  rw [storeItem, run_get_bind]
  exact (hvalue _).bind (fun v => unbroken_assign target v) m

/-- There are not enough items just if all of them were handed out and there is one more target, and
that target changes nothing. -/
theorem handOut_outOfData_iff {items : List (Nat × DataItem)} {targets : List Target}
    {m m' : Machine} {k : Nat} {r : Except Halt Unit}
    (hrun : handOut items targets m = (k, r, m')) :
    (∃ h, r = .error h ∧ h.kind? = some .outOfData) ↔
      k = items.length ∧ k < targets.length ∧ handOut items (targets.take k) m =
        (k, .ok (), m') := by
  induction items generalizing targets m k with
  | nil =>
    cases targets with
    | nil =>
      rw [handOut_nil] at hrun
      cases hrun
      simp
    | cons target targets =>
      cases hrun
      exact iff_of_true ⟨_, rfl, rfl⟩ ⟨rfl, Nat.succ_pos _, handOut_nil _ _⟩
  | cons item items ih =>
    cases targets with
    | nil =>
      rw [handOut_nil] at hrun
      cases hrun
      simp
    | cons target targets =>
      rw [handOut_cons] at hrun
      cases hstore : storeItem target item.2 m with
      | mk stored m₁ =>
        rw [hstore] at hrun
        cases stored with
        | error h =>
          cases hrun
          refine iff_of_false ?_ ?_
          · rintro ⟨h', hh, hkind⟩
            obtain rfl := Except.error.inj hh
            exact (unbroken_storeItem target item.2).not_kind? hstore (by decide) hkind
          · rintro ⟨-, -, htake⟩
            rw [List.take_succ_cons, handOut_cons, hstore] at htake
            cases htake
        | ok u =>
          obtain ⟨rfl, hrest⟩ := Prod.mk.inj hrun
          rw [ih (Prod.ext rfl hrest), List.length_cons, List.length_cons, List.take_succ_cons,
            handOut_cons, hstore]
          simp only [Nat.add_right_cancel_iff, Nat.add_lt_add_iff_right, Prod.ext_iff]

end Exec

/-! ## Which item is next -/

namespace Machine

/-- No item was taken. -/
def Unread (m m' : Machine) : Prop := m'.stack.cursor = m.stack.cursor

instance : IsPreorder Machine Unread where
  refl _ := rfl
  trans _ _ _ h h' := h'.trans h

instance : AllowsResting Unread where
  evaluates room es m := by
    rw [Exec.run_ofEval]
    rfl
  rests h := congrArg Stacks.cursor h.stack

end Machine

namespace Exec

open Machine

variable {m : Machine}

theorem unread_of_remembers {α : Type} {x : Exec α} (h : Moves Remembers x) : Moves Unread x :=
  h.mono fun m m' hm => by
    obtain ⟨memory, rfl⟩ := hm
    rfl

theorem unread_modifyStacks {f : Stacks → Stacks} (h : ∀ s, (f s).cursor = s.cursor) :
    Moves Unread (modifyStacks f) :=
  moves_modify fun m => h m.stack

theorem unread_openFor (column : Nat) (name : String) (start limit : Expr) (step : Option Expr) :
    Moves Unread (openFor column name start limit step) := by
  have henters : ∀ var limit' step', Moves Unread (enterLoop column var limit' step') := by
    intro var limit' step' m
    have h := enters_enterLoop column var limit' step' m
    generalize enterLoop column var limit' step' m = r at h
    cases h <;> rfl
  refine moves_get fun m => Moves.bind (computes_value start) (fun v => ?_) m
  refine (computes_setScalar _ v).bind fun _ => (computes_bound _ limit).bind fun limit' => ?_
  cases step with
  | none => exact (moves_pure _).bind fun step' => henters _ _ _
  | some e => exact (computes_bound _ e).bind fun step' => henters _ _ _

theorem unread_nextLoop (column : Nat) (name : Option String) :
    Moves Unread (nextLoop column name) := by
  intro m
  have hnexts := nexts_nextLoop column name m
  generalize nextLoop column name m = r at hnexts
  cases hnexts with
  | fails => rfl
  | ends suffix named unnamed turn => cases turn <;> rfl

theorem unread_skipWhile : Moves Unread (do
    let m ← get
    match findWend? 0 (m.ahead m.position) with
    | some p => moveTo p
    | none => refuse .whileWithoutWend : Exec Unit) :=
  fun m => congrArg Stacks.cursor (stack_skipWhile m)

theorem unread_openWhile (condition : Expr) : Moves Unread (openWhile condition) := by
  refine moves_get fun m => moves_get (fun m' => ?_) m
  refine Moves.bind (computes_value condition) (fun v => (moves_lift _).bind fun holds => ?_) m'
  refine moves_ite
    (moves_ite (moves_pure ()) ((unread_of_remembers remembers_checkStack).bind fun _ => ?_))
    (moves_ite (Moves.bind ?_ fun _ => unread_skipWhile) unread_skipWhile)
  · exact unread_modifyStacks fun _ => rfl
  · exact unread_modifyStacks fun _ => rfl

theorem unread_gosub (ref : LineRef) : Moves Unread (gosub ref) := by
  refine moves_get fun m => moves_ite (moves_refuseAt _ _) ?_ m
  exact (unread_of_remembers remembers_checkStack).bind fun _ => moves_get fun _ => rfl

theorem unread_onGosub (selector : Expr) (refs : List LineRef) : Moves Unread (do
    match ← selected selector refs with
    | some ref => gosub ref
    | none => return () : Exec Unit) := by
  refine (computes_selected selector refs).bind fun ref => ?_
  cases ref with
  | none => exact moves_pure ()
  | some ref => exact unread_gosub ref

theorem unread_leaveSub : Moves Unread leaveSub := by
  refine moves_get fun m => ?_
  cases m.stack.returns with
  | nil => rfl
  | cons frame outer => rfl

theorem unread_command (column : Nat) {c : Command} (hreads : c.reads = false)
    (hclears : (Instr.command column c).clears = false) : Moves Unread (command column c) := by
  cases c with
  | openFor name start limit step => exact unread_openFor column name start limit step
  | next name => exact unread_nextLoop column name
  | openWhile condition => exact unread_openWhile condition
  | gosub ref => exact unread_gosub ref
  | onGosub selector refs => exact unread_onGosub selector refs
  | leaveSub => exact unread_leaveSub
  | read | restore => cases hreads
  | clear | new | run | runFile | load => cases hclears
  | _ => exact rests_command column rfl rfl

/-- RUN starts afresh, whether there is a line to start with or not. -/
theorem mark_run {c : Command} (ref : Option LineRef) (m : Machine)
    (hgoes : c.mark (.ok () : Except Halt Unit) = .fresh)
    (hends : c.mark (.error .finished : Except Halt Unit) = .fresh)
    (hfails : ref = none ∨ ∀ e, c.mark (.error (.fault (.error e)) : Except Halt Unit) = .fresh) :
    c.mark (run ref m).1 = .fresh := by
  have hstarts := starts_start { m with direct := #[] } (ref.map LineRef.line)
    (ref.map LineRef.column)
  unfold run
  rw [run_modify_bind]
  generalize start (ref.map LineRef.line) (ref.map LineRef.column) { m with direct := #[] } =
    r at hstarts
  cases hstarts with
  | goes => exact hgoes
  | ends => exact hends
  | @fails e given =>
    rcases hfails with rfl | hfails
    · cases given
    · exact hfails e

/-- **Only READ, RESTORE and a fresh start change which item is next.** -/
theorem cursor_command (column : Nat) {c : Command} (hreads : c.reads = false)
    (hmark : c.mark (command column c m).1 ≠ .fresh) : m.Unread (command column c m).2 := by
  cases hclears : (Instr.command column c).clears with
  | false => exact unread_command column hreads hclears m
  | true =>
    cases c with
    | clear | new => exact absurd rfl hmark
    | run ref => exact absurd (mark_run ref m rfl rfl (.inr fun _ => rfl)) hmark
    | runFile name =>
      have hload := stack_loadFile name m
      rw [show command column (.runFile name) = (do loadFile name; run none : Exec Unit) from rfl,
        run_bind] at hmark ⊢
      generalize loadFile name m = r at hload hmark
      obtain ⟨_ | _, m'⟩ := r
      · exact congrArg Stacks.cursor hload
      · exact absurd (mark_run none m' rfl rfl (.inl rfl)) hmark
    | load name =>
      have hload := stack_loadFile name m
      rw [show command column (.load name) = (do requireDirect; loadFile name : Exec Unit) from rfl,
        run_bind, run_requireDirect] at hmark ⊢
      cases hline : m.current.line with
      | some n => rfl
      | none =>
        simp only [hline, Option.isSome_none, Bool.false_eq_true, if_false] at hmark ⊢
        generalize loadFile name m = r at hload hmark
        obtain ⟨_ | _, m'⟩ := r
        · exact congrArg Stacks.cursor hload
        · exact absurd rfl hmark
    | _ => cases hclears

end Exec

/-! ## Turns -/

namespace Machine

/-- The instruction that the next turn executes, and the machine that executes it when its line has
been shown. -/
def executing? (m : Machine) : Option (Instr × Machine) :=
  match m.upcoming?, showTrace m with
  | some i, (.ok _, m') => some (i, m'.atStatement m.position)
  | _, _ => none

/-- What a turn does: nothing to the program and what is open, or what an instruction does. -/
inductive Proceeds (m : Machine) :
    Option (Instr × Machine) → Except Halt Bool × Machine → Prop where
  | rests {r : Except Halt Bool} {m' : Machine} (stack : m'.stack = m.stack)
      (program : m'.program = m.program)
      (mark : m.mark r = .plain) : Proceeds m none (r, m')
  | executes {i : Instr} {m₁ m₂ : Machine} {r : Except Halt Unit} (run : Exec.instr i m₁ = (r, m₂))
      (stack : m₁.stack = m.stack) (program : m₁.program = m.program)
      (mark : m.mark ((r.map fun _ => true).mapError (placeHalt m.position.line)) = i.mark r)
      (flow : m.program.Built → m₁.Flow (i.mark r) (r, m₂)) :
      Proceeds m (some (i, m₁)) ((r.map fun _ => true).mapError (placeHalt m.position.line), m₂)

theorem proceeds_tick (m : Machine) : m.Proceeds m.executing? (tick m) := by
  have hturn := turn_tick m
  generalize tick m = r at hturn
  unfold executing?
  cases hturn with
  | missing line =>
    rw [show m.upcoming? = none by simp [upcoming?, line]]
    exact .rests rfl rfl (mark_crash m _)
  | typedEnd code_eq ended | programEnd code_eq ended | lineEnd code_eq ended =>
    have hnone := upcoming?_eq_none code_eq ended
    rw [hnone]
    exact .rests rfl rfl (mark_eq_plain hnone)
  | broken _ _ pending =>
    have hnone := upcoming?_of_breakPending pending
    rw [hnone]
    exact .rests rfl rfl (mark_eq_plain hnone)
  | cut code_eq here pending trace =>
    obtain ⟨c, rfl⟩ := crash_of_showTrace trace
    rw [upcoming?_eq_some pending code_eq here, trace]
    obtain ⟨_, _, _, rfl⟩ := writes_of_showTrace trace
    exact .rests rfl rfl (mark_crash m c)
  | executed code_eq here pending trace run =>
    have hwrites := writes_of_showTrace trace
    rw [upcoming?_eq_some pending code_eq here, trace]
    have hflow := Session.flow_atStatement code_eq here hwrites
    rw [run] at hflow
    obtain ⟨_, _, _, rfl⟩ := hwrites
    refine .executes run rfl rfl ?_ hflow
    rw [← mark_ok]
    exact mark_eq code_eq here pending _
  | @halted code i e m' m'' code_eq here pending trace run =>
    have hwrites := writes_of_showTrace trace
    rw [upcoming?_eq_some pending code_eq here, trace]
    have hflow := Session.flow_atStatement code_eq here hwrites
    rw [run] at hflow
    obtain ⟨_, _, _, rfl⟩ := hwrites
    refine .executes run rfl rfl ?_ hflow
    rw [← mark_placeHalt i m.position.line]
    exact mark_eq code_eq here pending _

theorem program_of_executing? {m m₁ : Machine} {i : Instr} (h : m.executing? = some (i, m₁)) :
    m₁.program = m.program := by
  have hproceeds := proceeds_tick m
  rw [h] at hproceeds
  generalize tick m = result at hproceeds
  cases hproceeds with
  | executes _ _ program => exact program

/-- A turn that executes READ hands out the items that are left. -/
theorem tick_read {m m₁ m' : Machine} {column k : Nat} {targets : List Target}
    {r : Except Halt Unit} (h : m.executing? = some (.command column (.read targets), m₁))
    (hout : Exec.handOut (m.program.dataItems.drop m.stack.cursor) targets m₁ = (k, r, m')) :
    tick m = ((r.map fun _ => true).mapError (placeHalt m.position.line),
      m'.readTo (m.stack.cursor + k)) := by
  have hproceeds := proceeds_tick m
  rw [h] at hproceeds
  generalize tick m = result at hproceeds ⊢
  cases hproceeds with
  | executes run stack program =>
    change Exec.read targets m₁ = _ at run
    rw [Exec.run_read, stack, program, hout] at run
    obtain ⟨rfl, rfl⟩ := Prod.mk.inj run
    rfl

end Machine

namespace Session

open Machine

theorem stack_turned (m : Machine) (edited : Bool) (r : Except Halt Bool × Machine) :
    (turned m edited r).machine.stack = r.2.stack := by
  obtain ⟨_ | _ | _, m'⟩ := r
  · exact stack_settle _ m'
  · exact stack_settle _ m'
  · rfl

theorem program_of_turned (m : Machine) (edited : Bool) (r : Except Halt Bool × Machine) :
    (turned m edited r).machine.program = r.2.program := by
  obtain ⟨_ | _ | _, m'⟩ := r
  · exact (agrees_settle _ m').1.program
  · exact (agrees_settle _ m').1.program
  · rfl

theorem edited_turned (m : Machine) (edited : Bool) :
    (turned m edited (tick m)).edited = (m.mark (tick m).1).edited edited := by
  have hproceeds := proceeds_tick m
  generalize m.executing? = e, tick m = r at hproceeds
  cases hproceeds with
  | @rests r m' _ _ mark =>
    obtain _ | _ | _ := r
    · rfl
    · rw [mark]
      rfl
    · rfl
  | @executes i m₁ m₂ r => cases r <;> rfl

end Session

/-! ## The tally -/

/-- An account of the DATA items: those that there were when they were last gone back to, the line
that RESTORE named, and how many targets of READ have taken an item since. -/
structure Ledger where
  items : List (Nat × DataItem) := []
  line : Option Nat := none
  taken : Nat := 0

namespace Ledger

open Machine

/-- The account when the items of a program are gone back to. -/
def opened (p : Program) (line : Option Nat) : Ledger := { items := p.dataItems, line }

/-- How many items stand in front of the one that was gone back to: the first one, or the first one
in a line or after it. -/
def point (l : Ledger) : Nat := l.line.elim 0 fun n => itemsBefore n l.items

/-- How many items stand in front of the next one. -/
def next (l : Ledger) : Nat := l.point + l.taken

/-- The account after an instruction with a result. RUN, CLEAR, NEW and LOAD go back to the first
item if they start afresh, and RESTORE goes back if it does not fail. -/
def after (l : Ledger) (i : Instr) (m : Machine) (r : Except Halt Unit × Machine) : Ledger :=
  if i.mark r.1 = .fresh then opened r.2.program none
  else
    match i with
    | .command _ (.read targets) =>
      { l with taken := l.taken + (Exec.handOut (m.program.dataItems.drop l.next) targets m).1 }
    | .command _ (.restore ref) => if r.1.isOk then opened r.2.program (ref.map LineRef.line) else l
    | _ => l

/-- The account after a turn. -/
def turned (l : Ledger) (m : Machine) : Ledger :=
  match m.executing? with
  | some (i, m₁) => l.after i m₁ (Exec.instr i m₁)
  | none => l

/-- The account after a text was loaded. -/
def loaded (l : Ledger) : Except Crash Bool × Machine → Ledger
  | (.ok true, m) => opened m.program none
  | _ => l

variable {l : Ledger} {m : Machine}

/-- The item that was gone back to is the first one in its line or behind it. -/
theorem take_drop_point (hsorted : l.items.Pairwise fun a b => a.1 ≤ b.1) {n : Nat}
    (h : l.line = some n) :
    (∀ item ∈ l.items.take l.point, item.1 < n) ∧ ∀ item ∈ l.items.drop l.point, n ≤ item.1 := by
  rw [point, h]
  exact ⟨fun _ => lt_of_mem_take_itemsBefore, fun _ => le_of_mem_drop_itemsBefore hsorted⟩

/-- Most commands leave the account. -/
theorem after_command {column : Nat} {c : Command} {r : Except Halt Unit × Machine}
    (hreads : c.reads = false) (hmark : c.mark r.1 ≠ .fresh) :
    l.after (.command column c) m r = l := by
  refine (if_neg hmark).trans ?_
  cases c with
  | read | restore => cases hreads
  | _ => rfl

theorem after_read (column : Nat) (targets : List Target) (r : Except Halt Unit × Machine) :
    l.after (.command column (.read targets)) m r =
      { l with
        taken := l.taken + (Exec.handOut (m.program.dataItems.drop l.next) targets m).1 } := by
  have hplain : (Command.read targets).mark r.1 = .plain := Command.mark_eq_plain rfl r.1
  refine if_neg fun hfresh => ?_
  cases hplain.symm.trans hfresh

theorem turned_read {m₁ : Machine} {column : Nat} {targets : List Target}
    (h : m.executing? = some (.command column (.read targets), m₁)) :
    l.turned m =
      { l with
        taken := l.taken + (Exec.handOut (m₁.program.dataItems.drop l.next) targets m₁).1 } := by
  rw [turned, h]
  exact after_read column targets _

theorem next_after_read (column : Nat) (targets : List Target) (h : m.stack.cursor = l.next) :
    (Exec.read targets m).2.stack.cursor =
      (l.after (.command column (.read targets)) m (Exec.read targets m)).next := by
  rw [after_read, Exec.run_read, h]
  exact Nat.add_assoc _ _ _

theorem next_after_restore (column : Nat) (ref : Option LineRef) (h : m.stack.cursor = l.next) :
    (Exec.restore ref m).2.stack.cursor =
      (l.after (.command column (.restore ref)) m (Exec.restore ref m)).next := by
  cases ref with
  | none => rfl
  | some ref =>
    rw [Exec.run_restore_line]
    split
    · rfl
    · exact h

/-- **The account is kept by every instruction.** -/
theorem next_after (i : Instr) (h : m.stack.cursor = l.next) :
    (Exec.instr i m).2.stack.cursor = (l.after i m (Exec.instr i m)).next := by
  cases i with
  | jump column target => exact h
  | branch column condition target =>
    have hunread : Exec.Moves Unread (Exec.instr (.branch column condition target)) := by
      refine (Exec.computes_value condition).bind fun v => (Exec.moves_lift _).bind fun holds => ?_
      exact Exec.moves_ite (Exec.moves_pure ()) (Exec.rests_jumpTo target)
    exact (hunread m).trans h
  | command column c =>
    by_cases hmark : c.mark (Exec.command column c m).1 = .fresh
    · have hflow := Exec.flow_command column c m
      rw [hmark] at hflow
      have hafter : l.after (.command column c) m (Exec.command column c m) = .opened _ none :=
        if_pos hmark
      exact (congrArg Stacks.cursor hflow.stack_of_fresh).trans (congrArg next hafter).symm
    · cases hreads : c.reads with
      | false =>
        have hcursor := Exec.cursor_command column hreads hmark
        exact (hcursor.trans h).trans (congrArg next (after_command hreads hmark)).symm
      | true =>
        cases c with
        | read targets => exact next_after_read column targets h
        | restore ref => exact next_after_restore column ref h
        | _ => cases hreads

/-- The account is one of the items that there are, unless the program was edited. -/
theorem items_after {i : Instr} {r : Except Halt Unit × Machine} (hflow : m.Flow (i.mark r.1) r)
    (hmark : i.mark r.1 ≠ .edit) (h : i.mark r.1 = .plain → l.items = m.program.dataItems) :
    (l.after i m r).items = r.2.program.dataItems := by
  unfold after
  cases hr : i.mark r.1 with
  | fresh => rfl
  | edit => exact absurd hr hmark
  | plain =>
    rw [hr] at hflow
    have hitems : l.items = r.2.program.dataItems := (h hr).trans (by rw [hflow.program_of_plain])
    rw [if_neg nofun]
    split
    · exact hitems
    · split
      · rfl
      · exact hitems
    · exact hitems

end Ledger

/-- A session, and the account of its DATA items. -/
structure Tally where
  session : Session
  ledger : Ledger

namespace Tally

open Machine Session

/-- One thing that can happen. A program that is loaded or started goes back to the first item. -/
inductive Step : Tally → Tally → Prop where
  | world {phase : Phase} {edited : Bool} {m m' : Machine} {l : Ledger}
      (elsewhere : m.Elsewhere m') :
      Step ⟨⟨phase, edited, m⟩, l⟩ ⟨⟨phase, edited, m'⟩, l⟩
  | enter (text : String) (edited : Bool) (m : Machine) (l : Ledger) :
      Step ⟨⟨.prompt, edited, m⟩, l⟩ ⟨entered text edited (accept text m), l⟩
  | load (text : String) (edited : Bool) (m : Machine) (l : Ledger) :
      Step ⟨⟨.prompt, edited, m⟩, l⟩ ⟨loaded edited (load text m), l.loaded (load text m)⟩
  | start (line : Option Nat) (edited : Bool) (m : Machine) (l : Ledger) :
      Step ⟨⟨.prompt, edited, m⟩, l⟩ ⟨started (prepare line m), .opened m.program none⟩
  | ready (edited : Bool) (m : Machine) (l : Ledger) :
      Step ⟨⟨.prompt, edited, m⟩, l⟩ ⟨⟨.prompt, edited, (ready m).2⟩, l⟩
  | turn (edited : Bool) (m : Machine) (l : Ledger) :
      Step ⟨⟨.running, edited, m⟩, l⟩ ⟨turned m edited (tick m), l.turned m⟩
  | abandon (c : Crash) (edited : Bool) (m : Machine) (l : Ledger) :
      Step ⟨⟨.running, edited, m⟩, l⟩
      ⟨⟨.prompt, edited, (settle (.error (.fault (.crash c))) m).2⟩, l⟩

/-- A new machine, which has no items. -/
def init (settings : Settings) : Tally := ⟨.init settings, {}⟩

/-- What a tally that began with a new machine comes to. -/
def Reached (settings : Settings) : Tally → Prop := Relation.ReflTransGen Step (init settings)

/-- **Every session has a tally.** -/
theorem exists_reached {settings : Settings} {s : Session} (h : s.Reached settings) :
    ∃ ledger, Reached settings ⟨s, ledger⟩ := by
  induction h with
  | refl => exact ⟨{}, .refl⟩
  | tail _ step ih =>
    obtain ⟨l, ih⟩ := ih
    cases step with
    | world elsewhere => exact ⟨_, ih.tail (.world elsewhere)⟩
    | enter text edited m => exact ⟨_, ih.tail (.enter text edited m l)⟩
    | load text edited m => exact ⟨_, ih.tail (.load text edited m l)⟩
    | start line edited m => exact ⟨_, ih.tail (.start line edited m l)⟩
    | ready edited m => exact ⟨_, ih.tail (.ready edited m l)⟩
    | turn edited m => exact ⟨_, ih.tail (.turn edited m l)⟩
    | abandon c edited m => exact ⟨_, ih.tail (.abandon c edited m l)⟩

theorem Step.session {t t' : Tally} (h : Step t t') : Session.Step t.session t'.session := by
  cases h with
  | world elsewhere => exact .world elsewhere
  | enter text edited m => exact .enter text edited m
  | load text edited m => exact .load text edited m
  | start line edited m => exact .start line edited m
  | ready edited m => exact .ready edited m
  | turn edited m => exact .turn edited m
  | abandon c edited m => exact .abandon c edited m

theorem Reached.session {settings : Settings} {t : Tally} (h : Reached settings t) :
    t.session.Reached settings :=
  Relation.ReflTransGen.lift Tally.session (fun _ _ => Step.session) _ _ h

/-- The machine keeps the account, and it is one of the items that there are unless the program was
edited. -/
structure InOrder (t : Tally) : Prop where
  next : t.session.machine.stack.cursor = t.ledger.next
  items : t.session.edited = false → t.ledger.items = t.session.machine.program.dataItems

theorem InOrder.turn {edited : Bool} {m : Machine} {l : Ledger}
    (h : InOrder ⟨⟨.running, edited, m⟩, l⟩) (hbuilt : m.program.Built) :
    InOrder ⟨turned m edited (tick m), l.turned m⟩ := by
  have hproceeds := proceeds_tick m
  have hedited := edited_turned m edited
  have hstack := stack_turned m edited (tick m)
  have hprogram := program_of_turned m edited (tick m)
  unfold Ledger.turned
  generalize m.executing? = e, turned m edited (tick m) = s, tick m = r at *
  cases hproceeds with
  | rests stack program mark =>
    rw [mark] at hedited
    refine ⟨?_, fun hfalse => ?_⟩
    · simp only [hstack, stack]
      exact h.next
    · simp only [hprogram, program]
      exact h.items (hedited.symm.trans hfalse)
  | @executes i m₁ m₂ r run stack program mark flow =>
    have hnext : m₁.stack.cursor = l.next := by
      rw [stack]
      exact h.next
    rw [mark] at hedited
    refine ⟨?_, fun hfalse => ?_⟩
    · have hafter := Ledger.next_after i hnext
      rw [run] at hafter
      simp only [hstack, run]
      exact hafter
    · have hmark : (i.mark r).edited edited = false := hedited.symm.trans hfalse
      simp only [hprogram, run]
      refine Ledger.items_after (flow hbuilt) (fun hedit => ?_) fun hplain => ?_
      · rw [hedit] at hmark
        cases hmark
      · rw [hplain] at hmark
        rw [program]
        exact h.items hmark

theorem Step.inOrder {t t' : Tally} (hstep : Step t t') (hbuilt : t.session.machine.program.Built)
    (h : t.InOrder) :
    t'.InOrder := by
  cases hstep with
  | world elsewhere =>
    obtain ⟨_, _, _, _, _, _, _, _, _, rfl⟩ := elsewhere
    exact ⟨h.next, h.items⟩
  | enter text edited m l =>
    have haccepts := accepts_accept text m
    generalize accept text m = r at haccepts
    cases haccepts with
    | stored read number =>
      have hnumbered : (edited || isNumbered (m.room - 1) text) = true := by
        simp [isNumbered, read, number]
      exact ⟨h.next, fun hedited => by cases hnumbered.symm.trans hedited⟩
    | nothing read number =>
      have hsame : (edited || isNumbered (m.room - 1) text) = edited := by
        simp [isNumbered, read, number]
      exact ⟨h.next, fun hedited => h.items (hsame.symm.trans hedited)⟩
    | code => exact ⟨h.next, h.items⟩
    | @refused r m' refused reports =>
      obtain ⟨_, _, _, _, rfl⟩ := reports
      rcases r with c | entry
      · exact ⟨h.next, h.items⟩
      · obtain rfl := refused entry rfl
        exact ⟨h.next, h.items⟩
  | load text edited m l =>
    have htakes := takes_load text m
    generalize Machine.load text m = r at htakes
    cases htakes with
    | takes => exact ⟨rfl, fun _ => rfl⟩
    | @refused r m' refused reports =>
      obtain ⟨_, _, _, _, rfl⟩ := reports
      rcases r with c | taken
      · exact ⟨h.next, h.items⟩
      · obtain rfl := refused taken rfl
        exact ⟨h.next, h.items⟩
  | start line edited m l =>
    have hprepares := prepares_prepare line m
    generalize prepare line m = r at hprepares
    cases hprepares with
    | goes => exact ⟨rfl, fun _ => rfl⟩
    | @stays r m' stays reports =>
      obtain ⟨_, _, _, _, rfl⟩ := reports
      rcases r with c | _ | _ <;> exact ⟨rfl, fun _ => rfl⟩
  | ready => exact ⟨h.next, h.items⟩
  | turn edited m l => exact h.turn hbuilt
  | abandon c edited m l =>
    refine ⟨(congrArg Stacks.cursor (stack_settle _ m)).trans h.next, fun hedited => ?_⟩
    rw [(agrees_settle (.error (.fault (.crash c))) m).1.program]
    exact h.items hedited

theorem Reached.inOrder {settings : Settings} {t : Tally} (h : Reached settings t) : t.InOrder := by
  induction h with
  | refl =>
    rw [init, init_eq]
    exact ⟨rfl, fun _ => rfl⟩
  | tail hreached step ih => exact step.inOrder (Reached.session hreached).safe.keeps.built ih

/-- **READ takes the DATA items in order.**

Every session has a tally, and the account is one of the items that there are unless the program was
edited since it was last started afresh. The items stand in the order of their lines: RESTORE with a
line goes back to the first item that is in this line or behind it. When READ is executed, its
targets take the items one by one, from the one that was gone back to and behind those that were
taken since, and no other item. READ runs out of DATA just if there is a target without an item, and
this target changes nothing. -/
theorem reads_in_order {settings : Settings} {s : Session} (h : s.Reached settings) :
    (∃ l, Reached settings ⟨s, l⟩) ∧
    ∀ l, Reached settings ⟨s, l⟩ → s.edited = false →
      l.items = s.machine.program.dataItems ∧
      (l.line = none → l.point = 0) ∧
      (∀ n, l.line = some n →
        (∀ item ∈ l.items.take l.point, item.1 < n) ∧ ∀ item ∈ l.items.drop l.point, n ≤ item.1) ∧
      ∀ column targets m, s.machine.executing? = some (.command column (.read targets), m) →
        ∃ k r m', Exec.handOut (l.items.drop (l.point + l.taken)) targets m = (k, r, m') ∧
          tick s.machine = ((r.map fun _ => true).mapError (placeHalt s.machine.position.line),
            m'.readTo (l.point + l.taken + k)) ∧
          (s.machine.Raises .outOfData ↔ k = (l.items.drop (l.point + l.taken)).length ∧
            k < targets.length ∧
            Exec.handOut (l.items.drop (l.point + l.taken)) (targets.take k) m = (k, .ok (), m')) ∧
          (s.phase = .running → Reached settings ⟨s.next, { l with taken := l.taken + k }⟩) := by
  refine ⟨exists_reached h, fun l hreached hedited => ?_⟩
  have horder := hreached.inOrder
  have hitems : l.items = s.machine.program.dataItems := horder.items hedited
  have hsorted : l.items.Pairwise fun a b => a.1 ≤ b.1 :=
    hitems ▸ h.safe.keeps.built.orderly.dataItems
  refine ⟨hitems, fun hline => by rw [Ledger.point, hline]; rfl, fun n hline =>
    Ledger.take_drop_point hsorted hline, ?_⟩
  intro column targets m hread
  have hnext : s.machine.stack.cursor = l.point + l.taken := horder.next
  cases hout : Exec.handOut (l.items.drop (l.point + l.taken)) targets m with
  | mk k rest =>
    obtain ⟨r, m'⟩ := rest
    have hprogram := program_of_executing? hread
    have hleft : Exec.handOut (s.machine.program.dataItems.drop s.machine.stack.cursor) targets m =
        (k, r, m') := by
      rw [← hitems, hnext, hout]
    have htick := tick_read hread hleft
    rw [hnext] at htick
    refine ⟨k, r, m', rfl, htick, ?_, fun hrunning => ?_⟩
    · rw [raises_iff_of_tick htick, Exec.handOut_outOfData_iff hout]
    · obtain ⟨phase, edited, m₀⟩ := s
      obtain rfl : phase = .running := hrunning
      have hstep := hreached.tail (.turn edited m₀ l)
      rw [Ledger.turned_read hread, hprogram, ← hitems, Ledger.next, hout] at hstep
      exact hstep

/-- A program runs on a new machine, and that many turns are over. -/
def ran (settings : Settings) (text : String) : Nat → Tally
  | 0 =>
    ⟨Exec.ran settings text 0,
      .opened (Session.loaded false (Machine.load text (.new settings))).machine.program none⟩
  | n + 1 =>
    ⟨(ran settings text n).session.next, (ran settings text n).ledger.turned
      (ran settings text n).session.machine⟩

theorem reached_ran {settings : Settings} {text : String} {n : Nat}
    (h : ∀ k < n, (ran settings text k).session.phase = .running) :
    Reached settings (ran settings text n) := by
  induction n with
  | zero =>
    have hloaded : Reached settings _ := .single (.load text false (.new settings) {})
    have hprompt : ∀ r, Session.loaded false r =
        ⟨.prompt, false, (Session.loaded false r).machine⟩ := by
      intro r
      unfold Session.loaded
      split <;> rfl
    rw [hprompt] at hloaded
    exact hloaded.tail (.start none false _ _)
  | succ n ih =>
    have hreached := ih fun k hk => h k (Nat.lt_succ_of_lt hk)
    have hrunning := h n (Nat.lt_succ_self n)
    rw [ran]
    generalize ran settings text n = t at hreached hrunning
    obtain ⟨⟨phase, edited, m⟩, l⟩ := t
    obtain rfl : phase = .running := hrunning
    exact hreached.tail (.turn edited m l)

/-- READ takes the first item, RESTORE goes back to the last one, and then there are two targets. -/
def readsAgain : String := "10 DATA 1,2\n20 DATA 3\n30 READ A:RESTORE 20:READ B,C"

/-- The second READ is next. -/
def restored : Tally := ran default readsAgain 6

/-- How many targets READ has, if the next turn executes it. -/
def targetsNext? (m : Machine) : Option Nat :=
  match m.executing? with
  | some (.command _ (.read targets), _) => some targets.length
  | _ => none

theorem exists_of_targetsNext? {m : Machine} {n : Nat} (h : targetsNext? m = some n) :
    ∃ column targets m₁, m.executing? = some (.command column (.read targets), m₁) ∧
      targets.length = n := by
  unfold targetsNext? at h
  split at h
  · rename_i column targets m₁ hread
    exact ⟨column, targets, m₁, hread, Option.some.inj h⟩
  · cases h

theorem reads_in_order_restored : ∃ column targets m m',
    restored.session.machine.executing? = some (.command column (.read targets), m) ∧
      targets.length = 2 ∧
    Exec.handOut (restored.ledger.items.drop 2) (targets.take 1) m = (1, .ok (), m') := by
  have hfacts : (∀ k < 6, (ran default readsAgain k).session.phase = .running) ∧
      restored.session.edited = false ∧ restored.ledger.point + restored.ledger.taken = 2 ∧
      restored.ledger.items.length = 3 ∧ targetsNext? restored.session.machine = some 2 ∧
      restored.session.machine.Raises .outOfData := by
    decide +kernel
  obtain ⟨hrunning, hedited, hnext, hlength, htargets, hraises⟩ := hfacts
  have hreached : Reached default restored := reached_ran hrunning
  obtain ⟨column, targets, m, hread, htwo⟩ := exists_of_targetsNext? htargets
  obtain ⟨-, -, -, hreads⟩ := (reads_in_order hreached.session).2 restored.ledger hreached hedited
  obtain ⟨k, r, m', -, -, hraises_iff, -⟩ := hreads column targets m hread
  obtain ⟨hk, -, htaken⟩ := hraises_iff.mp hraises
  rw [hnext, List.length_drop, hlength] at hk
  subst hk
  rw [hnext] at htaken
  exact ⟨column, targets, m, m', hread, htwo, htaken⟩

end Tally

end LineBasic
