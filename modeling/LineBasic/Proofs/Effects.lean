import Mathlib
import LineBasic.Proofs.EvaluationFrame
import LineBasic.Proofs.Turns

/-!
# What statements change

The parts of which statements are made, and what each of them may change: the variables, through a
few operations on them, or what is written and read. A statement that only computes leaves the
program and the flow of control as they are.

* `Exec.Moves`: execution leads from every machine to a related one, however it ends.
* `Store.Change`: the operations on variables, and the faults that they end in. `Machine.Alters`:
  the variables went through some of them.
* `Machine.AllowsComputing`: a relation that allows whatever a statement does without moving or
  taking DATA items.
* `Machine.AllowsReading`: a relation that also allows it to take DATA items.
* `Machine.Still`: program, positions and all that is open are the same.
* `Machine.Computes`: the variables went through operations, and the rest is still.
-/

namespace LineBasic

/-! ## Relations that execution keeps to -/

namespace Exec

variable {α β : Type} {R R' : Machine → Machine → Prop}

/-- Execution leads from every machine to a related one, however it ends. -/
def Moves (R : Machine → Machine → Prop) (x : Exec α) : Prop := ∀ m, R m (x m).2

theorem Moves.mono {x : Exec α} (h : Moves R x) (hR : ∀ m m', R m m' → R' m m') : Moves R' x :=
  fun m => hR _ _ (h m)

theorem Moves.of_run {x : Exec α} {r : Except Halt α} {m m' : Machine} (h : Moves R x)
    (hrun : x m = (r, m')) :
    R m m' := by
  have := h m
  rwa [hrun] at this

section

variable [IsPreorder Machine R]

theorem Moves.bind {x : Exec α} {f : α → Exec β} (hx : Moves R x) (hf : ∀ a, Moves R (f a)) :
    Moves R (x >>= f) := by
  intro m
  have hx := hx m
  rw [run_bind]
  cases hrun : x m with
  | mk r m' =>
    rw [hrun] at hx
    cases r with
    | error e => exact hx
    | ok a => exact trans_of R hx (hf a m')

theorem moves_pure (a : α) : Moves R (pure a : Exec α) := fun m => refl_of R m

theorem moves_throw (h : Halt) : Moves R (throw h : Exec α) := fun m => refl_of R m

theorem moves_refuse (kind : ErrorKind) : Moves R (refuse kind : Exec α) := moves_throw _

theorem moves_refuseAt (kind : ErrorKind) (column : Nat) :
    Moves R (refuseAt kind column : Exec α) := moves_throw _

theorem moves_crash (c : Crash) : Moves R (crash c : Exec α) := moves_throw _

theorem moves_lift (x : Except Error α) : Moves R (lift x) := by
  intro m
  cases x <;> exact refl_of R m

theorem moves_liftFault (x : Except Fault α) : Moves R (liftFault x) := by
  intro m
  cases x <;> exact refl_of R m

end

theorem moves_ite {p : Prop} [Decidable p] {x y : Exec α} (hx : Moves R x) (hy : Moves R y) :
    Moves R (if p then x else y) := by
  split
  · exact hx
  · exact hy

theorem moves_get {f : Machine → Exec β} (h : ∀ m, R m (f m m).2) : Moves R (get >>= f) := h

theorem moves_modify {f : Machine → Machine} (h : ∀ m, R m (f m)) : Moves R (modify f) := h

end Exec

/-! ## Operations on variables -/

/-- One operation on the variables, or the evaluation of expressions, and the fault that it ended in
if it did; operations that change nothing when they fail are left out then. -/
inductive Store.Change : Option Fault → Store → Store → Prop where
  | set {s s' : Store} {name : String} {v : Value} (run : s.set name v = .ok s') : Change none s s'
  | setElement (cells room : Nat) (s : Store) (name : String) (indices : List Value) (v : Value) :
      Change (faultOf (s.setElement cells room name indices v).1) s
        (s.setElement cells room name indices v).2
  | dim (cells room : Nat) (s : Store) (name : String) (bounds : List Value) :
      Change (faultOf (s.dim cells room name bounds).1) s (s.dim cells room name bounds).2
  | eraseArray {s s' : Store} {name : String} (run : s.eraseArray name = .ok s') : Change none s s'
  | eraseAll (s : Store) : Change none s s.eraseAll
  | declare (s : Store) (letters : List String) (kind : Kind) :
      Change none s (s.declare letters kind)
  | clear (s : Store) : Change none s s.clear
  | evaluate (room : Nat) (es : List Expr) (scope : Scope) (m : Memory) :
      Change (faultOf (evaluateAll room es scope m).1) m.store (evaluateAll room es scope m).2.store

/-- An operation leads from the variables to others. -/
def Store.Changes (s s' : Store) : Prop := ∃ ended, s.Change ended s'

namespace Machine

/-- The variables went through some operations. -/
def Alters (m m' : Machine) : Prop :=
  Relation.ReflTransGen Store.Changes m.memory.store m'.memory.store

instance : IsPreorder Machine Alters where
  refl _ := .refl
  trans _ _ _ := .trans

theorem Alters.single {m m' : Machine} {ended : Option Fault}
    (h : m.memory.store.Change ended m'.memory.store) : m.Alters m' :=
  Relation.ReflTransGen.single ⟨ended, h⟩

/-- The program, the positions and all that is open are the same. How far the DATA items were read
may differ. -/
structure Still (m m' : Machine) : Prop where
  program : m'.program = m.program
  direct : m'.direct = m.direct
  position : m'.position = m.position
  current : m'.current = m.current
  resume : m'.resume = m.resume
  stack : ∃ cursor, m'.stack = { m.stack with cursor }

instance : IsPreorder Machine Still where
  refl _ := ⟨rfl, rfl, rfl, rfl, rfl, _, rfl⟩
  trans m m' m'' h h' := by
    obtain ⟨c, hstack⟩ := h.stack
    obtain ⟨c', hstack'⟩ := h'.stack
    exact ⟨h'.program.trans h.program, h'.direct.trans h.direct, h'.position.trans h.position,
      h'.current.trans h.current, h'.resume.trans h.resume, c', by rw [hstack', hstack]⟩

/-- Something was computed, written or read. -/
structure Computes (m m' : Machine) : Prop where
  alters : m.Alters m'
  still : m.Still m'

instance : IsPreorder Machine Computes where
  refl m := ⟨refl_of Alters m, refl_of Still m⟩
  trans _ _ _ h h' := ⟨trans_of Alters h.alters h'.alters, trans_of Still h.still h'.still⟩

/-- A relation that allows whatever a statement does without moving or taking DATA items: evaluate,
change the variables, write and read, define a function and save a file. -/
class AllowsComputing (R : Machine → Machine → Prop) : Prop extends IsPreorder Machine R where
  evaluates (room : Nat) (es : List Expr) : Exec.Moves R (Exec.ofEval (evaluateAll room es))
  changes {m : Machine} {ended : Option Fault} {s : Store}
    (change : m.memory.store.Change ended s) : R m { m with memory := { m.memory with store := s } }
  writes {m m' : Machine} (writes : m.Writes m') : R m m'
  defines (m : Machine) (functions : Table Definition) : R m { m with functions }
  saves (m : Machine) (disk : Disk) : R m { m with disk }

/-- A relation that also allows taking DATA items, and going back to others. -/
class AllowsReading (R : Machine → Machine → Prop) : Prop extends AllowsComputing R where
  reads (m : Machine) (cursor : Nat) : R m { m with stack := { m.stack with cursor } }

instance : AllowsReading Alters where
  evaluates room es m := by
    rw [Exec.run_ofEval]
    exact .single (.evaluate room es m.scope m.memory)
  changes h := .single h
  writes h := by
    obtain ⟨t, b, c, rfl⟩ := h
    exact .refl
  reads _ _ := .refl
  defines _ _ := .refl
  saves _ _ := .refl

instance : AllowsReading Still where
  evaluates room es m := by
    rw [Exec.run_ofEval]
    exact ⟨rfl, rfl, rfl, rfl, rfl, _, rfl⟩
  changes _ := ⟨rfl, rfl, rfl, rfl, rfl, _, rfl⟩
  writes h := by
    obtain ⟨t, b, c, rfl⟩ := h
    exact ⟨rfl, rfl, rfl, rfl, rfl, _, rfl⟩
  reads _ _ := ⟨rfl, rfl, rfl, rfl, rfl, _, rfl⟩
  defines _ _ := ⟨rfl, rfl, rfl, rfl, rfl, _, rfl⟩
  saves _ _ := ⟨rfl, rfl, rfl, rfl, rfl, _, rfl⟩

open AllowsComputing AllowsReading in
instance : AllowsReading Computes where
  evaluates room es m := ⟨evaluates room es m, evaluates room es m⟩
  changes h := ⟨changes h, changes h⟩
  writes h := ⟨writes h, writes h⟩
  reads m cursor := ⟨reads m cursor, reads m cursor⟩
  defines m functions := ⟨defines m functions, defines m functions⟩
  saves m disk := ⟨saves m disk, saves m disk⟩

end Machine

/-! ## The parts of statements -/

namespace Exec

open Machine

variable {R : Machine → Machine → Prop} [AllowsComputing R]

/-- What one expression does to the memory, a list of only this one does. -/
theorem memory_ofEval_evaluate (room : Nat) (e : Expr) (m : Machine) :
    (ofEval (evaluate room e) m).2 = (ofEval (evaluateAll (room + 1) [e]) m).2 := by
  rw [run_ofEval, run_ofEval, evaluateAll_succ, List.mapM_cons, Eval.run_bind]
  simp only
  cases evaluate room e m.scope m.memory with
  | mk r memory => cases r <;> rfl

theorem computes_value (e : Expr) : Moves R (value e) := by
  intro m
  rw [value_eq, memory_ofEval_evaluate]
  exact AllowsComputing.evaluates _ _ m

theorem computes_values (calls : Nat) (es : List Expr) : Moves R (values calls es) :=
  fun m => AllowsComputing.evaluates (m.statementRoom - calls) es m

theorem computes_write (s : String) : Moves R (write s) :=
  fun m => AllowsComputing.writes (writes_write s m)

theorem computes_modifyVariables {f : Store → Store} (h : ∀ s : Store, s.Change none (f s)) :
    Moves R (modifyVariables f) :=
  fun m => AllowsComputing.changes (h m.memory.store)

theorem computes_setScalar (name : String) (v : Value) : Moves R (setScalar name v) := by
  refine moves_get fun m => ?_
  cases hset : m.memory.store.set name v with
  | error e => exact refl_of R m
  | ok s => exact AllowsComputing.changes (.set hset)

theorem computes_setElement (name : String) (indices : List Value) (v : Value) :
    Moves R (setElement name indices v) := by
  refine moves_get fun m => ?_
  have hstore : R m _ := AllowsComputing.changes
    (.setElement m.cells (m.statementRoom - 1) m.memory.store name indices v)
  exact trans_of R hstore (moves_liftFault
    (m.memory.store.setElement m.cells (m.statementRoom - 1) name indices v).1 _)

theorem computes_assign (target : Target) (v : Value) : Moves R (assign target v) := by
  cases target with
  | scalar column name => exact computes_setScalar name v
  | element column name indices =>
    exact (computes_values 1 indices).bind fun is => computes_setElement name is v

theorem computes_assignAll (items : List (Target × Value)) : Moves R (assignAll items) := by
  induction items with
  | nil => exact moves_pure ()
  | cons item items ih => exact (computes_assign item.1 item.2).bind fun _ => ih

/-! ## Statements that compute -/

theorem computes_assignPart (target : Target) (start : Expr) (length : Option Expr) (e : Expr) :
    Moves R (assignPart target start length e) := by
  refine (computes_value _).bind fun v => (moves_lift _).bind fun s =>
    (computes_value _).bind fun w => ?_
  refine (moves_lift _).bind fun start => ?_
  simp only
  split
  · exact moves_refuse _
  · refine (computes_value _).bind fun u => (moves_lift _).bind fun r => ?_
    cases length with
    | none => exact computes_assign _ _
    | some e =>
      exact (computes_value _).bind fun x => (moves_lift _).bind fun n => computes_assign _ _

theorem computes_itemText (item : PrintItem) : Moves R (itemText item) := by
  cases item with
  | value e => exact (computes_value e).bind fun v => moves_pure _
  | semicolon => exact moves_pure _
  | comma => exact moves_get fun m => refl_of R m

theorem computes_column (f : Machine → Nat) : Moves R (modify fun m => { m with column := f m }) :=
  moves_modify fun _ => AllowsComputing.writes ⟨_, _, _, rfl⟩

theorem computes_itemTexts (items : List PrintItem) : Moves R (itemTexts items) := by
  induction items with
  | nil => exact moves_pure _
  | cons item items ih =>
    exact (computes_itemText item).bind fun text => (computes_column _).bind fun _ =>
      ih.bind fun _ => moves_pure _

theorem computes_keepColumn {α : Type} {x : Exec α} (h : Moves R x) : Moves R (keepColumn x) :=
  fun m => trans_of R (h m) (computes_column (fun _ => m.column) (x m).2)

theorem computes_print (items : List PrintItem) : Moves R (print items) :=
  (computes_keepColumn (computes_itemTexts items)).bind fun _ => computes_write _

theorem computes_itemValue (kind : Kind) (item : DataItem) : Moves R (itemValue kind item) := by
  unfold itemValue
  split
  · exact moves_pure _
  · split
    · exact moves_refuse _
    · split
      · exact moves_pure _
      · refine (moves_lift _).bind fun v => ?_
        cases v with
        | none => exact moves_refuse _
        | some v => exact moves_pure v

theorem computes_swap (first second : Target) : Moves R (swap first second) := by
  refine moves_get fun m => moves_ite (moves_refuse _) ?_ m
  refine (computes_value _).bind fun a => (computes_value _).bind fun b => ?_
  exact (computes_assign first b).bind fun _ => computes_assign second a

theorem computes_dim (arrays : List (String × List Expr)) : Moves R (dim arrays) := by
  induction arrays with
  | nil => exact moves_pure _
  | cons array arrays ih =>
    refine (computes_values 0 array.2).bind fun bounds => moves_get fun m => ?_
    have hstore : R m _ := AllowsComputing.changes
      (.dim m.cells m.statementRoom m.memory.store array.1 bounds)
    have hrest : Moves R (do
        discard <| liftFault (m.memory.store.dim m.cells m.statementRoom array.1 bounds).1
        dim arrays) :=
      Moves.bind ((moves_liftFault _).bind fun _ => moves_pure ()) fun _ => ih
    exact trans_of R hstore (hrest _)

theorem computes_eraseNamed (names : List String) : Moves R (eraseNamed names) := by
  induction names with
  | nil => exact moves_pure _
  | cons name names ih =>
    refine moves_get fun m => ?_
    cases herase : m.memory.store.eraseArray name with
    | error e => exact refl_of R m
    | ok s => exact trans_of R (AllowsComputing.changes (.eraseArray herase)) (ih _)

theorem computes_erase (names : List String) : Moves R (erase names) := by
  unfold erase
  split
  · exact computes_modifyVariables .eraseAll
  · exact computes_eraseNamed names

theorem computes_define (name : String) (params : List String) (body : Expr) :
    Moves R (define name params body) := by
  refine moves_get fun m => moves_ite (moves_refuse _) ?_ m
  exact moves_modify fun m => AllowsComputing.defines m (m.functions.insert name ⟨params, body⟩)

theorem computes_writeLines (lines : List String) : Moves R (writeLines lines) := by
  induction lines with
  | nil => exact moves_pure _
  | cons line lines ih => exact (computes_write _).bind fun _ => ih

theorem computes_saveFile (name : Expr) : Moves R (saveFile name) := by
  refine (computes_value name).bind fun v => (moves_lift _).bind fun s => moves_get fun m => ?_
  have hdisk : R m _ :=
    AllowsComputing.saves m (Shelf.save m.disk m.settings.disks s m.program.listingAll true).2
  have hresult : Moves R
      (discard (liftFault (Shelf.save m.disk m.settings.disks s m.program.listingAll true).1)) :=
    (moves_liftFault _).bind fun _ => moves_pure ()
  exact trans_of R hdisk (hresult _)

theorem computes_requireDirect : Moves R requireDirect := by
  intro m
  rw [run_requireDirect]
  split <;> exact refl_of R m

theorem computes_bound (kind : Kind) (e : Expr) : Moves R (bound kind e) :=
  (computes_value e).bind fun _ => (moves_lift _).bind fun _ => moves_lift _

theorem computes_selected (selector : Expr) (refs : List LineRef) :
    Moves R (selected selector refs) := by
  refine (computes_value selector).bind fun v => (moves_lift _).bind fun n => ?_
  split
  · exact moves_refuse _
  · split <;> exact moves_pure _

/-! ## Statements that take DATA items -/

section

variable {S : Machine → Machine → Prop} [AllowsReading S]

theorem computes_cursor (f : Stacks → Nat) :
    Moves S (modifyStacks fun s => { s with cursor := f s }) :=
  moves_modify fun m => AllowsReading.reads m (f m.stack)

theorem computes_readAll (items : List (Nat × DataItem)) (targets : List Target) :
    Moves S (readAll items targets) := by
  induction targets with
  | nil => exact moves_pure _
  | cons target targets ih =>
    refine moves_get fun m => ?_
    cases items[m.stack.cursor]? with
    | none => exact refl_of S m
    | some item =>
      refine Moves.bind (computes_cursor _) (fun _ => ?_) m
      exact (computes_itemValue _ _).bind fun v => (computes_assign target v).bind fun _ => ih

theorem computes_read (targets : List Target) : Moves S (read targets) :=
  moves_get fun m => computes_readAll _ targets m

theorem computes_restore (ref : Option LineRef) : Moves S (restore ref) := by
  cases ref with
  | none => exact computes_cursor _
  | some ref =>
    exact moves_get fun m => moves_ite (computes_cursor _) (moves_refuseAt _ _) m

end

end Exec

end LineBasic
