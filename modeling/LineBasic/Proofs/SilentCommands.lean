import Mathlib
import LineBasic.Proofs.Effects

/-!
# Commands that show nothing

Most commands neither write nor ask, and neither does evaluation. Such a command does not even look
at the terminal: on a machine with another terminal it does the same, and the terminal, the last
error, the notices and a break that was asked for stay as they are.

* `Machine.amid`: a machine in other surroundings.
* `Machine.SameSetup`: the settings and whether a program runs are the same. `Machine.SameCursor`:
  so is the column of the cursor.
* `Machine.Commutes`: it makes no difference whether the machine is changed before or after
  something is done.
* `Exec.Blind`: execution does not look at the surroundings. `Exec.Silent`: and the cursor rests.
* `Command.isSilent`, `Exec.silent_command`: the commands that are silent.
-/

namespace LineBasic

/-- What surrounds a machine: the terminal, a break that was asked for, and what was told about
errors. -/
structure Surroundings where
  terminal : Terminal
  breakPending : Bool
  lastError : Option Error
  notices : List Notice

namespace Machine

/-- The machine in other surroundings. -/
def amid (m : Machine) (o : Surroundings) : Machine :=
  { m with
    terminal := o.terminal
    breakPending := o.breakPending
    lastError := o.lastError
    notices := o.notices }

/-- The surroundings of a machine. -/
def surroundings (m : Machine) : Surroundings :=
  ⟨m.terminal, m.breakPending, m.lastError, m.notices⟩

/-- The settings and whether a program runs are the same. -/
structure SameSetup (m m' : Machine) : Prop where
  running : m'.running = m.running
  settings : m'.settings = m.settings
  stackLimit : m'.stackLimit = m.stackLimit

instance : IsPreorder Machine SameSetup where
  refl _ := ⟨rfl, rfl, rfl⟩
  trans _ _ _ h h' :=
    ⟨h'.running.trans h.running, h'.settings.trans h.settings, h'.stackLimit.trans h.stackLimit⟩

instance : AllowsReading SameSetup where
  evaluates room es m := by
    rw [Exec.run_ofEval]
    exact ⟨rfl, rfl, rfl⟩
  changes _ := ⟨rfl, rfl, rfl⟩
  writes h := by
    obtain ⟨_, _, _, rfl⟩ := h
    exact ⟨rfl, rfl, rfl⟩
  reads _ _ := ⟨rfl, rfl, rfl⟩
  defines _ _ := ⟨rfl, rfl, rfl⟩
  saves _ _ := ⟨rfl, rfl, rfl⟩

/-- So is the column of the cursor. -/
structure SameCursor (m m' : Machine) : Prop extends m.SameSetup m' where
  column : m'.column = m.column

instance : IsPreorder Machine SameCursor where
  refl m := ⟨refl_of SameSetup m, rfl⟩
  trans _ _ _ h h' := ⟨trans_of SameSetup h.toSameSetup h'.toSameSetup, h'.column.trans h.column⟩

/-! ## Changes that make no difference -/

section

variable {ε α β : Type} {g : Machine → Machine}

/-- It makes no difference whether the machine is changed before or after something is done. -/
def Commutes (g : Machine → Machine) (x : ExceptT ε (StateM Machine) α) : Prop :=
  ∀ m, x (g m) = ((x m).1, g (x m).2)

theorem Commutes.bind {x : ExceptT ε (StateM Machine) α} {f : α → ExceptT ε (StateM Machine) β}
    (hx : Commutes g x) (hf : ∀ a, Commutes g (f a)) : Commutes g (x >>= f) := by
  intro m
  rw [run_bind, run_bind, hx]
  cases x m with
  | mk r m' =>
    cases r with
    | error e => rfl
    | ok a => exact hf a m'

theorem commutes_pure (a : α) : Commutes g (pure a : ExceptT ε (StateM Machine) α) := fun _ => rfl

theorem commutes_throw (e : ε) : Commutes g (throw e : ExceptT ε (StateM Machine) α) := fun _ => rfl

/-- What follows depends on the machine, but not on what is changed. -/
theorem commutes_get {f : Machine → ExceptT ε (StateM Machine) α} (hsame : ∀ m, f (g m) = f m)
    (hf : ∀ m, Commutes g (f m)) : Commutes g (get >>= f) := by
  intro m
  change f (g m) (g m) = ((f m m).1, g (f m m).2)
  rw [hsame]
  exact hf m m

theorem commutes_modify {f : Machine → Machine} (h : ∀ m, f (g m) = g (f m)) :
    Commutes g (modify f : ExceptT ε (StateM Machine) Unit) := by
  intro m
  change (Except.ok (), f (g m)) = (Except.ok (), g (f m))
  rw [h]

theorem commutes_ite {c : Prop} [Decidable c] {x y : ExceptT ε (StateM Machine) α}
    (hx : Commutes g x) (hy : Commutes g y) : Commutes g (if c then x else y) := by
  split
  · exact hx
  · exact hy

theorem commutes_lift (x : Except Error α) : Commutes g (Exec.lift x) := by
  cases x with
  | error e => exact commutes_throw _
  | ok a => exact commutes_pure a

theorem commutes_liftFault (x : Except Fault α) : Commutes g (Exec.liftFault x) := by
  cases x with
  | error e => exact commutes_throw _
  | ok a => exact commutes_pure a

end

end Machine

namespace Exec

open Machine

variable {α β : Type}

/-- Execution neither looks at the surroundings nor changes them. -/
def Blind (x : Exec α) : Prop := ∀ o, Commutes (fun m => m.amid o) x

theorem Blind.kept {x : Exec α} (h : Blind x) (m : Machine) :
    (x m).2.surroundings = m.surroundings :=
  congrArg (fun r => surroundings r.2) (h m.surroundings m)

/-- Execution neither looks at the surroundings nor changes them, and the cursor rests. -/
structure Silent (x : Exec α) : Prop where
  blind : Blind x
  cursor : Moves SameCursor x

/-! ## Steps -/

theorem Silent.bind {x : Exec α} {f : α → Exec β} (hx : Silent x) (hf : ∀ a, Silent (f a)) :
    Silent (x >>= f) :=
  ⟨fun o => (hx.blind o).bind fun a => (hf a).blind o, hx.cursor.bind fun a => (hf a).cursor⟩

theorem silent_pure (a : α) : Silent (pure a : Exec α) := ⟨fun _ => commutes_pure a, moves_pure a⟩

theorem silent_throw (h : Halt) : Silent (throw h : Exec α) :=
  ⟨fun _ => commutes_throw h, moves_throw h⟩

theorem silent_refuse (kind : ErrorKind) : Silent (refuse kind : Exec α) := silent_throw _

theorem silent_refuseAt (kind : ErrorKind) (column : Nat) :
    Silent (refuseAt kind column : Exec α) := silent_throw _

theorem silent_crash (c : Crash) : Silent (crash c : Exec α) := silent_throw _

theorem silent_lift (x : Except Error α) : Silent (lift x) :=
  ⟨fun _ => commutes_lift x, moves_lift x⟩

theorem silent_liftFault (x : Except Fault α) : Silent (liftFault x) := by
  cases x with
  | ok a => exact silent_pure a
  | error f => cases f <;> exact silent_throw _

theorem silent_ite {p : Prop} [Decidable p] {x y : Exec α} (hx : Silent x) (hy : Silent y) :
    Silent (if p then x else y) := by
  split
  · exact hx
  · exact hy

theorem silent_get {f : Machine → Exec α} (hsame : ∀ m o, f (m.amid o) = f m)
    (hf : ∀ m, Silent (f m)) :
    Silent (get >>= f) :=
  ⟨fun o => commutes_get (fun m => hsame m o) fun m => (hf m).blind o, moves_get fun m =>
    (hf m).cursor m⟩

theorem silent_modify {f : Machine → Machine}
    (hsame : ∀ (m : Machine) o, f (m.amid o) = (f m).amid o)
    (hcursor : ∀ m : Machine, m.SameCursor (f m)) : Silent (modify f) :=
  ⟨fun o => commutes_modify fun m => hsame m o, moves_modify hcursor⟩

/-! ## The parts of statements -/

theorem silent_ofEval (x : Eval α) : Silent (ofEval x) where
  blind o m := by
    rw [run_ofEval, run_ofEval]
    rfl
  cursor m := by
    rw [run_ofEval]
    exact ⟨⟨rfl, rfl, rfl⟩, rfl⟩

theorem silent_value (e : Expr) : Silent (value e) :=
  silent_get (fun _ _ => rfl) fun _ => silent_ofEval _

theorem silent_values (calls : Nat) (es : List Expr) : Silent (values calls es) :=
  silent_get (fun _ _ => rfl) fun _ => silent_ofEval _

theorem silent_modifyVariables (f : Store → Store) : Silent (modifyVariables f) :=
  silent_modify (fun _ _ => rfl) fun _ => ⟨⟨rfl, rfl, rfl⟩, rfl⟩

theorem silent_modifyStacks (f : Stacks → Stacks) : Silent (modifyStacks f) :=
  silent_modify (fun _ _ => rfl) fun _ => ⟨⟨rfl, rfl, rfl⟩, rfl⟩

theorem silent_moveTo (p : Position) : Silent (moveTo p) :=
  silent_modify (fun _ _ => rfl) fun _ => ⟨⟨rfl, rfl, rfl⟩, rfl⟩

theorem silent_setScalar (name : String) (v : Value) : Silent (setScalar name v) :=
  silent_get (fun _ _ => rfl) fun _ => (silent_lift _).bind fun _ => silent_modifyVariables _

theorem silent_setElement (name : String) (indices : List Value) (v : Value) :
    Silent (setElement name indices v) :=
  silent_get (fun _ _ => rfl) fun _ => (silent_modifyVariables _).bind fun _ => silent_liftFault _

theorem silent_assign (target : Target) (v : Value) : Silent (assign target v) := by
  cases target with
  | scalar column name => exact silent_setScalar name v
  | element column name indices =>
    exact (silent_values 1 indices).bind fun is => silent_setElement name is v

theorem silent_assignAll (items : List (Target × Value)) : Silent (assignAll items) := by
  induction items with
  | nil => exact silent_pure ()
  | cons item items ih => exact (silent_assign item.1 item.2).bind fun _ => ih

theorem silent_checkStack : Silent checkStack :=
  silent_get (fun _ _ => rfl) fun _ => silent_ite (silent_refuse _) (silent_pure ())

theorem silent_requireDirect : Silent requireDirect :=
  silent_get (fun _ _ => rfl) fun _ => silent_ite (silent_refuse _) (silent_pure ())

theorem silent_goto (ref : LineRef) : Silent (goto ref) :=
  silent_get (fun _ _ => rfl) fun _ => silent_ite (silent_moveTo _) (silent_refuseAt _ _)

theorem silent_loopNumber (v : Value) : Silent (loopNumber v) := by
  cases v with
  | text s => exact silent_crash _
  | single x => exact silent_pure x
  | double x => exact silent_pure x

theorem silent_bound (kind : Kind) (e : Expr) : Silent (bound kind e) :=
  (silent_value e).bind fun _ => (silent_lift _).bind fun _ => silent_lift _

theorem silent_selected (selector : Expr) (refs : List LineRef) :
    Silent (selected selector refs) := by
  refine (silent_value selector).bind fun v => (silent_lift _).bind fun n => ?_
  exact silent_ite (silent_refuse _) (silent_ite (silent_pure _) (silent_pure _))

/-! ## Variables -/

theorem silent_assignPart (target : Target) (start : Expr) (length : Option Expr) (e : Expr) :
    Silent (assignPart target start length e) := by
  refine (silent_value _).bind fun v => (silent_lift _).bind fun s =>
    (silent_value _).bind fun w => ?_
  refine (silent_lift _).bind fun start => silent_ite (silent_refuse _) ?_
  refine (silent_value _).bind fun u => (silent_lift _).bind fun r => ?_
  cases length with
  | none => exact silent_assign _ _
  | some e => exact (silent_value _).bind fun x => (silent_lift _).bind fun n => silent_assign _ _

theorem silent_swap (first second : Target) : Silent (swap first second) := by
  refine silent_get (fun _ _ => rfl) fun m => silent_ite (silent_refuse _) ?_
  refine (silent_value _).bind fun a => (silent_value _).bind fun b => ?_
  exact (silent_assign first b).bind fun _ => silent_assign second a

theorem silent_dim (arrays : List (String × List Expr)) : Silent (dim arrays) := by
  induction arrays with
  | nil => exact silent_pure ()
  | cons array arrays ih =>
    refine (silent_values 0 array.2).bind fun bounds => silent_get (fun _ _ => rfl) fun m => ?_
    refine (silent_modifyVariables _).bind fun _ => ?_
    exact ((silent_liftFault _).bind fun _ => silent_pure ()).bind fun _ => ih

theorem silent_eraseNamed (names : List String) : Silent (eraseNamed names) := by
  induction names with
  | nil => exact silent_pure ()
  | cons name names ih =>
    refine silent_get (fun _ _ => rfl) fun m => ?_
    exact (silent_lift _).bind fun store => (silent_modifyVariables _).bind fun _ => ih

theorem silent_erase (names : List String) : Silent (erase names) :=
  silent_ite (silent_modifyVariables _) (silent_eraseNamed names)

theorem silent_define (name : String) (params : List String) (body : Expr) :
    Silent (define name params body) := by
  refine silent_get (fun _ _ => rfl) fun m => silent_ite (silent_refuse _) ?_
  exact silent_modify (fun _ _ => rfl) fun _ => ⟨⟨rfl, rfl, rfl⟩, rfl⟩

theorem silent_itemValue (kind : Kind) (item : DataItem) : Silent (itemValue kind item) := by
  refine silent_ite (silent_pure _) (silent_ite (silent_refuse _) (silent_ite (silent_pure _) ?_))
  refine (silent_lift _).bind fun v => ?_
  cases v with
  | none => exact silent_refuse _
  | some v => exact silent_pure v

theorem silent_readAll (items : List (Nat × DataItem)) (targets : List Target) :
    Silent (readAll items targets) := by
  induction targets with
  | nil => exact silent_pure ()
  | cons target targets ih =>
    refine silent_get (fun _ _ => rfl) fun m => ?_
    cases items[m.stack.cursor]? with
    | none => exact silent_refuse _
    | some item =>
      refine (silent_modifyStacks _).bind fun _ => (silent_itemValue _ _).bind fun v => ?_
      exact (silent_assign target v).bind fun _ => ih

theorem silent_read (targets : List Target) : Silent (read targets) :=
  silent_get (fun _ _ => rfl) fun _ => silent_readAll _ targets

theorem silent_restore (ref : Option LineRef) : Silent (restore ref) := by
  cases ref with
  | none => exact silent_modifyStacks fun s => { s with cursor := 0 }
  | some ref =>
    exact silent_get (fun _ _ => rfl) fun _ => silent_ite (silent_modifyStacks _)
      (silent_refuseAt _ _)

/-! ## Control -/

theorem silent_enterLoop (column : Nat) (var : String) (limit step : Float) :
    Silent (enterLoop column var limit step) := by
  refine (silent_modifyStacks _).bind fun _ => silent_get (fun _ _ => rfl) fun m => ?_
  refine (silent_loopNumber _).bind fun x => silent_ite (silent_get (fun _ _ => rfl) fun m => ?_) ?_
  · cases findNext? m.memory.store.resolve var 0 (m.ahead m.position) with
    | some p => exact silent_moveTo p
    | none => exact silent_refuseAt _ _
  · exact silent_checkStack.bind fun _ => silent_get (fun _ _ => rfl) fun m => silent_modifyStacks _

theorem silent_openFor (column : Nat) (name : String) (start limit : Expr) (step : Option Expr) :
    Silent (openFor column name start limit step) := by
  refine silent_get (fun _ _ => rfl) fun m => (silent_value _).bind fun v =>
    (silent_setScalar _ _).bind fun _ => ?_
  refine (silent_bound _ _).bind fun limit => ?_
  cases step with
  | none => exact silent_enterLoop _ _ _ _
  | some e => exact (silent_bound _ _).bind fun step => silent_enterLoop _ _ _ _

theorem silent_endTurn (store : Store) (frame : LoopFrame) (outer : List LoopFrame) : Silent (do
    modifyStacks fun s => { s with loops := frame :: outer }
    let x ← loopNumber (store.get frame.var)
    setScalar frame.var (.single (x + frame.step))
    let x ← loopNumber ((← get).memory.store.get frame.var)
    if isPast frame.step x frame.limit then modifyStacks fun s => { s with loops := outer }
    else moveTo frame.position) := by
  refine (silent_modifyStacks _).bind fun _ => (silent_loopNumber _).bind fun x => ?_
  refine (silent_setScalar _ _).bind fun _ => silent_get (fun _ _ => rfl) fun m => ?_
  exact (silent_loopNumber _).bind fun x => silent_ite (silent_modifyStacks _) (silent_moveTo _)

theorem silent_nextLoop (column : Nat) (name : Option String) : Silent (nextLoop column name) := by
  refine silent_get (fun _ _ => rfl) fun m => ?_
  cases name with
  | none =>
    cases m.stack.loops with
    | nil => exact silent_refuseAt _ _
    | cons frame outer => exact silent_endTurn _ frame outer
  | some s =>
    simp only
    rcases loopsFrom? (m.memory.store.resolve s) m.stack.loops with _ | _ | ⟨frame, outer⟩
    · exact silent_refuseAt _ _
    · exact silent_refuseAt _ _
    · exact silent_endTurn _ frame outer

theorem silent_skipWhile : Silent (do
    let m ← get
    match findWend? 0 (m.ahead m.position) with
    | some p => moveTo p
    | none => refuse .whileWithoutWend) := by
  refine silent_get (fun _ _ => rfl) fun m => ?_
  cases findWend? 0 (m.ahead m.position) with
  | some p => exact silent_moveTo p
  | none => exact silent_refuse _

theorem silent_openWhile (condition : Expr) : Silent (openWhile condition) := by
  refine silent_get (fun _ _ => rfl) fun m => silent_get (fun _ _ => rfl) fun m' => ?_
  refine (silent_value _).bind fun v => (silent_lift _).bind fun b =>
    silent_ite (silent_ite (silent_pure ()) ?_) ?_
  · exact silent_checkStack.bind fun _ => silent_modifyStacks _
  · exact silent_ite ((silent_modifyStacks _).bind fun _ => silent_skipWhile) silent_skipWhile

theorem silent_wend : Silent wend := by
  refine silent_get (fun _ _ => rfl) fun m => ?_
  cases m.stack.whiles with
  | nil => exact silent_refuse _
  | cons p ps => exact silent_moveTo p

theorem silent_gosub (ref : LineRef) : Silent (gosub ref) := by
  refine silent_get (fun _ _ => rfl) fun m => silent_ite (silent_refuseAt _ _) ?_
  refine silent_checkStack.bind fun _ => silent_get (fun _ _ => rfl) fun m => ?_
  exact (silent_modifyStacks _).bind fun _ => silent_moveTo _

theorem silent_leaveSub : Silent leaveSub := by
  refine silent_get (fun _ _ => rfl) fun m => ?_
  cases m.stack.returns with
  | nil => exact silent_refuse _
  | cons frame outer => exact (silent_modifyStacks _).bind fun _ => silent_moveTo _

theorem silent_finish : Silent finish :=
  .bind (silent_modify (fun _ _ => rfl) fun _ => ⟨⟨rfl, rfl, rfl⟩, rfl⟩) fun _ => silent_throw _

theorem silent_cont : Silent cont := by
  refine silent_get (fun _ _ => rfl) fun m => ?_
  cases m.resume with
  | none => exact silent_refuse _
  | some p => exact silent_modify (fun _ _ => rfl) fun _ => ⟨⟨rfl, rfl, rfl⟩, rfl⟩

theorem silent_start (line column : Option Nat) : Silent (start line column) := by
  refine .bind (silent_modify (fun _ _ => rfl) fun _ => ⟨⟨rfl, rfl, rfl⟩, rfl⟩) fun _ => ?_
  refine silent_get (fun _ _ => rfl) fun m => ?_
  cases line with
  | none =>
    simp only
    cases m.program.lowest? with
    | none => exact silent_throw _
    | some n => exact silent_moveTo _
  | some n => exact silent_ite (silent_moveTo _) (silent_throw _)

theorem silent_run (ref : Option LineRef) : Silent (run ref) :=
  .bind (silent_modify (fun _ _ => rfl) fun _ => ⟨⟨rfl, rfl, rfl⟩, rfl⟩) fun _ => silent_start _ _

theorem silent_jumpTo (target : Option Nat) : Silent (jumpTo target) :=
  silent_modify (fun _ _ => rfl) fun _ => ⟨⟨rfl, rfl, rfl⟩, rfl⟩

/-! ## Program and files -/

theorem silent_loadFile (name : Expr) : Silent (loadFile name) := by
  refine (silent_value _).bind fun v => (silent_lift _).bind fun file =>
    silent_get (fun _ _ => rfl) fun m => ?_
  cases m.library.load m.statementRoom file with
  | mk result disk =>
    refine .bind (silent_modify (fun _ _ => rfl) fun _ => ⟨⟨rfl, rfl, rfl⟩, rfl⟩) fun _ => ?_
    cases result.bind (Program.load (m.statementRoom - 1)) with
    | ok p => exact silent_modify (fun _ _ => rfl) fun _ => ⟨⟨rfl, rfl, rfl⟩, rfl⟩
    | error f => exact silent_throw _

theorem silent_saveFile (name : Expr) : Silent (saveFile name) := by
  refine (silent_value _).bind fun v => (silent_lift _).bind fun file => ?_
  constructor
  · intro o m
    have hsame : Shelf.save (m.amid o).disk (m.amid o).settings.disks file
      (m.amid o).program.listingAll true =
        Shelf.save m.disk m.settings.disks file m.program.listingAll true := rfl
    rw [run_get_bind, run_get_bind, hsame]
    cases Shelf.save m.disk m.settings.disks file m.program.listingAll true with
    | mk result disk => cases result <;> rfl
  · refine moves_get fun m => ?_
    cases Shelf.save m.disk m.settings.disks file m.program.listingAll true with
    | mk result disk => cases result <;> exact ⟨⟨rfl, rfl, rfl⟩, rfl⟩

theorem silent_delete (first last : Option Nat) : Silent (delete first last) := by
  refine silent_requireDirect.bind fun _ => silent_ite (silent_refuse _) ?_
  exact silent_modify (fun _ _ => rfl) fun _ => ⟨⟨rfl, rfl, rfl⟩, rfl⟩

end Exec

/-- The command neither writes nor asks, and it notes nothing. -/
def Command.isSilent : Command → Bool
  | .print _ | .input _ _ _ | .cls | .list _ _ | .renumber _ _ _ => false
  | _ => true

namespace Exec

theorem silent_command {c : Command} (h : c.isSilent = true) (column : Nat) :
    Silent (command column c) := by
  cases c with
  | assign target e => exact (silent_value e).bind fun v => silent_assign target v
  | assignPart target start length e => exact silent_assignPart target start length e
  | openFor var start limit step => exact silent_openFor column var start limit step
  | next var => exact silent_nextLoop column var
  | goto ref => exact silent_goto ref
  | gosub ref => exact silent_gosub ref
  | onGoto selector refs =>
    refine (silent_selected selector refs).bind fun ref => ?_
    cases ref with
    | none => exact silent_pure ()
    | some ref => exact silent_goto ref
  | onGosub selector refs =>
    refine (silent_selected selector refs).bind fun ref => ?_
    cases ref with
    | none => exact silent_pure ()
    | some ref => exact silent_gosub ref
  | leaveSub => exact silent_leaveSub
  | dim arrays => exact silent_dim arrays
  | data _ => exact silent_pure ()
  | read targets => exact silent_read targets
  | restore ref => exact silent_restore ref
  | finish => exact silent_finish
  | stop => exact silent_refuse _
  | remark _ => exact silent_pure ()
  | openWhile condition => exact silent_openWhile condition
  | wend => exact silent_wend
  | define name params body => exact silent_define name params body
  | declare kind letters => exact silent_modifyVariables fun s => s.declare letters kind
  | swap first second => exact silent_swap first second
  | erase names => exact silent_erase names
  | clear => exact silent_modify (fun _ _ => rfl) fun _ => ⟨⟨rfl, rfl, rfl⟩, rfl⟩
  | cont => exact silent_cont
  | traceOn => exact silent_modify (fun _ _ => rfl) fun _ => ⟨⟨rfl, rfl, rfl⟩, rfl⟩
  | traceOff => exact silent_modify (fun _ _ => rfl) fun _ => ⟨⟨rfl, rfl, rfl⟩, rfl⟩
  | new =>
    exact .bind (silent_modify (fun _ _ => rfl) fun _ => ⟨⟨rfl, rfl, rfl⟩, rfl⟩) fun _ =>
      silent_throw _
  | run ref => exact silent_run ref
  | runFile name => exact (silent_loadFile name).bind fun _ => silent_run none
  | delete first last => exact silent_delete first last
  | load name => exact silent_requireDirect.bind fun _ => silent_loadFile name
  | save name => exact silent_requireDirect.bind fun _ => silent_saveFile name
  | _ => cases h

theorem silent_branch (column : Nat) (condition : Expr) (target : Option Nat) :
    Silent (instr (.branch column condition target)) := by
  refine (silent_value condition).bind fun _ => (silent_lift _).bind fun _ => ?_
  exact silent_ite (silent_pure ()) (silent_jumpTo target)

/-! ## Replies -/

/-- What follows a line that was typed as a reply: its values are stored, or another reply is asked
for. -/
def taken (prompt : String) (targets : List Target) (n : Nat) (kinds : List Kind) (s : String) :
    Exec Unit := do
  match ← lift (replyValues kinds s) with
  | some values => assignAll (targets.zip values)
  | none =>
    write "?REDO FROM START\n"
    inputLoop prompt targets n

end Exec

end LineBasic
