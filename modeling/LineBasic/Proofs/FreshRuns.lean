import Mathlib
import LineBasic.Proofs.PrintColumn
import LineBasic.Proofs.ReturnOrder
import LineBasic.Proofs.Setup

/-!
# Fresh runs

A run of the program does not depend on what the machine did before. What is behind a machine (the
events at its terminal, the writes that are counted there, the last error, the notices) can be taken
away and put back, before a run or after it; what the machine holds of former runs is forgotten when
a run begins, or overwritten before it is read.

* `Machine.Aside`: a change of the machine that makes no difference to the way from one statement to
  the next.
* `Past`, `Machine.Forgets`: nor do the things behind a machine make a difference to any statement,
  or to a run.
* `Machine.startAmid`: a run with breaks asked for between the turns.
* `Remains`, `Machine.startAmid_bearing`: what a run leaves makes no difference to the next run.
* `Machine.Alike`, `Session.start_forgets`: the main result.
-/

namespace LineBasic

/-! ## Changes aside -/

/-- The interrupt key was struck. -/
def BreakRequest.isKey : BreakRequest → Bool
  | signal _ => false
  | key _ => true

namespace Machine

variable {α : Type} {g : Machine → Machine}

/-- The machine with a text written. -/
def wrote (m : Machine) (s : String) : Machine := { m with terminal := m.terminal.write s }

theorem writeRaw_eq (s : String) (m : Machine) : writeRaw s m =
    match (m.terminal.write s).arrived.map BreakRequest.isKey with
    | none => (.ok (), m.wrote s)
    | some struck =>
      if struck && !m.running then (.error .interruptKey, m.wrote s)
      else (.ok (), { m.wrote s with breakPending := true }) := by
  rw [run_writeRaw]
  rcases (m.terminal.write s).arrived with _ | _ | _
  · rfl
  · rfl
  · by_cases hrunning : m.running = true
    · simp only [Option.map_some, BreakRequest.isKey, if_pos hrunning]
      rw [if_neg (by simp [hrunning])]
      rfl
    · simp only [Option.map_some, BreakRequest.isKey, if_neg hrunning]
      rw [if_pos (by simp [hrunning])]
      rfl

/-- A change that makes no difference to writing and reporting. -/
structure AsideWriting (g : Machine → Machine) : Prop where
  running (m : Machine) : (g m).running = m.running
  column (m : Machine) : (g m).column = m.column
  arrived (m : Machine) (s : String) :
    ((g m).terminal.write s).arrived.map BreakRequest.isKey =
    (m.terminal.write s).arrived.map BreakRequest.isKey
  wrote (m : Machine) (s : String) : (g m).wrote s = g (m.wrote s)
  asked (m : Machine) : { g m with breakPending := true } = g { m with breakPending := true }
  shifted (m : Machine) (column : Nat) : { g m with column } = g { m with column }
  failed (m : Machine) (e : Error) : { g m with lastError := some e } =
    g { m with lastError := some e }

/-- A change that makes no difference to the way from one statement to the next, and to the end. -/
structure Aside (g : Machine → Machine) : Prop extends AsideWriting g where
  program (m : Machine) : (g m).program = m.program
  direct (m : Machine) : (g m).direct = m.direct
  position (m : Machine) : (g m).position = m.position
  resume (m : Machine) : (g m).resume = m.resume
  breakPending (m : Machine) : (g m).breakPending = m.breakPending
  trace (m : Machine) : (g m).trace = m.trace
  traced (m : Machine) : (g m).traced = m.traced
  calmed (m : Machine) : { g m with breakPending := false } = g { m with breakPending := false }
  moved (m : Machine) (position : Position) : { g m with position } = g { m with position }
  closed (m : Machine) : { g m with resume := none } = g { m with resume := none }
  stopped (m : Machine) (resume : Option Position) :
    { g m with running := false, resume } = g { m with running := false, resume }

theorem AsideWriting.writeRaw (h : AsideWriting g) (s : String) : Commutes g (writeRaw s) := by
  intro m
  rw [writeRaw_eq, writeRaw_eq, h.arrived, h.running, h.wrote, h.asked]
  split
  · rfl
  · split <;> rfl

theorem commutes_ofAct {a : Act α} (h : Commutes g a) : Commutes g (Exec.ofAct a) := by
  intro m
  unfold Exec.ofAct
  rw [h]
  cases a m with
  | mk r m' => cases r <;> rfl

theorem AsideWriting.write (h : AsideWriting g) (s : String) : Commutes g (Exec.write s) := by
  refine (commutes_ofAct (h.writeRaw s)).bind fun _ => commutes_modify fun m => ?_
  rw [h.column, h.shifted]

theorem AsideWriting.report (h : AsideWriting g) (e : Error) : Commutes g (report e) := by
  refine .bind (commutes_modify fun m => h.failed m e) fun _ =>
    commutes_get (fun m => by rw [h.column]) fun m => ?_
  exact (h.writeRaw _).bind fun _ => commutes_modify fun m => h.shifted m 0

theorem Aside.nextLine (h : Aside g) : Commutes g nextLine := by
  intro m
  have hrun : ∀ m, Machine.nextLine m =
      match m.position.line.map m.program.next? with
      | none => (.ok false, m)
      | some none => (.ok false, { m with resume := none })
      | some (some k) => (.ok true, { m with position := ⟨some k, 0⟩ }) := by
    intro m
    unfold Machine.nextLine
    rw [run_get_bind]
    cases m.position.line with
    | none => rfl
    | some n =>
      simp only [Option.map_some]
      cases m.program.next? n <;> rfl
  rw [hrun, hrun, h.closed, show (g m).position.line.map (g m).program.next? =
      m.position.line.map m.program.next? by
    rw [h.position, h.program]]
  split
  · rfl
  · rfl
  · rw [h.moved]

theorem Aside.takeBreak (h : Aside g) : Commutes g takeBreak := by
  intro m
  rw [run_takeBreak, run_takeBreak, h.calmed, h.breakPending, h.position]
  split <;> rfl

theorem Aside.showTrace (h : Aside g) : Commutes g showTrace := by
  refine commutes_get (fun m => by rw [h.position, h.trace, h.traced]) fun m => ?_
  cases m.position.line with
  | none => exact commutes_pure ()
  | some n => exact commutes_ite (h.write _) (commutes_pure ())

theorem Aside.settle (h : Aside g) (r : Except Halt Unit) : Commutes g (settle r) := by
  have hended : ∀ m, { g m with running := false } = g { m with running := false } := fun m => by
    have hstopped := h.stopped m m.resume
    rw [← hstopped, ← h.resume]
  rcases r with (_ | f) | u
  · exact commutes_modify hended
  · cases f with
    | error e =>
      refine .bind (commutes_modify fun m => ?_) fun _ => h.report e
      rw [h.stopped, h.position]
    | crash c => exact .bind (commutes_modify fun m => h.stopped m none) fun _ => commutes_throw c
  · exact commutes_modify hended

theorem Aside.codeAt? (h : Aside g) (m : Machine) :
    (g m).codeAt? (g m).position.line = m.codeAt? m.position.line := by
  unfold Machine.codeAt?
  rw [h.position, h.direct, h.program]

end Machine

/-! ## What is behind a machine -/

/-- The request, if the given number of writes is counted as well. -/
def BreakRequest.later (count : Nat) : BreakRequest → BreakRequest
  | signal n => signal (count + n)
  | key n => key (count + n)

/-- What is behind a machine: what was shown, how much was written, a request to break that can no
longer arrive, and what was told about errors. -/
structure Past where
  events : List Event
  writes : Nat
  stale : Option BreakRequest
  passed : ∀ r ∈ stale, r.write ≤ writes
  lastError : Option Error
  notices : List Notice

/-- The terminal with more behind it. -/
def Terminal.after (t : Terminal) (p : Past) : Terminal where
  events := t.events ++ p.events
  replies := t.replies
  writes := p.writes + t.writes
  request := (t.request.map (BreakRequest.later p.writes)).or p.stale

/-- A request arrives with a write, or it does not, whatever is behind. -/
theorem Terminal.arrived_after (t : Terminal) (s : String) (p : Past) :
    ((t.write s).after p).arrived = (t.write s).arrived.map (BreakRequest.later p.writes) := by
  have hlater : ∀ r : BreakRequest, (r.later p.writes).write = p.writes + r.write := by
    intro r
    cases r <;> rfl
  unfold arrived
  change ((t.request.map (BreakRequest.later p.writes)).or p.stale).filter
      (fun r => r.write = p.writes + (t.writes + 1)) =
        (t.request.filter fun r => r.write = t.writes + 1).map _
  cases t.request with
  | none =>
    cases hstale : p.stale with
    | none => rfl
    | some r =>
      have hpassed := p.passed r hstale
      have hnever : ¬ r.write = p.writes + (t.writes + 1) := by omega
      simp [hnever]
  | some r =>
    rw [Option.map_some, Option.some_or]
    by_cases harrives : r.write = t.writes + 1
    · simp [Option.filter, hlater, harrives]
    · simp [Option.filter, hlater, harrives]

namespace Machine

variable {ε α β : Type} {p : Past}

/-- The machine with more behind it. -/
def after (m : Machine) (p : Past) : Machine :=
  { m with
    terminal := m.terminal.after p
    lastError := m.lastError.or p.lastError
    notices := m.notices ++ p.notices }

/-- What is behind the machine makes no difference. -/
abbrev Forgets (p : Past) (x : ExceptT ε (StateM Machine) α) : Prop :=
  Commutes (fun m => m.after p) x

/-- What neither looks at the surroundings nor changes them does not look at what is behind. -/
theorem forgets_of_blind {x : Exec α} (h : Exec.Blind x) : Forgets p x := by
  intro m
  have hkept := h.kept m
  have hafter : ∀ m' : Machine, m'.surroundings = m.surroundings →
      m'.amid (m.after p).surroundings = m'.after p := by
    intro m' hsame
    have hterminal : m'.terminal = m.terminal := congrArg Surroundings.terminal hsame
    have hbreak : m'.breakPending = m.breakPending := congrArg Surroundings.breakPending hsame
    have herror : m'.lastError = m.lastError := congrArg Surroundings.lastError hsame
    have hnotices : m'.notices = m.notices := congrArg Surroundings.notices hsame
    simp only [amid, after, surroundings, hterminal, herror, hnotices]
    rw [← hbreak]
  change x (m.after p) = ((x m).1, (x m).2.after p)
  rw [← hafter m rfl, ← hafter _ hkept]
  exact h _ m

/-! ## Writing and asking -/

theorem aside_after (p : Past) : Aside (fun m => m.after p) where
  running _ := rfl
  column _ := rfl
  arrived m s := by
    have harrived := m.terminal.arrived_after s p
    change ((m.terminal.write s).after p).arrived.map _ = _
    rw [harrived, Option.map_map]
    congr 1
    funext r
    cases r <;> rfl
  wrote _ _ := rfl
  asked _ := rfl
  shifted _ _ := rfl
  failed _ _ := rfl
  program _ := rfl
  direct _ := rfl
  position _ := rfl
  resume _ := rfl
  breakPending _ := rfl
  trace _ := rfl
  traced _ := rfl
  calmed _ := rfl
  moved _ _ := rfl
  closed _ := rfl
  stopped _ _ := rfl

theorem forgets_write (s : String) : Forgets p (Exec.write s) := (aside_after p).write s

theorem forgets_print (items : List PrintItem) : Forgets p (Exec.print items) := by
  refine .bind (forgets_of_blind fun o m => ?_) fun _ => forgets_write _
  unfold Exec.keepColumn
  rw [Exec.blind_itemTexts items o m]
  rfl

theorem forgets_writeLines (lines : List String) : Forgets p (Exec.writeLines lines) := by
  induction lines with
  | nil => exact commutes_pure ()
  | cons line lines ih => exact (forgets_write _).bind fun _ => ih

theorem forgets_inputLoop (prompt : String) (targets : List Target) (n : Nat) :
    Forgets p (Exec.inputLoop prompt targets n) := by
  induction n with
  | zero => exact commutes_throw _
  | succ n ih =>
    intro m
    have hask : (m.after p).terminal.ask prompt =
        ((m.terminal.ask prompt).1, (m.terminal.ask prompt).2.after p) := by
      rw [Exec.ask_eq, Exec.ask_eq]
      rfl
    rw [Exec.inputLoop, run_get_bind, run_get_bind, hask]
    cases m.terminal.ask prompt with
    | mk reply t =>
      cases reply with
      | none => rfl
      | some reply =>
        cases reply with
        | interrupt => rfl
        | line s =>
          have hrest : Forgets p
              (Exec.taken prompt targets n
                  (targets.map fun t => m.memory.store.kindOf t.name) s) := by
            refine (forgets_of_blind (Exec.silent_lift _).blind).bind fun values => ?_
            cases values with
            | some values => exact forgets_of_blind (Exec.silent_assignAll _).blind
            | none => exact (forgets_write _).bind fun _ => ih
          exact hrest { m with terminal := t, column := 0 }

theorem forgets_input (prompt : String) (targets : List Target) (question : Bool) :
    Forgets p (Exec.input prompt targets question) :=
  commutes_get (fun _ => rfl) fun _ => forgets_inputLoop _ _ _

/-! ## Turns -/

theorem forgets_renumber (newStart oldStart step : Option Nat) :
    Forgets p (Exec.renumber newStart oldStart step) := by
  refine (forgets_of_blind Exec.silent_requireDirect.blind).bind fun _ =>
    commutes_get (fun _ => rfl) fun m => ?_
  cases m.program.renumberDefault m.statementRoom newStart oldStart step with
  | mk result missing =>
    refine .bind (commutes_modify fun m => ?_) fun _ => ?_
    · simp [after]
    · cases result with
      | ok r => exact commutes_modify fun _ => rfl
      | error f => exact commutes_throw _

theorem forgets_command (column : Nat) (c : Command) : Forgets p (Exec.command column c) := by
  cases hsilent : c.isSilent with
  | true => exact forgets_of_blind (Exec.silent_command hsilent column).blind
  | false =>
    cases c with
    | print items => exact forgets_print items
    | input prompt targets question => exact forgets_input prompt targets question
    | cls => exact commutes_modify fun _ => rfl
    | list first last => exact commutes_get (fun _ => rfl) fun _ => forgets_writeLines _
    | renumber newStart oldStart step => exact forgets_renumber newStart oldStart step
    | _ => cases hsilent

theorem forgets_instr (i : Instr) : Forgets p (Exec.instr i) := by
  cases i with
  | command column c => exact forgets_command column c
  | branch column condition target =>
    exact forgets_of_blind (Exec.silent_branch column condition target).blind
  | jump column target => exact forgets_of_blind (Exec.silent_jumpTo (some target)).blind

theorem forgets_inLine (line : Option Nat) {x : Exec Unit} (h : Forgets p x) :
    Forgets p (inLine line x) := by
  intro m
  rw [run_inLine, run_inLine, h]
  cases x m with
  | mk r m' => cases r <;> rfl

/-- **What is behind the machine makes no difference to a turn.** -/
theorem forgets_tick : Forgets p tick := by
  refine commutes_get (fun _ => rfl) fun m => ?_
  simp only
  cases m.codeAt? m.position.line with
  | none => exact commutes_throw _
  | some code =>
    simp only
    cases code[m.position.index]? with
    | none => exact (aside_after p).nextLine
    | some i =>
      refine (aside_after p).takeBreak.bind fun _ => (aside_after p).showTrace.bind fun _ => ?_
      refine .bind (commutes_modify fun _ => rfl) fun _ => ?_
      exact (forgets_inLine _ (forgets_instr i)).bind fun _ => commutes_pure true

end Machine

/-! ## Runs with breaks -/

namespace Machine

/-- The machine after a break may have been asked for. -/
def visit (m : Machine) (asks : Bool) : Machine :=
  { m with breakPending := m.breakPending || asks }

theorem visit_false (m : Machine) : m.visit false = m := by
  rw [visit, Bool.or_false]

/-- Takes turns until the run stops, while breaks are asked for: `asks` says before which turns. -/
def turnsAmid : Nat → (Nat → Bool) → Exec Unit
  | 0, _ => Exec.crash .exhausted
  | fuel + 1, asks => do
    modify fun m => m.visit (asks 0)
    if ← tick then turnsAmid fuel fun n => asks (n + 1) else return ()

/-- Runs the code at the position until something stops the run, while breaks are asked for. -/
def executeAmid (asks : Nat → Bool) (fuel : Nat) : Act Unit := fun m =>
  settle (turnsAmid fuel asks m.begin).1 (turnsAmid fuel asks m.begin).2

/-- Runs the program from a line, or from its first line, while breaks are asked for. -/
def startAmid (asks : Nat → Bool) (fuel : Nat) (line : Option Nat) : Act Unit := do
  if ← prepare line then executeAmid asks fuel else return ()

theorem turnsAmid_quiet (fuel : Nat) : turnsAmid fuel (fun _ => false) = turns fuel := by
  induction fuel with
  | zero => rfl
  | succ fuel ih =>
    funext m
    rw [turnsAmid, turns, Exec.run_modify_bind, ih, visit_false]

theorem startAmid_quiet (fuel : Nat) (line : Option Nat) :
    startAmid (fun _ => false) fuel line = start fuel line := by
  unfold startAmid executeAmid
  rw [turnsAmid_quiet]
  rfl

/-- Where a run of the program begins: at a line, or at the first line. -/
def entry (program : Program) : Option Nat → Except Halt Nat
  | none => program.lowest?.elim (.error .finished) .ok
  | some n =>
    if program.contains n then .ok n
    else .error (.fault (.error { kind := .undefinedLine, column := none }))

theorem start_eq (line : Option Nat) (m : Machine) : Exec.start line none { m with direct := #[] } =
    match entry m.program line with
    | .ok n => (.ok (), { m.fresh with position := ⟨some n, 0⟩ })
    | .error h => (.error h, m.fresh) := by
  have hprogram : m.fresh.program = m.program := rfl
  unfold Exec.start entry
  rw [Exec.run_modify_bind, run_get_bind]
  change (match line with
    | none =>
      match m.fresh.program.lowest? with
      | none => throw .finished
      | some n => Exec.moveTo ⟨some n, 0⟩
    | some n => if m.fresh.program.contains n then _ else _ : Exec Unit) m.fresh = _
  rw [hprogram]
  cases line with
  | none => cases m.program.lowest? <;> rfl
  | some n =>
    simp only
    split <;> rfl

/-- What a run does: everything is forgotten, and turns are taken if there is somewhere to begin. -/
theorem startAmid_eq (asks : Nat → Bool) (fuel : Nat) (line : Option Nat) (m : Machine) :
    startAmid asks fuel line m =
      match entry m.program line with
      | .ok n => executeAmid asks fuel { m.fresh with position := ⟨some n, 0⟩ }
      | .error .finished => (.ok (), m.fresh)
      | .error (.fault (.error e)) => report e m.fresh
      | .error (.fault (.crash c)) => (.error c, m.fresh) := by
  unfold startAmid prepare
  rw [run_bind, start_eq]
  rcases entry m.program line with (_ | f) | n
  · rfl
  · cases f with
    | error e =>
      simp only
      rw [run_bind]
      cases report e m.fresh with
      | mk r m' => cases r <;> rfl
    | crash c => rfl
  · rfl

/-! ### What is behind -/

theorem forgets_turnsAmid (fuel : Nat) (asks : Nat → Bool) : Forgets p (turnsAmid fuel asks) := by
  induction fuel generalizing asks with
  | zero => exact commutes_throw _
  | succ fuel ih =>
    refine .bind (commutes_modify fun m => ?_) fun _ => forgets_tick.bind fun goesOn => ?_
    · rfl
    · exact commutes_ite (ih _) (commutes_pure ())

theorem forgets_executeAmid (asks : Nat → Bool) (fuel : Nat) :
    Forgets p (executeAmid asks fuel) := by
  intro m
  have hturns := forgets_turnsAmid (p := p) fuel asks m.begin
  have hsettle := (aside_after p).settle (turnsAmid fuel asks m.begin).1
    (turnsAmid fuel asks m.begin).2
  exact (congrArg (fun r => settle r.1 r.2) hturns).trans hsettle

/-- **What is behind the machine makes no difference to a run.** -/
theorem forgets_startAmid (asks : Nat → Bool) (fuel : Nat) (line : Option Nat) :
    Forgets p (startAmid asks fuel line) := by
  intro m
  have hprogram : (m.after p).program = m.program := rfl
  have hfresh : (m.after p).fresh = m.fresh.after p := rfl
  rw [startAmid_eq, startAmid_eq, hprogram, hfresh]
  rcases entry m.program line with (_ | f) | n
  · rfl
  · cases f with
    | error e => exact (aside_after p).report e m.fresh
    | crash c => rfl
  · exact forgets_executeAmid asks fuel { m.fresh with position := ⟨some n, 0⟩ }

/-! ### What a run overwrites -/

/-- The machine with another statement remembered as the one being executed. -/
def recalling (m : Machine) (c : Position) : Machine := { m with current := c }

theorem aside_recalling (c : Position) : Aside (fun m => m.recalling c) where
  running _ := rfl
  column _ := rfl
  arrived _ _ := rfl
  wrote _ _ := rfl
  asked _ := rfl
  shifted _ _ := rfl
  failed _ _ := rfl
  program _ := rfl
  direct _ := rfl
  position _ := rfl
  resume _ := rfl
  breakPending _ := rfl
  trace _ := rfl
  traced _ := rfl
  calmed _ := rfl
  moved _ _ := rfl
  closed _ := rfl
  stopped _ _ := rfl

/-- What was remembered makes no difference, but the machine may go on remembering it. -/
def Recalls (x : Exec α) : Prop := ∀ m c, ∃ c', x (m.recalling c) = ((x m).1, (x m).2.recalling c')

theorem recalls_of_commutes {x : Exec α} (h : ∀ c, Commutes (fun m => m.recalling c) x) :
    Recalls x :=
  fun m c => ⟨c, h c m⟩

theorem Recalls.bind {x : Exec α} {f : α → Exec β} (hx : Recalls x) (hf : ∀ a, Recalls (f a)) :
    Recalls (x >>= f) := by
  intro m c
  obtain ⟨c', hrun⟩ := hx m c
  rw [run_bind, run_bind, hrun]
  cases x m with
  | mk r m' =>
    cases r with
    | error e => exact ⟨c', rfl⟩
    | ok a => exact hf a m' c'

/-- A turn that executes a statement overwrites what was remembered. -/
theorem recalls_tick : Recalls tick := by
  intro m c
  unfold tick
  rw [run_get_bind, run_get_bind]
  simp only [(aside_recalling c).codeAt? m]
  cases m.codeAt? m.position.line with
  | none => exact ⟨c, rfl⟩
  | some code =>
    have hhere : (m.recalling c).position = m.position := rfl
    simp only [hhere]
    cases code[m.position.index]? with
    | none => exact ⟨c, (aside_recalling c).nextLine m⟩
    | some i =>
      have htake : Recalls takeBreak := recalls_of_commutes fun c => (aside_recalling c).takeBreak
      have hshow : Recalls showTrace := recalls_of_commutes fun c => (aside_recalling c).showTrace
      exact (htake.bind fun _ => hshow.bind fun _ m' c' => ⟨_, rfl⟩) m c

theorem recalls_turnsAmid (fuel : Nat) (asks : Nat → Bool) : Recalls (turnsAmid fuel asks) := by
  induction fuel generalizing asks with
  | zero => exact recalls_of_commutes fun _ => commutes_throw _
  | succ fuel ih =>
    have hvisit : Recalls (modify fun m => m.visit (asks 0)) :=
      recalls_of_commutes fun c => commutes_modify fun m => by rfl
    refine hvisit.bind fun _ => recalls_tick.bind fun goesOn => ?_
    cases goesOn with
    | false => exact recalls_of_commutes fun _ => commutes_pure ()
    | true => exact ih _

end Machine

/-- What a run leaves when it has stopped, and the next one overwrites before it looks at it: where
the run stood, and whether a break was asked for. -/
structure Remains where
  position : Position
  current : Position
  traced : Option Nat
  asked : Bool

namespace Machine

/-- The machine with other remains of a run. -/
def bearing (m : Machine) (d : Remains) : Machine :=
  { m with
    position := d.position
    current := d.current
    traced := d.traced
    breakPending := m.breakPending || d.asked }

theorem asideWriting_bearing (d : Remains) : AsideWriting (fun m => m.bearing d) where
  running _ := rfl
  column _ := rfl
  arrived _ _ := rfl
  wrote _ _ := rfl
  asked _ := rfl
  shifted _ _ := rfl
  failed _ _ := rfl

theorem bearing_of_recalling (m : Machine) (c : Position) :
    m.recalling c = m.bearing ⟨m.position, c, m.traced, false⟩ := by
  simp [recalling, bearing]

/-- Only what was remembered as the statement being executed is still there when the first turn
begins. -/
theorem executeAmid_bearing (asks : Nat → Bool) (fuel : Nat) (m : Machine) {d : Remains}
    (hposition : d.position = m.position) : ∃ d', executeAmid asks fuel (m.bearing d) =
      ((executeAmid asks fuel m).1, (executeAmid asks fuel m).2.bearing d') := by
  have hbegin : (m.bearing d).begin = m.begin.recalling d.current := by
    rw [bearing, hposition]
    rfl
  obtain ⟨c, hturns⟩ := recalls_turnsAmid fuel asks m.begin d.current
  have hsettle := (aside_recalling c).settle (turnsAmid fuel asks m.begin).1
    (turnsAmid fuel asks m.begin).2
  refine ⟨⟨(executeAmid asks fuel m).2.position, c, (executeAmid asks fuel m).2.traced, false⟩, ?_⟩
  rw [← bearing_of_recalling]
  change settle (turnsAmid fuel asks (m.bearing d).begin).1
    (turnsAmid fuel asks (m.bearing d).begin).2 = _
  rw [hbegin, hturns]
  exact hsettle

/-- **What a run left makes no difference to the next run.** -/
theorem startAmid_bearing (asks : Nat → Bool) (fuel : Nat) (line : Option Nat) (m : Machine)
    (d : Remains) :
    ∃ d', startAmid asks fuel line (m.bearing d) =
      ((startAmid asks fuel line m).1, (startAmid asks fuel line m).2.bearing d') := by
  have hprogram : (m.bearing d).program = m.program := rfl
  have hfresh : (m.bearing d).fresh = m.fresh.bearing d := rfl
  rw [startAmid_eq, startAmid_eq, hprogram, hfresh]
  rcases entry m.program line with (_ | f) | n
  · exact ⟨d, rfl⟩
  · cases f with
    | error e => exact ⟨d, (asideWriting_bearing d).report e m.fresh⟩
    | crash c => exact ⟨d, rfl⟩
  · exact executeAmid_bearing asks fuel { m.fresh with position := ⟨some n, 0⟩ }
      (d := { d with position := _ }) rfl

/-- A run looks at nothing but what is there when everything was forgotten. -/
theorem startAmid_congr (asks : Nat → Bool) (fuel : Nat) (line : Option Nat) {m₁ m₂ : Machine}
    (h : m₂.fresh = m₁.fresh) : startAmid asks fuel line m₂ = startAmid asks fuel line m₁ := by
  have hprogram : m₂.fresh.program = m₁.fresh.program := by rw [h]
  change m₂.program = m₁.program at hprogram
  rw [startAmid_eq, startAmid_eq, hprogram, h]

end Machine

/-! ## The history of a machine -/

/-- The request, counted from the given number of writes on. -/
def BreakRequest.sooner (count : Nat) : BreakRequest → BreakRequest
  | signal n => signal (n - count)
  | key n => key (n - count)

theorem BreakRequest.later_sooner {count : Nat} {r : BreakRequest} (h : count ≤ r.write) :
    (r.sooner count).later count = r := by
  cases r with
  | signal n => exact congrArg signal (Nat.add_sub_of_le h)
  | key n => exact congrArg key (Nat.add_sub_of_le h)

/-- The request to break that can still arrive, counted from now on. -/
def Terminal.awaited (t : Terminal) : Option BreakRequest :=
  (t.request.filter fun r => t.writes < r.write).map (BreakRequest.sooner t.writes)

namespace Machine

/-- What is behind the machine. -/
def past (m : Machine) : Past where
  events := m.terminal.events
  writes := m.terminal.writes
  stale := m.terminal.request.filter fun r => r.write ≤ m.terminal.writes
  passed r hr := by simpa using (Option.mem_filter_iff.mp hr).2
  lastError := m.lastError
  notices := m.notices

/-- What the last run left. -/
def remains (m : Machine) : Remains := ⟨m.position, m.current, m.traced, m.breakPending⟩

/-- The machine without its history. -/
def outset (m : Machine) : Machine :=
  { m with
    position := default
    current := default
    traced := none
    breakPending := false
    lastError := none
    terminal := { replies := m.terminal.replies, request := m.terminal.awaited }
    notices := [] }

theorem after_outset (m : Machine) : (m.outset.bearing m.remains).after m.past = m := by
  have hrequest : (m.terminal.awaited.map (BreakRequest.later m.terminal.writes)).or
      (m.terminal.request.filter fun r => r.write ≤ m.terminal.writes) = m.terminal.request := by
    unfold Terminal.awaited
    cases m.terminal.request with
    | none => rfl
    | some r =>
      by_cases hlater : m.terminal.writes < r.write
      · have hsame := BreakRequest.later_sooner hlater.le
        simp [Option.filter, hlater, hsame]
      · have hpassed : r.write ≤ m.terminal.writes := Nat.not_lt.mp hlater
        simp [Option.filter, hlater, hpassed]
  have hterminal : (m.outset.bearing m.remains).terminal.after m.past = m.terminal := by
    change Terminal.mk ([] ++ m.terminal.events) m.terminal.replies (m.terminal.writes + 0) _ = _
    rw [List.nil_append, Nat.add_zero]
    exact congrArg (Terminal.mk m.terminal.events m.terminal.replies m.terminal.writes) hrequest
  unfold after
  rw [hterminal]
  rfl

/-- A run does the same on every machine with the same outset, with its history behind it. -/
theorem startAmid_outset (asks : Nat → Bool) (fuel : Nat) (line : Option Nat) (m : Machine) :
    ∃ d, startAmid asks fuel line m =
      ((startAmid asks fuel line m.outset).1,
        ((startAmid asks fuel line m.outset).2.bearing d).after m.past) := by
  obtain ⟨d, hbearing⟩ := startAmid_bearing asks fuel line m.outset m.remains
  have hforgets := forgets_startAmid (p := m.past) asks fuel line (m.outset.bearing m.remains)
  rw [hbearing] at hforgets
  refine ⟨d, ?_⟩
  rw [← hforgets]
  exact congrArg (startAmid asks fuel line) m.after_outset.symm

end Machine

/-! ## Runs with different histories -/

namespace Machine

/-- The machines differ in nothing that a run may depend on: what they hold of former runs, and what
is behind them, may differ. The request to break is counted from now on, and the clock shows the
same whenever it is looked at. -/
structure Alike (m₁ m₂ : Machine) : Prop where
  program : m₂.program = m₁.program
  trace : m₂.trace = m₁.trace
  column : m₂.column = m₁.column
  replies : m₂.terminal.replies = m₁.terminal.replies
  awaited : m₂.terminal.awaited = m₁.terminal.awaited
  disk : m₂.disk = m₁.disk
  network : m₂.network = m₁.network
  seeds : m₂.seeds = m₁.seeds
  clock : m₂.memory.clock = m₁.memory.clock
  spare : m₂.spare = m₁.spare
  cells : m₂.cells = m₁.cells

/-- Two machines did the same: they came to the same end, showed the same and reported the same
error, each after what was behind it, and hold the same now. -/
structure DidAlike (m₁ m₂ : Machine) (r₁ r₂ : Except Crash Unit × Machine) : Prop where
  result : r₂.1 = r₁.1
  events : ∃ shown,
    r₁.2.terminal.events = shown ++ m₁.terminal.events ∧
    r₂.2.terminal.events = shown ++ m₂.terminal.events
  lastError : ∃ reported : Option Error,
    r₁.2.lastError = reported.or m₁.lastError ∧ r₂.2.lastError = reported.or m₂.lastError
  notices : ∃ told, r₁.2.notices = told ++ m₁.notices ∧ r₂.2.notices = told ++ m₂.notices
  memory : r₂.2.memory = r₁.2.memory
  functions : r₂.2.functions = r₁.2.functions
  stack : r₂.2.stack = r₁.2.stack
  resume : r₂.2.resume = r₁.2.resume
  program : r₂.2.program = r₁.2.program
  trace : r₂.2.trace = r₁.2.trace
  column : r₂.2.column = r₁.2.column
  replies : r₂.2.terminal.replies = r₁.2.terminal.replies
  disk : r₂.2.disk = r₁.2.disk
  seeds : r₂.2.seeds = r₁.2.seeds

end Machine

namespace Session

open Machine

variable {settings : Settings} {s₁ s₂ : Session}

theorem fresh_outset (h₁ : Reached settings s₁) (h₂ : Reached settings s₂)
    (hphase : s₂.phase = s₁.phase) (halike : s₁.machine.Alike s₂.machine) :
    s₂.machine.outset.fresh = s₁.machine.outset.fresh := by
  have hsetUp₁ := h₁.setUp
  have hsetUp₂ := h₂.setUp
  simp only [outset, fresh, clearVariables, resetStacks, Store.clear, h₁.limit, h₂.limit,
    hsetUp₁.settings, hsetUp₂.settings, hsetUp₁.stackLimit, hsetUp₂.stackLimit, hsetUp₁.running,
    hsetUp₂.running, hphase,
    halike.program, halike.trace, halike.column, halike.replies, halike.awaited, halike.disk,
    halike.network,
    halike.seeds, halike.clock, halike.spare, halike.cells]

/-- **A run does not depend on what was done before.** From any two sessions with the same settings
that wait for a line and hold the same program, a run shows the same, reports the same error and
leaves the same, whatever was executed, defined, interrupted or left open, provided that the clock
shows the same to both; and so it is if breaks are asked for between its turns. If none is, that is
what RUN does at the prompt. -/
theorem start_forgets (h₁ : Reached settings s₁) (h₂ : Reached settings s₂)
    (hprompt₁ : s₁.phase = .prompt) (hprompt₂ : s₂.phase = .prompt)
    (halike : s₁.machine.Alike s₂.machine) :
    (∀ fuel line, startAmid (fun _ => false) fuel line = start fuel line) ∧
      ∀ asks fuel line, s₁.machine.DidAlike s₂.machine (startAmid asks fuel line s₁.machine)
        (startAmid asks fuel line s₂.machine) := by
  refine ⟨startAmid_quiet, fun asks fuel line => ?_⟩
  have hfresh := fresh_outset h₁ h₂ (hprompt₂.trans hprompt₁.symm) halike
  have hsame := startAmid_congr asks fuel line hfresh
  obtain ⟨d₁, hrun₁⟩ := startAmid_outset asks fuel line s₁.machine
  obtain ⟨d₂, hrun₂⟩ := startAmid_outset asks fuel line s₂.machine
  rw [hrun₁, hrun₂, hsame]
  exact ⟨rfl, ⟨_, rfl, rfl⟩, ⟨_, rfl, rfl⟩, ⟨_, rfl, rfl⟩, rfl, rfl, rfl, rfl, rfl, rfl, rfl,
    rfl, rfl, rfl⟩

/-- A new machine that was given a program which declares a kind and stops in a subroutine, inside a
loop. -/
def stopping : Session :=
  loaded false (load "10 FOR I=1 TO 2:DEFSTR A:GOSUB 20\n20 STOP" (.new default))

/-- The program after so many turns; the fourth one stops it. -/
def inTurn (n : Nat) : Session := next^[n] (started (prepare none stopping.machine))

/-- The loop stays open, so the program is still the same. -/
theorem program_inTurn (hprompt : stopping.phase = .prompt) {n : Nat}
    (hrunning : ∀ k < n, (inTurn k).phase = .running)
    (hopen : ∀ k < n, (inTurn (k + 1)).machine.stack.loops.length = 1)
    (hedited : ∀ k < n, (inTurn (k + 1)).edited = false) :
    Reached default (inTurn n) ∧ (inTurn n).machine.program = stopping.machine.program := by
  induction n with
  | zero =>
    have hloaded : Reached default stopping := Reached.loaded (s := init default) .refl rfl _
    have hprepares := prepares_prepare none stopping.machine
    refine ⟨hloaded.started hprompt none, ?_⟩
    change (started (prepare none stopping.machine)).machine.program = _
    generalize prepare none stopping.machine = r at hprepares
    cases hprepares with
    | goes => rfl
    | @stays r m stays reports =>
      obtain ⟨_, _, _, _, rfl⟩ := reports
      rcases r with c | _ | _ <;> rfl
  | succ n ih =>
    obtain ⟨hreached, hprogram⟩ :=
      ih (fun k hk => hrunning k (by omega)) (fun k hk => hopen k (by omega))
      fun k hk => hedited k (by omega)
    have hnext : inTurn (n + 1) = (inTurn n).next := Function.iterate_succ_apply' _ _ _
    have hloop := hopen n (by omega)
    have hsame := hedited n (by omega)
    rw [hnext] at hloop hsame ⊢
    have hstack : (inTurn n).next.machine.stack ≠ {} := fun h => by simp [h] at hloop
    have hcode :=
      (step_next (hrunning n (by omega))).sameCode hreached.safe.keeps.built hstack hsame
    exact ⟨hreached.next (hrunning n (by omega)), hcode.program.trans hprogram⟩

/-- A loop and a subroutine are open, a kind is declared and the program can be continued: it runs
as it did on the new machine. -/
theorem start_forgets_stopped :
    (inTurn 4).machine.stack.loops.length = 1 ∧ (inTurn 4).machine.stack.returns.length = 1 ∧
    (inTurn 4).machine.resume = some ⟨some 20, 1⟩ ∧
      (inTurn 4).machine.memory.store.kindOf "A" = .text ∧
    stopping.machine.DidAlike (inTurn 4).machine (start 9 none stopping.machine)
      (start 9 none (inTurn 4).machine) := by
  have hfacts :
      (stopping.phase = .prompt ∧ (∀ k < 4, (inTurn k).phase = .running) ∧
      (inTurn 4).phase = .prompt ∧
        (∀ k < 4, (inTurn (k + 1)).machine.stack.loops.length = 1) ∧
        ∀ k < 4, (inTurn (k + 1)).edited = false) ∧
      ((inTurn 4).machine.stack.loops.length = 1 ∧ (inTurn 4).machine.stack.returns.length = 1 ∧
        (inTurn 4).machine.resume = some ⟨some 20, 1⟩ ∧
        (inTurn 4).machine.memory.store.kindOf "A" = .text) ∧
      ((inTurn 4).machine.disk.home = stopping.machine.disk.home ∧
        (inTurn 4).machine.disk.directories = stopping.machine.disk.directories ∧
        (inTurn 4).machine.disk.files = stopping.machine.disk.files ∧
        (inTurn 4).machine.network.pages.length = 0 ∧ stopping.machine.network.pages.length = 0 ∧
        (inTurn 4).machine.memory.clock = stopping.machine.memory.clock ∧
        (inTurn 4).machine.spare = stopping.machine.spare ∧
        (inTurn 4).machine.cells = stopping.machine.cells) ∧
      (inTurn 4).machine.trace = stopping.machine.trace ∧
      (inTurn 4).machine.column = stopping.machine.column ∧
      (inTurn 4).machine.terminal.replies = stopping.machine.terminal.replies ∧
      (inTurn 4).machine.terminal.awaited = stopping.machine.terminal.awaited ∧
      (inTurn 4).machine.seeds = stopping.machine.seeds := by
    decide +kernel
  obtain ⟨hruns, hleft, hworld, htrace, hcolumn, hreplies, hawaited, hseeds⟩ := hfacts
  obtain ⟨hprompt, hrunning, hstopped, hopen, hedited⟩ := hruns
  obtain ⟨hloops, hreturns, hresume, hkind⟩ := hleft
  obtain ⟨hhome, hmade, hfiles, hpages, hpages', hclock, hspare, hcells⟩ := hworld
  obtain ⟨hreached, hprogram⟩ := program_inTurn hprompt hrunning hopen hedited
  have hloaded : Reached default stopping := Reached.loaded (s := init default) .refl rfl _
  have hdisk : (inTurn 4).machine.disk = stopping.machine.disk :=
    (Disk.mk.injEq ..).mpr ⟨hhome, hmade, hfiles⟩
  have hnetwork : (inTurn 4).machine.network = stopping.machine.network := (Network.mk.injEq ..).mpr
    ((List.length_eq_zero_iff.mp hpages).trans (List.length_eq_zero_iff.mp hpages').symm)
  obtain ⟨hquiet, halike⟩ := start_forgets hloaded hreached hprompt hstopped
    ⟨hprogram, htrace, hcolumn, hreplies, hawaited, hdisk, hnetwork, hseeds, hclock,
      hspare, hcells⟩
  refine ⟨hloops, hreturns, hresume, hkind, ?_⟩
  rw [← hquiet]
  exact halike _ 9 none

/-- A new machine that was given a program which shows the time. -/
def telling : Session := loaded false (load "10 PRINT TIME$" (.new default))

/-- The same machine a second later. -/
def tellingLater : Session :=
  { telling with machine := { telling.machine with
      memory := { telling.machine.memory with clock := { now := { time := "00:00:01" } } } } }

/-- Machines that differ in nothing but the clock: the run shows another text. -/
theorem start_follows_clock : Reached default telling ∧ Reached default tellingLater ∧
    telling.phase = .prompt ∧ tellingLater.phase = .prompt ∧
    (start 9 none telling.machine).2.terminal.events = [.text "00:00:00\n"] ∧
    (start 9 none tellingLater.machine).2.terminal.events = [.text "00:00:01\n"] := by
  have hloaded : Reached default telling := Reached.loaded (s := init default) .refl rfl _
  have hlater : Step telling tellingLater := .world ⟨_, _, _, _, _, _, _, _, _, rfl⟩
  refine ⟨hloaded, hloaded.tail hlater, ?_⟩
  decide +kernel

end Session

end LineBasic
