import Mathlib
import LineBasic.Proofs.ControlFlow

/-!
# Sessions

A session is all that can happen to a machine: lines are typed, programs loaded and run, turn after
turn, while replies come in, breaks are asked for and errors stop what runs. Beside the machine it
keeps whether the program was edited since everything that was open was last closed.

* `Machine.Accepts`, `Machine.Prepares`, `Machine.reports_settle`: what is done at the prompt and
  when a run stops.
* `Session.Step`: one thing that can happen. `Session.Reached`: a session from the start.
* `Session.reached_enter`, `Session.reached_load`, `Session.reached_start`: whatever is done at the
  prompt is made of such steps.
* `Session.Step.alters`: every step leads the variables through the known operations.
-/

namespace LineBasic

namespace Machine

/-! ## At the prompt -/

/-- An error was shown: it is remembered and written. -/
def Reports (m m' : Machine) : Prop :=
  ∃ terminal breakPending column lastError, m' =
    { m with terminal, breakPending, column, lastError }

theorem Reports.refl (m : Machine) : m.Reports m := ⟨_, _, _, _, rfl⟩

theorem reports_report (e : Error) (m : Machine) : m.Reports (report e m).2 := by
  have hwrites := writes_writeRaw (e.report m.column ++ "\n") { m with lastError := some e }
  have hrun : report e m = (do
      writeRaw (e.report m.column ++ "\n")
      modify fun m => { m with column := 0 } : Act Unit) { m with lastError := some e } := rfl
  rw [hrun, run_bind]
  cases hraw : writeRaw (e.report m.column ++ "\n") { m with lastError := some e } with
  | mk r m' =>
    rw [hraw] at hwrites
    obtain ⟨t, b, c, rfl⟩ := hwrites
    cases r with
    | error c' => exact ⟨t, b, c, _, rfl⟩
    | ok u => exact ⟨t, b, 0, _, rfl⟩

/-- Showing an error and going on leads to nothing else. -/
theorem reports_bind {α : Type} (e : Error) (a : α) (m : Machine) :
    m.Reports ((do report e; return a : Act α) m).2 ∧ ∀ b, ((do report e; return a : Act α) m).1 =
      .ok b → b = a := by
  have hreports := reports_report e m
  rw [run_bind]
  cases hrun : report e m with
  | mk r m' =>
    rw [hrun] at hreports
    cases r with
    | error c => exact ⟨hreports, nofun⟩
    | ok u => exact ⟨hreports, fun b hb => (Except.ok.inj hb).symm⟩

/-- What becomes of a typed line: it goes into the program, holds nothing, becomes code or is
refused. -/
inductive Accepts (m : Machine) (text : String) : Except Crash Entry × Machine → Prop where
  | stored {l : SourceLine} {n : Nat} (read : Parser.parseLine (m.room - 1) text = .ok l)
      (number : l.number = some n) :
      Accepts m text
        (.ok .kept, { m with program := m.program.store n l.source l.statements, resume := none })
  | nothing {l : SourceLine} (read : Parser.parseLine (m.room - 1) text = .ok l)
      (number : l.number = none) :
      Accepts m text (.ok .kept, m)
  | code {l : SourceLine} (read : Parser.parseLine (m.room - 1) text = .ok l)
      (number : l.number = none) :
      Accepts m text
        (.ok .command, { m with direct := compile l.statements, position := ⟨none, 0⟩ })
  | refused {r : Except Crash Entry} {m' : Machine}
      (refused : ∀ entry, r = .ok entry → entry = .refused)
      (reports : m.Reports m') : Accepts m text (r, m')

theorem accepts_accept (text : String) (m : Machine) : m.Accepts text (accept text m) := by
  unfold accept
  by_cases hlength : maxLineLength < text.length
  · rw [if_pos hlength]
    obtain ⟨hreports, hentry⟩ := reports_bind (.of .lineBufferOverflow) Entry.refused m
    exact .refused hentry hreports
  · rw [if_neg hlength]
    rw [run_get_bind]
    cases hread : Parser.parseLine (m.room - 1) text with
    | error f =>
      cases f with
      | error e =>
        obtain ⟨hreports, hentry⟩ := reports_bind e Entry.refused m
        exact .refused hentry hreports
      | crash c => exact .refused nofun (.refl m)
    | ok l =>
      cases hnumber : l.number with
      | some n =>
        simp only [hnumber]
        exact .stored hread hnumber
      | none =>
        simp only [hnumber]
        by_cases hempty : l.statements.isEmpty = true
        · rw [if_pos hempty]
          exact .nothing hread hnumber
        · rw [if_neg hempty]
          exact .code hread hnumber

/-- What loading a text does: the program is taken, or an error is shown. -/
inductive Takes (m : Machine) : Except Crash Bool × Machine → Prop where
  | takes {p : Program} (built : p.Built) : Takes m (.ok true, m.replaceProgram p)
  | refused {r : Except Crash Bool} {m' : Machine}
      (refused : ∀ taken, r = .ok taken → taken = false)
      (reports : m.Reports m') : Takes m (r, m')

theorem takes_load (text : String) (m : Machine) : m.Takes (load text m) := by
  unfold load
  rw [run_get_bind]
  cases hload : Program.load (m.room - 2) text with
  | ok p => exact .takes (Program.loadFrom_built hload .empty)
  | error f =>
    cases f with
    | error e =>
      obtain ⟨hreports, htaken⟩ := reports_bind e false m
      exact .refused htaken hreports
    | crash c => exact .refused nofun (.refl m)

/-- The machine in which a program starts. -/
def fresh (m : Machine) : Machine := clearVariables { m with direct := #[], functions := {} }

/-- What getting ready to run does: everything is forgotten, and the run begins at a line or not at
all. -/
inductive Prepares (m : Machine) : Except Crash Bool × Machine → Prop where
  | goes {n : Nat} (stored : m.program.contains n = true) :
      Prepares m (.ok true, { m.fresh with position := ⟨some n, 0⟩ })
  | stays {r : Except Crash Bool} {m' : Machine} (stays : ∀ goes, r = .ok goes → goes = false)
      (reports : m.fresh.Reports m') : Prepares m (r, m')

theorem prepares_prepare (line : Option Nat) (m : Machine) : m.Prepares (prepare line m) := by
  have hstarts := Exec.starts_start { m with direct := #[] } line none
  unfold prepare
  generalize Exec.start line none { m with direct := #[] } = r at hstarts
  cases hstarts with
  | goes stored => exact .goes stored
  | ends => exact .stays (fun _ h => (Except.ok.inj h).symm) (.refl _)
  | @fails e given =>
    obtain ⟨hreports, hgoes⟩ := reports_bind e false m.fresh
    exact .stays hgoes hreports

/-! ## When a run stops -/

/-- Where the program can be continued after a run has stopped. -/
def resumeAfter (m : Machine) : Except Halt Unit → Option Position
  | .ok () | .error .finished => m.resume
  | .error (.fault (.error e)) =>
    if e.kind = .interrupted && m.position.line.isSome then some m.position else none
  | .error (.fault (.crash _)) => none

/-- After a run nothing has changed but that, and that an error may have been shown. -/
theorem reports_settle (r : Except Halt Unit) (m : Machine) :
    Reports { m with running := false, resume := m.resumeAfter r } (settle r m).2 := by
  rcases r with (_ | f) | u
  · exact .refl _
  · cases f with
    | error e => exact reports_report e _
    | crash c => exact .refl _
  · exact .refl _

end Machine

/-! ## What can happen -/

namespace Machine

/-- The world has changed: replies and files came, time went by, a break was asked for, or the host
has more or less room and memory than before. -/
def Elsewhere (m m' : Machine) : Prop :=
  ∃ terminal disk network notices seeds clock breakPending spare cells,
    m' = { m with
      terminal, disk, network, notices, seeds, breakPending, spare, cells
      memory := { m.memory with clock } }

/-- The instruction that the next turn executes; none at the end of a line, or if a break was asked
for. -/
def upcoming? (m : Machine) : Option Instr :=
  if m.breakPending then none else (m.codeAt? m.position.line).bind fun code =>
    code[m.position.index]?

section

variable {m : Machine} {code : Array Instr} {i : Instr}

theorem upcoming?_eq_some (hpending : m.breakPending = false)
    (hcode : m.codeAt? m.position.line = some code) (hhere : code[m.position.index]? = some i) :
    m.upcoming? = some i := by
  simp [upcoming?, hpending, hcode, hhere]

theorem upcoming?_eq_none (hcode : m.codeAt? m.position.line = some code)
    (hended : code[m.position.index]? = none) :
    m.upcoming? = none := by
  simp [upcoming?, hcode, hended]

theorem upcoming?_of_breakPending (hpending : m.breakPending = true) : m.upcoming? = none := by
  simp [upcoming?, hpending]

/-- A turn that executes an instruction, after it has shown the line. -/
theorem tick_of_upcoming? (h : m.upcoming? = some i) : tick m =
    match showTrace m with
    | (.error e, m') => (.error e, m')
    | (.ok _, m') =>
      match Exec.instr i (m'.atStatement m.position) with
      | (.error e, m'') => (.error (placeHalt m.position.line e), m'')
      | (.ok _, m'') => (.ok true, m'') := by
  have hturn := turn_tick m
  generalize tick m = r at hturn ⊢
  cases hturn with
  | missing line => simp [upcoming?, line] at h
  | typedEnd code_eq ended | programEnd code_eq ended | lineEnd code_eq ended =>
    cases h.symm.trans (upcoming?_eq_none code_eq ended)
  | broken _ _ pending => cases h.symm.trans (upcoming?_of_breakPending pending)
  | cut _ _ _ trace => rw [trace]
  | executed code_eq here pending trace run | halted code_eq here pending trace run =>
    obtain rfl := Option.some.inj (h.symm.trans (upcoming?_eq_some pending code_eq here))
    rw [trace]
    simp only [run]

end

/-- The mark of a turn that ended in the given way. -/
def mark (m : Machine) (r : Except Halt Bool) : Mark :=
  (m.upcoming?.map fun i => i.mark r).getD .plain

end Machine

/-- The program was edited since everything that was open was last closed. -/
def Mark.edited (before : Bool) : Mark → Bool
  | plain => before
  | fresh => false
  | edit => true

/-- A typed line goes into the program. -/
def isNumbered (room : Nat) (text : String) : Bool :=
  match Parser.parseLine room text with
  | .ok l => l.number.isSome
  | .error _ => false

/-- Whether the machine waits for a line or runs. -/
inductive Phase where
  | prompt
  | running
  deriving DecidableEq

/-- A session: the machine, and whether the program was edited since everything that was open was
last closed. -/
structure Session where
  phase : Phase
  edited : Bool
  machine : Machine

namespace Session

open Machine

/-- The session after a line was typed. -/
def entered (text : String) (edited : Bool) : Except Crash Entry × Machine → Session
  | (.ok .command, m) => ⟨.running, edited, m.begin⟩
  | (.ok .kept, m) => ⟨.prompt, edited || isNumbered (m.room - 1) text, m⟩
  | (_, m) => ⟨.prompt, edited, m⟩

/-- The session after a text was loaded. -/
def loaded (edited : Bool) : Except Crash Bool × Machine → Session
  | (.ok true, m) => ⟨.prompt, false, m⟩
  | (_, m) => ⟨.prompt, edited, m⟩

/-- The session after the program was asked to run. -/
def started : Except Crash Bool × Machine → Session
  | (.ok true, m) => ⟨.running, false, m.begin⟩
  | (_, m) => ⟨.prompt, false, m⟩

/-- The session after a turn. -/
def turned (m : Machine) (edited : Bool) : Except Halt Bool × Machine → Session
  | (.ok true, m') => ⟨.running, (m.mark (.ok true)).edited edited, m'⟩
  | (.ok false, m') => ⟨.prompt, edited, (settle (.ok ()) m').2⟩
  | (.error h, m') => ⟨.prompt, (m.mark (.error h)).edited edited, (settle (.error h) m').2⟩

/-- The session after the next turn. -/
def next (s : Session) : Session := turned s.machine s.edited (tick s.machine)

/-- One thing that can happen. -/
inductive Step : Session → Session → Prop where
  | world {phase : Phase} {edited : Bool} {m m' : Machine} (elsewhere : m.Elsewhere m') :
      Step ⟨phase, edited, m⟩ ⟨phase, edited, m'⟩
  | enter (text : String) (edited : Bool) (m : Machine) : Step ⟨.prompt, edited, m⟩
      (entered text edited (accept text m))
  | load (text : String) (edited : Bool) (m : Machine) : Step ⟨.prompt, edited, m⟩
      (loaded edited (load text m))
  | start (line : Option Nat) (edited : Bool) (m : Machine) : Step ⟨.prompt, edited, m⟩
      (started (prepare line m))
  | ready (edited : Bool) (m : Machine) : Step ⟨.prompt, edited, m⟩ ⟨.prompt, edited, (ready m).2⟩
  | turn (edited : Bool) (m : Machine) : Step ⟨.running, edited, m⟩ (turned m edited (tick m))
  | abandon (c : Crash) (edited : Bool) (m : Machine) :
      Step ⟨.running, edited, m⟩ ⟨.prompt, edited, (settle (.error (.fault (.crash c))) m).2⟩

/-- A session with a new machine. -/
def init (settings : Settings) : Session := ⟨.prompt, false, .new settings⟩

theorem init_eq (settings : Settings) : init settings = ⟨.prompt, false,
    { settings
      stackLimit := settings.stackLimit.1
      memory := { store := { limit := settings.memoryLimit.1 } }
      notices := (settings.memoryLimit.2 ++ settings.stackLimit.2).reverse }⟩ := by
  unfold init Machine.new
  generalize settings.memoryLimit = memory
  generalize settings.stackLimit = stack
  rfl

/-- What a session that began with a new machine comes to. -/
def Reached (settings : Settings) : Session → Prop := Relation.ReflTransGen Step (init settings)

variable {settings : Settings} {edited : Bool} {m : Machine}

section

variable {s : Session}

theorem Reached.entered (h : Reached settings s) (hprompt : s.phase = .prompt) (text : String) :
    Reached settings (entered text s.edited (accept text s.machine)) := by
  obtain ⟨phase, edited, m⟩ := s
  obtain rfl : phase = .prompt := hprompt
  exact h.tail (.enter text edited m)

theorem Reached.loaded (h : Reached settings s) (hprompt : s.phase = .prompt) (text : String) :
    Reached settings (loaded s.edited (load text s.machine)) := by
  obtain ⟨phase, edited, m⟩ := s
  obtain rfl : phase = .prompt := hprompt
  exact h.tail (.load text edited m)

theorem Reached.started (h : Reached settings s) (hprompt : s.phase = .prompt) (line : Option Nat) :
    Reached settings (started (prepare line s.machine)) := by
  obtain ⟨phase, edited, m⟩ := s
  obtain rfl : phase = .prompt := hprompt
  exact h.tail (.start line edited m)

theorem Reached.next (h : Reached settings s) (hrunning : s.phase = .running) :
    Reached settings s.next := by
  obtain ⟨phase, edited, m⟩ := s
  obtain rfl : phase = .running := hrunning
  exact h.tail (.turn edited m)

end

/-! ## Whole runs are made of steps -/

/-- A run that takes turns until it stops. -/
theorem reached_turns (fuel : Nat) (h : Reached settings ⟨.running, edited, m⟩) :
    ∃ edited', Reached settings
      ⟨.prompt, edited', (settle (turns fuel m).1 (turns fuel m).2).2⟩ := by
  induction fuel generalizing edited m with
  | zero => exact ⟨edited, h.tail (.abandon .exhausted edited m)⟩
  | succ fuel ih =>
    have hturn := h.tail (.turn edited m)
    rw [show turns (fuel + 1) = (do if ← tick then turns fuel else return () : Exec Unit) from rfl,
      run_bind]
    cases hrun : tick m with
    | mk r m' =>
      rw [hrun] at hturn
      rcases r with e | _ | _
      · exact ⟨_, hturn⟩
      · exact ⟨_, hturn⟩
      · exact ih hturn

theorem reached_execute (fuel : Nat) (h : Reached settings ⟨.running, edited, m.begin⟩) :
    ∃ edited', Reached settings ⟨.prompt, edited', (execute fuel m).2⟩ :=
  reached_turns fuel h

/-- Typing a line is made of steps. -/
theorem reached_enter (fuel : Nat) (text : String) (h : Reached settings ⟨.prompt, edited, m⟩) :
    ∃ edited', Reached settings ⟨.prompt, edited', (enter fuel text m).2⟩ := by
  have henter := h.tail (.enter text edited m)
  unfold enter
  rw [run_bind]
  cases hrun : accept text m with
  | mk r m' =>
    rw [hrun] at henter
    rcases r with c | _ | _ | _
    · exact ⟨_, henter⟩
    · exact ⟨_, henter⟩
    · exact ⟨_, henter⟩
    · obtain ⟨edited', hdone⟩ := reached_execute fuel henter
      simp only
      rw [run_bind]
      cases hexecute : execute fuel m' with
      | mk r m'' =>
        rw [hexecute] at hdone
        cases r <;> exact ⟨edited', hdone⟩

/-- So is loading a text. -/
theorem reached_load (text : String) (h : Reached settings ⟨.prompt, edited, m⟩) :
    ∃ edited', Reached settings ⟨.prompt, edited', (Machine.load text m).2⟩ := by
  have hload := h.tail (.load text edited m)
  cases hrun : Machine.load text m with
  | mk r m' =>
    rw [hrun] at hload
    rcases r with c | _ | _ <;> exact ⟨_, hload⟩

/-- And so is running the program. -/
theorem reached_start (fuel : Nat) (line : Option Nat) (h : Reached settings ⟨.prompt, edited, m⟩) :
    ∃ edited', Reached settings ⟨.prompt, edited', (Machine.start fuel line m).2⟩ := by
  have hstart := h.tail (.start line edited m)
  unfold Machine.start
  rw [run_bind]
  cases hrun : prepare line m with
  | mk r m' =>
    rw [hrun] at hstart
    rcases r with c | _ | _
    · exact ⟨_, hstart⟩
    · exact ⟨_, hstart⟩
    · exact reached_execute fuel hstart

/-! ## Variables -/

theorem alters_of_eq {m m' : Machine} (h : m'.memory.store = m.memory.store) : m.Alters m' := by
  unfold Alters
  rw [h]

theorem alters_of_reports {m m' : Machine} (h : m.Reports m') : m.Alters m' := by
  obtain ⟨t, b, c, e, rfl⟩ := h
  exact .refl

theorem alters_settle (r : Except Halt Unit) (m : Machine) : m.Alters (settle r m).2 := by
  obtain ⟨t, b, c, e, h⟩ := reports_settle r m
  exact alters_of_eq (by rw [h])

/-- A turn leads the variables through the known operations. -/
theorem alters_tick : Exec.Moves Alters tick := by
  intro m
  have hturn := turn_tick m
  generalize tick m = r at hturn
  cases hturn with
  | missing | typedEnd | programEnd | lineEnd | broken => exact .refl
  | cut _ _ _ trace =>
    obtain ⟨t, b, c, h⟩ := writes_of_showTrace trace
    exact alters_of_eq (by rw [h])
  | @executed _ i m' _ _ _ _ trace run | @halted _ i _ m' _ _ _ _ trace run =>
    have halters := Exec.alters_instr i (m'.atStatement m.position)
    rw [run] at halters
    obtain ⟨t, b, c, rfl⟩ := writes_of_showTrace trace
    exact halters

/-- **Every step leads the variables through the known operations.** -/
theorem Step.alters {s t : Session} (h : Step s t) : s.machine.Alters t.machine := by
  cases h with
  | world elsewhere =>
    obtain ⟨_, _, _, _, _, _, _, _, _, rfl⟩ := elsewhere
    exact .refl
  | enter text edited m =>
    have haccepts := accepts_accept text m
    generalize accept text m = r at haccepts
    cases haccepts with
    | stored | nothing | code => exact .refl
    | @refused r m' refused reports =>
      have halters := alters_of_reports reports
      rcases r with c | _ | _ | _ <;> exact halters
  | load text edited m =>
    have htakes := takes_load text m
    generalize Machine.load text m = r at htakes
    cases htakes with
    | takes => exact .single (.clear _)
    | @refused r m' refused reports =>
      have halters := alters_of_reports reports
      rcases r with c | _ | _ <;> exact halters
  | start line edited m =>
    have hprepares := prepares_prepare line m
    generalize prepare line m = r at hprepares
    cases hprepares with
    | goes => exact .single (.clear _)
    | @stays r m' stays reports =>
      have halters := trans_of Alters (.single (.clear _)) (alters_of_reports reports)
      rcases r with c | _ | _ <;> exact halters
  | ready => exact .refl
  | turn edited m =>
    have halters := alters_tick m
    cases hrun : tick m with
    | mk r m' =>
      rw [hrun] at halters
      rcases r with e | _ | _
      · exact trans_of Alters halters (alters_settle _ m')
      · exact trans_of Alters halters (alters_settle _ m')
      · exact halters
  | abandon c edited m => exact alters_settle _ m

end Session

end LineBasic
