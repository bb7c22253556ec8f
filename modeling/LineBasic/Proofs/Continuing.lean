import Mathlib
import LineBasic.Proofs.Breaks
import LineBasic.Proofs.SavedPositions

/-!
# CONT

A program that was stopped by a break, by STOP or END, or by the interrupt key in an INPUT can be
continued: with the program, the variables and all that was open as they were, at the statement that
comes next.

* `Machine.Stops`: what stops a run inside the program, and where it is to go on.
* `Machine.Begins`, `Machine.begins_ahead`: which statement a run executes first.
* `Session.Step.program_eq`: the program is not changed while it can be continued.
* `Session.cont_resumes`: the main result.
-/

namespace LineBasic

namespace Machine

variable {m m₁ m' : Machine} {n : Nat}

/-! ## Which statement comes first -/

theorem tick_instr {code : Array Instr} {i : Instr} {m₂ : Machine}
    (hcode : m.codeAt? m.position.line = some code) (hhere : code[m.position.index]? = some i)
    (hpending : m.breakPending = false) (htrace : showTrace m = (.ok (), m₁))
    (hrun : Exec.instr i (m₁.atStatement m.position) = (.ok (), m₂)) : tick m = (.ok true, m₂) := by
  unfold tick
  rw [run_get_bind]
  simp only [hcode, hhere]
  rw [run_bind, run_takeBreak, if_neg (by simp [hpending])]
  simp only
  rw [run_bind, htrace]
  simp only
  rw [Exec.run_modify_bind, run_bind, run_inLine]
  unfold atStatement at hrun
  rw [hrun]
  rfl

theorem tick_end {code : Array Instr} (hcode : m.codeAt? m.position.line = some code)
    (hended : code[m.position.index]? = none) : tick m = nextLine m := by
  unfold tick
  rw [run_get_bind]
  simp only [hcode, hended]

/-- A turn that executes nothing: it goes to the next line. -/
def Skips (m m' : Machine) : Prop := m.upcoming? = none ∧ tick m = (.ok true, m')

/-- The first instruction that a run executes is the given one. None means that the run ends without
one. -/
def Begins (m : Machine) : Option (Position × Instr) → Prop
  | some (p, i) =>
    Relation.ReflTransGen Skips m { m with position := p } ∧
      upcoming? { m with position := p } = some i
  | none => ∃ m', Relation.ReflTransGen Skips m m' ∧ (tick m').1 = .ok false

theorem Begins.skip {p : Position} {first : Option (Position × Instr)}
    (hskip : m.Skips { m with position := p }) (h : Begins { m with position := p } first) :
    m.Begins first := by
  cases first with
  | none =>
    obtain ⟨m', hskips, hend⟩ := h
    exact ⟨m', .head hskip hskips, hend⟩
  | some e => exact ⟨.head hskip h.1, h.2⟩

theorem instrsFrom_eq_nil {line : Option Nat} {index : Nat} {code : Array Instr}
    (h : code[index]? = none) :
    instrsFrom line index code = [] := by
  have hsize : code.size ≤ index := by simpa using h
  unfold instrsFrom
  rw [List.drop_eq_nil_of_le (by simpa using hsize), List.map_nil]

theorem head?_instrsFrom {line : Option Nat} {index : Nat} {code : Array Instr} {i : Instr}
    (h : code[index]? = some i) :
    (instrsFrom line index code).head? = some (⟨line, index⟩, i) := by
  unfold instrsFrom
  rw [List.head?_map, List.head?_drop, List.getElem?_zipIdx]
  simp [h]

/-- The lines behind a line are the next one and those behind that. -/
theorem later_eq {P : ProgramLine → Prop} {p : Program} {l : ProgramLine} {ls : List ProgramLine}
    (horderly : p.Orderly P) (h : p.lines.filter (fun x => n < x.number) = l :: ls) :
    p.next? n = some l.number ∧ p.lines.filter (fun x => l.number < x.number) = ls := by
  have hl : l ∈ p.lines.filter fun x => n < x.number := h ▸ List.mem_cons_self
  have hn : n < l.number := by simpa using (List.mem_filter.mp hl).2
  have hsorted : (l :: ls).Pairwise fun a b => a.number < b.number :=
    h ▸ horderly.ascending.filter _
  refine ⟨?_, ?_⟩
  · unfold Program.next?
    rw [← List.head?_filter, h]
    rfl
  · have hsplit : p.lines.filter (fun x => l.number < x.number) = (l :: ls).filter fun x =>
        l.number < x.number := by
      rw [← h, List.filter_filter]
      refine List.filter_congr fun x _ => ?_
      by_cases hx : l.number < x.number
      · simp [hx, hn.trans hx]
      · simp [hx]
    rw [hsplit, List.filter_cons_of_neg (by simp), List.filter_eq_self]
    exact fun x hx => by simpa using (List.pairwise_cons.mp hsorted).1 x hx

theorem ahead_eq {p : Position} {code : Array Instr} (hline : p.line = some n)
    (hcode : m.codeAt? p.line = some code) :
    m.ahead p = instrsFrom (some n) p.index code ++
      (m.program.lines.filter fun l => n < l.number).flatMap fun l =>
        instrsFrom (some l.number) 0 l.code := by
  rw [hline] at hcode
  unfold ahead
  simp only [hline, hcode]
  rfl

theorem ahead_congr {p : Position} (hprogram : m'.program = m.program) (hline : p.line = some n) :
    m'.ahead p = m.ahead p := by
  unfold ahead codeAt?
  simp only [hline, hprogram]

theorem begins_here {code : Array Instr} {i : Instr} (hpending : m.breakPending = false)
    (hline : m.position.line = some n) (hcode : m.codeAt? m.position.line = some code)
    (hhere : code[m.position.index]? = some i) : m.Begins (m.ahead m.position).head? := by
  rw [ahead_eq hline hcode, List.head?_append, head?_instrsFrom hhere, ← hline]
  exact ⟨.refl, upcoming?_eq_some hpending hcode hhere⟩

/-- **A run executes the instruction at its position first**, or the first one in the lines behind
it. -/
theorem begins_ahead {P : ProgramLine → Prop} {code : Array Instr} (horderly : m.program.Orderly P)
    (hpending : m.breakPending = false) (hline : m.position.line = some n)
    (hcode : m.codeAt? m.position.line = some code) : m.Begins (m.ahead m.position).head? := by
  generalize hlater : m.program.lines.filter (fun x => n < x.number) = later
  induction later generalizing m n code with
  | nil =>
    cases hhere : code[m.position.index]? with
    | some i => exact begins_here hpending hline hcode hhere
    | none =>
      have hnext : m.program.next? n = none := by
        unfold Program.next?
        rw [← List.head?_filter, hlater]
        rfl
      rw [ahead_eq hline hcode, hlater, instrsFrom_eq_nil hhere]
      refine ⟨m, .refl, ?_⟩
      rw [tick_end hcode hhere, nextLine, run_get_bind]
      simp only [hline, hnext]
      rfl
  | cons l ls ih =>
    cases hhere : code[m.position.index]? with
    | some i => exact begins_here hpending hline hcode hhere
    | none =>
      obtain ⟨hnext, hls⟩ := later_eq horderly hlater
      have hmem : l ∈ m.program.lines := List.mem_of_mem_filter (hlater ▸ List.mem_cons_self)
      have hcode' : m.codeAt? (some l.number) = some l.code := by
        rw [codeAt?, horderly.line?_of_mem hmem]
        rfl
      have hskip : m.Skips { m with position := ⟨some l.number, 0⟩ } := by
        refine ⟨upcoming?_eq_none hcode hhere, ?_⟩
        rw [tick_end hcode hhere, nextLine, run_get_bind]
        simp only [hline, hnext]
        rfl
      have hahead : m.ahead m.position = m.ahead ⟨some l.number, 0⟩ := by
        rw [ahead_eq hline hcode, ahead_eq (p := ⟨some l.number, 0⟩) rfl hcode', hlater, hls,
          instrsFrom_eq_nil hhere]
        rfl
      rw [hahead]
      exact Begins.skip hskip
        (ih (m := { m with position := ⟨some l.number, 0⟩ }) horderly hpending rfl hcode' hls)

/-! ## What stops a run inside the program -/

/-- Why a turn stops a run, and where the program is to be continued: at the statement before which
a break was asked for or whose INPUT was interrupted, or behind STOP or END. -/
inductive Stops (m : Machine) (h : Halt) : Position → Prop where
  | broken (pending : m.breakPending = true) (isBreak : h.IsBreak) : Stops m h m.position
  | stop {column : Nat} (here : m.upcoming? = some (.command column .stop)) (isBreak : h.IsBreak) :
      Stops m h m.position.after
  | finish {column : Nat} (here : m.upcoming? = some (.command column .finish))
      (finished : h = .finished) :
      Stops m h m.position.after
  | input {column : Nat} {prompt : String} {targets : List Target} {question : Bool}
      (here : m.upcoming? = some (.command column (.input prompt targets question)))
      (isBreak : h.IsBreak) :
      Stops m h m.position

theorem isBreak_of_placeHalt {line : Option Nat} {h : Halt} (hbreak : (placeHalt line h).IsBreak) :
    h.IsBreak := by
  rcases h with _ | e | _
  · exact hbreak
  · have hkind : (e.inLine? line).kind = e.kind := by
      unfold Error.inLine? Error.inLine
      cases line with
      | none => rfl
      | some n => cases e.line <;> rfl
    exact hkind.symm.trans hbreak
  · exact hbreak

/-- A break in a line of the program can be continued at the position where it is. -/
theorem resumeAfter_of_isBreak {h : Halt} (hbreak : h.IsBreak) (hline : m.position.line = some n) :
    m.resumeAfter (.error h) = some m.position := by
  rcases h with _ | e | _
  · cases hbreak
  · replace hbreak : e.kind = .interrupted := hbreak
    simp [resumeAfter, hbreak, hline]
  · cases hbreak

/-- An instruction that leaves the program to be continued, or fails, does not change it. -/
theorem Flow.program_eq {mark : Mark} {r : Except Halt Unit} (h : m.Flow mark (r, m'))
    (hkept : m'.resume.isSome ∨ ∃ f, r = .error (.fault f)) : m'.program = m.program := by
  cases h with
  | goes opens | fails opens => exact opens.program
  | ends | resumes => rfl
  | restarts _ _ _ _ resume place =>
    rcases hkept with hsome | ⟨f, rfl⟩
    · rw [resume] at hsome
      cases hsome
    · rcases place with ⟨-, hprogram | ⟨-, hok⟩⟩ | ⟨_, -, -, hok⟩ | hfinished
      · exact hprogram
      · cases hok
      · cases hok
      · cases hfinished
  | edits _ _ _ _ _ resume =>
    rcases hkept with hsome | ⟨f, hf⟩
    · rw [resume] at hsome
      cases hsome
    · cases hf

end Machine

namespace Exec

theorem run_finish (m : Machine) : finish m =
    (.error .finished,
      { m with resume := if m.position.line.isSome then some m.position else none }) := rfl

/-- An INPUT that breaks goes back to itself, and the program stays as it is. -/
theorem input_break {prompt : String} {targets : List Target} {question : Bool}
    {m m' : Machine} {h : Halt} (hrun : input prompt targets question m = (.error h, m'))
    (hbreak : h.IsBreak) :
    m'.position = m.current ∧ m'.program = m.program := by
  have hposition := breaksAt_input prompt targets question m
  have hflow := flow_input (m := m) prompt targets question
  rw [hrun] at hposition hflow
  refine ⟨hposition h rfl hbreak, hflow.program_eq (.inr ?_)⟩
  rcases h with _ | f
  · cases hbreak
  · exact ⟨f, rfl⟩

end Exec

namespace Machine

variable {m m' : Machine} {n : Nat}

/-- **A run that is stopped inside the program can be continued at the right place.** -/
theorem Stops.resumeAfter_eq {h : Halt} {p : Position} (hstops : m.Stops h p)
    (hrun : tick m = (.error h, m')) (hline : m.position.line = some n) :
    m'.resumeAfter (.error h) = some p ∧ m'.program = m.program := by
  have hturn := turn_tick m
  rw [hrun] at hturn
  cases hturn with
  | missing => cases hstops <;> contradiction
  | broken code_eq here pending =>
    have hnone := upcoming?_of_breakPending pending
    cases hstops with
    | broken _ isBreak => exact ⟨resumeAfter_of_isBreak isBreak hline, rfl⟩
    | stop here' | finish here' | input here' => cases hnone.symm.trans here'
  | cut _ _ _ trace =>
    obtain ⟨c, rfl⟩ := crash_of_showTrace trace
    cases hstops <;> contradiction
  | @halted code i e m₁ m'' code_eq here pending trace run =>
    have hupcoming := upcoming?_eq_some pending code_eq here
    obtain ⟨t, b, c, hwrites⟩ := writes_of_showTrace trace
    cases hstops with
    | broken pending' => cases pending.symm.trans pending'
    | stop here' isBreak =>
      obtain rfl := Option.some.inj (hupcoming.symm.trans here')
      obtain ⟨-, rfl⟩ := Prod.mk.inj (run : (Except.error _, m₁.atStatement m.position) = _)
      exact ⟨resumeAfter_of_isBreak isBreak hline, by rw [hwrites]; rfl⟩
    | finish here' finished =>
      obtain rfl := Option.some.inj (hupcoming.symm.trans here')
      obtain ⟨hhalt, rfl⟩ :=
        Prod.mk.inj ((Exec.run_finish (m₁.atStatement m.position)).symm.trans run)
      obtain rfl := Except.error.inj hhalt
      refine ⟨?_, by rw [hwrites]; rfl⟩
      simp [resumeAfter, placeHalt, atStatement, Position.after, hline]
    | @input column prompt targets question here' isBreak =>
      obtain rfl := Option.some.inj (hupcoming.symm.trans here')
      obtain ⟨hposition, hprogram⟩ :=
        Exec.input_break (m := m₁.atStatement m.position) run (isBreak_of_placeHalt isBreak)
      replace hposition : m'.position = m.position := hposition
      have hresume := resumeAfter_of_isBreak (m := m') isBreak (by rw [hposition, hline])
      rw [hposition] at hresume
      refine ⟨hresume, hprogram.trans ?_⟩
      rw [hwrites]
      rfl

theorem Stops.line {h : Halt} {p : Position} (hstops : m.Stops h p) : p.line = m.position.line := by
  cases hstops <;> rfl

/-! ## At the prompt -/

/-- Program, variables, functions, all that is open and the trace are the same; time may have gone
by. -/
structure Agrees (m m' : Machine) : Prop where
  program : m'.program = m.program
  memory : ∃ clock, m'.memory = { m.memory with clock }
  functions : m'.functions = m.functions
  stack : m'.stack = m.stack
  trace : m'.trace = m.trace

theorem Agrees.trans {m'' : Machine} (h : m.Agrees m') (h' : m'.Agrees m'') : m.Agrees m'' := by
  refine ⟨h'.program.trans h.program, ?_, h'.functions.trans h.functions, h'.stack.trans h.stack,
    h'.trace.trans h.trace⟩
  obtain ⟨clock, hmemory⟩ := h.memory
  obtain ⟨clock', hmemory'⟩ := h'.memory
  exact ⟨clock', by rw [hmemory', hmemory]⟩

theorem agrees_settle (r : Except Halt Unit) (m : Machine) :
    m.Agrees (settle r m).2 ∧ (settle r m).2.resume = m.resumeAfter r := by
  obtain ⟨t, b, c, e, h⟩ := reports_settle r m
  rw [h]
  exact ⟨⟨rfl, ⟨_, rfl⟩, rfl, rfl, rfl⟩, rfl⟩

/-- The machine waits at the prompt: the world changes, or it is shown that the machine is ready. -/
inductive Waits : Machine → Machine → Prop where
  | world {m m' : Machine} (elsewhere : m.Elsewhere m') : Waits m m'
  | ready (m : Machine) : Waits m (ready m).2

/-- Waiting changes nothing that matters to the program. -/
theorem agrees_of_waits (h : Relation.ReflTransGen Waits m m') :
    m.Agrees m' ∧ m'.resume = m.resume := by
  induction h with
  | refl => exact ⟨⟨rfl, ⟨_, rfl⟩, rfl, rfl, rfl⟩, rfl⟩
  | tail _ hwaits ih =>
    obtain ⟨hagrees, hresume⟩ := ih
    cases hwaits with
    | world elsewhere =>
      obtain ⟨_, _, _, _, _, _, _, _, _, rfl⟩ := elsewhere
      exact ⟨hagrees.trans ⟨rfl, ⟨_, rfl⟩, rfl, rfl, rfl⟩, hresume⟩
    | ready => exact ⟨hagrees.trans ⟨rfl, ⟨_, rfl⟩, rfl, rfl, rfl⟩, hresume⟩

/-- The typed line begins with CONT. -/
def IsCont (room : Nat) (text : String) : Prop := text.length ≤ maxLineLength ∧
  ∃ l column rest, Parser.parseLine room text = .ok l ∧ l.number = none ∧
  l.statements = .command column .cont :: rest

/-- A line was read that has no number and is a CONT. -/
def readsCont : Except Fault SourceLine → Bool
  | .ok ⟨none, [.command _ .cont], _⟩ => true
  | _ => false

/-- CONT alone needs little room. -/
theorem isCont_cont (m : Machine) : IsCont (m.room - 1) "CONT" := by
  have hread : readsCont (Parser.parseLine 63 "CONT") = true := by decide +kernel
  have hroom : 63 ≤ m.room - 1 := by
    unfold room leastRoom
    omega
  unfold readsCont at hread
  split at hread
  · rename_i column source heq
    exact ⟨by decide, _, column, [], Parser.parseLine_mono heq hroom, rfl, rfl⟩
  · cases hread

/-- The machine after CONT was typed. -/
def continued (m : Machine) (code : Array Instr) (p : Position) : Machine :=
  { m with
    direct := code
    position := p
    current := ⟨none, 0⟩
    resume := none
    running := true
    breakPending := false
    traced := none }

/-- **CONT goes to the place that was kept and changes nothing else.** -/
theorem exists_tick_cont {text : String} {p : Position} (htext : IsCont (m.room - 1) text)
    (hresume : m.resume = some p) :
    ∃ column code, code[0]? = some (.command column .cont) ∧
      accept text m = (.ok .command, { m with direct := code, position := ⟨none, 0⟩ }) ∧
      tick (begin { m with direct := code, position := ⟨none, 0⟩ }) =
      (.ok true, m.continued code p) := by
  obtain ⟨hlength, l, column, rest, hread, hnumber, hstatements⟩ := htext
  have hfirst : (compile l.statements)[0]? = some (.command column .cont) := by
    rw [hstatements]
    rfl
  refine ⟨column, compile l.statements, hfirst, ?_, ?_⟩
  · unfold accept
    rw [if_neg (Nat.not_lt.mpr hlength), run_get_bind, hread]
    simp only [hnumber]
    rw [if_neg (by simp [hstatements])]
    rfl
  · have htrace : ∀ m : Machine, m.position.line = none → showTrace m = (.ok (), m) := by
      intro m hline
      unfold showTrace
      rw [run_get_bind]
      simp only [hline]
      rfl
    refine tick_instr rfl hfirst rfl (htrace _ rfl) ?_
    change Exec.cont _ = _
    unfold Exec.cont
    rw [run_get_bind]
    simp only [atStatement, begin, hresume]
    rfl

end Machine

namespace Session

open Machine

/-! ## The program while it can be continued -/

theorem program_turned {edited : Bool} {m : Machine} (hbuilt : m.program.Built)
    (hresume : (turned m edited (tick m)).machine.resume.isSome) :
    (turned m edited (tick m)).machine.program = m.program := by
  have hturn := turn_tick m
  generalize tick m = r at hturn hresume
  cases hturn with
  | missing | typedEnd | programEnd | broken => exact (agrees_settle _ _).1.program
  | lineEnd => rfl
  | cut _ _ _ trace =>
    obtain ⟨_, _, _, rfl⟩ := writes_of_showTrace trace
    exact (agrees_settle _ _).1.program
  | executed code_eq here _ trace run =>
    have hwrites := writes_of_showTrace trace
    have hflow := flow_atStatement code_eq here hwrites hbuilt
    rw [run] at hflow
    obtain ⟨_, _, _, rfl⟩ := hwrites
    exact hflow.program_eq (.inl hresume)
  | @halted code i e m' m'' code_eq here _ trace run =>
    have hwrites := writes_of_showTrace trace
    have hflow := flow_atStatement code_eq here hwrites hbuilt
    rw [run] at hflow
    obtain ⟨_, _, _, rfl⟩ := hwrites
    obtain ⟨hagrees, hafter⟩ := agrees_settle (.error (placeHalt m.position.line e)) m''
    refine hagrees.program.trans (hflow.program_eq ?_)
    rcases e with _ | f
    · exact .inl (hafter ▸ hresume)
    · exact .inr ⟨f, rfl⟩

/-- **A step after which the program can be continued does not change it.** -/
theorem Step.program_eq {s t : Session} (hstep : Step s t) (hbuilt : s.machine.program.Built)
    (hresume : t.machine.resume.isSome) : t.machine.program = s.machine.program := by
  cases hstep with
  | world elsewhere =>
    obtain ⟨_, _, _, _, _, _, _, _, _, rfl⟩ := elsewhere
    rfl
  | enter text edited m =>
    have haccepts := accepts_accept text m
    generalize accept text m = r at haccepts hresume
    cases haccepts with
    | stored => cases hresume
    | nothing | code => rfl
    | @refused r m' refused reports =>
      obtain ⟨_, _, _, _, rfl⟩ := reports
      rcases r with c | _ | _ | _ <;> rfl
  | load text edited m =>
    have htakes := takes_load text m
    generalize Machine.load text m = r at htakes hresume
    cases htakes with
    | takes => cases hresume
    | @refused r m' refused reports =>
      obtain ⟨_, _, _, _, rfl⟩ := reports
      rcases r with c | _ | _ <;> rfl
  | start line edited m =>
    have hprepares := prepares_prepare line m
    generalize prepare line m = r at hprepares
    cases hprepares with
    | goes => rfl
    | @stays r m' stays reports =>
      obtain ⟨_, _, _, _, rfl⟩ := reports
      rcases r with c | _ | _ <;> rfl
  | ready => rfl
  | turn edited m => exact program_turned hbuilt hresume
  | abandon c edited m => exact (agrees_settle _ m).1.program

theorem program_eq_of_steps {settings : Settings} {s t : Session} (h : Reached settings s)
    (hsteps : Relation.ReflTransGen (fun a b => Step a b ∧ b.machine.resume.isSome) s t) :
    t.machine.program = s.machine.program := by
  induction hsteps with
  | refl => rfl
  | tail hsteps hstep ih =>
    have hreached : Reached settings _ :=
      h.trans (Relation.ReflTransGen.mono (fun _ _ hab => hab.1) _ _ hsteps)
    exact (hstep.1.program_eq hreached.safe.keeps.built hstep.2).trans ih

/-! ## The main result -/

/-- CONT, and the turn that executes it. -/
theorem exists_next_cont {m : Machine} {text : String} {p : Position}
    (htext : IsCont (m.room - 1) text) (hresume : m.resume = some p)
    (edited : Bool) :
    ∃ code, (entered text edited (accept text m)).next =
      ⟨.running, edited, m.continued code p⟩ := by
  obtain ⟨column, code, hfirst, haccept, htick⟩ := exists_tick_cont htext hresume
  refine ⟨code, ?_⟩
  have hmark : mark (begin { m with direct := code, position := ⟨none, 0⟩ }) (.ok true) = .plain :=
    mark_eq (m := begin { m with direct := code, position := ⟨none, 0⟩ }) rfl hfirst rfl _
  rw [haccept]
  unfold entered Session.next
  simp only
  rw [htick]
  unfold turned
  simp only [hmark]
  rfl

/-- **CONT resumes where the run stopped.** In every session the place for CONT is in a stored line,
and the program does not change as long as there is one. When a turn stops a run inside the program,
by a break, by STOP or END or in an interrupted INPUT, and CONT is typed next, execution goes on at
the place that the stop demands, with everything as it was at the stop, and the first instruction
executed is the first one from that place on. -/
theorem cont_resumes {settings : Settings} {s : Session} (h : Reached settings s) :
    (∀ p, s.machine.resume = some p → p.line.isSome ∧ s.machine.program.Has p) ∧
    (∀ t, Relation.ReflTransGen (fun a b => Step a b ∧ b.machine.resume.isSome) s t →
      t.machine.program = s.machine.program) ∧
    ∀ stop m' p, s.phase = .running → tick s.machine = (.error stop, m') →
      s.machine.position.line.isSome →
      s.machine.Stops stop p → ∀ m₁ text, Relation.ReflTransGen Waits s.next.machine m₁ →
      IsCont (m₁.room - 1) text →
      ∃ m₂, (entered text s.next.edited (accept text m₁)).next = ⟨.running, s.next.edited, m₂⟩ ∧
        m₂.position = p ∧
        m'.Agrees m₂ ∧ m₂.Begins (s.machine.ahead p).head? := by
  refine ⟨h.safe.keeps.resume, fun t ht => program_eq_of_steps h ht, ?_⟩
  intro stop m' p hrunning hrun hline hstops m₁ text hwaits htext
  obtain ⟨n, hn⟩ := Option.isSome_iff_exists.mp hline
  obtain ⟨hafter, hprogram⟩ := hstops.resumeAfter_eq hrun hn
  obtain ⟨hsettle, hstopped⟩ := agrees_settle (.error stop) m'
  have hnext : s.next.machine = (settle (.error stop) m').2 := by
    unfold Session.next
    rw [hrun]
    rfl
  have hresume : s.next.machine.resume = some p := by rw [hnext, hstopped, hafter]
  obtain ⟨hwait, hkept⟩ := agrees_of_waits hwaits
  obtain ⟨code, hcont⟩ := exists_next_cont htext (hkept.trans hresume) s.next.edited
  rw [hnext] at hwait
  have hagrees : m'.Agrees (m₁.continued code p) :=
    (hsettle.trans hwait).trans ⟨rfl, ⟨_, rfl⟩, rfl, rfl, rfl⟩
  refine ⟨m₁.continued code p, hcont, rfl, hagrees, ?_⟩
  have hsame : (m₁.continued code p).program = s.machine.program := hagrees.program.trans hprogram
  have hhas : s.machine.program.Has p := by
    have hhas := ((h.next hrunning).safe.keeps.resume p hresume).2
    rwa [hnext, hsettle.program, hprogram] at hhas
  rw [← ahead_congr hsame (hstops.line.trans hn)]
  obtain ⟨code', hcode⟩ := exists_codeAt? (m := m₁.continued code p) (hsame ▸ hhas)
  exact begins_ahead (m := m₁.continued code p) (hsame ▸ h.safe.keeps.built.orderly) rfl
    (hstops.line.trans hn) hcode

/-- The instruction is a STOP. -/
def isStop : Option Instr → Bool
  | some (.command _ .stop) => true
  | _ => false

/-- A new machine that was given a program with a STOP in a branch. -/
def withStop : Session :=
  loaded false (load "10 IF A=0 THEN STOP:PRINT 2 ELSE PRINT 3" (.new default))

/-- The STOP comes next. -/
def atStop : Session := (started (prepare none withStop.machine)).next

theorem cont_resumes_atStop : ∃ m₂,
    (entered "CONT" atStop.next.edited (accept "CONT" atStop.next.machine)).next =
      ⟨.running, atStop.next.edited, m₂⟩ ∧
    m₂.position = ⟨some 10, 2⟩ ∧ (tick atStop.machine).2.Agrees m₂ := by
  have hphases : withStop.phase = .prompt ∧
    (started (prepare none withStop.machine)).phase = .running ∧
      atStop.phase = .running ∧ atStop.machine.position = ⟨some 10, 1⟩ ∧
      (tick atStop.machine).1 = .error (.fault (.error { kind := .interrupted, line := some 10 })) ∧
      isStop atStop.machine.upcoming? = true := by
    decide +kernel
  obtain ⟨hprompt, hrunning, hrunning', hposition, hstopped, hstop⟩ := hphases
  have hloaded : Reached default withStop := Reached.loaded (s := init default) .refl rfl _
  have hreached : Reached default atStop := (hloaded.started hprompt none).next hrunning
  have hhere : ∃ column, atStop.machine.upcoming? = some (.command column .stop) := by
    unfold isStop at hstop
    split at hstop
    · rename_i column heq
      exact ⟨column, heq⟩
    · cases hstop
  obtain ⟨column, hhere⟩ := hhere
  have hresumes := (cont_resumes hreached).2.2 _ (tick atStop.machine).2 _ hrunning'
    (Prod.ext hstopped rfl)
    (by rw [hposition]; rfl) (.stop hhere rfl) _ "CONT" .refl (isCont_cont _)
  obtain ⟨m₂, hnext, hplace, hagrees, -⟩ := hresumes
  exact ⟨m₂, hnext, by rw [hplace, hposition]; rfl, hagrees⟩

end Session

end LineBasic
