import Mathlib
import LineBasic.Proofs.Sessions

/-!
# Positions that are kept

Subroutines, loops and CONT keep positions of the program. As long as the program is not edited,
each of them stays in a stored line, and so does the position at which every turn begins.

* `Program.Has`: a position in the typed line, or in the code of a stored line or at its end.
* `Machine.codeAt?_of_mem_ahead`: looking ahead finds the instructions of stored lines.
* `Session.Safe`, `Session.Step.safe`: the invariant, and every step keeps it.
* `Session.positions_valid`: the main result.
-/

namespace LineBasic

namespace Program

variable {p : Program} {q : Position}

/-- A position that names a line is in the code of a stored line, or at its end. -/
def Has (p : Program) (q : Position) : Prop :=
  ∀ n, q.line = some n → ∃ l, p.line? n = some l ∧ q.index ≤ l.code.size

theorem has_of_line_none (h : q.line = none) : p.Has q := fun _ hn => nomatch h.symm.trans hn

theorem has_start {n : Nat} (h : p.contains n = true) : p.Has ⟨some n, 0⟩ := by
  intro k hk
  obtain rfl := Option.some.inj hk
  obtain ⟨l, hl⟩ := Option.isSome_iff_exists.mp h
  exact ⟨l, hl, Nat.zero_le _⟩

/-- No jump leaves a line. -/
theorem Built.forward (h : p.Built) {n : Nat} {l : ProgramLine} (hl : p.line? n = some l) :
    Forward l.code := by
  obtain ⟨room, hparsed⟩ := h.orderly.lines l (List.mem_of_find?_eq_some hl)
  rw [hparsed.code]
  exact forward_compile (Parser.branchesLast_of_parseLine hparsed.reads)

end Program

namespace Machine

variable {m : Machine} {p q : Position}

theorem has_of_codeAt? {code : Array Instr} (hcode : m.codeAt? q.line = some code)
    (hindex : q.index ≤ code.size) :
    m.program.Has q := by
  intro n hn
  rw [hn] at hcode
  obtain ⟨l, hl, rfl⟩ := Option.map_eq_some_iff.mp hcode
  exact ⟨l, hl, hindex⟩

theorem exists_codeAt? (h : m.program.Has q) : ∃ code, m.codeAt? q.line = some code := by
  cases hline : q.line with
  | none => exact ⟨m.direct, rfl⟩
  | some n =>
    obtain ⟨l, hl, -⟩ := h n hline
    exact ⟨l.code, by rw [codeAt?, hl]; rfl⟩

/-! ## Looking ahead -/

theorem of_mem_instrsFrom {line : Option Nat} {index : Nat} {code : Array Instr} {i : Instr}
    (h : (q, i) ∈ instrsFrom line index code) : q.line = line ∧ code[q.index]? = some i := by
  obtain ⟨⟨j, k⟩, hmem, heq⟩ := List.mem_map.mp h
  obtain ⟨rfl, rfl⟩ := Prod.mk.inj heq
  have hget := List.mk_mem_zipIdx_iff_getElem?.mp (List.mem_of_mem_drop hmem)
  exact ⟨rfl, by simpa using hget⟩

/-- **Looking ahead finds the instructions of stored lines.** -/
theorem codeAt?_of_mem_ahead {P : ProgramLine → Prop} (horderly : m.program.Orderly P) {i : Instr}
    (h : (q, i) ∈ m.ahead p) : ∃ code, m.codeAt? q.line = some code ∧ code[q.index]? = some i := by
  have hfirst : (q, i) ∈ instrsFrom p.line p.index ((m.codeAt? p.line).getD #[]) →
      ∃ code, m.codeAt? q.line = some code ∧ code[q.index]? = some i := by
    intro hmem
    obtain ⟨hline, hget⟩ := of_mem_instrsFrom hmem
    cases hcode : m.codeAt? p.line with
    | none => simp [hcode] at hget
    | some code => exact ⟨code, hline ▸ hcode, by simpa [hcode] using hget⟩
  unfold ahead at h
  cases hline : p.line with
  | none =>
    simp only [hline] at h hfirst
    exact hfirst h
  | some n =>
    simp only [hline] at h hfirst
    rcases List.mem_append.mp h with h | h
    · exact hfirst h
    · obtain ⟨l, hl, hmem⟩ := List.mem_flatMap.mp h
      obtain ⟨hnumber, hget⟩ := of_mem_instrsFrom hmem
      refine ⟨l.code, ?_, hget⟩
      rw [hnumber, codeAt?, horderly.line?_of_mem (List.mem_of_mem_filter hl)]
      rfl

/-! ## One instruction -/

/-- The program is built of lines that were read, and the positions that are kept are in stored
lines: the one for CONT always, and those to go back to if the program was not edited since. -/
structure Keeps (edited : Bool) (m : Machine) : Prop where
  built : m.program.Built
  stack : edited = false → ∀ p ∈ m.stack.positions, m.program.Has p
  resume : ∀ p, m.resume = some p → p.line.isSome ∧ m.program.Has p

/-- A statement has begun in a stored line. -/
structure Begun (m : Machine) : Prop where
  position : m.program.Has m.position
  current : m.program.Has m.current
  line : m.position.line = m.current.line

variable {edited : Bool} {mark : Mark} {r : Except Halt Unit} {m' : Machine}

/-- Every position at which an instruction lets execution go on is in a stored line. -/
theorem Next.has (h : m.Next q) (hbuilt : m.program.Built) (hbegun : m.Begun)
    (hstack : ∀ p ∈ m.stack.positions, m.program.Has p) : m.program.Has q := by
  cases h with
  | after => exact hbegun.position
  | again => exact hbegun.current
  | back mem => exact hstack q mem
  | line stored => exact Program.has_start stored
  | ahead mem =>
    obtain ⟨code, hcode, hget⟩ := codeAt?_of_mem_ahead hbuilt.orderly mem
    obtain ⟨hlt, -⟩ := Array.getElem?_eq_some_iff.mp hget
    exact has_of_codeAt? hcode hlt
  | jump inside =>
    intro n hn
    obtain ⟨l, hl, -⟩ := hbegun.position n hn
    exact ⟨l, hl, inside n l.code hn (by rw [codeAt?, hl]; rfl)⟩

theorem Opens.keeps (h : m.Opens m') (hkeeps : m.Keeps edited) (hbegun : m.Begun) :
    m'.Keeps edited where
  built := h.program ▸ hkeeps.built
  stack hedited p hp := by
    rw [h.program]
    rcases h.stack p hp with hp | rfl | rfl
    · exact hkeeps.stack hedited p hp
    · exact hbegun.position
    · exact hbegun.current
  resume := by
    rw [h.program, h.resume]
    exact hkeeps.resume

/-- Whatever an instruction does, the positions that are kept stay in stored lines. -/
theorem Flow.keeps (h : m.Flow mark (r, m')) (hkeeps : m.Keeps edited) (hbegun : m.Begun) :
    m'.Keeps (mark.edited edited) := by
  cases h with
  | goes opens _ =>
    obtain ⟨hbuilt, hstack, hresume⟩ := opens.keeps hkeeps hbegun
    exact ⟨hbuilt, hstack, hresume⟩
  | fails opens _ =>
    obtain ⟨hbuilt, hstack, hresume⟩ := opens.keeps hkeeps hbegun
    exact ⟨hbuilt, hstack, hresume⟩
  | ends =>
    refine ⟨hkeeps.built, hkeeps.stack, fun p hp => ?_⟩
    simp only [Option.ite_none_right_eq_some, Option.some.injEq] at hp
    obtain ⟨hline, rfl⟩ := hp
    exact ⟨hline, hbegun.position⟩
  | resumes => exact ⟨hkeeps.built, hkeeps.stack, nofun⟩
  | restarts _ _ built stack resume =>
    refine ⟨built hkeeps.built, fun _ p hp => ?_, fun p hp => ?_⟩
    · rw [stack] at hp
      cases hp
    · rw [resume] at hp
      cases hp
  | edits _ _ built _ _ resume =>
    refine ⟨built hkeeps.built, nofun, fun p hp => ?_⟩
    rw [resume] at hp
    cases hp

/-- After a fresh start, execution goes on in a stored line. -/
theorem Begun.has_of_place (hbegun : m.Begun)
    (place : m'.position = m.position ∧
      (m'.program = m.program ∨ m.current.line = none ∧ r = .ok ()) ∨
      (∃ n, m'.program.contains n = true ∧ m'.position = ⟨some n, 0⟩ ∧ r = .ok ()) ∨
        r = .error .finished)
    (hr : r ≠ .error .finished) : m'.program.Has m'.position := by
  rcases place with ⟨hposition, hprogram | ⟨htyped, -⟩⟩ | ⟨n, stored, hposition, -⟩ | hfinished
  · rw [hposition, hprogram]
    exact hbegun.position
  · rw [hposition]
    exact Program.has_of_line_none (hbegun.line.trans htyped)
  · rw [hposition]
    exact Program.has_start stored
  · exact absurd hfinished hr

/-- An instruction lets execution go on in a stored line. -/
theorem Flow.has_of_ok (h : m.Flow mark (.ok (), m')) (hkeeps : m.Keeps edited) (hbegun : m.Begun)
    (hedited : mark.edited edited = false) : m'.program.Has m'.position := by
  cases h with
  | goes opens next =>
    have hhas := next.has hkeeps.built hbegun (hkeeps.stack hedited)
    rw [← opens.program] at hhas
    exact hhas
  | resumes resume => exact (hkeeps.resume _ resume).2
  | restarts _ _ _ _ _ place => exact hbegun.has_of_place place nofun
  | edits => cases hedited

/-- An instruction that fails does so in a stored line, even if the program was edited. -/
theorem Flow.has_of_fault {f : Fault} (h : m.Flow mark (.error (.fault f), m')) (hbegun : m.Begun) :
    m'.program.Has m'.position := by
  cases h with
  | fails opens place =>
    have hhas : m.program.Has m.position ∧ m.program.Has m.current :=
      ⟨hbegun.position, hbegun.current⟩
    rw [← opens.program] at hhas
    rcases place with rfl | rfl
    · exact hhas.1
    · exact hhas.2
  | restarts _ _ _ _ _ place => exact hbegun.has_of_place place nofun

/-! ## When a run stops -/

theorem Reports.keeps (h : m.Reports m') (hkeeps : m.Keeps edited) : m'.Keeps edited := by
  obtain ⟨t, b, c, e, rfl⟩ := h
  exact ⟨hkeeps.built, hkeeps.stack, hkeeps.resume⟩

/-- A run that stops on an error in a stored line can be continued there. -/
theorem Keeps.settle (hkeeps : m.Keeps edited)
    (hfault : ∀ e, r = .error (.fault (.error e)) → m.program.Has m.position) :
    (Machine.settle r m).2.Keeps edited := by
  refine (reports_settle r m).keeps ⟨hkeeps.built, hkeeps.stack, fun p hp => ?_⟩
  rcases r with (_ | f) | u
  · exact hkeeps.resume p hp
  · cases f with
    | crash c => cases hp
    | error e =>
      simp only [resumeAfter, Option.ite_none_right_eq_some, Option.some.injEq,
        Bool.and_eq_true] at hp
      obtain ⟨⟨-, hline⟩, rfl⟩ := hp
      exact ⟨hline, hfault _ rfl⟩
  · exact hkeeps.resume p hp

/-! ## One turn -/

theorem mark_eq_plain {r : Except Halt Bool} (h : m.upcoming? = none) : m.mark r = .plain := by
  rw [Machine.mark, h]
  rfl

theorem mark_crash (m : Machine) (c : Crash) : m.mark (.error (.fault (.crash c))) = .plain := by
  unfold Machine.mark
  cases m.upcoming? with
  | none => rfl
  | some i => cases i <;> rfl

theorem mark_eq {code : Array Instr} {i : Instr} (hcode : m.codeAt? m.position.line = some code)
    (hhere : code[m.position.index]? = some i) (hpending : m.breakPending = false)
    (r : Except Halt Bool) :
    m.mark r = i.mark r := by
  rw [Machine.mark, upcoming?_eq_some hpending hcode hhere]
  rfl

theorem mark_ok (i : Instr) :
    i.mark (.ok true : Except Halt Bool) = i.mark (.ok () : Except Halt Unit) := by
  cases i <;> rfl

theorem mark_placeHalt (i : Instr) (line : Option Nat) (h : Halt) :
    i.mark (.error (placeHalt line h) : Except Halt Bool) =
      i.mark (.error h : Except Halt Unit) := by
  rcases h with _ | _ | _ <;> cases i <;> rfl

/-- Only a crash stops the trace. -/
theorem crash_of_showTrace {h : Halt} (hrun : showTrace m = (.error h, m')) :
    ∃ c, h = .fault (.crash c) := by
  have hwrite : ∀ s, Exec.write s m = (.error h, m') → ∃ c, h = .fault (.crash c) := by
    intro s hrun
    unfold Exec.write at hrun
    rw [run_bind] at hrun
    unfold Exec.ofAct at hrun
    cases hraw : writeRaw s m with
    | mk r m₁ =>
      rw [hraw] at hrun
      cases r with
      | error c => exact ⟨c, (Except.error.inj (Prod.mk.inj hrun).1).symm⟩
      | ok u => cases hrun
  unfold showTrace at hrun
  rw [run_get_bind] at hrun
  cases hline : m.position.line with
  | none =>
    rw [hline] at hrun
    cases hrun
  | some n =>
    simp only [hline] at hrun
    split at hrun
    · exact hwrite _ hrun
    · cases hrun

theorem contains_of_next? {p : Program} {n k : Nat} (h : p.next? n = some k) :
    p.contains k = true := by
  obtain ⟨l, hl, rfl⟩ := Option.map_eq_some_iff.mp h
  exact List.find?_isSome.mpr ⟨l, List.mem_of_find?_eq_some hl, by simp⟩

end Machine

namespace Session

open Machine

/-- The positions that are kept are in stored lines, and so is the one at which the next turn
begins, if the program was not edited since everything was closed. -/
structure Safe (s : Session) : Prop where
  keeps : s.machine.Keeps s.edited
  position : s.phase = .running → s.edited = false → s.machine.program.Has s.machine.position

variable {edited : Bool} {m : Machine}

/-- The statement at the position begins in a stored line, with what is kept. -/
theorem begun_atStatement {m' : Machine} {code : Array Instr} {i : Instr}
    (hcode : m.codeAt? m.position.line = some code) (hhere : code[m.position.index]? = some i)
    (hwrites : m.Writes m') (hkeeps : m.Keeps edited) :
    (m'.atStatement m.position).Begun ∧ (m'.atStatement m.position).Keeps edited := by
  obtain ⟨t, b, c, rfl⟩ := hwrites
  obtain ⟨hlt, -⟩ := Array.getElem?_eq_some_iff.mp hhere
  refine ⟨⟨?_, ?_, rfl⟩, ⟨hkeeps.built, hkeeps.stack, hkeeps.resume⟩⟩
  · exact has_of_codeAt? (q := m.position.after) hcode hlt
  · exact has_of_codeAt? (q := m.position) hcode hlt.le

/-- What the instruction at the position does. -/
theorem flow_atStatement {m' : Machine} {code : Array Instr} {i : Instr}
    (hcode : m.codeAt? m.position.line = some code) (hhere : code[m.position.index]? = some i)
    (hwrites : m.Writes m') (hbuilt : m.program.Built) :
    (m'.atStatement m.position).Flow (i.mark (Exec.instr i (m'.atStatement m.position)).1)
      (Exec.instr i (m'.atStatement m.position)) := by
  obtain ⟨t, b, c, rfl⟩ := hwrites
  refine Exec.flow_instr i _ fun n code' k hline hcode' htarget => ?_
  replace hline : m.position.line = some n := hline
  rw [hline] at hcode
  obtain rfl : code = code' := Option.some.inj (hcode.symm.trans hcode')
  obtain ⟨l, hl, rfl⟩ := Option.map_eq_some_iff.mp hcode
  exact (hbuilt.forward hl _ i k hhere htarget).2

theorem Safe.turn (h : Safe ⟨.running, edited, m⟩) : Safe (turned m edited (tick m)) := by
  have hkeeps : m.Keeps edited := h.keeps
  have hturn := turn_tick m
  generalize tick m = r at hturn
  cases hturn with
  | missing line =>
    refine ⟨?_, nofun⟩
    change Keeps ((m.mark _).edited edited) _
    rw [mark_crash]
    exact hkeeps.settle nofun
  | typedEnd => exact ⟨hkeeps.settle nofun, nofun⟩
  | programEnd =>
    have hkeeps' : Keeps edited { m with resume := none } := ⟨hkeeps.built, hkeeps.stack, nofun⟩
    exact ⟨hkeeps'.settle nofun, nofun⟩
  | @lineEnd code n k code_eq ended line next =>
    have hmark : m.mark (.ok true) = .plain := mark_eq_plain (upcoming?_eq_none code_eq ended)
    refine ⟨?_, fun _ _ => Program.has_start (contains_of_next? next)⟩
    change Keeps ((m.mark _).edited edited) _
    rw [hmark]
    exact ⟨hkeeps.built, hkeeps.stack, hkeeps.resume⟩
  | @broken code i code_eq here pending =>
    have hkeeps' : Keeps edited { m with breakPending := false } :=
      ⟨hkeeps.built, hkeeps.stack, hkeeps.resume⟩
    obtain ⟨hlt, -⟩ := Array.getElem?_eq_some_iff.mp here
    refine ⟨?_, nofun⟩
    change Keeps ((m.mark _).edited edited) _
    rw [mark_eq_plain (upcoming?_of_breakPending pending)]
    exact hkeeps'.settle fun _ _ => has_of_codeAt? code_eq hlt.le
  | @cut code i e m' code_eq here pending trace =>
    obtain ⟨c, rfl⟩ := crash_of_showTrace trace
    have hkeeps' : m'.Keeps edited := by
      obtain ⟨t, b, c, rfl⟩ := writes_of_showTrace trace
      exact ⟨hkeeps.built, hkeeps.stack, hkeeps.resume⟩
    refine ⟨?_, nofun⟩
    change Keeps ((m.mark _).edited edited) _
    rw [mark_crash]
    exact hkeeps'.settle nofun
  | @executed code i m' m'' code_eq here pending trace run =>
    have hwrites := writes_of_showTrace trace
    obtain ⟨hbegun, hkeeps'⟩ := begun_atStatement code_eq here hwrites hkeeps
    have hflow := flow_atStatement code_eq here hwrites hkeeps.built
    rw [run, ← mark_ok, ← mark_eq code_eq here pending] at hflow
    exact ⟨hflow.keeps hkeeps' hbegun, fun _ hedited => hflow.has_of_ok hkeeps' hbegun hedited⟩
  | @halted code i e m' m'' code_eq here pending trace run =>
    have hwrites := writes_of_showTrace trace
    obtain ⟨hbegun, hkeeps'⟩ := begun_atStatement code_eq here hwrites hkeeps
    have hflow := flow_atStatement code_eq here hwrites hkeeps.built
    rw [run, ← mark_placeHalt i m.position.line, ← mark_eq code_eq here pending] at hflow
    refine ⟨(hflow.keeps hkeeps' hbegun).settle fun error herror => ?_, nofun⟩
    rcases e with _ | f
    · cases herror
    · exact hflow.has_of_fault hbegun

/-! ## Every step -/

theorem Safe.enter (h : Safe ⟨.prompt, edited, m⟩) (text : String) :
    Safe (entered text edited (accept text m)) := by
  obtain ⟨hbuilt, hstack, hresume⟩ := h.keeps
  have haccepts := accepts_accept text m
  generalize accept text m = r at haccepts
  cases haccepts with
  | @stored l n read number =>
    have hedited : (edited || isNumbered (m.room - 1) text) = true := by
      simp [isNumbered, read, number]
    refine ⟨⟨hbuilt.store read number, fun hfalse => ?_, nofun⟩, nofun⟩
    exact Bool.noConfusion (hedited.symm.trans hfalse)
  | @nothing l read number =>
    have hedited : (edited || isNumbered (m.room - 1) text) = edited := by
      simp [isNumbered, read, number]
    refine ⟨?_, nofun⟩
    change Keeps (edited || isNumbered (m.room - 1) text) m
    rw [hedited]
    exact h.keeps
  | code => exact ⟨⟨hbuilt, hstack, hresume⟩, fun _ _ => Program.has_of_line_none rfl⟩
  | @refused r m' refused reports =>
    have hkeeps := reports.keeps h.keeps
    rcases r with c | entry
    · exact ⟨hkeeps, nofun⟩
    · obtain rfl := refused entry rfl
      exact ⟨hkeeps, nofun⟩

theorem keeps_of_closed (hbuilt : m.program.Built) (hstack : m.stack = {})
    (hresume : m.resume = none) : m.Keeps edited := by
  refine ⟨hbuilt, fun _ p hp => ?_, fun p hp => ?_⟩
  · rw [hstack] at hp
    cases hp
  · rw [hresume] at hp
    cases hp

theorem Safe.load (h : Safe ⟨.prompt, edited, m⟩) (text : String) :
    Safe (loaded edited (Machine.load text m)) := by
  have htakes := takes_load text m
  generalize Machine.load text m = r at htakes
  cases htakes with
  | takes built => exact ⟨keeps_of_closed built rfl rfl, nofun⟩
  | @refused r m' refused reports =>
    have hkeeps := reports.keeps h.keeps
    rcases r with c | taken
    · exact ⟨hkeeps, nofun⟩
    · obtain rfl := refused taken rfl
      exact ⟨hkeeps, nofun⟩

theorem Safe.start (h : Safe ⟨.prompt, edited, m⟩) (line : Option Nat) :
    Safe (started (prepare line m)) := by
  have hfresh : m.fresh.Keeps false := keeps_of_closed h.keeps.built rfl rfl
  have hprepares := prepares_prepare line m
  generalize prepare line m = r at hprepares
  cases hprepares with
  | goes stored =>
    exact ⟨⟨hfresh.built, hfresh.stack, hfresh.resume⟩, fun _ _ => Program.has_start stored⟩
  | @stays r m' stays reports =>
    have hkeeps := reports.keeps hfresh
    rcases r with c | goes
    · exact ⟨hkeeps, nofun⟩
    · obtain rfl := stays goes rfl
      exact ⟨hkeeps, nofun⟩

/-- **Every step keeps the positions in stored lines.** -/
theorem Step.safe {s t : Session} (hstep : Step s t) (h : s.Safe) : t.Safe := by
  cases hstep with
  | world elsewhere =>
    obtain ⟨_, _, _, _, _, _, _, _, _, rfl⟩ := elsewhere
    exact ⟨⟨h.keeps.built, h.keeps.stack, h.keeps.resume⟩, h.position⟩
  | enter text edited m => exact h.enter text
  | load text edited m => exact h.load text
  | start line edited m => exact h.start line
  | ready edited m => exact ⟨⟨h.keeps.built, h.keeps.stack, h.keeps.resume⟩, nofun⟩
  | turn edited m => exact h.turn
  | abandon c edited m => exact ⟨h.keeps.settle nofun, nofun⟩

/-- So they are in stored lines in every session. -/
theorem Reached.safe {settings : Settings} {s : Session} (h : Reached settings s) : s.Safe := by
  induction h with
  | refl =>
    rw [init_eq]
    exact ⟨keeps_of_closed .empty rfl rfl, nofun⟩
  | tail _ hstep ih => exact hstep.safe ih

/-! ## The main result -/

/-- **Positions that are kept stay valid while the program is not edited.** In every session in
which the program was not edited since everything was last closed, the position at which the next
turn begins, the one for CONT and those that subroutines and loops keep are in stored lines. So
every turn finds the code of its line, and looking ahead finds stored instructions only. -/
theorem positions_valid {settings : Settings} {s : Session} (h : Reached settings s)
    (hedited : s.edited = false) :
    (s.phase = .running → s.machine.program.Has s.machine.position ∧
      ∃ code, s.machine.codeAt? s.machine.position.line = some code) ∧
    (∀ p, s.machine.resume = some p → s.machine.program.Has p) ∧
    (∀ p ∈ s.machine.stack.positions, s.machine.program.Has p) ∧
    ∀ p q i, (q, i) ∈ s.machine.ahead p → ∃ code, s.machine.codeAt? q.line = some code ∧
      code[q.index]? = some i := by
  obtain ⟨⟨hbuilt, hstack, hresume⟩, hposition⟩ := h.safe
  refine ⟨fun hrunning => ?_, fun p hp => (hresume p hp).2, hstack hedited, fun p q i => ?_⟩
  · exact ⟨hposition hrunning hedited, exists_codeAt? (hposition hrunning hedited)⟩
  · exact codeAt?_of_mem_ahead hbuilt.orderly

/-- A new machine that was given a program with a loop in a subroutine. -/
def withLoop : Session :=
  loaded false (load "10 GOSUB 40\n20 END\n40 FOR I=1 TO 3\n50 NEXT" (.new default))

/-- The loop has begun. -/
def inLoop : Session := (started (prepare none withLoop.machine)).next.next

theorem positions_valid_inLoop : inLoop.machine.stack.positions = [⟨some 10, 1⟩, ⟨some 40, 1⟩] ∧
    inLoop.machine.program.Has inLoop.machine.position ∧
    ∀ p ∈ inLoop.machine.stack.positions, inLoop.machine.program.Has p := by
  have hphases : withLoop.phase = .prompt ∧
    (started (prepare none withLoop.machine)).phase = .running ∧
      (started (prepare none withLoop.machine)).next.phase = .running ∧ inLoop.phase = .running ∧
      inLoop.edited = false ∧ inLoop.machine.stack.positions = [⟨some 10, 1⟩, ⟨some 40, 1⟩] := by
    decide +kernel
  obtain ⟨hprompt, hrunning, hrunning', hrunning'', hedited, hpositions⟩ := hphases
  have hreached : Reached default withLoop := Reached.loaded (s := init default) .refl rfl _
  have hvalid :=
    positions_valid (((hreached.started hprompt none).next hrunning).next hrunning') hedited
  exact ⟨hpositions, (hvalid.1 hrunning'').1, hvalid.2.2.1⟩

end Session

end LineBasic
