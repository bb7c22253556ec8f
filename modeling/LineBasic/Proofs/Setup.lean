import Mathlib
import LineBasic.Proofs.EvaluationFrame
import LineBasic.Proofs.Sessions
import LineBasic.Proofs.SilentCommands

/-!
# How a machine is set up

The settings and the limits that were read from them stay what they were when the machine was made,
and a machine runs a program exactly while its session does.

* `Store.Change.limit`: no operation on variables changes how much memory they may use.
* `Machine.sameSetup_tick`: a turn changes neither the settings nor whether a program runs.
* `Session.Reached.setUp`, `Session.Reached.limit`: so it is in every session.
-/

namespace LineBasic

/-! ## The memory limit -/

namespace Store

variable {s s' : Store}

theorem Adds.limit {key : String} {bounds : List Nat} {r : Except Fault Grid × Store}
    (h : Adds s key bounds r) : r.2.limit = s.limit := by
  cases h <;> rfl

/-- No operation on variables changes how much memory they may use. -/
theorem Change.limit {ended : Option Fault} (h : s.Change ended s') : s'.limit = s.limit := by
  cases h with
  | set run =>
    obtain ⟨w, -, rfl, -⟩ := set_eq_ok run
    rfl
  | setElement cells room s name indices v =>
    unfold Store.setElement
    split
    · rfl
    · rename_i is his
      have hlimit : (s.reach cells (room - 1) name is.length).2.limit = s.limit := by
        obtain ⟨lost, hspans, -⟩ :=
          @extends_reach (fun _ _ => True) s name cells (room - 1) is.length trivial
        exact hspans.limit
      split
      · rename_i hreach
        rwa [hreach] at hlimit
      · rename_i hreach
        rw [hreach] at hlimit
        split
        · exact hlimit
        · split <;> exact hlimit
  | dim cells room s name bounds =>
    unfold Store.dim
    simp only
    split
    · rfl
    · split
      · rfl
      · exact (adds_addGrid _ _ _ _ _).limit
  | eraseArray run =>
    unfold Store.eraseArray at run
    simp only at run
    split at run
    · cases run
    · obtain rfl := Except.ok.inj run
      rfl
  | eraseAll | clear => rfl
  | declare s letters kind =>
    unfold Store.declare
    induction letters generalizing s with
    | nil => rfl
    | cons letter letters ih =>
      rw [List.foldl_cons, ih, declareLetter]
      split <;> rfl
  | evaluate room es scope m =>
    obtain ⟨lost, hframes, -⟩ := evaluateAll_frames room es scope m
    exact hframes.store.limit

theorem limit_of_changes (h : Relation.ReflTransGen Changes s s') : s'.limit = s.limit := by
  induction h with
  | refl => rfl
  | tail _ hchanges ih =>
    obtain ⟨ended, hchange⟩ := hchanges
    exact hchange.limit.trans ih

end Store

/-! ## Statements and turns -/

namespace Exec

open Machine

theorem Silent.sameSetup {α : Type} {x : Exec α} (h : Silent x) : Moves SameSetup x :=
  h.cursor.mono fun _ _ h => h.toSameSetup

theorem sameSetup_inputLoop (prompt : String) (targets : List Target) (n : Nat) :
    Moves SameSetup (inputLoop prompt targets n) := by
  induction n with
  | zero => exact moves_crash _
  | succ n ih =>
    refine moves_get fun m => ?_
    rcases m.terminal.ask prompt with ⟨_ | s | _, t⟩
    · exact ⟨rfl, rfl, rfl⟩
    · have hrest : Moves SameSetup
          (taken prompt targets n (targets.map fun t => m.memory.store.kindOf t.name) s) := by
        refine (moves_lift _).bind fun values => ?_
        cases values with
        | some values => exact computes_assignAll _
        | none => exact (computes_write _).bind fun _ => ih
      have hasked : m.SameSetup { m with terminal := t, column := 0 } := ⟨rfl, rfl, rfl⟩
      exact trans_of SameSetup hasked (hrest _)
    · exact ⟨rfl, rfl, rfl⟩

theorem sameSetup_renumber (newStart oldStart step : Option Nat) :
    Moves SameSetup (renumber newStart oldStart step) := by
  refine silent_requireDirect.sameSetup.bind fun _ => moves_get fun m => ?_
  cases m.program.renumberDefault m.statementRoom newStart oldStart step with
  | mk result missing => cases result <;> exact ⟨rfl, rfl, rfl⟩

theorem sameSetup_command (column : Nat) (c : Command) : Moves SameSetup (command column c) := by
  cases hsilent : c.isSilent with
  | true => exact (silent_command hsilent column).sameSetup
  | false =>
    cases c with
    | print items => exact computes_print items
    | input prompt targets question => exact moves_get fun m => sameSetup_inputLoop _ targets _ m
    | cls => exact moves_modify fun m => ⟨rfl, rfl, rfl⟩
    | list first last => exact moves_get fun m => computes_writeLines _ m
    | renumber newStart oldStart step => exact sameSetup_renumber newStart oldStart step
    | _ => cases hsilent

theorem sameSetup_instr (i : Instr) : Moves SameSetup (instr i) := by
  cases i with
  | command column c => exact sameSetup_command column c
  | branch column condition target => exact (silent_branch column condition target).sameSetup
  | jump column target => exact (silent_jumpTo (some target)).sameSetup

end Exec

namespace Machine

variable {settings : Settings} {running : Bool} {m m' : Machine}

/-- The machine is set up as the settings say. -/
structure SetUp (settings : Settings) (running : Bool) (m : Machine) : Prop where
  stackLimit : m.stackLimit = settings.stackLimit.1
  running : m.running = running
  settings : m.settings = settings

theorem SetUp.same (h : m.SetUp settings running) (hsame : m.SameSetup m') :
    m'.SetUp settings running :=
  ⟨hsame.stackLimit.trans h.stackLimit, hsame.running.trans h.running,
    hsame.settings.trans h.settings⟩

theorem SetUp.reports (h : m.SetUp settings running) (hreports : m.Reports m') :
    m'.SetUp settings running := by
  obtain ⟨_, _, _, _, rfl⟩ := hreports
  exact ⟨h.stackLimit, h.running, h.settings⟩

theorem SetUp.settle (h : m.SetUp settings running) (r : Except Halt Unit) :
    (settle r m).2.SetUp settings false := by
  have hstopped : SetUp settings false { m with running := false, resume := m.resumeAfter r } :=
    ⟨h.stackLimit, rfl, h.settings⟩
  exact hstopped.reports (reports_settle r m)

theorem sameSetup_tick : Exec.Moves SameSetup tick := by
  intro m
  have hturn := turn_tick m
  generalize tick m = r at hturn
  cases hturn with
  | missing | typedEnd | programEnd | lineEnd | broken => exact ⟨rfl, rfl, rfl⟩
  | cut _ _ _ trace =>
    obtain ⟨_, _, _, rfl⟩ := writes_of_showTrace trace
    exact ⟨rfl, rfl, rfl⟩
  | @executed _ _ m' _ _ _ _ trace run | @halted _ _ _ m' _ _ _ _ trace run =>
    have hshown : m.SameSetup (m'.atStatement m.position) := by
      obtain ⟨_, _, _, rfl⟩ := writes_of_showTrace trace
      exact ⟨rfl, rfl, rfl⟩
    exact trans_of SameSetup hshown ((Exec.sameSetup_instr _).of_run run)

end Machine

/-! ## Sessions -/

namespace Session

open Machine

variable {settings : Settings} {s t : Session}

/-- A machine is running while the session is, and no step changes how it was set up. -/
theorem Step.setUp (h : Step s t) (hs : s.machine.SetUp settings (s.phase = .running)) :
    t.machine.SetUp settings (t.phase = .running) := by
  cases h with
  | world elsewhere =>
    obtain ⟨_, _, _, _, _, _, _, _, _, rfl⟩ := elsewhere
    exact ⟨hs.stackLimit, hs.running, hs.settings⟩
  | enter text edited m =>
    have haccepts := accepts_accept text m
    generalize accept text m = r at haccepts
    cases haccepts with
    | stored | nothing => exact ⟨hs.stackLimit, hs.running, hs.settings⟩
    | code => exact ⟨hs.stackLimit, rfl, hs.settings⟩
    | @refused r m' refused reports =>
      have hkept := hs.reports reports
      rcases r with c | entry
      · exact hkept
      · obtain rfl := refused entry rfl
        exact hkept
  | load text edited m =>
    have htakes := takes_load text m
    generalize Machine.load text m = r at htakes
    cases htakes with
    | takes => exact ⟨hs.stackLimit, hs.running, hs.settings⟩
    | @refused r m' refused reports =>
      have hkept := hs.reports reports
      rcases r with c | _ | _ <;> exact hkept
  | start line edited m =>
    have hprepares := prepares_prepare line m
    generalize prepare line m = r at hprepares
    cases hprepares with
    | goes => exact ⟨hs.stackLimit, rfl, hs.settings⟩
    | @stays r m' stays reports =>
      have hkept := SetUp.reports (m := m.fresh) ⟨hs.stackLimit, hs.running, hs.settings⟩ reports
      rcases r with c | goes
      · exact hkept
      · obtain rfl := stays goes rfl
        exact hkept
  | ready => exact ⟨hs.stackLimit, hs.running, hs.settings⟩
  | turn edited m =>
    have hsame := hs.same (sameSetup_tick m)
    cases hrun : tick m with
    | mk r m' =>
      rw [hrun] at hsame
      rcases r with e | _ | _
      · exact hsame.settle _
      · exact hsame.settle _
      · exact hsame
  | abandon c edited m => exact hs.settle _

/-- In every session a machine is set up as the settings say. -/
theorem Reached.setUp (h : Reached settings s) : s.machine.SetUp settings (s.phase = .running) := by
  induction h with
  | refl =>
    rw [init_eq]
    exact ⟨rfl, rfl, rfl⟩
  | tail _ hstep ih => exact hstep.setUp ih

theorem Reached.limit (h : Reached settings s) :
    s.machine.memory.store.limit = settings.memoryLimit.1 := by
  induction h with
  | refl =>
    rw [init_eq]
  | tail _ hstep ih => exact (Store.limit_of_changes hstep.alters).trans ih

end Session

end LineBasic
