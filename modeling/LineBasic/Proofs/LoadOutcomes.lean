import Mathlib
import LineBasic.Proofs.SavedFiles
import LineBasic.Proofs.Sessions

/-!
# How loading ends

A load that fails leaves the program, the variables and everything that is open as they were, and
writes no file. A patched program that has been saved is always loaded, and its listing is what was
saved.

* `Library.load_listingText`: the text of a patched program spells that program.
* `Library.savedAs?`: where a load saves the program that it has patched.
* `Library.load_of_savedAs?`, `Library.files_load`: a load that saves a program takes it; one that
  saves none leaves the files alone.
* `Machine.Unharmed`: what a failed load leaves.
* `Session.load_unharmed_or_saved`: the main result.
-/

namespace LineBasic

open Text (OneLine)

/-! ## Texts of programs -/

namespace Text

/-- Lines with a line feed between them and one at the end. -/
theorem intercalate_feed {ls : List String} (h : ls ≠ []) :
    String.intercalate "\n" ls ++ "\n" = feeds ls := by
  rw [← String.toList_inj, String.toList_append, String.toList_intercalate, toList_feeds]
  induction ls with
  | nil => exact absurd rfl h
  | cons l ls ih =>
    cases ls with
    | nil => simp
    | cons k ls =>
      rw [List.map_cons, List.map_cons, List.intercalate_cons_cons, ← List.map_cons,
        List.append_assoc, ih (by simp)]
      simp

theorem mem_of_mem_trim {c : Char} {cs : List Char} (h : c ∈ trim cs) : c ∈ cs := by
  unfold trim dropEnd at h
  rw [List.mem_reverse] at h
  exact (List.dropWhile_sublist _).subset
    (List.mem_reverse.mp ((List.dropWhile_sublist _).subset h))

end Text

/-- A line that is read again in a room is read again where there is more. -/
theorem ProgramLine.Settled.mono {l : ProgramLine} {room room' : Nat} (h : l.Settled room)
    (hle : room ≤ room') : l.Settled room' :=
  ⟨⟨Parser.parseLine_mono h.reads hle, h.statements, h.code⟩, h.oneLine⟩

theorem Program.Orderly.imp {P Q : ProgramLine → Prop} {p : Program} (h : p.Orderly P)
    (himp : ∀ l, P l → Q l) : p.Orderly Q :=
  ⟨h.ascending, fun l hl => himp l (h.lines l hl)⟩

namespace Library

section

variable {p q : Program} {room : Nat}

/-- The text of an empty program is one empty line. -/
theorem lines_listingText (hp : p.Orderly (ProgramLine.Settled room)) :
    Text.lines (listingText p) = if p.listingAll = [] then [""] else p.listingAll := by
  unfold listingText
  split
  · rename_i hempty
    rw [hempty]
    rfl
  · rename_i hne
    rw [Text.intercalate_feed hne, Text.lines_feeds (Program.oneLine_listingAll hp)]

theorem load_listingText (hp : p.Orderly (ProgramLine.Settled (room - 1))) :
    Program.load room (listingText p) = .ok p := by
  have hload := Program.loadFrom_listingAll hp
  unfold Program.load
  rw [lines_listingText hp]
  split
  · rename_i hempty
    rw [hempty] at hload
    exact hload
  · exact hload

theorem listingAll_eq_filter (hp : p.Orderly (ProgramLine.Settled room)) :
    p.listingAll = (Text.lines (listingText p)).filter (· ≠ "") := by
  have hne : ∀ s ∈ p.listingAll, s ≠ "" := by
    rintro s hs rfl
    rw [Program.listingAll_eq] at hs
    obtain ⟨l, -, hl⟩ := List.mem_map.mp hs
    obtain ⟨c, ds, hhead, -⟩ := Program.listed_head l
    rw [hl] at hhead
    cases hhead
  rw [lines_listingText hp]
  split
  · rename_i hempty
    rw [hempty]
    rfl
  · exact (List.filter_eq_self.mpr (by simpa using hne)).symm

/-! ## Patches -/

/-- Every new text is one line. -/
def Plain (patches : List (Nat × String)) : Prop := ∀ patch ∈ patches, OneLine patch.2.toList

theorem oneLine_of_numberedPatch? {line text : String} {digits : List Char}
    (h : numberedPatch? line = some (digits, text)) (hline : OneLine line.toList) :
    OneLine text.toList := by
  unfold numberedPatch? at h
  simp only at h
  split at h
  · cases h
  · obtain ⟨-, rfl⟩ := Prod.mk.inj (Option.some.inj h)
    exact nofun
  · rename_i c rest hcs hne
    split at h
    · obtain ⟨-, rfl⟩ := Prod.mk.inj (Option.some.inj h)
      intro d hd
      rw [String.toList_ofList] at hd
      apply hline d
      apply (List.dropWhile_sublist Text.isBlank).subset
      apply (List.dropWhile_sublist Text.isDigit).subset
      rw [hcs]
      exact List.mem_cons_of_mem _ (Text.mem_of_mem_trim hd)
    · cases h

/-- Patches keep every line readable from its listed text. -/
theorem patchProgram_settled {patches : List (Nat × String)}
    (h : patchProgram room p patches = .ok q) (hp : p.Orderly (ProgramLine.Settled room))
    (hplain : Plain patches) : q.Orderly (ProgramLine.Settled room) := by
  induction patches generalizing p with
  | nil => rwa [← Except.ok.inj h]
  | cons patch rest ih =>
    obtain ⟨n, text⟩ := patch
    have hrest : Plain rest := fun patch hpatch => hplain patch (List.mem_cons_of_mem _ hpatch)
    unfold patchProgram at h
    split at h
    · exact ih h (hp.filter _) hrest
    · obtain ⟨s, hs, h⟩ := ok_of_bind h
      have hraw : OneLine (Parser.listedText n text).toList :=
        Program.oneLine_listedText (hplain (n, text) List.mem_cons_self) n
      exact ih h (hp.store
        (Program.settled_of_parseLine hs (Parser.number_of_parseLine_listed hs) hraw)) hrest

end

variable {l : Library} {index : Nat} {line name path : String} {s s' : PatchState}
  {source : PatchedSource}

theorem patches_of_readHeader (h : l.readHeader index line s = .ok s') :
    s'.patches = s.patches := by
  unfold readHeader at h
  split at h
  · obtain ⟨output, -, h⟩ := ok_of_bind h
    rw [← Except.ok.inj h]
  · rename_i output crc source hfields
    simp only at h
    by_cases hbase : s.base.isSome = true
    · rw [if_pos hbase] at h
      cases h
    · rw [if_neg hbase] at h
      obtain ⟨name, -, h⟩ := ok_of_bind h
      cases hcrc : Text.hexadecimal? crc with
      | none =>
        rw [hcrc] at h
        cases h
      | some n =>
        rw [hcrc] at h
        obtain ⟨base, -, h⟩ := ok_of_bind h
        rw [← Except.ok.inj h]
  · cases h

theorem plain_of_readPatchLine (h : l.readPatchLine index line s = .ok s')
    (hline : OneLine line.toList) (hs : Plain s.patches) : Plain s'.patches := by
  unfold readPatchLine at h
  split at h
  · rwa [← Except.ok.inj h]
  · split at h
    · cases hheader : l.readHeader index line s with
      | error e =>
        rw [hheader] at h
        cases h
      | ok s'' =>
        rw [hheader] at h
        obtain rfl := Except.ok.inj h
        rwa [patches_of_readHeader hheader]
    · split at h
      · cases h
      · rename_i digits text hpatch
        split at h
        · cases h
        · rw [← Except.ok.inj h]
          intro patch hmem
          rcases List.mem_cons.mp hmem with rfl | hmem
          · exact oneLine_of_numberedPatch? hpatch hline
          · exact hs patch hmem

theorem plain_of_readPatchLines {lines : List String} (h : l.readPatchLines index s lines = .ok s')
    (hlines : ∀ line ∈ lines, OneLine line.toList) (hs : Plain s.patches) : Plain s'.patches := by
  induction lines generalizing index s with
  | nil => rwa [← Except.ok.inj h]
  | cons line rest ih =>
    obtain ⟨s₁, hline, h⟩ := ok_of_bind h
    have hs₁ := plain_of_readPatchLine hline (hlines line List.mem_cons_self) hs
    exact ih h (fun k hk => hlines k (List.mem_cons_of_mem _ hk)) hs₁

theorem plain_of_retrieve (h : l.retrieve name = .ok source) : Plain source.patches := by
  obtain ⟨text, -, h⟩ := ok_of_bind h
  simp only at h
  split at h
  · obtain ⟨s, hs, h⟩ := ok_of_bind h
    have hplain := plain_of_readPatchLines hs (Text.lines_oneLine text) nofun
    rw [← Except.ok.inj h]
    exact fun patch hpatch => hplain patch (List.mem_reverse.mp hpatch)
  · rw [← Except.ok.inj h]
    exact nofun

/-- A patched text is that of a program whose lines are read again from their listing. The room in
which they are read for the patches is not more than that in which they are read again. -/
theorem settled_of_applyPatches {room : Nat} {text : String}
    (h : applyPatches room source = .ok text) (hplain : Plain source.patches) :
    ∃ p, p.Orderly (ProgramLine.Settled (room - 1)) ∧ text = listingText p := by
  unfold applyPatches at h
  simp only at h
  cases hpatched : (do
      let p ← Program.load (room - 1) source.text
      orFault (checkCrc p source.crc)
      patchProgram (room - 1) p source.patches : Except Fault Program) with
  | error f =>
    rw [hpatched] at h
    cases h
  | ok q =>
    rw [hpatched] at h
    obtain ⟨p, hload, hq⟩ := ok_of_bind hpatched
    obtain ⟨-, -, hq⟩ := ok_of_bind hq
    have hp := (Program.load_settled hload).imp fun l hl => hl.mono (Nat.sub_le (room - 1) 1)
    exact ⟨q, patchProgram_settled hq hp hplain, (Except.ok.inj h).symm⟩

/-! ## Loads that save -/

/-- The path at which a load saves the program that it has patched; none if it saves none. -/
def savedAs? (l : Library) (room : Nat) (name : String) : Option String := do
  let s ← (l.retrieve name).toOption
  let text ← (applyPatches (room - 1) s).toOption
  let output ← s.outputName
  (Shelf.save l.disk l.disks output (Text.lines text) false).1.toOption

/-- How a load ends: it saves a program at a path and gives its text, or it leaves the files
alone. -/
inductive Ends (l : Library) (room : Nat) (name : String) : Except Fault String × Disk → Prop where
  | saves {p : Program} {path : String} {disk : Disk} (savedAs : l.savedAs? room name = some path)
      (settled : p.Orderly (ProgramLine.Settled (room - 2)))
      (text : disk.readText path = .ok (Text.feeds (Text.lines (listingText p)))) :
      Ends l room name (.ok (listingText p), disk)
  | leaves {r : Except Fault String} {disk : Disk} (unsaved : l.savedAs? room name = none)
      (files : disk.files = l.disk.files) : Ends l room name (r, disk)

theorem ends_load (l : Library) (room : Nat) (name : String) :
    l.Ends room name (l.load room name) := by
  unfold load
  cases hretrieve : l.retrieve name with
  | error f => exact .leaves (by rw [savedAs?, hretrieve]; rfl) rfl
  | ok s =>
    have hsavedAs : l.savedAs? room name =
        (applyPatches (room - 1) s).toOption.bind fun text => s.outputName.bind fun output =>
          (Shelf.save l.disk l.disks output (Text.lines text) false).1.toOption := by
      rw [savedAs?, hretrieve]
      rfl
    simp only
    by_cases hplain : isPlain s = true
    · rw [if_pos hplain]
      have hnone : s.outputName = none := by
        simp only [isPlain, Bool.and_eq_true, Option.isNone_iff_eq_none] at hplain
        exact hplain.2
      exact .leaves (by simp [hsavedAs, hnone]) rfl
    · rw [if_neg hplain]
      cases happly : applyPatches (room - 1) s with
      | error f => exact .leaves (by rw [hsavedAs, happly]; rfl) rfl
      | ok text =>
        rw [happly] at hsavedAs
        cases houtput : s.outputName with
        | none => exact .leaves (by rw [hsavedAs, houtput]; rfl) rfl
        | some output =>
          rw [houtput] at hsavedAs
          change _ = (Shelf.save l.disk l.disks output (Text.lines text) false).1.toOption
            at hsavedAs
          obtain ⟨p, hp, rfl⟩ := settled_of_applyPatches happly (plain_of_retrieve hretrieve)
          have hsaves :=
            Shelf.saves_save l.disk l.disks output false (Text.lines_oneLine (listingText p))
          simp only
          generalize Shelf.save l.disk l.disks output (Text.lines (listingText p)) false =
            r at hsaves hsavedAs
          cases hsaves with
          | fails files => exact .leaves hsavedAs files
          | saved text => exact .saves hsavedAs hp text

/-- **A program that a load has saved is loaded**, and its listing is what can be read where it was
saved. -/
theorem load_of_savedAs? {room : Nat} (h : l.savedAs? room name = some path) :
    ∃ p saved, (l.load room name).1.bind (Program.load (room - 1)) = .ok p ∧
      (l.load room name).2.readText path = .ok saved ∧
      p.listingAll = (Text.lines saved).filter (· ≠ "") := by
  have hends := ends_load l room name
  generalize l.load room name = r at hends
  cases hends with
  | leaves unsaved => cases h.symm.trans unsaved
  | @saves p _ disk savedAs settled text =>
    obtain rfl := Option.some.inj (h.symm.trans savedAs)
    refine ⟨p, _, load_listingText settled, text, ?_⟩
    rw [Text.lines_feeds (Text.lines_oneLine _)]
    exact listingAll_eq_filter settled

theorem files_load {room : Nat} (h : l.savedAs? room name = none) :
    (l.load room name).2.files = l.disk.files := by
  have hends := ends_load l room name
  generalize l.load room name = r at hends
  cases hends with
  | leaves unsaved files => exact files
  | saves savedAs => cases h.symm.trans savedAs

end Library

/-! ## Machines -/

namespace Machine

/-- Nothing of the program, the variables and what is open was changed, and no file. Arrays that
were never dimensioned may have been made, if they are referred to. -/
structure Unharmed (refers : String → Nat → Prop) (m m' : Machine) : Prop where
  program : m'.program = m.program
  functions : m'.functions = m.functions
  stack : m'.stack = m.stack
  scalars : m'.memory.store.scalars = m.memory.store.scalars
  letters : m'.memory.store.letters = m.memory.store.letters
  arrays : ∃ made : List (String × Nat),
    m'.memory.store.arrays.entries = m.memory.store.arrays.entries ++ made.map Store.implied ∧
    ∀ d ∈ made, ∃ name, refers name d.2 ∧ m.memory.store.resolve name = d.1
  files : m'.disk.files = m.disk.files

theorem Unharmed.refl (refers : String → Nat → Prop) (m : Machine) : m.Unharmed refers m :=
  ⟨rfl, rfl, rfl, rfl, rfl, ⟨[], by simp, nofun⟩, rfl⟩

/-- The rest of the machine does not matter. -/
theorem Unharmed.same {refers : String → Nat → Prop} {m m' m'' : Machine} (h : m.Unharmed refers m')
    (program : m''.program = m'.program) (functions : m''.functions = m'.functions)
    (stack : m''.stack = m'.stack) (memory : m''.memory = m'.memory)
    (files : m''.disk.files = m'.disk.files) : m.Unharmed refers m'' := by
  refine ⟨program.trans h.program, functions.trans h.functions, stack.trans h.stack, ?_, ?_, ?_,
    files.trans h.files⟩
  · rw [memory, h.scalars]
  · rw [memory, h.letters]
  · rw [memory]
    exact h.arrays

theorem unharmed_value (name : Expr) (m : Machine) :
    m.Unharmed (name.Refers m.functions) (Exec.value name m).2 := by
  obtain ⟨memory, lost, hrun, hframes, -⟩ := Exec.value_frames name m
  obtain ⟨-, -, hletters, hscalars, ⟨made, harrays, hmade, -⟩, -⟩ := hframes.store
  rw [hrun]
  exact ⟨rfl, rfl, rfl, congrArg Table.mk hscalars.eq, hletters,
    ⟨made, harrays, fun d hd => (hmade d hd).2⟩, rfl⟩

end Machine

/-- The name of the file that a command loads. -/
def Command.file? : Command → Option Expr
  | .load name | .runFile name => some name
  | _ => none

namespace Exec

open Machine

/-- How a command that loads a file ends: it fails and harms nothing, and in the typed line nothing
was to be saved; or it takes the program. -/
inductive Loading (name : Expr) (m : Machine) : Except Halt Unit × Machine → Prop where
  | fails {f : Fault} {m' : Machine} (unharmed : m.Unharmed (name.Refers m.functions) m')
      (unsaved : ∀ file, m.current.line = none → (value name m).1 = .ok (.text file) →
        m.library.savedAs? m.statementRoom file = none) : Loading name m (.error (.fault f), m')
  | takes {r : Except Halt Unit} {m' : Machine} {file : String}
      (named : (value name m).1 = .ok (.text file))
      (loaded : (m.library.load m.statementRoom file).1.bind (Program.load (m.statementRoom - 1)) =
        .ok m'.program) (disk : m'.disk = (m.library.load m.statementRoom file).2)
      (succeeds : ∀ f, r ≠ .error (.fault f)) : Loading name m (r, m')

theorem loading_loadFile (name : Expr) (m : Machine) : Loading name m (loadFile name m) := by
  have hvalue := unharmed_value name m
  have hfetches := fetches_loadFile name m
  generalize loadFile name m = r at hfetches
  cases hfetches with
  | unnamed unnamed => exact .fails hvalue fun file _ hfile => absurd hfile (unnamed file)
  | @fails file f named failed =>
    have hunsaved : m.library.savedAs? m.statementRoom file = none := by
      cases hsaved : m.library.savedAs? m.statementRoom file with
      | none => rfl
      | some path =>
        obtain ⟨p, saved, hload, -⟩ := Library.load_of_savedAs? hsaved
        cases failed.symm.trans hload
    have hfiles : (m.library.load m.statementRoom file).2.files = (value name m).2.disk.files := by
      rw [Library.files_load hunsaved, value_eq, run_ofEval]
      rfl
    refine .fails (hvalue.same rfl rfl rfl rfl hfiles) fun file' _ hfile => ?_
    obtain rfl := Value.text.inj (Except.ok.inj (named.symm.trans hfile))
    exact hunsaved
  | takes named loaded => exact .takes named loaded rfl nofun

/-- Starting the program that was taken does not fail. -/
theorem loading_run {name : Expr} {m m' : Machine} (h : Loading name m (.ok (), m')) :
    Loading name m (run none m') := by
  cases h with
  | takes named loaded disk =>
    have hstarts := starts_start { m' with direct := #[] } none none
    rw [show run none m' = start none none { m' with direct := #[] } from rfl]
    generalize start none none { m' with direct := #[] } = r at hstarts
    cases hstarts with
    | goes => exact .takes named loaded disk nofun
    | ends => exact .takes named loaded disk nofun
    | fails given => cases given

theorem loading_command {c : Command} {name : Expr} (hfile : c.file? = some name) (column : Nat)
    (m : Machine) :
    Loading name m (command column c m) := by
  have hloading := loading_loadFile name m
  cases c with
  | load e =>
    obtain rfl := Option.some.inj hfile
    rw [show command column (.load e) = (do requireDirect; loadFile e : Exec Unit) from rfl,
      run_bind, run_requireDirect]
    cases hline : m.current.line with
    | some n => exact .fails (.refl _ m) fun _ hdirect => by cases hline.symm.trans hdirect
    | none => exact hloading
  | runFile e =>
    obtain rfl := Option.some.inj hfile
    rw [show command column (.runFile e) = (do loadFile e; run none : Exec Unit) from rfl, run_bind]
    generalize loadFile e m = r at hloading
    obtain ⟨_ | _, m'⟩ := r
    · exact hloading
    · exact loading_run hloading
  | _ => cases hfile

end Exec

/-! ## Turns -/

namespace Machine

variable {refers : String → Nat → Prop} {m m' : Machine} {column : Nat} {c : Command} {name : Expr}

/-- Ending a run harms nothing. -/
theorem Unharmed.settle (h : m.Unharmed refers m') (r : Except Halt Unit) :
    m.Unharmed refers (settle r m').2 := by
  obtain ⟨_, _, _, _, hsettle⟩ := reports_settle r m'
  rw [hsettle]
  exact h.same rfl rfl rfl rfl rfl

/-- A turn that fails to load harms nothing. -/
theorem unharmed_of_tick (hnext : m.upcoming? = some (.command column c))
    (hfile : c.file? = some name) {f : Fault} (hrun : tick m = (.error (.fault f), m')) :
    m.Unharmed (name.Refers m.functions) m' := by
  rw [tick_of_upcoming? hnext] at hrun
  cases htrace : showTrace m with
  | mk r m₁ =>
    rw [htrace] at hrun
    have hwrites := writes_of_showTrace htrace
    have hloading := Exec.loading_command hfile column (m₁.atStatement m.position)
    cases r with
    | error e =>
      obtain ⟨-, rfl⟩ := Prod.mk.inj hrun
      obtain ⟨_, _, _, rfl⟩ := hwrites
      exact (Unharmed.refl _ m).same rfl rfl rfl rfl rfl
    | ok u =>
      simp only [Exec.instr] at hrun
      generalize Exec.command column c (m₁.atStatement m.position) = r at hloading hrun
      obtain ⟨_, _, _, rfl⟩ := hwrites
      cases hloading with
      | fails h =>
        obtain ⟨-, rfl⟩ := Prod.mk.inj hrun
        exact ⟨h.program, h.functions, h.stack, h.scalars, h.letters, h.arrays, h.files⟩
      | @takes r m' file named loaded disk succeeds =>
        rcases r with (_ | f') | u
        · cases hrun
        · exact absurd rfl (succeeds f')
        · cases hrun

/-- The lines of the program alone are shown. -/
theorem showTrace_of_typed (h : m.position.line = none) : showTrace m = (.ok (), m) := by
  unfold showTrace
  rw [run_get_bind, h]
  rfl

theorem value_atStatement (e : Expr) (m : Machine) :
    (Exec.value e (m.atStatement m.position)).1 = (Exec.value e m).1 := by
  rw [Exec.value_eq, Exec.value_eq, Exec.run_ofEval, Exec.run_ofEval]
  rfl

/-- A turn of the typed line that saves a patched program takes it. -/
theorem takes_of_tick (hnext : m.upcoming? = some (.command column c)) (hfile : c.file? = some name)
    (htyped : m.position.line = none) {file path : String}
    (hnamed : (Exec.value name m).1 = .ok (.text file))
    (hsaved : m.library.savedAs? m.statementRoom file = some path) :
    (∀ f, (tick m).1 ≠ .error (.fault f)) ∧
      (tick m).2.disk = (m.library.load m.statementRoom file).2 ∧
      (m.library.load m.statementRoom file).1.bind (Program.load (m.statementRoom - 1)) =
        .ok (tick m).2.program := by
  have hvalue := value_atStatement name m
  have hloading := Exec.loading_command hfile column (m.atStatement m.position)
  rw [tick_of_upcoming? hnext, showTrace_of_typed htyped]
  simp only [Exec.instr]
  generalize Exec.command column c (m.atStatement m.position) = r at hloading
  cases hloading with
  | fails unharmed unsaved => cases hsaved.symm.trans (unsaved file htyped (hvalue.trans hnamed))
  | @takes r m' file' named loaded disk succeeds =>
    obtain rfl := Value.text.inj (Except.ok.inj (hnamed.symm.trans (hvalue.symm.trans named)))
    rcases r with (_ | f') | u
    · exact ⟨nofun, disk, loaded⟩
    · exact absurd rfl (succeeds f')
    · exact ⟨nofun, disk, loaded⟩

/-- A text that is not taken harms nothing. -/
theorem unharmed_load {text : String} (h : (load text m).1 ≠ .ok true) :
    m.Unharmed refers (load text m).2 := by
  have htakes := takes_load text m
  generalize load text m = r at htakes h
  cases htakes with
  | takes built => exact absurd rfl h
  | refused refused reports =>
    obtain ⟨_, _, _, _, rfl⟩ := reports
    exact (Unharmed.refl _ m).same rfl rfl rfl rfl rfl

end Machine

namespace Session

open Machine

theorem program_next (s : Session) : s.next.machine.program = (tick s.machine).2.program ∧
    s.next.machine.disk = (tick s.machine).2.disk := by
  unfold next
  cases hrun : tick s.machine with
  | mk r m' =>
    rcases r with h | _ | _
    · obtain ⟨_, _, _, _, hsettle⟩ := reports_settle (.error h) m'
      simp only [turned]
      rw [hsettle]
      exact ⟨rfl, rfl⟩
    · exact ⟨rfl, rfl⟩
    · exact ⟨rfl, rfl⟩

/-- **A load that fails changes nothing, and a patched program that was saved is loaded.**

If LOAD or RUN of a file fails, in the typed line or in the program, or a text cannot be loaded,
then the program, the functions, the scalars, the letters with a type of their own and all that is
open are as before, no array but those that the expression for the name makes is new, and no file
was written. If LOAD or RUN in the typed line has saved a patched program, then it succeeds, and the
listing is the lines of the saved file that are not empty. -/
theorem load_unharmed_or_saved (s : Session) :
    (∀ column c name, s.machine.upcoming? = some (.command column c) → c.file? = some name →
      (∀ f, (tick s.machine).1 = .error (.fault f) →
        s.machine.Unharmed (name.Refers s.machine.functions) s.next.machine) ∧
      ∀ file path, s.machine.position.line = none →
        (Exec.value name s.machine).1 = .ok (.text file) →
        s.machine.library.savedAs? s.machine.statementRoom file = some path →
        (∀ f, (tick s.machine).1 ≠ .error (.fault f)) ∧
          ∃ saved, s.next.machine.disk.readText path = .ok saved ∧
            s.next.machine.program.listingAll = (Text.lines saved).filter (· ≠ "")) ∧
    ∀ text, (load text s.machine).1 ≠ .ok true →
      s.machine.Unharmed (fun _ _ => False) (load text s.machine).2 := by
  refine ⟨fun column c name hnext hfile =>
    ⟨fun f hfails => ?_, fun file path htyped hnamed hsaved => ?_⟩, fun text => unharmed_load⟩
  · obtain ⟨m', hrun⟩ : ∃ m', tick s.machine = (.error (.fault f), m') := ⟨_, Prod.ext hfails rfl⟩
    have hsettled := (unharmed_of_tick hnext hfile hrun).settle (.error (.fault f))
    rw [next, hrun]
    exact hsettled
  · obtain ⟨hsucceeds, hdisk, htaken⟩ := takes_of_tick hnext hfile htyped hnamed hsaved
    obtain ⟨p, saved, hload, hread, hlisting⟩ := Library.load_of_savedAs? hsaved
    obtain ⟨hprogram, hsame⟩ := program_next s
    obtain rfl := Except.ok.inj (htaken.symm.trans hload)
    refine ⟨hsucceeds, saved, ?_, ?_⟩
    · rw [hsame, hdisk, hread]
    · rw [hprogram, hlisting]

/-- A machine in a subroutine whose typed line loads a patch of a program; there may be other files
on the disk. -/
def patching (others : List (Route × ByteArray)) : Session :=
  ⟨.running, false,
    { settings := ⟨{}⟩
      memory := { store := { scalars := ⟨[("A$", .text "KEPT")]⟩ } }
      stack := { returns := [⟨⟨none, 3⟩, 0, 0⟩], cursor := 2 }
      direct := #[.command 1 (.load (.literal 6 (.text "P")))]
      disk :=
        { files :=
            (["home", "B"], "10 ?1\n20 END\n".toUTF8) ::
            (["home", "P"], "\"OUT\" BFD36048 B\n20\n15 ?2".toUTF8) ::
              others } }⟩

/-- The patched program is saved and loaded, unless its file is there already. -/
theorem load_unharmed_or_saved_patched :
    (∃ saved, (patching []).next.machine.disk.readText "./OUT" = .ok saved ∧
      (patching []).next.machine.program.listingAll = (Text.lines saved).filter (· ≠ "")) ∧
    (patching []).next.machine.program.listingAll = ["10 PRINT 1", "15 PRINT 2"] ∧
    ∃ f, (tick (patching [(["home", "OUT"], .empty)]).machine).1 = .error (.fault f) ∧
      (patching [(["home", "OUT"], .empty)]).machine.Unharmed
        ((Expr.literal 6 (.text "P")).Refers
          (patching [(["home", "OUT"], .empty)]).machine.functions)
        (patching [(["home", "OUT"], .empty)]).next.machine := by
  have hsaved : (patching []).machine.library.savedAs?
      (patching []).machine.statementRoom "P" = some "./OUT" := by decide +kernel
  have hlisting : (patching []).next.machine.program.listingAll = ["10 PRINT 1", "15 PRINT 2"] := by
    decide +kernel
  have hfails : (tick (patching [(["home", "OUT"], .empty)]).machine).1 =
      .error (.fault (.error (.withDetail .fileExists "OUT"))) := by decide +kernel
  have hsaves :=
    ((load_unharmed_or_saved (patching [])).1 1 _ _ rfl rfl).2 "P" "./OUT" rfl rfl hsaved
  have hunharmed :=
    ((load_unharmed_or_saved (patching [(["home", "OUT"], .empty)])).1 1 _ _ rfl rfl).1 _ hfails
  exact ⟨hsaves.2, hlisting, _, hfails, hunharmed⟩

end Session

end LineBasic
