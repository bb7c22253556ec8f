import Mathlib
import LineBasic.Proofs.LoadOutcomes
import LineBasic.Proofs.SavedPositions

/-!
# Loading what was saved

A program that was saved under a name is what is loaded under that name next: the lines that are
written are those that are read, the place where they are written is the first in which a file is
found, and reading them gives the same lines. It takes a name that is no address on the network, no
other file of that name in the current directory, and lines that hold no line ends and are not
nested too deeply to be read from a file, where more calls are open than at the prompt.

* `Path.parts_of_not_mem`, `Disk.find_of_dot`: a name without a directory stands for a file in the
  current directory.
* `Shelf.read_of_save`: what was saved under a name is read under it.
* `Library.load_of_save`: what is loaded under the name is the program that was saved.
* `Session.load_restores_saved`: the main result.
-/

namespace LineBasic

/-! ## Names without a directory -/

namespace Path

theorem not_mem_of_not_isPlaced {name : String} (h : isPlaced name = false) :
    '/' ∉ name.toList := by
  intro hmem
  have hempty : directory name = "" := by
    simp only [isPlaced, Bool.or_eq_false_iff, Bool.not_eq_false', String.isEmpty_iff] at h
    exact h.1
  have hshort : (name.toList.reverse.takeWhile (· != '/')).length < name.toList.length := by
    refine lt_of_le_of_ne ?_ fun hall => ?_
    · simpa using (List.takeWhile_sublist (· != '/') (l := name.toList.reverse)).length_le
    · have heq := (List.takeWhile_sublist (· != '/') (l := name.toList.reverse)).eq_of_length
        (by simpa using hall)
      have hnot := List.takeWhile_eq_self_iff.mp heq '/' (List.mem_reverse.mpr hmem)
      simp at hnot
  have hcut : (cutLast name.toList).1 ≠ [] := by
    intro hnil
    have hlength := congrArg List.length hnil
    simp only [cutLast, List.length_take, List.length_reverse, List.length_nil] at hlength
    omega
  simp only [directory, split, String.ofList_eq_empty_iff] at hempty
  split at hempty
  · exact hcut hempty
  · rename_i htrimmed
    exact htrimmed (by simpa using hempty)

theorem partsFrom_of_not_mem {cs : List Char} (h : '/' ∉ cs) (part : List Char) :
    partsFrom part cs = [String.ofList (part.reverse ++ cs)] := by
  induction cs generalizing part with
  | nil => simp [partsFrom]
  | cons c cs ih =>
    rw [List.mem_cons, not_or] at h
    rw [partsFrom, if_neg (Ne.symm h.1), ih h.2]
    simp

theorem parts_of_not_mem {name : String} (h : '/' ∉ name.toList) : parts name = [name] := by
  rw [parts, partsFrom_of_not_mem h]
  simp

theorem not_isAbsolute_of_not_mem {name : String} (h : '/' ∉ name.toList) :
    isAbsolute name = false := by
  rw [isAbsolute, Bool.eq_false_iff, ne_eq, String.startsWith_string_iff]
  rintro ⟨rest, hrest⟩
  exact h (hrest ▸ by simp)

theorem join_nothing (name : String) : join "" name = name := by
  unfold join
  split
  · rfl
  · simp

end Path

namespace Disk

variable {d : Disk} {route : Route} {bytes : ByteArray}

/-- A file under its name after a dot and a slash is one under its name. -/
theorem find_of_dot {file : String} (hplain : '/' ∉ file.toList)
    (h : d.find ("./" ++ file) = .file route bytes) :
    d.find file = .file route bytes := by
  have hparts : Path.parts ("./" ++ file) = "." :: Path.parts file := by
    simp [Path.parts, Path.partsFrom]
  have habsolute : Path.isAbsolute ("./" ++ file) = false := by
    rw [Path.isAbsolute, Bool.eq_false_iff, ne_eq, String.startsWith_string_iff]
    rintro ⟨rest, hrest⟩
    simp at hrest
  rw [find, origin, habsolute, hparts, Path.parts_of_not_mem hplain, if_neg Bool.false_ne_true] at h
  split_ifs at h with hnull hempty hlong
  have hsize : ("./" ++ file).utf8ByteSize = 2 + file.utf8ByteSize := by
    rw [String.utf8ByteSize_append]
    rfl
  have hwalk : d.walk d.home [file] = .file route bytes := by
    rw [walk, if_pos (by decide)] at h
    exact h
  have hne : file ≠ "" := by
    rintro rfl
    cases hwalk
  rw [find, origin, Path.not_isAbsolute_of_not_mem hplain, Path.parts_of_not_mem hplain,
    if_neg fun hmem => hnull (by simp_all), if_neg (by simpa using hne), if_neg (by omega)]
  exact hwalk

end Disk

/-! ## Reading what was saved -/

namespace Shelf

variable {d d' : Disk} {disks : List String} {name path : String} {lines : List String}

/-- How saving succeeds. -/
theorem save_eq_ok {overwrite : Bool} (h : save d disks name lines overwrite = (.ok path, d')) :
    checkName name = .ok (Text.strip name) ∧
      ∃ d₁ : Disk, d₁.write (savePath disks (Text.strip name)) (linesBytes lines) = .ok d' := by
  unfold save at h
  cases hname : checkName name with
  | error e =>
    rw [hname] at h
    cases (Prod.mk.inj h).1
  | ok file =>
    obtain rfl : Text.strip name = file := by
      unfold checkName at hname
      split at hname
      · cases hname
      · exact Except.ok.inj hname
    rw [hname] at h
    simp only at h
    split_ifs at h
    · cases (Prod.mk.inj h).1
    · cases (Prod.mk.inj h).1
    · cases hprepare : prepare d (savePath disks (Text.strip name)) with
      | mk r d₁ =>
        rw [hprepare] at h
        cases r with
        | error f => cases (Prod.mk.inj h).1
        | ok u =>
          simp only at h
          cases hwrite : d₁.write (savePath disks (Text.strip name)) (linesBytes lines) with
          | error e =>
            rw [hwrite] at h
            cases (Prod.mk.inj h).1
          | ok d₂ =>
            rw [hwrite] at h
            obtain rfl := (Prod.mk.inj h).2
            exact ⟨rfl, d₁, hwrite⟩

/-- The name says where the file is, or the first file of that name in the current directory, if
there is one, is that at which the name is saved. -/
def Unshadowed (d : Disk) (disks : List String) (file : String) : Prop :=
  Path.isPlaced file = false →
    ∀ path, (nameEndings.map (file ++ ·)).find? (fun path => d.isFile path) = some path →
    d.find path = d.find (savePath disks file)

theorem isFile_of_find {route : Route} {bytes : ByteArray} (h : d.find path = .file route bytes) :
    d.isFile path = true := by
  rw [Disk.isFile, h]

/-- A file that is not shadowed is found where it is saved. -/
theorem find?_candidates {file : String} {route : Route} {bytes : ByteArray}
    (hfile : d.find (savePath disks file) = .file route bytes) (hfree : Unshadowed d disks file) :
    ∃ path, (candidates disks file).find? (fun path => d.isFile path) = some path ∧
      d.find path = .file route bytes := by
  unfold candidates
  cases hplaced : Path.isPlaced file with
  | true =>
    have hpath : savePath disks file = file := by rw [savePath, if_pos hplaced]
    rw [hpath] at hfile
    refine ⟨file, ?_, hfile⟩
    simp [nameEndings, Path.join_nothing, isFile_of_find hfile]
  | false =>
    have hplain := Path.not_mem_of_not_isPlaced hplaced
    rw [if_neg Bool.false_ne_true, List.flatMap_cons, List.find?_append]
    simp only [Path.join_nothing]
    cases hhere : (nameEndings.map (file ++ ·)).find? fun path => d.isFile path with
    | some path => exact ⟨path, rfl, (hfree hplaced path hhere).trans hfile⟩
    | none =>
      rw [savePath, hplaced, if_neg Bool.false_ne_true] at hfile
      cases disks with
      | nil =>
        -- the file is saved in the current directory, where none was found
        have hdot : Path.join "." file = "./" ++ file := by
          rw [Path.join, Path.not_isAbsolute_of_not_mem hplain, if_neg Bool.false_ne_true,
            if_neg (by decide +kernel)]
          rfl
        have hfound := isFile_of_find (Disk.find_of_dot hplain (hdot ▸ hfile))
        have hmissing := List.find?_eq_none.mp hhere file (by simp [nameEndings])
        exact absurd hfound hmissing
      | cons disk disks =>
        have hfound : d.isFile (Path.join disk file) = true := isFile_of_find hfile
        refine ⟨Path.join disk file, ?_, hfile⟩
        simp [nameEndings, hfound]

/-- **What was saved under a name is read under it.** -/
theorem read_of_save {overwrite : Bool} (h : save d disks name lines overwrite = (.ok path, d'))
    (hlines : ∀ l ∈ lines, Text.OneLine l.toList) (hfree : Unshadowed d' disks (Text.strip name)) :
    read d' disks name = .ok (Text.feeds lines) := by
  obtain ⟨hname, d₁, hwrite⟩ := save_eq_ok h
  obtain ⟨route, hplace, hput⟩ := Disk.write_eq_ok hwrite
  have hfile : d'.find (savePath disks (Text.strip name)) = .file route (linesBytes lines) := by
    rw [hput]
    exact Disk.find_put hplace
  obtain ⟨path, hfound, hpath⟩ := find?_candidates hfile hfree
  have hfind : find d' disks name = .ok (some path) := by
    rw [find, hname]
    change Except.ok _ = _
    rw [hfound]
  have htext : d'.readText path = .ok (Text.feeds lines) :=
    readText_of_read hlines (by rw [Disk.read, hpath])
  rw [read, hfind]
  change Except.mapError _ (Disk.readText _ path) = _
  rw [htext]
  rfl

end Shelf

/-! ## Loading the listing of a program -/

/-- The line is not nested too deeply to be read in a room. -/
def ProgramLine.Shallow (room : Nat) (l : ProgramLine) : Prop :=
  ∀ e, Parser.parseLine room l.listed = .error (.error e) → e.kind ≠ .outOfMemory

/-- A line that is not nested too deeply is read as itself. -/
theorem ProgramLine.Readable.parsed {l : ProgramLine} {room : Nat} (h : l.Readable)
    (hshallow : l.Shallow room) : l.Parsed room := by
  obtain ⟨room', hparsed⟩ := h
  rcases Parser.parseLine_room hparsed.reads room with hread | ⟨-, e, hkind, hdeep⟩
  · exact ⟨hread, hparsed.statements, hparsed.code⟩
  · exact absurd hkind (hshallow e hdeep)

theorem Program.load_feeds {p : Program} {room : Nat}
    (hp : p.Orderly (ProgramLine.Settled (room - 1))) :
    Program.load room (Text.feeds p.listingAll) = .ok p := by
  rw [Program.load, Text.lines_feeds (oneLine_listingAll hp)]
  exact loadFrom_listingAll hp

namespace Library

/-- A listing begins with the digits of a number, so it is not taken for a patch file. -/
theorem not_isPatchFile_listingAll (p : Program) : isPatchFile p.listingAll = false := by
  rw [Program.listingAll_eq, isPatchFile]
  cases p.lines with
  | nil => rfl
  | cons l ls =>
    obtain ⟨c, ds, hhead, hdigit⟩ := Program.listed_head l
    have hstart : ∀ quote : Char, quote.isDigit = false →
        l.listed.startsWith (String.singleton quote) = false := by
      intro quote hquote
      rw [Bool.eq_false_iff, ne_eq, String.startsWith_string_iff, hhead, String.toList_singleton,
        List.cons_prefix_cons]
      rintro ⟨rfl, -⟩
      cases hdigit.symm.trans hquote
    simp only [List.map_cons, List.head?_cons, Bool.or_eq_false_iff]
    exact ⟨hstart '"' (by decide), hstart '\'' (by decide)⟩

/-- **What is loaded under a name is the program that was saved under it.** -/
theorem load_of_save {l : Library} {d : Disk} {p : Program} {room : Nat} {name path : String}
    (hp : p.Orderly (ProgramLine.Settled (room - 1 - 1)))
    (hsave : Shelf.save d l.disks name p.listingAll true = (.ok path, l.disk))
    (hlocal : isRemote name = false)
    (hfree : Shelf.Unshadowed l.disk l.disks (Text.strip name)) :
    (l.load room name).1.bind (Program.load (room - 1)) = .ok p := by
  have hlines := Program.oneLine_listingAll hp
  have hfetch : l.fetch name = .ok (Text.feeds p.listingAll) := by
    rw [fetch, hlocal, if_neg Bool.false_ne_true]
    exact Shelf.read_of_save hsave hlines hfree
  have hretrieve : l.retrieve name = .ok { text := Text.feeds p.listingAll } := by
    rw [retrieve, hfetch]
    change (if isPatchFile (Text.lines (Text.feeds p.listingAll)) then _ else _) = _
    rw [Text.lines_feeds hlines, not_isPatchFile_listingAll, if_neg Bool.false_ne_true]
    rfl
  rw [load, hretrieve]
  exact Program.load_feeds hp

end Library

namespace Exec

variable {m m' : Machine} {e : Expr} {name : String}

/-- A program is saved from the typed line alone. -/
theorem typed_of_save {column : Nat} (h : command column (.save e) m = (.ok (), m')) :
    m.current.line = none ∧ saveFile e m = (.ok (), m') := by
  rw [show command column (.save e) = (do requireDirect; saveFile e : Exec Unit) from rfl, run_bind,
    run_requireDirect] at h
  cases hline : m.current.line with
  | some n =>
    rw [hline] at h
    cases (Prod.mk.inj h).1
  | none =>
    rw [hline] at h
    exact ⟨rfl, h⟩

theorem saves_of_saveFile (hname : (value e m).1 = .ok (.text name))
    (h : saveFile e m = (.ok (), m')) :
    ∃ path, Shelf.save m.disk m.settings.disks name m.program.listingAll true =
      (.ok path, m'.disk) := by
  have hvalue : value e m = (.ok (.text name), (value e m).2) := Prod.ext hname rfl
  have hsame := run_ofEval (evaluate m.statementRoom e) m
  rw [← value_eq] at hsame
  generalize (value e m).2 = m₁ at hvalue
  obtain rfl : m₁ = _ := congrArg Prod.snd (hvalue.symm.trans hsame)
  unfold saveFile at h
  rw [run_bind, hvalue] at h
  simp only [run_bind, Value.string, run_lift, run_get] at h
  generalize Shelf.save m.disk m.settings.disks name m.program.listingAll true = r at h ⊢
  obtain ⟨_ | path, disk⟩ := r
  · cases (Prod.mk.inj h).1
  · obtain rfl := (Prod.mk.inj h).2
    exact ⟨path, rfl⟩

/-- A program that is found from the typed line is taken. -/
theorem command_load (column : Nat) (hline : m.current.line = none)
    (hname : (value e m).1 = .ok (.text name)) {p : Program}
    (hload : (m.library.load m.statementRoom name).1.bind (Program.load (m.statementRoom - 1)) =
      .ok p) :
    (command column (.load e) m).1 = .ok () ∧ (command column (.load e) m).2.program = p := by
  rw [show command column (.load e) = (do requireDirect; loadFile e : Exec Unit) from rfl, run_bind,
    run_requireDirect, hline]
  simp only [Option.isSome_none, Bool.false_eq_true, if_false]
  have hfetches := fetches_loadFile e m
  generalize loadFile e m = r at hfetches
  cases hfetches with
  | unnamed unnamed => exact absurd hname (unnamed name)
  | fails named failed =>
    obtain rfl := Value.text.inj (Except.ok.inj (hname.symm.trans named))
    cases hload.symm.trans failed
  | takes named loaded =>
    obtain rfl := Value.text.inj (Except.ok.inj (hname.symm.trans named))
    obtain rfl := Except.ok.inj (hload.symm.trans loaded)
    exact ⟨rfl, rfl⟩

end Exec

/-! ## Turns -/

namespace Machine

variable {m : Machine} {column : Nat} {e : Expr} {name : String}

theorem saves_of_tick (hnext : m.upcoming? = some (.command column (.save e)))
    (hname : (Exec.value e m).1 = .ok (.text name)) (hok : (tick m).1 = .ok true) :
    ∃ path, Shelf.save m.disk m.settings.disks name m.program.listingAll true =
      (.ok path, (tick m).2.disk) := by
  rw [tick_of_upcoming? hnext] at hok ⊢
  cases htrace : showTrace m with
  | mk r m₁ =>
    rw [htrace] at hok
    cases r with
    | error h => cases hok
    | ok u =>
      simp only [Exec.instr] at hok ⊢
      cases hrun : Exec.command column (.save e) (m₁.atStatement m.position) with
      | mk r m₂ =>
        rw [hrun] at hok
        cases r with
        | error h => cases hok
        | ok u =>
          obtain ⟨htyped, hsave⟩ := Exec.typed_of_save hrun
          obtain rfl : m = m₁ := congrArg Prod.snd ((showTrace_of_typed htyped).symm.trans htrace)
          exact Exec.saves_of_saveFile (m := m.atStatement m.position)
            ((value_atStatement e m).trans hname) hsave

theorem takes_load_of_tick (hnext : m.upcoming? = some (.command column (.load e)))
    (htyped : m.position.line = none) (hname : (Exec.value e m).1 = .ok (.text name)) {p : Program}
    (hload : (m.library.load m.statementRoom name).1.bind (Program.load (m.statementRoom - 1)) =
      .ok p) :
    (tick m).1 = .ok true ∧ (tick m).2.program = p := by
  obtain ⟨hok, hprogram⟩ := Exec.command_load (m := m.atStatement m.position) column htyped
    ((value_atStatement e m).trans hname) hload
  rw [tick_of_upcoming? hnext, showTrace_of_typed htyped]
  simp only [Exec.instr]
  cases hrun : Exec.command column (.load e) (m.atStatement m.position) with
  | mk r m' =>
    rw [hrun] at hok hprogram
    obtain rfl : r = .ok () := hok
    exact ⟨rfl, hprogram⟩

end Machine

namespace Session

open Machine

/-- **A program that was saved is loaded again.**

If SAVE of a name succeeds in any session, then LOAD of that name succeeds in any session with the
same settings and the disk that SAVE has left, and the program is the one that was saved. It takes
lines without line ends in them that are not nested too deeply for the calls that LOAD may open, a
name that is no address on the network and, if the name has no directory in it, that the first file
of that name in the current directory, with or without an ending, is the one that was saved, if
there is one. -/
theorem load_restores_saved {settings : Settings} {s t : Session} {column column' : Nat}
    {e e' : Expr} {name : String} (h : Reached settings s)
    (hsave : s.machine.upcoming? = some (.command column (.save e)))
    (hname : (Exec.value e s.machine).1 = .ok (.text name)) (hsaved : (tick s.machine).1 = .ok true)
    (hload : t.machine.upcoming? = some (.command column' (.load e')))
    (htyped : t.machine.position.line = none)
    (hname' : (Exec.value e' t.machine).1 = .ok (.text name))
    (hdisk : t.machine.disk = s.next.machine.disk)
    (hsettings : t.machine.settings = s.machine.settings)
    (hlines : ∀ l ∈ s.machine.program.lines, Text.OneLine l.source.toList)
    (hshallow : ∀ l ∈ s.machine.program.lines, l.Shallow (t.machine.statementRoom - 2))
    (hlocal : Library.isRemote name = false)
    (hfree : Shelf.Unshadowed t.machine.disk t.machine.settings.disks (Text.strip name)) :
    (tick t.machine).1 = .ok true ∧ t.next.machine.program = s.machine.program := by
  obtain ⟨path, hshelf⟩ := saves_of_tick hsave hname hsaved
  have horderly := h.safe.keeps.built.orderly
  have hsettled : s.machine.program.Orderly
      (ProgramLine.Settled (t.machine.statementRoom - 1 - 1)) :=
    ⟨horderly.ascending, fun l hl => ⟨(horderly.lines l hl).parsed (hshallow l hl), hlines l hl⟩⟩
  have hkept : Shelf.save s.machine.disk t.machine.library.disks name
      s.machine.program.listingAll true = (.ok path, t.machine.library.disk) := by
    rw [library, hsettings, hdisk, (program_next s).2]
    exact hshelf
  obtain ⟨hok, hprogram⟩ := takes_load_of_tick hload htyped hname'
    (Library.load_of_save hsettled hkept hlocal hfree)
  exact ⟨hok, (program_next t).1.trans hprogram⟩

/-- The session after a line was typed at the prompt. -/
def typed (text : String) (s : Session) : Session := entered text s.edited (accept text s.machine)

/-- The settings with one disk. -/
def oneDisk : Settings := ⟨⟨[("D0", "programs")]⟩⟩

/-- A new machine with files in the current directory, and with so many calls to spare. -/
def stocked (files : List (Route × ByteArray)) (spare : Nat) : Session :=
  ⟨.prompt, false, { (init oneDisk).machine with disk := { files }, spare }⟩

/-- A session in which a line was typed and is to be saved. -/
def saving (s : Session) (line name : String) : Session :=
  typed ("SAVE \"" ++ name ++ "\"") (typed line s)

/-- It was saved and cleared, and is to be loaded. -/
def loading (s : Session) (line name : String) : Session :=
  typed ("LOAD \"" ++ name ++ "\"") (typed "NEW" (saving s line name).next.next).next.next

theorem reached_stocked (files : List (Route × ByteArray)) (spare : Nat) :
    Reached oneDisk (stocked files spare) :=
  .tail .refl (.world ⟨_, { files }, _, _, _, _, _, spare, _, rfl⟩)

theorem reached_saving {s : Session} {line : String} (h : Reached oneDisk s)
    (hprompt : s.phase = .prompt) (hprompt' : (typed line s).phase = .prompt) (name : String) :
    Reached oneDisk (saving s line name) :=
  (h.entered hprompt line).entered hprompt' _

/-- The name that an instruction saves or loads a program by, if it is written out. -/
def fileName? : Instr → Option (Bool × String)
  | .command _ (.save (.literal _ (.text name))) => some (true, name)
  | .command _ (.load (.literal _ (.text name))) => some (false, name)
  | _ => none

theorem eq_ok_of_toOption {ε α : Type} {x : Except ε α} {a : α} (h : x.toOption = some a) :
    x = .ok a := by
  cases x with
  | error e => cases h
  | ok b => exact congrArg Except.ok (Option.some.inj h)

theorem exists_file {i : Option Instr} {saves : Bool} {name : String}
    (h : i.bind fileName? = some (saves, name)) :
    ∃ column place, i = some (.command column (bif saves then .save (.literal place (.text name))
      else .load (.literal place (.text name)))) := by
  obtain ⟨i, rfl, hi⟩ := Option.bind_eq_some_iff.mp h
  unfold fileName? at hi
  split at hi
  · cases hi
    exact ⟨_, _, rfl⟩
  · cases hi
    exact ⟨_, _, rfl⟩
  · cases hi

/-- A line with a letter of two bytes in it is saved. -/
def accentSaved : Session := saving (stocked [] 926) "10 ?\"é\"" "X"

/-- It is loaded. -/
def accentLoaded : Session := loading (stocked [] 926) "10 ?\"é\"" "X"

theorem load_restores_saved_accent :
    accentSaved.machine.program.listingAll = ["10 PRINT \"é\""] ∧
      accentLoaded.machine.program.listingAll = [] ∧
      (tick accentLoaded.machine).1 = .ok true ∧
      accentLoaded.next.machine.program = accentSaved.machine.program := by
  have hfacts : (accentSaved.machine.program.listingAll = ["10 PRINT \"é\""] ∧
        accentLoaded.machine.program.listingAll = []) ∧
      (accentSaved.machine.upcoming?.bind fileName? = some (true, "X") ∧
        accentLoaded.machine.upcoming?.bind fileName? = some (false, "X") ∧
        (typed "10 ?\"é\"" (stocked [] 926)).phase = .prompt ∧
        accentLoaded.machine.position.line = none ∧
        (tick accentSaved.machine).1.toOption = some true) ∧
      (accentSaved.machine.program.lines.map (fun l => l.source) = ["PRINT \"é\""] ∧
        accentSaved.machine.program.lines.map (fun l => (Parser.parseLine
          (accentLoaded.machine.statementRoom - 2) l.listed).isOk) = [true]) ∧
      (accentLoaded.machine.disk.home = accentSaved.next.machine.disk.home ∧
        accentLoaded.machine.disk.directories = accentSaved.next.machine.disk.directories ∧
        accentLoaded.machine.disk.files = accentSaved.next.machine.disk.files ∧
        accentLoaded.machine.settings.values.entries =
          accentSaved.machine.settings.values.entries) ∧
      (nameEndings.map (Text.strip "X" ++ ·)).find?
        (fun path => accentLoaded.machine.disk.isFile path) = none := by
    decide +kernel
  obtain ⟨⟨hlisted, hcleared⟩, ⟨hsaves, hloads, hprompt, htyped, hsaved⟩, ⟨hsources, hread⟩,
    ⟨hhome, hmade, hfiles, hsettings⟩, halone⟩ := hfacts
  obtain ⟨_, _, hsave⟩ := exists_file hsaves
  obtain ⟨_, _, hload⟩ := exists_file hloads
  have hlines : ∀ l ∈ accentSaved.machine.program.lines, Text.OneLine l.source.toList := by
    intro l hl
    have hsource := List.mem_map_of_mem (f := fun l => l.source) hl
    rw [hsources, List.mem_singleton] at hsource
    simp [hsource, Text.OneLine, Text.isLineEnd]
  have hshallow : ∀ l ∈ accentSaved.machine.program.lines,
      l.Shallow (accentLoaded.machine.statementRoom - 2) := by
    intro l hl e he
    have hok := List.mem_map_of_mem (f := fun l : ProgramLine =>
      (Parser.parseLine (accentLoaded.machine.statementRoom - 2) l.listed).isOk) hl
    rw [hread, he] at hok
    simp [Except.isOk, Except.toBool] at hok
  have hreached : Reached oneDisk accentSaved :=
    reached_saving (reached_stocked [] 926) rfl hprompt "X"
  exact ⟨hlisted, hcleared, load_restores_saved hreached hsave
    (congrArg Prod.fst (Exec.run_value_literal ..))
    (eq_ok_of_toOption hsaved) hload htyped
    (congrArg Prod.fst (Exec.run_value_literal ..)) ((Disk.mk.injEq ..).mpr ⟨hhome, hmade, hfiles⟩)
    (congrArg (fun entries => Settings.mk ⟨entries⟩) hsettings) hlines hshallow (by decide +kernel)
    fun _ _ h => absurd (h.symm.trans halone) (Option.some_ne_none _)⟩

/-- The program is not loaded if the name is an address, if the current directory holds a file of
that name, if a remark holds a line end, or if a line is nested so deeply that it can just be
typed. -/
theorem load_misses_saved :
    (tick (saving (stocked [] 926) "10 ?1" "http://x").machine).1.toOption = some true ∧
    (tick (loading (stocked [] 926) "10 ?1" "http://x").machine).1.toOption = none ∧
    (tick (saving (stocked [(["home", "X"], "10 END\n".toUTF8)] 926) "10 ?1"
      "X").machine).1.toOption =
      some true ∧
    (loading (stocked [(["home", "X"], "10 END\n".toUTF8)] 926) "10 ?1"
      "X").next.machine.program.listingAll =
      ["10 END"] ∧
    (tick (saving (stocked [] 926) "10 REM a\u2028b" "X").machine).1.toOption = some true ∧
    (tick (loading (stocked [] 926) "10 REM a\u2028b" "X").machine).1.toOption = none ∧
    (tick (saving (stocked [] 0) "10 ?(((((--1)))))" "X").machine).1.toOption = some true ∧
    (tick (loading (stocked [] 0) "10 ?(((((--1)))))" "X").machine).1.toOption = none := by
  decide +kernel

end Session

end LineBasic
