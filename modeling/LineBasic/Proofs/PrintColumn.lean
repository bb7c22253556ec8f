import Mathlib
import LineBasic.Proofs.Sessions
import LineBasic.Proofs.SilentCommands

/-!
# The column of the cursor

The machine follows the cursor by itself and never looks at what the terminal shows. A watch is a
session beside which everything is kept that was written since the cursor was last put at the start
of a line: the column that the machine believes in is the length of the last line of it, unless a
report was cut short.

* `Sheet`, `Sheet.column`: what was written, and where the cursor really is.
* `Machine.Follows`, `Machine.follows_tick`: every turn keeps the column in step with what it shows.
* `Machine.Tells`: what is done at the prompt does, unless the report that it shows is cut short.
* `Watch`, `Watch.Reached`: sessions with a sheet. `Watch.exists_reached`: every session has one.
* `Exec.print_append`: PRINT writes what its parts write one after the other.
* `Watch.column_follows`: the main result.
-/

namespace LineBasic

/-! ## Columns -/

namespace Text

/-- The characters after the last line feed. -/
def lastLine (cs : List Char) : List Char := (cs.reverse.takeWhile (· != '\n')).reverse

theorem length_lastLine_eq_iff (cs : List Char) : (lastLine cs).length = cs.length ↔ '\n' ∉ cs := by
  rw [lastLine, List.length_reverse]
  constructor
  · intro hlength hmem
    have heq := (List.takeWhile_sublist (· != '\n') (l := cs.reverse)).eq_of_length
      (by rw [hlength, List.length_reverse])
    simpa using List.takeWhile_eq_self_iff.mp heq '\n' (List.mem_reverse.mpr hmem)
  · intro hmem
    have hall : ∀ c ∈ cs.reverse, (c != '\n') = true := by
      intro c hc
      simpa using fun hfeed : c = '\n' => hmem (hfeed ▸ List.mem_reverse.mp hc)
    rw [List.takeWhile_eq_self_iff.mpr hall, List.length_reverse]

theorem lastLine_append (as bs : List Char) :
    lastLine (as ++ bs) = if '\n' ∈ bs then lastLine bs else lastLine as ++ bs := by
  have hfeed := length_lastLine_eq_iff bs
  simp only [lastLine, List.length_reverse] at hfeed ⊢
  rw [List.reverse_append, List.takeWhile_append, List.length_reverse]
  by_cases hmem : '\n' ∈ bs
  · rw [if_pos hmem, if_neg fun hlength => hfeed.mp hlength hmem]
  · rw [if_neg hmem, if_pos (hfeed.mpr hmem), List.reverse_append, List.reverse_reverse]

end Text

open Text

theorem advanceColumn_eq (column : Nat) (s : String) : advanceColumn column s =
    if '\n' ∈ s.toList then (lastLine s.toList).length else column + s.length := by
  have hfeed := length_lastLine_eq_iff s.toList
  rw [lastLine, List.length_reverse, String.length_toList] at hfeed
  simp only [advanceColumn, lastLine, List.length_reverse]
  by_cases hmem : '\n' ∈ s.toList
  · rw [if_pos hmem, if_neg fun hlength => hfeed.mp hlength hmem]
  · rw [if_neg hmem, if_pos (hfeed.mpr hmem)]

theorem advanceColumn_append (column : Nat) (a b : String) :
    advanceColumn column (a ++ b) = advanceColumn (advanceColumn column a) b := by
  simp only [advanceColumn_eq, String.toList_append, lastLine_append, List.mem_append,
    String.length_append]
  by_cases hb : '\n' ∈ b.toList
  · simp [hb]
  · by_cases ha : '\n' ∈ a.toList
    · simp [ha, hb, String.length_toList]
    · simp [ha, hb, Nat.add_assoc]

/-! ## What was written -/

/-- What was written since the cursor was last put at the start of a line by anything but a line
feed, and whether a report was cut short since the last line feed. -/
structure Sheet where
  written : List Char := []
  torn : Bool := false

namespace Sheet

/-- Where the cursor is: as many characters were written since the last line feed. -/
def column (sheet : Sheet) : Nat := (lastLine sheet.written).length

/-- The sheet after a text was written. -/
def write (sheet : Sheet) (s : String) : Sheet where
  written := sheet.written ++ s.toList
  torn := sheet.torn && !s.toList.contains '\n'

/-- The sheet after a line was asked for: with the reply, the cursor goes to the start of a line. -/
def answer (sheet : Sheet) : Option Reply → Sheet
  | some (.line _) => {}
  | some .interrupt | none => sheet

end Sheet

/-- What an event at the terminal does to the replies that wait and to the sheet. -/
def Event.on : Event → List Reply × Sheet → List Reply × Sheet
  | .text s, (replies, sheet) => (replies, sheet.write s)
  | .clear, (replies, _) => (replies, {})
  | .prompt _, (replies, sheet) => (replies.tail, sheet.answer replies.head?)
  | .shutdown, before => before

/-- The sheet after what the terminal has shown since. -/
def Sheet.shown (sheet : Sheet) (t t' : Terminal) : Sheet :=
  ((t'.events.take (t'.events.length - t.events.length)).foldr Event.on (t.replies, sheet)).2

namespace Machine

variable {m m' m'' : Machine} {sheet : Sheet}

/-- The machine knows where the cursor is, unless a report was cut short. -/
def Fits (m : Machine) (sheet : Sheet) : Prop := sheet.torn = false → m.column = sheet.column

theorem Fits.write (h : m.Fits sheet) {s : String}
    (hcolumn : m'.column = advanceColumn m.column s) :
    m'.Fits (sheet.write s) := by
  intro htorn
  rw [hcolumn, advanceColumn_eq, Sheet.column, Sheet.write, lastLine_append]
  by_cases hfeed : '\n' ∈ s.toList
  · simp [hfeed]
  · have hwhole : sheet.torn = false := by simpa [Sheet.write, hfeed] using htorn
    simp [hfeed, h hwhole, Sheet.column, String.length_toList]

/-- What was shown is accounted for: the column of the cursor has followed it. -/
structure Follows (m m' : Machine) : Prop where
  running : m'.running = m.running
  shown : ∃ new, m'.terminal.events = new ++ m.terminal.events ∧ ∀ sheet, m.Fits sheet →
    ∃ sheet', new.foldr Event.on (m.terminal.replies, sheet) = (m'.terminal.replies, sheet') ∧
    m'.Fits sheet'

theorem follows_of_same (hterminal : m'.terminal = m.terminal) (hcolumn : m'.column = m.column)
    (hrunning : m'.running = m.running) : m.Follows m' := by
  refine ⟨hrunning, [], by rw [hterminal, List.nil_append], fun sheet hfits =>
    ⟨sheet, by rw [hterminal]; rfl, ?_⟩⟩
  rw [Fits, hcolumn]
  exact hfits

theorem Follows.trans (h : m.Follows m') (h' : m'.Follows m'') : m.Follows m'' := by
  obtain ⟨new, hnew, hshown⟩ := h.shown
  obtain ⟨new', hnew', hshown'⟩ := h'.shown
  refine ⟨h'.running.trans h.running, new' ++ new, by rw [hnew', hnew, List.append_assoc],
    fun sheet hfits => ?_⟩
  obtain ⟨sheet', hsheet', hfits'⟩ := hshown sheet hfits
  obtain ⟨sheet'', hsheet'', hfits''⟩ := hshown' sheet' hfits'
  exact ⟨sheet'', by rw [List.foldr_append, hsheet', hsheet''], hfits''⟩

theorem Follows.fits (h : m.Follows m') (hfits : m.Fits sheet) :
    m'.Fits (sheet.shown m.terminal m'.terminal) := by
  obtain ⟨new, hnew, hshown⟩ := h.shown
  obtain ⟨sheet', hsheet', hfits'⟩ := hshown sheet hfits
  have htake : m'.terminal.events.take (m'.terminal.events.length - m.terminal.events.length) =
      new := by
    rw [hnew, List.length_append, Nat.add_sub_cancel, List.take_left]
  rw [Sheet.shown, htake, hsheet']
  exact hfits'

/-- While a program runs, what is shown is accounted for. -/
def InStep (m m' : Machine) : Prop := m.running = true → m.Follows m'

instance : IsPreorder Machine InStep where
  refl _ _ := follows_of_same rfl rfl rfl
  trans _ _ _ h h' hrunning := (h hrunning).trans (h' ((h hrunning).running.trans hrunning))

end Machine

/-! ## What is shown while a program runs -/

namespace Exec

open Machine

variable {α : Type} {m : Machine}

/-- While a program runs, writing succeeds. -/
theorem run_write (h : m.running = true) (s : String) : write s m = (.ok (), { m with
    terminal := m.terminal.write s
    breakPending := m.breakPending || (m.terminal.write s).arrived.isSome
    column := advanceColumn m.column s }) := by
  unfold write ofAct
  rw [run_bind, run_writeRaw]
  cases (m.terminal.write s).arrived with
  | none => simp only [Option.isSome_none, Bool.or_false]; rfl
  | some request =>
    cases request with
    | signal n => simp only [Option.isSome_some, Bool.or_true]; rfl
    | key n => simp only [h, Option.isSome_some, Bool.or_true, if_true]; rfl

theorem inStep_write (s : String) : Moves InStep (write s) := by
  intro m hrunning
  rw [run_write hrunning]
  exact ⟨rfl, [.text s], rfl, fun sheet hfits => ⟨sheet.write s, rfl, hfits.write rfl⟩⟩

theorem Silent.inStep {x : Exec α} (h : Silent x) : Moves InStep x := fun m _ =>
  follows_of_same (congrArg Surroundings.terminal (h.blind.kept m)) (h.cursor m).column
    (h.cursor m).running

theorem inStep_writeLines (lines : List String) : Moves InStep (writeLines lines) := by
  induction lines with
  | nil => exact moves_pure ()
  | cons line lines ih => exact (inStep_write _).bind fun _ => ih

/-! ## PRINT -/

theorem silent_itemText (item : PrintItem) : Silent (itemText item) := by
  cases item with
  | value e => exact (silent_value e).bind fun v => silent_pure _
  | semicolon => exact silent_pure _
  | comma => exact silent_get (fun _ _ => rfl) fun m => silent_pure _

theorem blind_itemTexts (items : List PrintItem) : Blind (itemTexts items) := by
  induction items with
  | nil => exact (silent_pure _).blind
  | cons item items ih =>
    intro o
    refine ((silent_itemText item).blind o).bind fun text =>
      .bind (commutes_modify fun _ => rfl) fun _ => ?_
    exact (ih o).bind fun texts => commutes_pure _

/-- The cursor follows the texts. -/
theorem column_itemTexts {items : List PrintItem} {texts : List String} {m' : Machine}
    (h : itemTexts items m = (.ok texts, m')) :
    m'.column = advanceColumn m.column (String.join texts) := by
  induction items generalizing m texts with
  | nil =>
    obtain ⟨htexts, rfl⟩ := Prod.mk.inj h
    obtain rfl := Except.ok.inj htexts
    simp [String.join, advanceColumn]
  | cons item items ih =>
    rw [itemTexts, run_bind] at h
    cases hitem : itemText item m with
    | mk r m₁ =>
      rw [hitem] at h
      cases r with
      | error e => cases (Prod.mk.inj h).1
      | ok text =>
        have hcolumn : m₁.column = m.column := by
          simpa [hitem] using ((silent_itemText item).cursor m).column
        simp only at h
        rw [run_modify_bind, run_bind] at h
        cases hrest : itemTexts items { m₁ with column := advanceColumn m₁.column text } with
        | mk r m₂ =>
          rw [hrest] at h
          cases r with
          | error e => cases (Prod.mk.inj h).1
          | ok rest =>
            obtain ⟨htexts, rfl⟩ := Prod.mk.inj h
            obtain rfl := Except.ok.inj htexts
            rw [ih hrest, String.join_cons, advanceColumn_append, hcolumn]

theorem inStep_print (items : List PrintItem) : Moves InStep (print items) := by
  refine .bind (fun m _ => ?_) fun texts => inStep_write _
  exact follows_of_same (congrArg Surroundings.terminal ((blind_itemTexts items).kept m)) rfl
    (computes_itemTexts (R := SameSetup) items m).running

/-- The machine after PRINT has written a text, the cursor having been at the given column. -/
def printed (m : Machine) (column : Nat) (s : String) : Machine :=
  { m with
    terminal := m.terminal.write s
    breakPending := m.breakPending || (m.terminal.write s).arrived.isSome
    column := advanceColumn column s }

theorem run_print_ok {items : List PrintItem} {texts : List String} {m' : Machine}
    (hrunning : m.running = true) (h : itemTexts items m = (.ok texts, m')) :
    print items m =
      (.ok (), printed m' m.column (String.join texts ++ if endsLine items then "\n" else "")) := by
  have hstill : m'.running = m.running := by
    simpa [h] using (computes_itemTexts (R := SameSetup) items m).running
  unfold print keepColumn
  rw [run_bind, h]
  exact run_write (m := { m' with column := m.column }) (hstill.trans hrunning) _

/-- An error among the items leaves nothing on the screen and the cursor where it was. -/
theorem run_print_error {items : List PrintItem} {e : Halt} {m' : Machine}
    (h : itemTexts items m = (.error e, m')) :
    print items m = (.error e, { m' with column := m.column }) := by
  unfold print keepColumn
  rw [run_bind, h]

theorem kept_of_print_error {items : List PrintItem} {e : Halt} {m' : Machine}
    (hrunning : m.running = true) (h : print items m = (.error e, m')) :
    m'.terminal = m.terminal ∧ m'.column = m.column := by
  have hkept := congrArg Surroundings.terminal ((blind_itemTexts items).kept m)
  cases hitems : itemTexts items m with
  | mk r m₁ =>
    rw [hitems] at hkept
    cases r with
    | error e =>
      obtain ⟨-, rfl⟩ := Prod.mk.inj ((run_print_error hitems).symm.trans h)
      exact ⟨hkept, rfl⟩
    | ok texts => cases (Prod.mk.inj ((run_print_ok hrunning hitems).symm.trans h)).1

theorem itemTexts_append (xs ys : List PrintItem) : itemTexts (xs ++ ys) = do
    let first ← itemTexts xs
    let second ← itemTexts ys
    return first ++ second := by
  induction xs with
  | nil => simp [itemTexts]
  | cons item items ih => simp [itemTexts, ih]

theorem ok_of_itemTexts_append {xs ys : List PrintItem} {texts : List String} {m' : Machine}
    (h : itemTexts (xs ++ ys) m = (.ok texts, m')) :
    ∃ first second m₁, itemTexts xs m = (.ok first, m₁) ∧ itemTexts ys m₁ = (.ok second, m') ∧
      texts = first ++ second := by
  rw [itemTexts_append, run_bind] at h
  cases hxs : itemTexts xs m with
  | mk r m₁ =>
    rw [hxs] at h
    cases r with
    | error e => cases (Prod.mk.inj h).1
    | ok first =>
      simp only [run_bind] at h
      cases hys : itemTexts ys m₁ with
      | mk r m₂ =>
        rw [hys] at h
        cases r with
        | error e => cases (Prod.mk.inj h).1
        | ok second =>
          obtain ⟨htexts, rfl⟩ := Prod.mk.inj h
          exact ⟨first, second, m₁, rfl, hys, (Except.ok.inj htexts).symm⟩

theorem itemTexts_semicolon {xs : List PrintItem} {texts : List String} {m' : Machine}
    (h : itemTexts xs m = (.ok texts, m')) :
    itemTexts (xs ++ [.semicolon]) m = (.ok (texts ++ [""]), m') := by
  have hcolumn : advanceColumn m'.column "" = m'.column := by simp [advanceColumn]
  have hlast : itemTexts [.semicolon] m' =
      (.ok [""], { m' with column := advanceColumn m'.column "" }) := rfl
  rw [hcolumn] at hlast
  rw [itemTexts_append, run_bind, h]
  simp only [run_bind]
  rw [hlast]
  rfl

theorem ok_of_print {items : List PrintItem} {m' : Machine} (hrunning : m.running = true)
    (h : print items m = (.ok (), m')) :
    ∃ texts m₁, itemTexts items m = (.ok texts, m₁) ∧
      m' = printed m₁ m.column (String.join texts ++ if endsLine items then "\n" else "") := by
  cases hitems : itemTexts items m with
  | mk r m₁ =>
    cases r with
    | error e => cases (Prod.mk.inj ((run_print_error hitems).symm.trans h)).1
    | ok texts =>
      exact ⟨texts, m₁, rfl, (Prod.mk.inj ((run_print_ok hrunning hitems).symm.trans h)).2.symm⟩

theorem endsLine_append {xs ys : List PrintItem} (h : ys ≠ []) :
    endsLine (xs ++ ys) = endsLine ys := by
  rw [endsLine, List.getLast?_append_of_ne_nil xs h, ← endsLine]

/-- **PRINT writes what its parts write one after the other.** -/
theorem print_append {xs ys : List PrintItem} {m' : Machine} (hrunning : m.running = true)
    (hne : ys ≠ []) (h : print (xs ++ ys) m = (.ok (), m')) :
    ∃ first second m₁ m₂, print (xs ++ [.semicolon]) m = (.ok (), m₁) ∧ print ys m₁ = (.ok (), m₂) ∧
      m₁.terminal.events = .text first :: m.terminal.events ∧
      m₂.terminal.events = .text second :: m₁.terminal.events ∧
      m'.terminal.events = .text (first ++ second) :: m.terminal.events ∧
      m₂ = { m' with terminal := m₂.terminal, breakPending := m₂.breakPending } := by
  obtain ⟨texts, b, hitems, rfl⟩ := ok_of_print hrunning h
  obtain ⟨first, second, a, hxs, hys, rfl⟩ := ok_of_itemTexts_append hitems
  have hkept : a.surroundings = m.surroundings := by simpa [hxs] using (blind_itemTexts xs).kept m
  have hkept' : b.surroundings = a.surroundings := by simpa [hys] using (blind_itemTexts ys).kept a
  have hstill : a.running = m.running := by
    simpa [hxs] using (computes_itemTexts (R := SameSetup) xs m).running
  have hcolumn := column_itemTexts hxs
  have hjoin : ∀ l l' : List String, String.join (l ++ l') = String.join l ++ String.join l' := by
    intro l l'
    simp
  have hhead : print (xs ++ [.semicolon]) m = (.ok (), printed a m.column (String.join first)) := by
    rw [run_print_ok hrunning (itemTexts_semicolon hxs), endsLine_append (by simp), hjoin]
    simp [endsLine]
  -- the second part finds the machine as the whole PRINT does after the first items, but for what
  -- was written
  have hfound : itemTexts ys (printed a m.column (String.join first)) =
      (.ok second, b.amid (printed a m.column (String.join first)).surroundings) := by
    have hblind := blind_itemTexts ys (printed a m.column (String.join first)).surroundings a
    rw [hys] at hblind
    rw [← hblind, printed, ← hcolumn]
    rfl
  have hrunning' : (printed a m.column (String.join first)).running = true := hstill.trans hrunning
  have hterminal : a.terminal = m.terminal := congrArg Surroundings.terminal hkept
  have hterminal' : b.terminal = m.terminal :=
    (congrArg Surroundings.terminal hkept').trans hterminal
  have hlast : b.lastError = a.lastError := congrArg Surroundings.lastError hkept'
  have hnotices : b.notices = a.notices := congrArg Surroundings.notices hkept'
  refine ⟨String.join first, _, _, _, hhead, run_print_ok hrunning' hfound, ?_, rfl, ?_, ?_⟩
  · rw [printed, hterminal]
    rfl
  · rw [printed, hterminal', endsLine_append hne, hjoin, String.append_assoc]
    rfl
  · have hadvanced :
        advanceColumn m.column
        (String.join (first ++ second) ++ if endsLine (xs ++ ys) then "\n" else "") =
          advanceColumn (printed a m.column (String.join first)).column
            (String.join second ++ if endsLine ys then "\n" else "") := by
      rw [endsLine_append hne, hjoin, String.append_assoc, advanceColumn_append]
      rfl
    simp only [printed, amid, surroundings] at hadvanced ⊢
    rw [hadvanced, hlast, hnotices]

/-! ## INPUT -/

theorem ask_eq (t : Terminal) (prompt : String) : t.ask prompt =
    (t.replies.head?,
      { t with events := .prompt prompt :: t.events, replies := t.replies.tail }) := by
  unfold Terminal.ask
  cases t.replies <;> rfl

/-- A line was asked for, and the cursor is where the reply leaves it. -/
theorem follows_ask {m m' : Machine} {prompt : String}
    (hterminal : m'.terminal = (m.terminal.ask prompt).2) (hrunning : m'.running = m.running)
    (hfits : ∀ sheet, m.Fits sheet → m'.Fits (sheet.answer m.terminal.replies.head?)) :
    m.Follows m' := by
  rw [ask_eq] at hterminal
  refine ⟨hrunning, [.prompt prompt], by rw [hterminal]; rfl, fun sheet h => ⟨_, ?_, hfits sheet h⟩⟩
  rw [hterminal]
  rfl

theorem inStep_inputLoop (prompt : String) (targets : List Target) (n : Nat) :
    Moves InStep (inputLoop prompt targets n) := by
  induction n with
  | zero => exact moves_crash _
  | succ n ih =>
    refine moves_get fun m hrunning => ?_
    rw [ask_eq]
    simp only
    cases hreply : m.terminal.replies.head? with
    | none => exact follows_ask (by rw [ask_eq]; rfl) rfl fun sheet h => by rw [hreply]; exact h
    | some reply =>
      cases reply with
      | interrupt =>
        exact follows_ask (by rw [ask_eq]; rfl) rfl fun sheet h => by rw [hreply]; exact h
      | line s =>
        have hasked : m.Follows { m with terminal := (m.terminal.ask prompt).2, column := 0 } :=
          follows_ask rfl rfl fun sheet _ => by rw [hreply]; exact fun _ => rfl
        rw [ask_eq] at hasked
        have hrest : Moves InStep
            (taken prompt targets n (targets.map fun t => m.memory.store.kindOf t.name) s) := by
          refine (moves_lift _).bind fun values => ?_
          cases values with
          | some values => exact (silent_assignAll _).inStep
          | none => exact (inStep_write _).bind fun _ => ih
        exact hasked.trans (hrest _ hrunning)

theorem inStep_input (prompt : String) (targets : List Target) (question : Bool) :
    Moves InStep (input prompt targets question) :=
  moves_get fun m => inStep_inputLoop _ targets _ m

/-! ## Turns -/

theorem inStep_renumber (newStart oldStart step : Option Nat) :
    Moves InStep (renumber newStart oldStart step) := by
  refine silent_requireDirect.inStep.bind fun _ => moves_get fun m _ => ?_
  cases m.program.renumberDefault m.statementRoom newStart oldStart step with
  | mk result missing => cases result <;> exact follows_of_same rfl rfl rfl

/-- What a command shows is accounted for. -/
theorem inStep_command (column : Nat) (c : Command) : Moves InStep (command column c) := by
  cases hsilent : c.isSilent with
  | true => exact (silent_command hsilent column).inStep
  | false =>
    cases c with
    | print items => exact inStep_print items
    | input prompt targets question => exact inStep_input prompt targets question
    | cls => exact moves_modify fun m _ => ⟨rfl, [.clear], rfl, fun _ _ => ⟨{}, rfl, fun _ => rfl⟩⟩
    | list first last => exact moves_get fun m => inStep_writeLines _ m
    | renumber newStart oldStart step => exact inStep_renumber newStart oldStart step
    | _ => cases hsilent

theorem inStep_instr (i : Instr) : Moves InStep (instr i) := by
  cases i with
  | command column c => exact inStep_command column c
  | branch column condition target => exact (silent_branch column condition target).inStep
  | jump column target => exact (silent_jumpTo (some target)).inStep

end Exec

namespace Machine

variable {m : Machine}

theorem follows_showTrace (h : m.running = true) : m.Follows (showTrace m).2 := by
  unfold showTrace
  rw [run_get_bind]
  cases m.position.line with
  | none => exact follows_of_same rfl rfl rfl
  | some n =>
    simp only
    split
    · exact Exec.inStep_write _ m h
    · exact follows_of_same rfl rfl rfl

theorem follows_statement (h : m.running = true) {i : Instr} {r : Except Halt Unit}
    {m₁ m₂ : Machine} (htrace : showTrace m = (.ok (), m₁))
    (hrun : Exec.instr i (m₁.atStatement m.position) = (r, m₂)) :
    m.Follows m₂ := by
  have hshown := follows_showTrace h
  rw [htrace] at hshown
  have hbegun : m.Follows (m₁.atStatement m.position) := hshown.trans (follows_of_same rfl rfl rfl)
  have hexecuted := Exec.inStep_instr i (m₁.atStatement m.position) (hbegun.running.trans h)
  rw [hrun] at hexecuted
  exact hbegun.trans hexecuted

/-- **What a turn shows is accounted for.** -/
theorem follows_tick (h : m.running = true) : m.Follows (tick m).2 := by
  have hturn := turn_tick m
  generalize tick m = r at hturn
  cases hturn with
  | missing | typedEnd | programEnd | lineEnd | broken => exact follows_of_same rfl rfl rfl
  | cut _ _ _ trace => simpa [trace] using follows_showTrace h
  | executed _ _ _ trace run | halted _ _ _ trace run => exact follows_statement h trace run

/-! ## At the prompt -/

/-- Nothing was shown, or a text that ends a line; then the cursor is at the start of a line, unless
the interrupt key was struck. -/
inductive Tells (m : Machine) {α : Type} : Except Crash α × Machine → Prop where
  | nothing {r : Except Crash α} {m' : Machine} (terminal : m'.terminal = m.terminal)
      (column : m'.column = m.column) :
      Tells m (r, m')
  | line {r : Except Crash α} {m' : Machine} {s : String}
      (terminal : m'.terminal = m.terminal.write (s ++ "\n"))
      (column : m'.column = 0 ∨ r = .error .interruptKey) : Tells m (r, m')

end Machine

/-- The sheet after something was done at the prompt: with the interrupt key, a report is cut
short. -/
def Sheet.told {α : Type} (sheet : Sheet) (m : Machine) (r : Except Crash α × Machine) : Sheet :=
  match r.1 with
  | .error .interruptKey => { sheet.shown m.terminal r.2.terminal with torn := true }
  | _ => sheet.shown m.terminal r.2.terminal

namespace Sheet

variable {α : Type} {sheet : Sheet} {m : Machine} {r : Except Crash α × Machine}

theorem shown_self (sheet : Sheet) (t : Terminal) : sheet.shown t t = sheet := by
  simp [shown]

theorem shown_write (sheet : Sheet) (t : Terminal) (s : String) :
    sheet.shown t (t.write s) = sheet.write s := by
  simp [shown, Terminal.write, Event.on]

theorem told_eq (h : (sheet.told m r).torn = false) :
    r.1 ≠ .error .interruptKey ∧ sheet.told m r = sheet.shown m.terminal r.2.terminal := by
  unfold told at h ⊢
  split at h
  · cases h
  · rename_i hkey
    exact ⟨hkey, by simp only⟩

end Sheet

namespace Machine

variable {m m₀ : Machine} {α : Type} {sheet : Sheet}

theorem Tells.fits {r : Except Crash α × Machine} (h : m.Tells r) (hfits : m.Fits sheet) :
    r.2.Fits (sheet.told m r) := by
  intro htorn
  obtain ⟨hkey, htold⟩ := Sheet.told_eq htorn
  rw [htold] at htorn ⊢
  cases h with
  | nothing terminal column =>
    rw [terminal, Sheet.shown_self] at htorn ⊢
    rw [column]
    exact hfits htorn
  | @line r m' s terminal column =>
    rw [terminal, Sheet.shown_write, Sheet.column, Sheet.write, lastLine_append]
    rw [column.resolve_right hkey]
    simp [lastLine]

theorem writeRaw_cases (s : String) (m : Machine) : (writeRaw s m).2.terminal = m.terminal.write s ∧
    ((writeRaw s m).1 = .ok () ∨ (writeRaw s m).1 = .error .interruptKey) := by
  rw [run_writeRaw]
  cases (m.terminal.write s).arrived with
  | none => exact ⟨rfl, .inl rfl⟩
  | some request =>
    cases request with
    | signal n => exact ⟨rfl, .inl rfl⟩
    | key n =>
      simp only
      split
      · exact ⟨rfl, .inl rfl⟩
      · exact ⟨rfl, .inr rfl⟩

theorem tells_report (e : Error) (hterminal : m.terminal = m₀.terminal) :
    m₀.Tells (report e m) := by
  have hraw := writeRaw_cases (e.report m.column ++ "\n") { m with lastError := some e }
  have hrun : report e m = (do
      writeRaw (e.report m.column ++ "\n")
      modify fun m => { m with column := 0 } : Act Unit) { m with lastError := some e } := rfl
  rw [hrun, run_bind]
  generalize writeRaw (e.report m.column ++ "\n") { m with lastError := some e } = r at hraw
  obtain ⟨_ | _, m'⟩ := r
  · exact .line (hraw.1.trans (by rw [← hterminal])) (.inr (hraw.2.resolve_left nofun))
  · exact .line (hraw.1.trans (by rw [← hterminal])) (.inl rfl)

/-- What is done after it matters no more. -/
theorem Tells.bind_pure {x : Act Unit} (h : m₀.Tells (x m)) (a : α) :
    m₀.Tells ((do x; return a : Act α) m) := by
  rw [run_bind]
  generalize x m = r at h
  cases h with
  | @nothing r m' terminal column => cases r <;> exact .nothing terminal column
  | @line r m' s terminal column =>
    cases r with
    | error c => exact .line terminal (column.imp_right fun hkey => by rw [Except.error.inj hkey])
    | ok u => exact .line terminal (.inl (column.resolve_right nofun))

theorem tells_accept (text : String) (m : Machine) : m.Tells (accept text m) := by
  unfold accept
  split
  · exact (tells_report _ rfl).bind_pure _
  · rw [run_get_bind]
    cases Parser.parseLine (m.room - 1) text with
    | error f =>
      cases f with
      | error e => exact (tells_report e rfl).bind_pure _
      | crash c => exact .nothing rfl rfl
    | ok l =>
      simp only
      cases l.number with
      | some n => exact .nothing rfl rfl
      | none =>
        simp only
        split
        · exact .nothing rfl rfl
        · exact .nothing rfl rfl

theorem tells_load (text : String) (m : Machine) : m.Tells (load text m) := by
  unfold load
  rw [run_get_bind]
  cases Program.load (m.room - 2) text with
  | ok p => exact .nothing rfl rfl
  | error f =>
    cases f with
    | error e => exact (tells_report e rfl).bind_pure _
    | crash c => exact .nothing rfl rfl

theorem tells_prepare (line : Option Nat) (m : Machine) : m.Tells (prepare line m) := by
  have hsilent := Exec.silent_start line none
  have hterminal := congrArg Surroundings.terminal (hsilent.blind.kept { m with direct := #[] })
  have hcolumn := (hsilent.cursor { m with direct := #[] }).column
  unfold prepare
  generalize Exec.start line none { m with direct := #[] } = r at hterminal hcolumn
  obtain ⟨(_ | f) | u, m'⟩ := r
  · exact .nothing hterminal hcolumn
  · cases f with
    | error e => exact (tells_report e hterminal).bind_pure false
    | crash c => exact .nothing hterminal hcolumn
  · exact .nothing hterminal hcolumn

theorem tells_settle (r : Except Halt Unit) (m : Machine) : m.Tells (settle r m) := by
  rcases r with (_ | f) | u
  · exact .nothing rfl rfl
  · cases f with
    | error e =>
      exact tells_report
        (m := { m with running := false, resume := m.resumeAfter (.error (.fault (.error e))) }) e
          rfl
    | crash c => exact .nothing rfl rfl
  · exact .nothing rfl rfl

end Machine

/-! ## Watches -/

/-- A session, and the sheet that its machine writes on. -/
structure Watch where
  session : Session
  sheet : Sheet

namespace Watch

open Machine Session

/-- The sheet after a turn, and after the report if the run has stopped. -/
def turnSheet (sheet : Sheet) (m : Machine) : Except Halt Bool × Machine → Sheet
  | (.ok _, m') => sheet.shown m.terminal m'.terminal
  | (.error h, m') => (sheet.shown m.terminal m'.terminal).told m' (settle (.error h) m')

/-- One thing that can happen. Nothing that the world does counts as written; when the machine is
ready, the cursor goes to the start of a line. -/
inductive Step : Watch → Watch → Prop where
  | world {phase : Phase} {edited : Bool} {m m' : Machine} {sheet : Sheet}
      (elsewhere : m.Elsewhere m') :
      Step ⟨⟨phase, edited, m⟩, sheet⟩ ⟨⟨phase, edited, m'⟩, sheet⟩
  | enter (text : String) (edited : Bool) (m : Machine) (sheet : Sheet) :
      Step ⟨⟨.prompt, edited, m⟩, sheet⟩
      ⟨entered text edited (accept text m), sheet.told m (accept text m)⟩
  | load (text : String) (edited : Bool) (m : Machine) (sheet : Sheet) :
      Step ⟨⟨.prompt, edited, m⟩, sheet⟩ ⟨loaded edited (load text m), sheet.told m (load text m)⟩
  | start (line : Option Nat) (edited : Bool) (m : Machine) (sheet : Sheet) :
      Step ⟨⟨.prompt, edited, m⟩, sheet⟩ ⟨started (prepare line m), sheet.told m (prepare line m)⟩
  | ready (edited : Bool) (m : Machine) (sheet : Sheet) :
      Step ⟨⟨.prompt, edited, m⟩, sheet⟩ ⟨⟨.prompt, edited, (ready m).2⟩, {}⟩
  | turn (edited : Bool) (m : Machine) (sheet : Sheet) :
      Step ⟨⟨.running, edited, m⟩, sheet⟩ ⟨turned m edited (tick m), turnSheet sheet m (tick m)⟩
  | abandon (c : Crash) (edited : Bool) (m : Machine) (sheet : Sheet) :
      Step ⟨⟨.running, edited, m⟩, sheet⟩
      ⟨⟨.prompt, edited, (settle (.error (.fault (.crash c))) m).2⟩, sheet⟩

/-- A new machine, which has written nothing. -/
def init (settings : Settings) : Watch := ⟨.init settings, {}⟩

/-- What a watch that began with a new machine comes to. -/
def Reached (settings : Settings) : Watch → Prop := Relation.ReflTransGen Step (init settings)

/-- **Every session can be watched.** -/
theorem exists_reached {settings : Settings} {s : Session} (h : s.Reached settings) :
    ∃ sheet, Reached settings ⟨s, sheet⟩ := by
  induction h with
  | refl => exact ⟨{}, .refl⟩
  | tail _ step ih =>
    obtain ⟨sheet, ih⟩ := ih
    cases step with
    | world elsewhere => exact ⟨_, ih.tail (.world elsewhere)⟩
    | enter text edited m => exact ⟨_, ih.tail (.enter text edited m sheet)⟩
    | load text edited m => exact ⟨_, ih.tail (.load text edited m sheet)⟩
    | start line edited m => exact ⟨_, ih.tail (.start line edited m sheet)⟩
    | ready edited m => exact ⟨_, ih.tail (.ready edited m sheet)⟩
    | turn edited m => exact ⟨_, ih.tail (.turn edited m sheet)⟩
    | abandon c edited m => exact ⟨_, ih.tail (.abandon c edited m sheet)⟩

theorem Reached.session {settings : Settings} {w : Watch} (h : Reached settings w) :
    w.session.Reached settings := by
  induction h with
  | refl => exact .refl
  | tail _ step ih =>
    cases step with
    | world elsewhere => exact ih.tail (.world elsewhere)
    | enter text edited m => exact ih.tail (.enter text edited m)
    | load text edited m => exact ih.tail (.load text edited m)
    | start line edited m => exact ih.tail (.start line edited m)
    | ready edited m => exact ih.tail (.ready edited m)
    | turn edited m => exact ih.tail (.turn edited m)
    | abandon c edited m => exact ih.tail (.abandon c edited m)

/-- The machine knows where the cursor is, and it runs while the session does. -/
structure InOrder (w : Watch) : Prop where
  fits : w.session.machine.Fits w.sheet
  running : w.session.phase = .running → w.session.machine.running = true

theorem Step.inOrder {w w' : Watch} (hstep : Step w w') (h : w.InOrder) : w'.InOrder := by
  cases hstep with
  | world elsewhere =>
    obtain ⟨_, _, _, _, _, _, _, _, _, rfl⟩ := elsewhere
    exact ⟨h.fits, h.running⟩
  | enter text edited m sheet =>
    have hfits := (tells_accept text m).fits h.fits
    generalize accept text m = r at hfits
    obtain ⟨_ | _ | _ | _, m'⟩ := r
    · exact ⟨hfits, nofun⟩
    · exact ⟨hfits, nofun⟩
    · exact ⟨hfits, nofun⟩
    · exact ⟨hfits, fun _ => rfl⟩
  | load text edited m sheet =>
    have hfits := (tells_load text m).fits h.fits
    generalize Machine.load text m = r at hfits
    obtain ⟨_ | _ | _, m'⟩ := r <;> exact ⟨hfits, nofun⟩
  | start line edited m sheet =>
    have hfits := (tells_prepare line m).fits h.fits
    generalize prepare line m = r at hfits
    obtain ⟨_ | _ | _, m'⟩ := r
    · exact ⟨hfits, nofun⟩
    · exact ⟨hfits, nofun⟩
    · exact ⟨hfits, fun _ => rfl⟩
  | ready edited m sheet => exact ⟨fun _ => rfl, nofun⟩
  | turn edited m sheet =>
    have hfollows := follows_tick (h.running rfl)
    generalize tick m = r at hfollows
    obtain ⟨e | _ | _, m'⟩ := r
    · exact ⟨(tells_settle _ m').fits (hfollows.fits h.fits), nofun⟩
    · exact ⟨hfollows.fits h.fits, nofun⟩
    · exact ⟨hfollows.fits h.fits, fun _ => hfollows.running.trans (h.running rfl)⟩
  | abandon c edited m sheet => exact ⟨h.fits, nofun⟩

theorem Reached.inOrder {settings : Settings} {w : Watch} (h : Reached settings w) : w.InOrder := by
  induction h with
  | refl =>
    rw [init, init_eq]
    exact ⟨fun _ => rfl, nofun⟩
  | tail _ step ih => exact step.inOrder ih

/-- **The column of the cursor is true, and PRINT composes.**

Every session can be watched, and as long as no report was cut short since the last line feed, the
column that the machine believes in is the number of characters that it has written since the last
line feed or since the cursor was put at the start of a line. A PRINT that succeeds writes what its
first items, followed by a semicolon, and then the other items write, and leaves the same machine
behind, the cursor included. A PRINT that fails writes nothing and leaves the cursor where it
was. -/
theorem column_follows {settings : Settings} {s : Session} (h : s.Reached settings) :
    (∃ sheet, Reached settings ⟨s, sheet⟩) ∧
    (∀ sheet, Reached settings ⟨s, sheet⟩ → sheet.torn = false → s.machine.column = sheet.column) ∧
    ∀ m : Machine, m.running = true →
      (∀ xs ys m', ys ≠ [] → Exec.print (xs ++ ys) m = (.ok (), m') →
        ∃ first second m₁ m₂, Exec.print (xs ++ [.semicolon]) m = (.ok (), m₁) ∧
          Exec.print ys m₁ = (.ok (), m₂) ∧
          m₁.terminal.events = .text first :: m.terminal.events ∧
          m₂.terminal.events = .text second :: m₁.terminal.events ∧
          m'.terminal.events = .text (first ++ second) :: m.terminal.events ∧
          m₂ = { m' with terminal := m₂.terminal, breakPending := m₂.breakPending }) ∧
      ∀ items e m', Exec.print items m = (.error e, m') → m'.terminal = m.terminal ∧
      m'.column = m.column := by
  refine ⟨exists_reached h, fun sheet hreached => hreached.inOrder.fits, fun m hrunning => ⟨?_, ?_⟩⟩
  · exact fun xs ys m' hne hprint => Exec.print_append hrunning hne hprint
  · exact fun items e m' hprint => Exec.kept_of_print_error hrunning hprint

/-- The watch after a line was typed at the prompt. -/
def typed (text : String) (w : Watch) : Watch :=
  ⟨entered text w.session.edited (accept text w.session.machine),
    w.sheet.told w.session.machine (accept text w.session.machine)⟩

/-- The watch after the next turn. -/
def next (w : Watch) : Watch :=
  ⟨w.session.next, turnSheet w.sheet w.session.machine (tick w.session.machine)⟩

theorem Reached.typed {settings : Settings} {w : Watch} (h : Reached settings w)
    (hprompt : w.session.phase = .prompt) (text : String) : Reached settings (w.typed text) := by
  obtain ⟨⟨phase, edited, m⟩, sheet⟩ := w
  obtain rfl : phase = .prompt := hprompt
  exact h.tail (.enter text edited m sheet)

theorem Reached.next {settings : Settings} {w : Watch} (h : Reached settings w)
    (hrunning : w.session.phase = .running) : Reached settings w.next := by
  obtain ⟨⟨phase, edited, m⟩, sheet⟩ := w
  obtain rfl : phase = .running := hrunning
  exact h.tail (.turn edited m sheet)

/-- A new machine, whose interrupt key may be struck while it writes. -/
def awaiting (request : Option BreakRequest) : Watch :=
  ⟨⟨.prompt, false, { (Session.init default).machine with terminal := { request } }⟩, {}⟩

theorem reached_awaiting (request : Option BreakRequest) : Reached default (awaiting request) :=
  .tail .refl (.world ⟨_, _, _, _, _, _, _, _, _, rfl⟩)

/-- After two lines, of which the second has not ended. -/
def printing : Watch := ((awaiting none).typed "PRINT \"A\":PRINT \"BC\";:CLS").next.next

theorem column_follows_printing :
    printing.sheet.written = "A\nBC".toList ∧ printing.session.machine.column = 2 ∧
      printing.session.machine.column = printing.sheet.column := by
  have hreached : Reached default printing :=
    (((reached_awaiting none).typed rfl _).next (by decide +kernel)).next (by decide +kernel)
  have hsession : printing.session.Reached default := hreached.session
  refine ⟨by decide +kernel, by decide +kernel, ?_⟩
  exact (column_follows hsession).2.1 printing.sheet hreached (by decide +kernel)

/-- A report that is cut short leaves the machine with a column where the cursor is not. -/
theorem column_misses_torn : ∃ w, Reached default w ∧ w.session.machine.column = 1 ∧
    w.sheet.column = 0 := by
  have hreached := reached_awaiting (some (.key 2))
  refine ⟨((awaiting (some (.key 2))).typed "PRINT \"A\";:GOTO 5").next.next,
    ?_, by decide +kernel, by decide +kernel⟩
  exact ((hreached.typed rfl _).next (by decide +kernel)).next (by decide +kernel)

end Watch

end LineBasic
