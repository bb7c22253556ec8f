import Mathlib
import LineBasic.Proofs.Characters
import LineBasic.Proofs.PrintColumn
import LineBasic.Proofs.QuotedText

/-!
# Replies to INPUT

INPUT takes one reply for all its targets. A reply that does not fit is answered with a line of its
own, and another one is asked for; nothing is stored before a reply fits as a whole. The items are
read from left to right, and a number that is too large for its variable is an error at once, even
if an item behind it is no number at all.

* `Reply.Takes`, `Reply.Misfits`, `Reply.Overflows`: what an item is to a variable of a kind.
* `Reply.Accepted`, `Reply.Rejected`: what a reply is to variables. `replyValues_eq_some_iff`,
  `replyValues_eq_none_iff`: that is how replies are read.
* `Machine.redone`: the machine after some replies did not fit. `Exec.inputLoop_redone`: INPUT gets
  there.
* `Exec.input_redoes`: the main result.
-/

namespace LineBasic

open Text (outside)

/-! ## Items -/

namespace Reply

/-- The number that an item stands for, if it is one. -/
def number? (item : String) : Option Float := Floating.ofText? (Text.trim item.toList)

/-- An item is to be a number, and is not blank. -/
def Numeric (kind : Kind) (item : String) : Prop := kind ≠ .text ∧ Text.trim item.toList ≠ []

/-- The item is no number, but has to be one. -/
def Misfits (kind : Kind) (item : String) : Prop := Numeric kind item ∧ number? item = none

/-- The item is a number that is too large for the variable. -/
def Overflows (kind : Kind) (item : String) : Prop :=
  Numeric kind item ∧ ∃ x e, number? item = some x ∧ kind.precision.fit x = .error e

/-- The value that a variable of a kind takes from an item: its text without blanks and quotes
around it, zero for a blank item, or its number. -/
inductive Takes (kind : Kind) (item : String) : Value → Prop where
  | text (text : kind = .text) : Takes kind item (.text (unquote (Text.strip item)))
  | blank (number : kind ≠ .text) (blank : Text.trim item.toList = []) : Takes kind item
      (.single 0.0)
  | number {x : Float} {v : Value} (numeric : Numeric kind item) (number : number? item = some x)
      (fits : kind.precision.fit x = .ok v) : Takes kind item v

end Reply

open Reply

section Items

variable {kind : Kind} {item : String}

theorem replyItem_of_text (h : kind = .text) :
    replyItem kind item = .ok (some (.text (unquote (Text.strip item)))) := by
  unfold replyItem
  simp only [if_pos h]

theorem isEmpty_strip (item : String) :
    (Text.strip item).isEmpty = true ↔ Text.trim item.toList = [] := by
  rw [String.isEmpty_iff, Text.strip, ← String.toList_inj, String.toList_ofList]
  rfl

theorem replyItem_of_blank (hkind : kind ≠ .text) (h : Text.trim item.toList = []) :
    replyItem kind item = .ok (some (.single 0.0)) := by
  unfold replyItem
  simp only [if_neg hkind, if_pos ((isEmpty_strip item).mpr h)]

theorem replyItem_of_numeric (h : Numeric kind item) : replyItem kind item =
    match number? item with
    | none => .ok none
    | some x => (kind.precision.fit x).map some := by
  have hnumber : Floating.ofText? (Text.trim (Text.strip item).toList) = number? item := by
    rw [Text.strip, String.toList_ofList, Text.trim_trim]
    rfl
  unfold replyItem
  simp only [if_neg h.1, if_neg ((isEmpty_strip item).not.mpr h.2)]
  cases hx : number? item with
  | none => simp only [readNumber, hnumber, hx]
  | some x => simp only [readNumber, hnumber, hx]

/-- An item is text or blank, and then it is taken, or it has to be a number. -/
theorem takes_or_numeric (kind : Kind) (item : String) :
    (∃ v, Takes kind item v ∧ replyItem kind item = .ok (some v) ∧ ¬Numeric kind item) ∨
      Numeric kind item := by
  by_cases hkind : kind = .text
  · exact .inl ⟨_, .text hkind, replyItem_of_text hkind, fun h => h.1 hkind⟩
  · by_cases hblank : Text.trim item.toList = []
    · exact .inl ⟨_, .blank hkind hblank, replyItem_of_blank hkind hblank, fun h => h.2 hblank⟩
    · exact .inr ⟨hkind, hblank⟩

theorem replyItem_eq_none_iff : replyItem kind item = .ok none ↔ Misfits kind item := by
  rcases takes_or_numeric kind item with ⟨v, -, heq, hnot⟩ | hnumeric
  · rw [heq]
    exact ⟨nofun, fun h => absurd h.1 hnot⟩
  · rw [replyItem_of_numeric hnumeric]
    cases hx : number? item with
    | none => exact ⟨fun _ => ⟨hnumeric, hx⟩, fun _ => rfl⟩
    | some x =>
      refine ⟨fun h => ?_, fun h => ?_⟩
      · cases hfit : kind.precision.fit x <;> simp [hfit, Except.map] at h
      · rw [h.2] at hx
        cases hx

theorem replyItem_eq_some_iff {v : Value} :
    replyItem kind item = .ok (some v) ↔ Takes kind item v := by
  constructor
  · intro h
    rcases takes_or_numeric kind item with ⟨w, htakes, heq, -⟩ | hnumeric
    · obtain rfl := Option.some.inj (Except.ok.inj (heq.symm.trans h))
      exact htakes
    · rw [replyItem_of_numeric hnumeric] at h
      cases hx : number? item with
      | none =>
        rw [hx] at h
        cases h
      | some x =>
        cases hfit : kind.precision.fit x with
        | error e => simp [hx, hfit, Except.map] at h
        | ok w =>
          obtain rfl : w = v := by simpa [hx, hfit, Except.map] using h
          exact .number hnumeric hx hfit
  · intro h
    cases h with
    | text htext => exact replyItem_of_text htext
    | blank hkind hblank => exact replyItem_of_blank hkind hblank
    | number hnumeric hx hfit =>
      rw [replyItem_of_numeric hnumeric, hx]
      simp [hfit, Except.map]

theorem replyItem_eq_error_iff : (∃ e, replyItem kind item = .error e) ↔ Overflows kind item := by
  constructor
  · rintro ⟨e, h⟩
    rcases takes_or_numeric kind item with ⟨v, -, heq, -⟩ | hnumeric
    · rw [heq] at h
      cases h
    · rw [replyItem_of_numeric hnumeric] at h
      cases hx : number? item with
      | none =>
        rw [hx] at h
        cases h
      | some x =>
        cases hfit : kind.precision.fit x with
        | error e => exact ⟨hnumeric, x, e, hx, hfit⟩
        | ok v => simp [hx, hfit, Except.map] at h
  · rintro ⟨hnumeric, x, e, hx, hfit⟩
    refine ⟨e, ?_⟩
    rw [replyItem_of_numeric hnumeric, hx]
    simp [hfit, Except.map]

end Items

/-! ## Replies -/

namespace Reply

/-- The items of a reply: one variable takes all of it, several take the pieces between commas
outside quotes. -/
def items (count : Nat) (reply : String) : List String :=
  if count = 1 then [reply] else commaPieces reply

/-- The reply has as many items as there are variables, and each of them takes its value from its
item. -/
structure Accepted (kinds : List Kind) (reply : String) (values : List Value) : Prop where
  count : (items kinds.length reply).length = kinds.length
  takes : List.Forall₂ (fun p v => Takes p.1 p.2 v) (kinds.zip (items kinds.length reply)) values

/-- An item is no number but has to be one, and no item in front of it is a number that is too
large. -/
inductive Spoiled : List (Kind × String) → Prop where
  | here {kind : Kind} {item : String} {pairs : List (Kind × String)}
      (misfits : Misfits kind item) :
      Spoiled ((kind, item) :: pairs)
  | later {kind : Kind} {item : String} {pairs : List (Kind × String)} (fits : ¬Overflows kind item)
      (rest : Spoiled pairs) : Spoiled ((kind, item) :: pairs)

/-- The reply has another number of items than there are variables, or it has as many and an item
does not fit. -/
def Rejected (kinds : List Kind) (reply : String) : Prop :=
  (items kinds.length reply).length ≠ kinds.length ∨
    (items kinds.length reply).length = kinds.length ∧
    Spoiled (kinds.zip (items kinds.length reply))

end Reply

section Items

variable {pairs : List (Kind × String)} {vs : List Value}

theorem replyItems_cons (kind : Kind) (item : String) (pairs : List (Kind × String)) :
    replyItems ((kind, item) :: pairs) = match replyItem kind item with
      | .error e => .error e
      | .ok none => .ok none
      | .ok (some v) => (replyItems pairs).map (Option.map (v :: ·)) := by
  rw [replyItems]
  rcases replyItem kind item with e | _ | v
  · rfl
  · rfl
  · cases replyItems pairs <;> rfl

theorem replyItems_eq_some_iff :
    replyItems pairs = .ok (some vs) ↔ List.Forall₂ (fun p v => Takes p.1 p.2 v) pairs vs := by
  induction pairs generalizing vs with
  | nil =>
    rw [List.forall₂_nil_left_iff, replyItems]
    simp [eq_comm]
  | cons p pairs ih =>
    obtain ⟨kind, item⟩ := p
    rw [replyItems_cons, List.forall₂_cons_left_iff]
    constructor
    · intro h
      rcases hitem : replyItem kind item with e | _ | v
      · rw [hitem] at h
        cases h
      · rw [hitem] at h
        cases h
      · rw [hitem] at h
        rcases hrest : replyItems pairs with e | _ | ws
        · simp [hrest, Except.map] at h
        · simp [hrest, Except.map] at h
        · obtain rfl : v :: ws = vs := by simpa [hrest, Except.map] using h
          exact ⟨v, ws, replyItem_eq_some_iff.mp hitem, ih.mp hrest, rfl⟩
    · rintro ⟨v, ws, htakes, hrest, rfl⟩
      rw [replyItem_eq_some_iff.mpr htakes, ih.mpr hrest]
      rfl

theorem replyItems_eq_none_iff : replyItems pairs = .ok none ↔ Spoiled pairs := by
  induction pairs with
  | nil => exact ⟨nofun, nofun⟩
  | cons p pairs ih =>
    obtain ⟨kind, item⟩ := p
    rw [replyItems_cons]
    rcases hitem : replyItem kind item with e | _ | v
    · have hoverflows := replyItem_eq_error_iff.mp ⟨e, hitem⟩
      refine ⟨nofun, fun h => ?_⟩
      cases h with
      | here misfits => cases hitem.symm.trans (replyItem_eq_none_iff.mpr misfits)
      | later fits => exact absurd hoverflows fits
    · exact ⟨fun _ => .here (replyItem_eq_none_iff.mp hitem), fun _ => rfl⟩
    · have hfits : ¬Overflows kind item := by
        intro hoverflows
        obtain ⟨e, herror⟩ := replyItem_eq_error_iff.mpr hoverflows
        cases hitem.symm.trans herror
      constructor
      · intro h
        refine .later hfits (ih.mp ?_)
        rcases hrest : replyItems pairs with e | _ | ws
        · simp [hrest, Except.map] at h
        · rfl
        · simp [hrest, Except.map] at h
      · intro h
        cases h with
        | here misfits => cases hitem.symm.trans (replyItem_eq_none_iff.mpr misfits)
        | later _ rest =>
          rw [ih.mpr rest]
          rfl

end Items

section Values

variable {kinds : List Kind} {reply : String} {vs : List Value}

theorem replyValues_eq (kinds : List Kind) (reply : String) : replyValues kinds reply =
    if (items kinds.length reply).length = kinds.length then
      replyItems (kinds.zip (items kinds.length reply))
    else .ok none := rfl

/-- A reply that is accepted is read as its values, and no other one is. -/
theorem replyValues_eq_some_iff : replyValues kinds reply = .ok (some vs) ↔
    Accepted kinds reply vs := by
  rw [replyValues_eq]
  split
  · rename_i hcount
    rw [replyItems_eq_some_iff]
    exact ⟨fun h => ⟨hcount, h⟩, fun h => h.takes⟩
  · rename_i hcount
    exact ⟨nofun, fun h => absurd h.count hcount⟩

/-- A reply that is rejected is read as none, and no other one is. -/
theorem replyValues_eq_none_iff : replyValues kinds reply = .ok none ↔ Rejected kinds reply := by
  rw [replyValues_eq]
  split
  · rename_i hcount
    rw [replyItems_eq_none_iff]
    exact ⟨fun h => .inr ⟨hcount, h⟩, fun h => (h.resolve_left (not_not_intro hcount)).2⟩
  · rename_i hcount
    exact ⟨fun _ => .inl hcount, fun _ => rfl⟩

end Values

/-- The pieces of a reply are those of the relation, joined with commas they are the reply, and
there is one more of them than there are commas outside quotes. -/
theorem commaPieces_spec (reply : String) :
    CutAtCommas reply.toList ((commaPieces reply).map String.toList) ∧
      ",".intercalate (commaPieces reply) = reply ∧
    (commaPieces reply).length = (outside false reply.toList).count ',' + 1 := by
  have hpieces : (commaPieces reply).map String.toList = commaPiecesFrom false [] reply.toList := by
    rw [commaPieces, List.map_map]
    exact (List.map_congr_left fun p _ => String.toList_ofList).trans (List.map_id _)
  have hcut := commaPiecesFrom_eq_iff.mp hpieces.symm
  refine ⟨hcut, ?_, ?_⟩
  · rw [← String.toList_inj, String.toList_intercalate]
    exact hcut.intercalate_eq
  · rw [← hcut.length_eq, List.length_map]

/-! ## Asking again -/

namespace Terminal

/-- What shows of replies that do not fit, the last of them first: each time the prompt, and a line
that says to begin again. -/
def redoEvents (prompt : String) (times : Nat) : List Event :=
  (List.replicate times [.text "?REDO FROM START\n", .prompt prompt]).flatten

theorem redoEvents_succ (prompt : String) (times : Nat) (es : List Event) :
    redoEvents prompt times ++ (redoEvents prompt 1 ++ es) =
      redoEvents prompt (times + 1) ++ es := by
  have hsucc : redoEvents prompt (times + 1) = redoEvents prompt times ++ redoEvents prompt 1 := by
    unfold redoEvents
    rw [List.replicate_succ', List.flatten_append]
    rfl
  rw [hsucc, List.append_assoc]

/-- The terminal after some replies did not fit, with others waiting. -/
def redone (prompt : String) (times : Nat) (replies : List Reply) (t : Terminal) : Terminal :=
  { t with events := redoEvents prompt times ++ t.events, replies, writes := t.writes + times }

/-- A request to break arrives with one of the next writes. -/
def breaksWithin (t : Terminal) (times : Nat) : Bool :=
  t.request.any fun r => t.writes < r.write && r.write ≤ t.writes + times

theorem breaksWithin_zero (t : Terminal) : t.breaksWithin 0 = false := by
  unfold breaksWithin
  cases t.request <;> simp

theorem breaksWithin_one (t : Terminal) (s : String) :
    (t.write s).arrived.isSome = t.breaksWithin 1 := by
  unfold arrived write breaksWithin
  cases t.request with
  | none => rfl
  | some r =>
    rw [Option.isSome_filter, Option.any_some, Option.any_some, ← Bool.decide_and]
    refine decide_eq_decide.mpr ?_
    simp only
    omega

theorem redone_succ (prompt : String) (times : Nat) (rest replies : List Reply) (t : Terminal) :
    (t.redone prompt 1 rest).redone prompt times replies = t.redone prompt (times + 1) replies := by
  unfold redone
  simp only [redoEvents_succ, Nat.add_assoc, Nat.add_comm 1]

theorem breaksWithin_succ (prompt : String) (times : Nat) (rest : List Reply) (t : Terminal) :
    (t.breaksWithin 1 || (t.redone prompt 1 rest).breaksWithin times) =
      t.breaksWithin (times + 1) := by
  unfold breaksWithin redone
  cases t.request with
  | none => rfl
  | some r =>
    simp only [Option.any_some, ← Bool.decide_and, ← Bool.decide_or]
    refine decide_eq_decide.mpr ?_
    omega

end Terminal

namespace Machine

/-- The machine with other replies waiting. -/
def awaiting (replies : List Reply) (m : Machine) : Machine :=
  { m with terminal := { m.terminal with replies } }

/-- The machine with another terminal, a break that was asked for or not, and the cursor
elsewhere. -/
def showing (t : Terminal) (breakPending : Bool) (column : Nat) (m : Machine) : Machine :=
  { m with terminal := t, breakPending, column }

/-- The machine after a reply was given: the cursor is at the start of a line. -/
def asked (prompt : String) (m : Machine) : Machine :=
  m.showing (m.terminal.ask prompt).2 m.breakPending 0

/-- The machine after some replies did not fit, with others waiting. Nothing has changed but the
terminal and the cursor, and a request to break may have arrived. -/
def redone (prompt : String) (times : Nat) (replies : List Reply) (m : Machine) : Machine :=
  m.showing (m.terminal.redone prompt times replies)
    (m.breakPending || m.terminal.breaksWithin times)
    (if times = 0 then m.column else 0)

theorem redone_zero (prompt : String) (m : Machine) : m.redone prompt 0 m.terminal.replies = m := by
  unfold redone
  rw [Terminal.breaksWithin_zero, Bool.or_false]
  rfl

theorem redone_succ (prompt : String) (times : Nat) (rest replies : List Reply) (m : Machine) :
    (m.redone prompt 1 rest).redone prompt times replies = m.redone prompt (times + 1) replies := by
  change m.showing ((m.terminal.redone prompt 1 rest).redone prompt times replies)
    ((m.breakPending || m.terminal.breaksWithin 1) ||
      (m.terminal.redone prompt 1 rest).breaksWithin times)
    (if times = 0 then 0 else 0) = _
  rw [Terminal.redone_succ, Bool.or_assoc, Terminal.breaksWithin_succ, ite_self]
  rfl

end Machine

namespace Exec

variable {m : Machine} {prompt : String} {targets : List Target} {n : Nat} {reply : String}
  {rest : List Reply}

/-- The kinds of the targets. -/
def kindsOf (targets : List Target) (m : Machine) : List Kind :=
  targets.map fun t => m.memory.store.kindOf t.name

theorem inputLoop_line (hreply : m.terminal.replies = .line reply :: rest) :
    inputLoop prompt targets (n + 1) m = taken prompt targets n (kindsOf targets m) reply
      (m.asked prompt) := by
  rw [inputLoop, run_get_bind, Machine.asked, ask_eq, hreply]
  rfl

/-- A reply that does not fit. -/
theorem inputLoop_rejected (hrunning : m.running = true)
    (hreply : m.terminal.replies = .line reply :: rest) (h : Rejected (kindsOf targets m) reply) :
    inputLoop prompt targets (n + 1) m = inputLoop prompt targets n (m.redone prompt 1 rest) := by
  have hwritten : ((m.terminal.ask prompt).2.write "?REDO FROM START\n") =
      m.terminal.redone prompt 1 rest := by
    rw [ask_eq, hreply]
    rfl
  have hbreak : (m.terminal.ask prompt).2.breaksWithin 1 = m.terminal.breaksWithin 1 := by
    rw [ask_eq]
    rfl
  rw [inputLoop_line hreply, taken, replyValues_eq_none_iff.mpr h]
  change (write "?REDO FROM START\n" >>= fun _ => inputLoop prompt targets n) (m.asked prompt) = _
  rw [run_bind, run_write (m := m.asked prompt) hrunning]
  change inputLoop prompt targets n
    (m.showing ((m.terminal.ask prompt).2.write "?REDO FROM START\n")
    (m.breakPending || ((m.terminal.ask prompt).2.write "?REDO FROM START\n").arrived.isSome)
    (advanceColumn 0 "?REDO FROM START\n")) = _
  rw [Terminal.breaksWithin_one, hbreak, hwritten]
  rfl

/-- A reply that fits. -/
theorem inputLoop_accepted {values : List Value} (hreply : m.terminal.replies = .line reply :: rest)
    (h : Accepted (kindsOf targets m) reply values) :
    inputLoop prompt targets (n + 1) m = assignAll (targets.zip values) (m.asked prompt) := by
  rw [inputLoop_line hreply, taken, replyValues_eq_some_iff.mpr h]
  rfl

/-- Any number of replies that do not fit. -/
theorem inputLoop_redone (hrunning : m.running = true) {rejected : List String} {next : List Reply}
    (hreplies : m.terminal.replies = rejected.map .line ++ next)
    (h : ∀ r ∈ rejected, Rejected (kindsOf targets m) r) :
    inputLoop prompt targets (rejected.length + n) m =
      inputLoop prompt targets n (m.redone prompt rejected.length next) := by
  induction rejected generalizing m with
  | nil =>
    obtain rfl : m.terminal.replies = next := hreplies
    rw [List.length_nil, Machine.redone_zero, Nat.zero_add]
  | cons r rejected ih =>
    rw [List.map_cons, List.cons_append] at hreplies
    rw [List.length_cons, Nat.add_right_comm, inputLoop_rejected hrunning hreplies
      (h r List.mem_cons_self), ih (m := m.redone prompt 1 _) hrunning rfl fun r' hr' =>
      h r' (List.mem_cons_of_mem r hr'), Machine.redone_succ]

/-- The machine that took some replies which do not fit is in other surroundings than one that was
given none of them. -/
theorem asked_redone (prompt : String) (times : Nat) (next : List Reply) (m : Machine) :
    (m.redone prompt times next).asked prompt = ((m.awaiting next).asked prompt).amid
      ⟨((m.terminal.redone prompt times next).ask prompt).2,
        m.breakPending || m.terminal.breaksWithin times, m.lastError, m.notices⟩ := rfl

/-- The text that INPUT asks with. -/
def promptText (prompt : String) (question : Bool) : String :=
  prompt ++ if question then "? " else ""

theorem command_input (column : Nat) (prompt : String) (targets : List Target) (question : Bool)
    (m : Machine) :
    command column (.input prompt targets question) m =
      inputLoop (promptText prompt question) targets (m.terminal.replies.length + 1) m := by
  change input prompt targets question m = _
  rw [input, run_get_bind]
  rfl

/-- **INPUT takes one reply that fits, and the others leave no trace but at the terminal.** Behind
replies that do not fit INPUT goes on as on a machine that has asked for each of them and has
written as many times that it begins again; nothing else of the machine has changed, but a request
to break may have arrived with one of the writes. With a reply that fits it ends as on a machine
that was given only that reply, the surroundings aside: the values that the variables take from the
items are stored from left to right. For several targets the items are the pieces between the commas
outside quotes. -/
theorem input_redoes (hrunning : m.running = true) (column : Nat) (prompt : String)
    (targets : List Target) (question : Bool) {rejected : List String} {next : List Reply}
    (hreplies : m.terminal.replies = rejected.map .line ++ next)
    (hrejected : ∀ r ∈ rejected, Rejected (kindsOf targets m) r) :
    command column (.input prompt targets question) m =
      command column (.input prompt targets question)
      (m.redone (promptText prompt question) rejected.length next) ∧
    ∀ reply rest values, next = .line reply :: rest → Accepted (kindsOf targets m) reply values →
      command column (.input prompt targets question) m =
        ((command column (.input prompt targets question) (m.awaiting next)).1,
          (command column (.input prompt targets question) (m.awaiting next)).2.amid
            ⟨((m.terminal.redone (promptText prompt question) rejected.length next).ask
              (promptText prompt question)).2,
              m.breakPending || m.terminal.breaksWithin rejected.length, m.lastError,
              m.notices⟩) ∧
      command column (.input prompt targets question) (m.awaiting next) =
        assignAll (targets.zip values) ((m.awaiting next).asked (promptText prompt question)) ∧
      (targets.length ≠ 1 → Reply.items targets.length reply = commaPieces reply ∧
        (commaPieces reply).length = targets.length ∧
        CutAtCommas reply.toList ((commaPieces reply).map String.toList) ∧
          ",".intercalate (commaPieces reply) = reply ∧
        (commaPieces reply).length = (outside false reply.toList).count ',' + 1) := by
  have hredone : command column (.input prompt targets question) m =
    command column (.input prompt targets question)
      (m.redone (promptText prompt question) rejected.length next) := by
    rw [command_input, command_input, hreplies, List.length_append, List.length_map, Nat.add_assoc]
    exact inputLoop_redone hrunning hreplies hrejected
  refine ⟨hredone, ?_⟩
  rintro reply rest values rfl haccepted
  have hone : command column (.input prompt targets question) (m.awaiting (.line reply :: rest)) =
      assignAll (targets.zip values)
      ((m.awaiting (.line reply :: rest)).asked (promptText prompt question)) := by
    rw [command_input]
    exact inputLoop_accepted (m := m.awaiting (.line reply :: rest)) rfl haccepted
  refine ⟨?_, hone, fun hseveral => ?_⟩
  · have hlast : command column (.input prompt targets question)
        (m.redone (promptText prompt question) rejected.length (.line reply :: rest)) =
        assignAll (targets.zip values)
          ((m.redone (promptText prompt question) rejected.length (.line reply :: rest)).asked
            (promptText prompt question)) := by
      rw [command_input]
      exact inputLoop_accepted (m := m.redone _ _ (.line reply :: rest)) rfl haccepted
    rw [hredone, hlast, hone, asked_redone]
    exact (silent_assignAll _).blind _ _
  · have hitems : Reply.items targets.length reply = commaPieces reply := if_neg hseveral
    have hcount := haccepted.count
    rw [kindsOf, List.length_map, hitems] at hcount
    exact ⟨hitems, hcount, commaPieces_spec reply⟩

/-- A machine that runs, with replies waiting. -/
def waiting (replies : List String) : Machine :=
  { Machine.new default with running := true, terminal := { replies := replies.map .line } }

/-- INPUT for two numbers. -/
def twoNumbers : List Target := [.scalar 7 "A", .scalar 9 "B"]

theorem rejected_of_isNone {kinds : List Kind} {reply : String}
    (h : (replyValues kinds reply).toOption.map Option.isNone = some true) :
    Rejected kinds reply := by
  rcases hvalues : replyValues kinds reply with e | _ | vs
  · rw [hvalues] at h
    cases h
  · exact replyValues_eq_none_iff.mp hvalues
  · rw [hvalues] at h
    cases h

theorem accepted_of_isSome {kinds : List Kind} {reply : String}
    (h : (replyValues kinds reply).toOption.map Option.isSome = some true) :
    ∃ values, Accepted kinds reply values := by
  rcases hvalues : replyValues kinds reply with e | _ | vs
  · rw [hvalues] at h
    cases h
  · rw [hvalues] at h
    cases h
  · exact ⟨vs, replyValues_eq_some_iff.mp hvalues⟩

theorem input_redoes_twoNumbers :
    (∀ r ∈ ["1", "1,X"], Rejected (kindsOf twoNumbers (waiting ["1", "1,X", "1,2"])) r) ∧
    ∃ values, Accepted (kindsOf twoNumbers (waiting ["1", "1,X", "1,2"])) "1,2" values ∧
      (command 1 (.input "" twoNumbers true) (waiting ["1", "1,X", "1,2"])).1 =
        (command 1 (.input "" twoNumbers true)
          ((waiting ["1", "1,X", "1,2"]).awaiting [.line "1,2"])).1 := by
  have hrejected : ∀ r ∈ ["1", "1,X"],
      Rejected (kindsOf twoNumbers (waiting ["1", "1,X", "1,2"])) r := by
    simp only [List.forall_mem_cons, List.not_mem_nil, false_imp_iff, implies_true, and_true]
    exact ⟨rejected_of_isNone (by decide +kernel), rejected_of_isNone (by decide +kernel)⟩
  have hsome : (replyValues (kindsOf twoNumbers (waiting ["1", "1,X", "1,2"])) "1,2").toOption.map
    Option.isSome =
      some true := by
    decide +kernel
  have hreplies : (waiting ["1", "1,X", "1,2"]).terminal.replies = ["1", "1,X"].map .line ++
      [.line "1,2"] := rfl
  obtain ⟨values, haccepted⟩ := accepted_of_isSome hsome
  obtain ⟨-, hlast⟩ := input_redoes rfl 1 "" twoNumbers true hreplies hrejected
  have hresult := congrArg Prod.fst (hlast _ _ _ rfl haccepted).1
  exact ⟨hrejected, values, haccepted, hresult⟩

/-- **A number that is too large hides an item that does not fit.** The second item of the reply is
no number, but INPUT fails because of the first one, and does not ask again. -/
theorem input_overflows_misfit : Misfits .single "X" ∧ Reply.items 2 "1E99,X" = ["1E99", "X"] ∧
    (command 1 (.input "" twoNumbers true) (waiting ["1E99,X", "1,2"])).1 =
      .error (.fault (.error (.of .overflow))) ∧
    (command 1 (.input "" twoNumbers true) (waiting ["1E99,X", "1,2"])).2.terminal.events =
      [.prompt "? "] := by
  refine ⟨⟨⟨by decide, by decide +kernel⟩, Option.isNone_iff_eq_none.mp (by decide +kernel)⟩, ?_⟩
  decide +kernel

end Exec

end LineBasic
