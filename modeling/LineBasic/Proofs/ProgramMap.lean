import Mathlib
import LineBasic.Proofs.Renumbering

/-!
# Programs as maps

A program is a map from line numbers to lines, and what is done to it is done to the map.

* `Program.content`: the map. `Program.eq_of_content`: programs with the same map are the same.
* `Program.Edit`: what is done to lines; `Program.Edit.makes`: what an edit puts under a number.
* `Program.content_apply`: an edit of a program is an edit of the map, number by number.
* `Program.Call`, `Program.after`: all that is done to a program, or asked of it.
-/

namespace LineBasic

/-! ## DATA items -/

mutual

/-- The DATA items of a statement, with those in its branches. -/
def Statement.items : Statement → List DataItem
  | .command _ (.data items) => items
  | .command _ _ => []
  | .branch _ _ thenPart elsePart => itemsIn thenPart ++ itemsIn elsePart

/-- The DATA items of statements. -/
def itemsIn : List Statement → List DataItem
  | [] => []
  | s :: ss => s.items ++ itemsIn ss

end

/-- The code of statements has their DATA items, in the same order. -/
theorem items_codeListAt (ss : List Statement) :
    ∀ index, (codeListAt index ss).flatMap ProgramLine.itemsOf = itemsIn ss := by
  refine itemsIn.induct
    (fun s => ∀ index, (s.codeAt index).flatMap ProgramLine.itemsOf = s.items)
    (fun ss => ∀ index, (codeListAt index ss).flatMap ProgramLine.itemsOf = itemsIn ss)
    ?_ ?_ ?_ ?_ ?_ ss
  · intro column items index
    rw [Statement.codeAt, List.flatMap_singleton]
    rfl
  · intro column c _ index
    rw [Statement.codeAt, List.flatMap_singleton]
    cases c <;> rfl
  · intro column condition thenPart elsePart hthen helse index
    cases elsePart with
    | nil =>
      rw [Statement.codeAt, List.flatMap_cons, hthen, Statement.items]
      simp [ProgramLine.itemsOf, itemsIn]
    | cons s elsePart =>
      rw [Statement.codeAt, Statement.items]
      simp only [List.flatMap_cons, List.cons_append, List.flatMap_append, hthen, helse,
        ProgramLine.itemsOf, List.nil_append]
  · intro index
    rfl
  · intro s ss hs hss index
    rw [codeListAt, itemsIn, List.flatMap_append, hs, hss]

/-- The line holds statements and their code. -/
structure ProgramLine.Coded (l : ProgramLine) : Prop where
  statements : l.statements ≠ []
  code : l.code = compile l.statements

theorem ProgramLine.Coded.eq_new {l : ProgramLine} (h : l.Coded) :
    l = .new l.number l.source l.statements := by
  rw [ProgramLine.new, ← h.code]

namespace Program

/-! ## Programs and maps -/

/-- What stands under each number: the text and the statements of a line. -/
abbrev Content := Nat → Option (String × List Statement)

/-- The map that a program is. -/
def content (p : Program) : Content := fun n => (p.line? n).map fun l => (l.source, l.statements)

/-! ## Programs in order -/

variable {p q : Program} {P : ProgramLine → Prop}

theorem Orderly.nodup (h : p.Orderly P) : p.lines.Nodup :=
  h.ascending.imp fun hlt heq => by rw [heq] at hlt; omega

theorem number_of_line? {n : Nat} {l : ProgramLine} (h : p.line? n = some l) : l.number = n := by
  simpa using List.find?_some h

/-- **A program is what its map holds.** -/
theorem Orderly.line?_eq (h : p.Orderly ProgramLine.Coded) (n : Nat) :
    p.line? n = (p.content n).map fun e => .new n e.1 e.2 := by
  unfold content
  cases hline : p.line? n with
  | none => rfl
  | some l =>
    obtain rfl := number_of_line? hline
    have hnew := (h.lines l (List.mem_of_find?_eq_some hline)).eq_new
    exact congrArg some hnew

/-- **Programs with the same map are the same.** -/
theorem eq_of_content (hp : p.Orderly ProgramLine.Coded) (hq : q.Orderly ProgramLine.Coded)
    (h : p.content = q.content) : p = q := by
  have hline : ∀ n, p.line? n = q.line? n := fun n => by rw [hp.line?_eq, hq.line?_eq, h]
  have hmem : ∀ l, l ∈ p.lines ↔ l ∈ q.lines := fun l =>
    ⟨fun hl => List.mem_of_find?_eq_some (hline l.number ▸ hp.line?_of_mem hl),
      fun hl => List.mem_of_find?_eq_some (hline l.number ▸ hq.line?_of_mem hl)⟩
  have hlines : p.lines = q.lines := by
    refine List.Perm.eq_of_pairwise (fun a b _ _ hab hba => ?_) hp.ascending hq.ascending
      ((List.perm_ext_iff_of_nodup hp.nodup hq.nodup).mpr hmem)
    omega
  cases p
  cases q
  exact congrArg Program.mk hlines

/-! ## Edits -/

theorem inRange_iff (first last : Option Nat) (n : Nat) :
    inRange first last n = true ↔ (∀ a ∈ first, a ≤ n) ∧ ∀ b ∈ last, n ≤ b := by
  cases first <;> cases last <;> simp [inRange]

/-- What can be done to the lines of a program. -/
inductive Edit where
  | store (number : Nat) (source : String) (statements : List Statement)
  | erase (number : Nat)
  | eraseRange (first last : Option Nat)
  | clear
  | load (room : Nat) (text : String)

/-- The program after an edit; a text that cannot be loaded changes nothing. -/
def Edit.apply (p : Program) : Edit → Program
  | .store number source statements => p.store number source statements
  | .erase number => p.erase number
  | .eraseRange first last => p.eraseRange first last
  | .clear => {}
  | .load room text => (Program.load room text).toOption.getD p

/-- The number, the text and the statements of a line of a file. -/
def numbered? (room : Nat) (raw : String) : Option (Nat × String × List Statement) :=
  match Parser.parseLine (room - 1) raw with
  | .ok l => l.number.map fun n => (n, l.source, l.statements)
  | .error _ => none

/-- The lines of a text; nothing if one of them, other than a blank one, has no number or cannot be
read. -/
def numberedLines? (room : Nat) (text : String) : Option (List (Nat × String × List Statement)) :=
  ((Text.lines text).filter fun raw => !Text.isAllBlank raw).mapM (numbered? room)

/-- What stands under the number of a line that was stored: nothing if it has no statements. -/
def held (source : String) (statements : List Statement) : Option (String × List Statement) :=
  if statements.isEmpty then none else some (source, statements)

/-- What a stored line puts under a number, if it is its own. -/
def puts (n : Nat) (l : Nat × String × List Statement) :
    Option (Option (String × List Statement)) :=
  if l.1 = n then some (held l.2.1 l.2.2) else none

/-- What an edit puts under a number, if it changes what stands there: a stored line, or nothing.
The lines of a text replace all that was there, and of those with the same number the last one
counts. -/
def Edit.makes (n : Nat) : Edit → Option (Option (String × List Statement))
  | .store number source statements => puts n (number, source, statements)
  | .erase number => if number = n then some none else none
  | .eraseRange first last => if (∀ a ∈ first, a ≤ n) ∧ ∀ b ∈ last, n ≤ b then some none else none
  | .clear => some none
  | .load room text =>
    (numberedLines? room text).map fun ls => (ls.reverse.findSome? (puts n)).getD none

theorem line?_place (l : ProgramLine) (ls : List ProgramLine) (n : Nat) :
    line? ⟨place l ls⟩ n = if l.number = n then some l else line? ⟨ls⟩ n := by
  unfold line?
  induction ls with
  | nil => by_cases hn : l.number = n <;> simp [place, hn]
  | cons x xs ih =>
    unfold place
    by_cases hn : l.number = n
    · rw [if_pos hn] at ih ⊢
      split
      · simp [hn]
      · split
        · simp [hn]
        · rename_i hne
          rw [List.find?_cons_of_neg (by simpa [← hn] using Ne.symm hne)]
          exact ih
    · rw [if_neg hn] at ih ⊢
      split
      · rw [List.find?_cons_of_neg (by simpa using hn)]
      · split
        · rename_i heq
          rw [List.find?_cons_of_neg (by simpa using hn),
            List.find?_cons_of_neg (by simpa [← heq] using hn)]
        · simp only [List.find?_cons]
          rw [ih]

theorem line?_filter (p : Program) (keeps : Nat → Bool) (n : Nat) :
    line? ⟨p.lines.filter fun l => keeps l.number⟩ n = if keeps n then p.line? n else none := by
  unfold line?
  rw [List.find?_filter]
  split
  · rename_i hkeeps
    congr 1
    ext l
    by_cases hn : l.number = n <;> simp [hn, hkeeps]
  · rename_i hkeeps
    refine List.find?_eq_none.mpr fun l _ => ?_
    by_cases hn : l.number = n <;> simp [hn, hkeeps]

theorem content_filter (p : Program) (keeps : Nat → Bool) (n : Nat) :
    content ⟨p.lines.filter fun l => keeps l.number⟩ n = if keeps n then p.content n else none := by
  rw [content, line?_filter]
  split <;> rfl

theorem content_erase (p : Program) (k n : Nat) :
    (p.erase k).content n = if k = n then none else p.content n := by
  refine (content_filter p (fun m => m != k) n).trans ?_
  by_cases hn : k = n
  · simp [hn]
  · rw [if_neg hn, if_pos (by simpa using Ne.symm hn)]

theorem content_store (p : Program) (k n : Nat) (source : String) (statements : List Statement) :
    (p.store k source statements).content n =
      (puts n (k, source, statements)).getD (p.content n) := by
  unfold store puts held
  cases hempty : statements.isEmpty with
  | true =>
    rw [if_pos rfl, if_pos rfl, content_erase]
    split <;> rfl
  | false =>
    rw [if_neg Bool.false_ne_true, if_neg Bool.false_ne_true, content, line?_place]
    change Option.map _ (if k = n then _ else _) = _
    split <;> rfl

/-- Of all that is put under a number, one after the other, the last counts. -/
theorem content_foldl {α : Type} {step : Program → α → Program}
    {makes : Nat → α → Option (Option (String × List Statement))}
    (h : ∀ p a n, (step p a).content n = (makes n a).getD (p.content n)) (as : List α)
    (p : Program) (n : Nat) :
    (as.foldl step p).content n = (as.reverse.findSome? (makes n)).getD (p.content n) := by
  induction as generalizing p with
  | nil => rfl
  | cons a as ih =>
    rw [List.foldl_cons, ih, h, List.reverse_cons, List.findSome?_append]
    cases as.reverse.findSome? (makes n) with
    | some c => rfl
    | none => cases hmakes : makes n a <;> simp [hmakes]

/-- Loading stores the lines of a text one after the other, if all of them can be read. -/
theorem toOption_loadFrom (room index : Nat) (p : Program) (raws : List String) :
    (loadFrom store room index p raws).toOption =
    ((raws.filter fun raw => !Text.isAllBlank raw).mapM (numbered? room)).map
      (List.foldl (fun p l => p.store l.1 l.2.1 l.2.2) p) := by
  induction raws generalizing index p with
  | nil => rfl
  | cons raw raws ih =>
    unfold loadFrom
    cases hblank : Text.isAllBlank raw with
    | true =>
      rw [if_pos rfl, ih, List.filter_cons_of_neg (by simp [hblank])]
    | false =>
      rw [if_neg Bool.false_ne_true, List.filter_cons_of_pos (by simp [hblank]), List.mapM_cons]
      cases hread : Parser.parseLine (room - 1) raw with
      | error f =>
        have hnone : numbered? room raw = none := by rw [numbered?, hread]
        rw [hnone]
        cases f <;> rfl
      | ok l =>
        have hline : numbered? room raw = l.number.map fun n => (n, l.source, l.statements) := by
          rw [numbered?, hread]
        rw [hline]
        cases hnumber : l.number with
        | none =>
          simp only [hnumber]
          rfl
        | some k =>
          simp only [hnumber]
          rw [ih]
          cases (raws.filter fun raw => !Text.isAllBlank raw).mapM (numbered? room) <;> rfl

/-- **An edit of a program is an edit of its map**, number by number. -/
theorem content_apply (p : Program) (e : Edit) (n : Nat) :
    (e.apply p).content n = (e.makes n).getD (p.content n) := by
  cases e with
  | store k source statements => exact content_store p k n source statements
  | erase k =>
    change (p.erase k).content n = (if k = n then some none else none : Option (Option _)).getD _
    rw [content_erase]
    split <;> rfl
  | eraseRange first last =>
    refine (content_filter p (fun m => !inRange first last m) n).trans ?_
    simp only [Edit.makes, ← inRange_iff]
    cases inRange first last n <;> rfl
  | clear => rfl
  | load room text =>
    have hload : (Program.load room text).toOption = (numberedLines? room text).map _ :=
      toOption_loadFrom room 0 {} (Text.lines text)
    simp only [Edit.apply, Edit.makes, hload]
    cases numberedLines? room text with
    | none => rfl
    | some ls => exact content_foldl (fun p l n => content_store p l.1 n l.2.1 l.2.2) ls {} n

theorem Orderly.apply (h : p.Orderly ProgramLine.Coded) (e : Edit) :
    (e.apply p).Orderly ProgramLine.Coded := by
  cases e with
  | store k source statements => exact h.store fun hne => ⟨hne, rfl⟩
  | erase k => exact h.filter _
  | eraseRange first last => exact h.filter _
  | clear => exact ⟨.nil, nofun⟩
  | load room text =>
    simp only [Edit.apply]
    cases hload : Program.load room text with
    | error f => exact h
    | ok q =>
      have hsettled := load_settled hload
      exact ⟨hsettled.ascending, fun l hl =>
        ⟨(hsettled.lines l hl).statements, (hsettled.lines l hl).code⟩⟩

/-! ## All that is done to a program -/

/-- Something that is done to a program, or asked of it. -/
inductive Call where
  | edit (e : Edit)
  | renumber (room : Nat) (newStart oldStart step : Option Nat)
  | dataItems

/-- The program afterwards; renumbering that fails changes nothing. -/
def Call.apply (p : Program) : Call → Program
  | .edit e => e.apply p
  | .renumber room newStart oldStart step =>
    match (p.renumberDefault room newStart oldStart step).1 with
    | .ok (q, _) => q
    | .error _ => p
  | .dataItems => p

/-- The program after all that was done to an empty one. -/
def after (calls : List Call) : Program := calls.foldl Call.apply {}

theorem orderly_renumberLines {room : Nat} {contains : Nat → Bool} {moves : Moves} {done : Program}
    {ls : List ProgramLine} (h : (renumberLines store room contains moves done ls).1 = .ok q)
    (hdone : done.Orderly ProgramLine.Coded) :
    q.Orderly ProgramLine.Coded := by
  induction ls generalizing done with
  | nil =>
    obtain rfl := Except.ok.inj h
    exact hdone
  | cons l ls ih =>
    unfold renumberLines at h
    split at h
    · cases h
    · simp only at h
      split at h
      · cases h
      · exact ih h (hdone.store fun hne => ⟨hne, rfl⟩)

theorem Orderly.renumber (h : p.Orderly ProgramLine.Coded) {room newStart oldStart step : Nat}
    {r : Program × Nat} (hrun : (p.renumber room newStart oldStart step).1 = .ok r) :
    r.1.Orderly ProgramLine.Coded := by
  rw [renumber_eq] at hrun
  split_ifs at hrun
  · cases hrun
  · obtain rfl := Except.ok.inj hrun
    exact h
  · cases hrun
  · cases hlines :
        (renumberLines Program.store room p.contains (p.movesOf newStart oldStart step)
        {} p.lines).1 with
    | error f =>
      rw [hlines] at hrun
      cases hrun
    | ok q =>
      rw [hlines] at hrun
      obtain rfl := Except.ok.inj hrun
      exact orderly_renumberLines hlines ⟨.nil, nofun⟩

theorem Orderly.call (h : p.Orderly ProgramLine.Coded) (c : Call) :
    (c.apply p).Orderly ProgramLine.Coded := by
  cases c with
  | edit e => exact h.apply e
  | renumber room newStart oldStart step =>
    simp only [Call.apply, renumberDefault]
    cases hrun : (p.renumber room (newStart.getD 10) (oldStart.getD 0) (step.getD 10)).1 with
    | error f => exact h
    | ok r => exact h.renumber hrun
  | dataItems => exact h

theorem Orderly.foldl {α : Type} {step : Program → α → Program}
    (hstep : ∀ p a, p.Orderly ProgramLine.Coded → (step p a).Orderly ProgramLine.Coded)
    (as : List α) (h : p.Orderly ProgramLine.Coded) :
    (as.foldl step p).Orderly ProgramLine.Coded := by
  induction as generalizing p with
  | nil => exact h
  | cons a as ih => exact ih (hstep p a h)

/-- Whatever is done, the lines stand in ascending order, each with the code of its statements. -/
theorem orderly_after (calls : List Call) : (after calls).Orderly ProgramLine.Coded :=
  Orderly.foldl (fun _ c h => h.call c) calls ⟨.nil, nofun⟩

end Program

end LineBasic
