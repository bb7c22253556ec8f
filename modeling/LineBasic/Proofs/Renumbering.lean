import Mathlib
import LineBasic.Proofs.Execution
import LineBasic.Proofs.Redirecting
import LineBasic.Proofs.Reloading
import LineBasic.Proofs.WholeLines

/-!
# Renumbering keeps the program

RENUM gives the lines from one on new numbers, and the program stays the same: every line has its
statements, and every reference names the line that it named before.

* `Program.Built`: the programs in question, in which lines were stored and from which ranges were
  deleted.
* `Program.newNumber`: the new number of a line, from the lines that move before it.
* `Program.Fits`: the new numbers are line numbers in ascending order.
* `Program.Renumbered`: what RENUM makes of a program.
* `Exec.renumber_preserves`: RENUM gives such a program if it succeeds; otherwise nothing changes.
-/

namespace LineBasic.Program

/-- A program in which lines that have been read were stored, and from which ranges were deleted. -/
inductive Built : Program → Prop where
  | empty : Built {}
  | store {p : Program} {room : Nat} {raw : String} {l : SourceLine} {n : Nat} (built : Built p)
      (read : Parser.parseLine room raw = .ok l) (number : l.number = some n) :
      Built (p.store n l.source l.statements)
  | eraseRange {p : Program} (built : Built p) (first last : Option Nat) :
      Built (p.eraseRange first last)

variable {p q : Program} {newStart oldStart step : Nat}

theorem Built.orderly (h : p.Built) : p.Orderly ProgramLine.Readable := by
  induction h with
  | empty => exact ⟨.nil, nofun⟩
  | store _ read number ih => exact ih.store fun hne => ⟨_, parsed_of_parseLine read number hne⟩
  | eraseRange _ first last ih =>
    exact ⟨ih.ascending.filter _, fun l hl => ih.lines l (List.mem_of_mem_filter hl)⟩

/-- Programs that are loaded are built so. -/
theorem loadFrom_built {room index : Nat} {raws : List String}
    (h : loadFrom store room index p raws = .ok q) (hp : p.Built) : q.Built := by
  induction raws generalizing index p with
  | nil => rwa [← Except.ok.inj h]
  | cons raw raws ih =>
    unfold loadFrom at h
    split at h
    · exact ih h hp
    · split at h
      · cases h
      · cases h
      · rename_i l hl
        split at h
        · cases h
        · rename_i n hn
          exact ih h (hp.store hl hn)

theorem Orderly.numbers {P : ProgramLine → Prop} (h : p.Orderly P) : p.numbers.Pairwise (· < ·) :=
  List.pairwise_map.mpr h.ascending

/-- A line is found by its number. -/
theorem Orderly.line?_of_mem {P : ProgramLine → Prop} (h : p.Orderly P) {l : ProgramLine}
    (hl : l ∈ p.lines) :
    p.line? l.number = some l := by
  have hfind : ∀ ls : List ProgramLine, ls.Pairwise (fun a b => a.number < b.number) → l ∈ ls →
      ls.find? (fun x => x.number = l.number) = some l := by
    intro ls hls hmem
    induction ls with
    | nil => cases hmem
    | cons x ls ih =>
      obtain ⟨hx, hls⟩ := List.pairwise_cons.mp hls
      rcases List.mem_cons.mp hmem with rfl | hmem
      · simp
      · rw [List.find?_cons_of_neg (by simpa using (hx l hmem).ne)]
        exact ih hls hmem
  exact hfind p.lines h.ascending hl

/-- The numbers of a program are line numbers. -/
theorem Orderly.range (h : p.Orderly ProgramLine.Readable) :
    ∀ n ∈ p.numbers, 1 ≤ n ∧ n ≤ Parser.maxLineNumber := by
  intro n hn
  obtain ⟨l, hl, rfl⟩ := List.mem_map.mp hn
  obtain ⟨room, hparsed⟩ := h.lines l hl
  obtain ⟨hlow, hhigh, -⟩ := Parser.parseLine_ok hparsed.reads rfl
  exact ⟨hlow, hhigh⟩

/-! ## The new numbers -/

/-- The numbers of the lines that move. -/
def moving (p : Program) (oldStart : Nat) : List Nat := p.numbers.filter fun n => oldStart ≤ n

/-- The numbers of the lines that stay. -/
def kept (p : Program) (oldStart : Nat) : List Nat := p.numbers.filter fun n => n < oldStart

/-- The numbers of all lines afterwards, in the order of the lines. -/
def newNumbers (p : Program) (newStart oldStart step : Nat) : List Nat :=
  p.kept oldStart ++ (List.range (p.moving oldStart).length).map fun i => newStart + i * step

/-- The number that a line has afterwards. A line that moves is placed behind those that move before
it; a number without a line stays. -/
def newNumber (p : Program) (newStart oldStart step n : Nat) : Nat :=
  if n ∈ p.moving oldStart then newStart + ((p.moving oldStart).filter fun k => k < n).length * step
  else n

/-- The new numbers are line numbers in ascending order. -/
structure Fits (p : Program) (newStart oldStart step : Nat) : Prop where
  positive : 1 ≤ step
  range : ∀ n ∈ p.newNumbers newStart oldStart step, 1 ≤ n ∧ n ≤ Parser.maxLineNumber
  ascending : (p.newNumbers newStart oldStart step).Pairwise (· < ·)

/-- **What RENUM makes of a program**: the lines below `oldStart` keep their numbers and the others
get `newStart`, `newStart + step`, …; the lines stay in order; and each has the statements that it
had, columns aside, with the new number of a line wherever they name one. It is again built of lines
that have been read. -/
structure Renumbered (p : Program) (newStart oldStart step : Nat) (q : Program) : Prop where
  numbers : q.numbers = p.newNumbers newStart oldStart step
  ascending : q.numbers.Pairwise (· < ·)
  moved : q.numbers = p.numbers.map (p.newNumber newStart oldStart step)
  statements : q.lines.map (fun l => reformList id id l.statements) =
    p.lines.map fun l => reformList (p.newNumber newStart oldStart step) id l.statements
  code : ∀ l ∈ q.lines, l.code = compile l.statements
  built : q.Built

section Ascending

variable {xs : List Nat}

theorem filter_lt_eq_nil {b : Nat} (h : ∀ n ∈ xs, b ≤ n) : xs.filter (fun n => n < b) = [] := by
  rw [List.filter_eq_nil_iff]
  intro n hn
  rw [decide_eq_true_eq]
  exact Nat.not_lt.mpr (h n hn)

theorem filter_lt_append_filter_le (h : xs.Pairwise (· < ·)) (b : Nat) :
    xs.filter (fun n => n < b) ++ xs.filter (fun n => b ≤ n) = xs := by
  induction xs with
  | nil => rfl
  | cons x xs ih =>
    obtain ⟨hx, hxs⟩ := List.pairwise_cons.mp h
    by_cases hb : x < b
    · rw [List.filter_cons_of_pos (by simpa using hb), List.filter_cons_of_neg (by simpa using hb),
        List.cons_append, ih hxs]
    · have hall : ∀ n ∈ x :: xs, b ≤ n := by
        intro n hn
        rcases List.mem_cons.mp hn with rfl | hn
        · exact Nat.not_lt.mp hb
        · exact (Nat.not_lt.mp hb).trans (hx n hn).le
      rw [filter_lt_eq_nil hall, List.nil_append, List.filter_eq_self]
      intro n hn
      exact decide_eq_true (hall n hn)

theorem filter_lt_head {x : Nat} (h : (x :: xs).Pairwise (· < ·)) :
    (x :: xs).filter (fun n => n < x) = [] := by
  refine filter_lt_eq_nil fun n hn => ?_
  rcases List.mem_cons.mp hn with rfl | hn
  · exact le_rfl
  · exact ((List.pairwise_cons.mp h).1 n hn).le

/-- The numbers below each one, counted. -/
theorem map_count_below (h : xs.Pairwise (· < ·)) :
    xs.map (fun n => (xs.filter fun k => k < n).length) = List.range xs.length := by
  induction xs with
  | nil => rfl
  | cons x xs ih =>
    obtain ⟨hx, hxs⟩ := List.pairwise_cons.mp h
    rw [List.map_cons, filter_lt_head h, List.length_cons, List.range_succ_eq_map, ← ih hxs,
      List.map_map]
    refine congrArg (0 :: ·) (List.map_congr_left fun n hn => ?_)
    rw [List.filter_cons_of_pos (by simpa using hx n hn)]
    rfl

/-- The moves of ascending numbers, from the index `k` on. -/
theorem get?_moves (h : xs.Pairwise (· < ·)) (newStart step k n : Nat) :
    Moves.get? ((xs.zipIdx k).map fun (n, i) => (n, newStart + i * step)) n =
      if n ∈ xs then some (newStart + (k + (xs.filter fun k => k < n).length) * step)
      else none := by
  induction xs generalizing k with
  | nil => rfl
  | cons x xs ih =>
    obtain ⟨hx, hxs⟩ := List.pairwise_cons.mp h
    unfold Moves.get? at ih ⊢
    rw [List.zipIdx_cons, List.map_cons, List.find?_cons]
    by_cases hn : x = n
    · subst hn
      rw [filter_lt_head h]
      simp
    · rw [decide_eq_false hn]
      simp only
      rw [ih hxs]
      by_cases hmem : n ∈ xs
      · rw [if_pos hmem, if_pos (List.mem_cons_of_mem x hmem),
          List.filter_cons_of_pos (by simpa using hx n hmem), List.length_cons, Nat.add_right_comm,
          Nat.add_assoc]
      · rw [if_neg hmem, if_neg (by simpa [Ne.symm hn] using hmem)]

end Ascending

theorem moving_ascending (h : p.numbers.Pairwise (· < ·)) : (p.moving oldStart).Pairwise (· < ·) :=
  h.filter _

/-- The moves from old numbers to new ones. -/
def movesOf (p : Program) (newStart oldStart step : Nat) : Moves :=
  (p.moving oldStart).zipIdx.map fun (n, i) => (n, newStart + i * step)

theorem number_movesOf (h : p.numbers.Pairwise (· < ·)) :
    (p.movesOf newStart oldStart step).number = p.newNumber newStart oldStart step := by
  funext n
  unfold Moves.number newNumber movesOf
  rw [get?_moves (moving_ascending h), Nat.zero_add]
  split <;> rfl

/-- The lines get the new numbers in their order. -/
theorem map_newNumber (h : p.numbers.Pairwise (· < ·)) :
    p.numbers.map (p.newNumber newStart oldStart step) = p.newNumbers newStart oldStart step := by
  have hkept : (p.kept oldStart).map (p.newNumber newStart oldStart step) = p.kept oldStart := by
    refine (List.map_congr_left fun n hn => ?_).trans (List.map_id _)
    have hlow := (List.mem_filter.mp hn).2
    refine if_neg fun hmem => ?_
    have hhigh := (List.mem_filter.mp hmem).2
    simp only [decide_eq_true_eq] at hlow hhigh
    omega
  have hmoving : (p.moving oldStart).map (p.newNumber newStart oldStart step) =
      (List.range (p.moving oldStart).length).map fun i => newStart + i * step := by
    rw [← map_count_below (moving_ascending h), List.map_map]
    exact List.map_congr_left fun n hn => if_pos hn
  calc p.numbers.map (p.newNumber newStart oldStart step)
      = (p.kept oldStart ++ p.moving oldStart).map (p.newNumber newStart oldStart step) := by
        rw [kept, moving, filter_lt_append_filter_le h]
    _ = p.newNumbers newStart oldStart step := by rw [List.map_append, hkept, hmoving, newNumbers]

/-! ## The new lines -/

/-- A line and what becomes of it. -/
structure Moved (line : Nat → Nat) (l m : ProgramLine) : Prop where
  number : m.number = line l.number
  statements : reformList id id m.statements = reformList line id l.statements
  code : m.code = compile m.statements

variable {moves : Moves} {ls : List ProgramLine}

/-- The work has stopped at a line that is nested too deeply for the room it is read in. -/
def TooDeep {α : Type} (r : Except Fault α) : Prop :=
  ∃ e : Error, e.kind = .outOfMemory ∧ r = .error (.error e)

/-- One line is read, changed and stored behind those that are done, unless it is too deep. -/
theorem renumberLines_cons (room : Nat) (hmoves : moves.Valid) {l : ProgramLine} (hl : l.Readable)
    (hrange : 1 ≤ moves.number l.number ∧ moves.number l.number ≤ Parser.maxLineNumber)
    (done : Program) (hlast : ∀ x ∈ done.lines, x.number < moves.number l.number) (p : Program)
    (ls : List ProgramLine) :
    TooDeep (renumberLines store room p.contains moves done (l :: ls)).1 ∨
    ∃ m, Moved moves.number l m ∧ (done.Built → Built ⟨done.lines ++ [m]⟩) ∧
      (renumberLines store room p.contains moves done (l :: ls)).1 =
        (renumberLines store room p.contains moves ⟨done.lines ++ [m]⟩ ls).1 := by
  obtain ⟨r, hl⟩ := hl
  obtain ⟨ts, new, htokens, hread, hnumber, hsame⟩ :=
    parseLine_redirect hmoves hl.reads hrange.1 hrange.2 p.contains
  have hnew : (moves.get? l.number).getD l.number = moves.number l.number := rfl
  rcases Parser.parseLine_room hread (room - 1) with hagain | ⟨-, e, hkind, hdeep⟩
  · refine .inr ?_
    have hne : new.statements ≠ [] := by
      intro hnil
      have hlength := congrArg List.length hsame
      simp only [reformList_eq_map, List.length_map, hnil, List.length_nil] at hlength
      exact hl.statements (List.length_eq_zero_iff.mp hlength)
    have hstore : done.store (moves.number l.number) new.source new.statements =
        ⟨done.lines ++ [.new (moves.number l.number) new.source new.statements]⟩ := by
      unfold Program.store
      rw [if_neg (by simpa using hne), place_last hlast]
    refine ⟨.new (moves.number l.number) new.source new.statements, ⟨rfl, hsame.symm, rfl⟩,
      fun hdone => ?_, ?_⟩
    · rw [← hstore]
      exact hdone.store hread hnumber
    · rw [renumberLines, htokens]
      simp only
      rw [← hstore, hnew, hagain]
  · refine .inl ⟨e, hkind, ?_⟩
    rw [renumberLines, htokens]
    simp only
    rw [hnew, hdeep]

/-- **All lines are read, changed and stored**, if their new numbers are line numbers in ascending
order and none of them is too deep. -/
theorem renumberLines_cases (room : Nat) (hmoves : moves.Valid) (hls : ∀ l ∈ ls, l.Readable)
    (hrange : ∀ l ∈ ls,
      1 ≤ moves.number l.number ∧ moves.number l.number ≤ Parser.maxLineNumber)
    (done : Program) (hdone : done.Built)
    (hasc : (done.numbers ++ ls.map fun l => moves.number l.number).Pairwise (· < ·))
    (p : Program) :
    TooDeep (renumberLines store room p.contains moves done ls).1 ∨
    ∃ ms, (renumberLines store room p.contains moves done ls).1 = .ok ⟨done.lines ++ ms⟩ ∧
      List.Forall₂ (Moved moves.number) ls ms ∧ Built ⟨done.lines ++ ms⟩ := by
  induction ls generalizing done with
  | nil => exact .inr ⟨[], by simp [renumberLines], .nil, by simpa using hdone⟩
  | cons l ls ih =>
    obtain ⟨-, -, hcross⟩ := List.pairwise_append.mp hasc
    rcases renumberLines_cons room hmoves (hls l List.mem_cons_self) (hrange l List.mem_cons_self)
      done (fun x hx => hcross x.number (List.mem_map_of_mem hx) _ List.mem_cons_self) p ls with
      hdeep | ⟨m, hm, hbuilt, hrun⟩
    · exact .inl hdeep
    · have hnumbers : (⟨done.lines ++ [m]⟩ : Program).numbers =
          done.numbers ++ [moves.number l.number] := by
        simp [Program.numbers, hm.number]
      rw [hrun]
      refine (ih (fun x hx => hls x (List.mem_cons_of_mem l hx))
        (fun x hx => hrange x (List.mem_cons_of_mem l hx)) ⟨done.lines ++ [m]⟩ (hbuilt hdone)
        (by rw [hnumbers, List.append_assoc]; exact hasc)).imp_right ?_
      rintro ⟨ms, hok, hms, hall⟩
      exact ⟨m :: ms, by rw [hok]; simp, .cons hm hms, by simpa using hall⟩

/-- A line that is read again has a line number. -/
theorem range_of_renumberLines {room : Nat} {done : Program}
    (h : (renumberLines store room p.contains moves done ls).1 = .ok q) :
    ∀ l ∈ ls, 1 ≤ moves.number l.number ∧ moves.number l.number ≤ Parser.maxLineNumber := by
  induction ls generalizing done with
  | nil => nofun
  | cons l ls ih =>
    unfold renumberLines at h
    split at h
    · cases h
    · simp only at h
      split at h
      · cases h
      · rename_i new hnew
        intro x hx
        rcases List.mem_cons.mp hx with rfl | hx
        · exact Parser.range_of_parseLine_listed hnew
        · exact ih h x hx

/-! ## The whole program -/

theorem renumber_eq (room : Nat) (p : Program) (newStart oldStart step : Nat) :
    (p.renumber room newStart oldStart step).1 =
      if step < 1 then orFault (fail .illegalQuantity)
      else if (p.moving oldStart).isEmpty then .ok (p, 0)
      else if Parser.maxLineNumber < newStart + ((p.moving oldStart).length - 1) * step ||
          (p.kept oldStart).getLast?.any (fun n => newStart ≤ n) then
            orFault (fail .illegalQuantity)
      else (renumberLines store room p.contains (p.movesOf newStart oldStart step) {} p.lines).1.map
        fun q => (q, (p.moving oldStart).length) := by
  unfold renumber plannedMoves movesOf moving kept
  simp only
  split_ifs with hstep hmoving hchecks
  · rfl
  · rfl
  · rfl
  · cases hmoves : p.numbers.filter fun n => oldStart ≤ n with
    | nil => simp [hmoves] at hmoving
    | cons n ns => simp

theorem le_getLast {xs : List Nat} (h : xs.Pairwise (· < ·)) {m : Nat} (hm : xs.getLast? = some m) :
    ∀ n ∈ xs, n ≤ m := by
  intro n hn
  obtain ⟨init, rfl⟩ := List.getLast?_eq_some_iff.mp hm
  rcases List.mem_append.mp hn with hn | hn
  · exact ((List.pairwise_append.mp h).2.2 n hn m (by simp)).le
  · rw [List.mem_singleton.mp hn]

/-- The checks of RENUM say that the new numbers fit, but for the first of them. -/
theorem fits_iff (h : p.Orderly ProgramLine.Readable) (hstep : 1 ≤ step)
    (hmoving : p.moving oldStart ≠ []) :
    p.Fits newStart oldStart step ↔ 1 ≤ newStart ∧
      newStart + ((p.moving oldStart).length - 1) * step ≤
      Parser.maxLineNumber ∧ ∀ n ∈ (p.kept oldStart).getLast?, n < newStart := by
  have hlength : 0 < (p.moving oldStart).length := List.length_pos_iff.mpr hmoving
  have hmem : ∀ i < (p.moving oldStart).length, newStart + i * step ∈
      (List.range (p.moving oldStart).length).map fun i => newStart + i * step :=
    fun i hi => List.mem_map_of_mem (List.mem_range.mpr hi)
  constructor
  · intro hfits
    have hfirst := hmem 0 hlength
    rw [Nat.zero_mul, Nat.add_zero] at hfirst
    refine ⟨(hfits.range _ (List.mem_append_right _ hfirst)).1,
      (hfits.range _ (List.mem_append_right _ (hmem _ (by omega)))).2, fun n hn => ?_⟩
    exact (List.pairwise_append.mp hfits.ascending).2.2 n (List.mem_of_getLast? hn) newStart hfirst
  · rintro ⟨hlow, hhigh, hkept⟩
    refine ⟨hstep, fun n hn => ?_,
      List.pairwise_append.mpr ⟨h.numbers.filter _, ?_, fun n hn m hm => ?_⟩⟩
    · rcases List.mem_append.mp hn with hn | hn
      · exact h.range n (List.mem_of_mem_filter hn)
      · obtain ⟨i, hi, rfl⟩ := List.mem_map.mp hn
        have hle : i * step ≤ ((p.moving oldStart).length - 1) * step :=
          Nat.mul_le_mul_right step (by have := List.mem_range.mp hi; omega)
        omega
    · rw [List.pairwise_map]
      refine List.pairwise_lt_range.imp fun {i j} hij => ?_
      have := Nat.mul_lt_mul_of_pos_right hij hstep
      omega
    · obtain ⟨i, -, rfl⟩ := List.mem_map.mp hm
      obtain ⟨k, hk⟩ : ∃ k, (p.kept oldStart).getLast? = some k :=
        Option.ne_none_iff_exists'.mp fun hnone => by
          simp [List.getLast?_eq_none_iff.mp hnone] at hn
      have hle := le_getLast (h.numbers.filter _) hk n hn
      have hlt := hkept k hk
      omega

theorem valid_movesOf (h : p.numbers.Pairwise (· < ·)) (hfits : p.Fits newStart oldStart step) :
    (p.movesOf newStart oldStart step).Valid := by
  intro n new hnew
  have hmem : n ∈ p.moving oldStart := by
    by_contra hmem
    rw [movesOf, get?_moves (moving_ascending h), if_neg hmem] at hnew
    cases hnew
  have hnumber : p.newNumber newStart oldStart step n = new := by
    rw [← number_movesOf h, Moves.number, hnew]
    rfl
  refine hfits.range new ?_
  rw [← map_newNumber h, ← hnumber]
  exact List.mem_map_of_mem (List.mem_of_mem_filter hmem)

theorem code_of_moved {line : Nat → Nat} {ms : List ProgramLine}
    (h : List.Forall₂ (Moved line) ls ms) :
    ∀ m ∈ ms, m.code = compile m.statements := by
  induction h with
  | nil => nofun
  | cons hm _ ih => exact List.forall_mem_cons.mpr ⟨hm.code, ih⟩

theorem renumbered_of_moved (h : p.numbers.Pairwise (· < ·)) (hfits : p.Fits newStart oldStart step)
    {ms : List ProgramLine}
    (hms : List.Forall₂ (Moved (p.newNumber newStart oldStart step)) p.lines ms)
    (hbuilt : Built ⟨ms⟩) : p.Renumbered newStart oldStart step ⟨ms⟩ := by
  have hmoved : (⟨ms⟩ : Program).numbers = p.numbers.map (p.newNumber newStart oldStart step) := by
    rw [Program.numbers, Program.numbers, List.map_map]
    exact (Change.map_eq_of_forall₂ (hms.imp fun _ _ hm => hm.number.symm)).symm
  have hnumbers := hmoved.trans (map_newNumber h)
  exact ⟨hnumbers, hnumbers ▸ hfits.ascending, hmoved,
    (Change.map_eq_of_forall₂ (hms.imp fun _ _ hm => hm.statements.symm)).symm,
    code_of_moved hms, hbuilt⟩

/-- If no line moves, every number stays. -/
theorem newNumber_of_nil (hmoving : p.moving oldStart = []) :
    p.newNumber newStart oldStart step = id := by
  funext n
  unfold newNumber
  rw [hmoving, if_neg List.not_mem_nil]
  rfl

theorem fits_of_nil (h : p.Orderly ProgramLine.Readable) (hstep : 1 ≤ step)
    (hmoving : p.moving oldStart = []) :
    p.Fits newStart oldStart step := by
  have hnew : p.newNumbers newStart oldStart step = p.numbers := by
    rw [← map_newNumber h.numbers, newNumber_of_nil hmoving, List.map_id]
  exact ⟨hstep, hnew ▸ h.range, hnew ▸ h.numbers⟩

theorem forall₂_moved_id (h : ∀ l ∈ ls, l.Readable) : List.Forall₂ (Moved id) ls ls :=
  List.forall₂_same.mpr fun l hl => ⟨rfl, rfl, (h l hl).choose_spec.code⟩

/-- **RENUM succeeds if the new numbers fit** and no line is too deep, and then it gives the program
with the new numbers. -/
theorem renumber_of_fits (room : Nat) (hbuilt : p.Built) (hfits : p.Fits newStart oldStart step) :
    TooDeep (p.renumber room newStart oldStart step).1 ∨
    ∃ q count, (p.renumber room newStart oldStart step).1 = .ok (q, count) ∧
      p.Renumbered newStart oldStart step q := by
  have h := hbuilt.orderly
  rw [renumber_eq, if_neg (Nat.not_lt.mpr hfits.positive)]
  by_cases hmoving : p.moving oldStart = []
  · refine .inr ⟨p, 0, by rw [hmoving]; rfl, renumbered_of_moved h.numbers hfits ?_ hbuilt⟩
    rw [newNumber_of_nil hmoving]
    exact forall₂_moved_id h.lines
  · obtain ⟨-, hhigh, hkept⟩ := (fits_iff h hfits.positive hmoving).mp hfits
    have hchecks :
      ¬(decide (Parser.maxLineNumber < newStart + ((p.moving oldStart).length - 1) * step) ||
        (p.kept oldStart).getLast?.any fun n => newStart ≤ n) = true := by
      simp only [Bool.or_eq_true, decide_eq_true_eq, Option.any_eq_true, not_or,
        not_exists, not_and]
      exact ⟨Nat.not_lt.mpr hhigh, fun n hn => Nat.not_le.mpr (hkept n hn)⟩
    have hnumber := @number_movesOf p newStart oldStart step h.numbers
    have hmap : (p.lines.map fun l => p.newNumber newStart oldStart step l.number) =
        p.newNumbers newStart oldStart step := by
      rw [← map_newNumber h.numbers, Program.numbers, List.map_map]
      rfl
    rw [if_neg (by simpa using hmoving), if_neg hchecks]
    rcases renumberLines_cases room (valid_movesOf h.numbers hfits) h.lines
      (fun l hl => hfits.range _ (by rw [hnumber, ← hmap]; exact List.mem_map_of_mem hl)) {} .empty
      (by rw [hnumber, hmap]; exact hfits.ascending) p with
      ⟨e, hkind, hdeep⟩ | ⟨ms, hok, hms, hnew⟩
    · exact .inl ⟨e, hkind, by rw [hdeep]; rfl⟩
    · rw [hok]
      exact .inr ⟨⟨ms⟩, _, rfl, renumbered_of_moved h.numbers hfits (hnumber ▸ hms) hnew⟩

/-- The first line that moves gets the number `newStart`. -/
theorem exists_newNumber_eq (h : p.numbers.Pairwise (· < ·)) (hmoving : p.moving oldStart ≠ []) :
    ∃ n ∈ p.numbers, p.newNumber newStart oldStart step n = newStart := by
  have hfirst : newStart ∈ p.newNumbers newStart oldStart step := by
    refine List.mem_append_right _ (List.mem_map.mpr ⟨0, ?_, by simp⟩)
    exact List.mem_range.mpr (List.length_pos_iff.mpr hmoving)
  rw [← map_newNumber h] at hfirst
  exact List.mem_map.mp hfirst

/-- **Otherwise it fails.** -/
theorem fits_of_renumber {room : Nat} (h : p.Orderly ProgramLine.Readable) {r : Program × Nat}
    (hok : (p.renumber room newStart oldStart step).1 = .ok r) : p.Fits newStart oldStart step := by
  rw [renumber_eq] at hok
  split at hok
  · cases hok
  · rename_i hstep
    split at hok
    · rename_i hnil
      exact fits_of_nil h (Nat.not_lt.mp hstep) (by simpa using hnil)
    · rename_i hmoving
      replace hmoving : p.moving oldStart ≠ [] := by simpa using hmoving
      split at hok
      · cases hok
      · rename_i hchecks
        simp only [Bool.or_eq_true, decide_eq_true_eq, Option.any_eq_true, not_or, not_exists,
          not_and] at hchecks
        refine (fits_iff h (Nat.not_lt.mp hstep) hmoving).mpr
          ⟨?_, Nat.not_lt.mp hchecks.1, fun n hn => ?_⟩
        · cases hrun : (renumberLines store room p.contains (p.movesOf newStart oldStart step) {}
              p.lines).1 with
          | error e => rw [hrun] at hok; cases hok
          | ok q =>
            obtain ⟨n, hn, hfirst⟩ := exists_newNumber_eq h.numbers hmoving
            obtain ⟨l, hl, rfl⟩ := List.mem_map.mp hn
            have hlow := (range_of_renumberLines hrun l hl).1
            rwa [number_movesOf h.numbers, hfirst] at hlow
        · exact Nat.not_le.mp (hchecks.2 n hn)

end LineBasic.Program

/-! ## The command -/

namespace LineBasic.Exec

/-- RENUM in a line of the program is refused. -/
theorem renumber_in_line (newStart oldStart step : Option Nat) {m : Machine}
    (h : m.current.line.isSome = true) :
    ∃ e, renumber newStart oldStart step m = (.error e, m) := by
  unfold renumber
  rw [run_bind, run_requireDirect, if_pos h]
  exact ⟨_, rfl⟩

/-- RENUM at the prompt renumbers the program, or fails and leaves it. -/
theorem renumber_at_prompt (newStart oldStart step : Option Nat) {m : Machine}
    (h : m.current.line = none) :
    match (m.program.renumberDefault m.statementRoom newStart oldStart step).1 with
    | .ok r => ∃ m', renumber newStart oldStart step m = (.ok (), m') ∧ m'.program = r.1
    | .error f => ∃ m', renumber newStart oldStart step m = (.error (.fault f), m') ∧
        m'.program = m.program := by
  have hdirect : m.current.line.isSome = false := by rw [h]; rfl
  unfold renumber
  simp only [run_bind, run_requireDirect, hdirect, Bool.false_eq_true, if_false,
    run_get, run_modify]
  cases (m.program.renumberDefault m.statementRoom newStart oldStart step).1 with
  | ok r => exact ⟨_, rfl, rfl⟩
  | error f => exact ⟨_, rfl, rfl⟩

/-- **RENUM preserves the program.** If it succeeds, every line has its statements under its new
number and every reference names the line that it named; otherwise the program is as it was. At the
prompt it fails only if the new numbers do not fit, or when a line is nested too deeply to be read
again. A number that is not given is 10 for the new start and for the step, and 0 for the old
start. -/
theorem renumber_preserves (newStart oldStart step : Option Nat) (m : Machine)
    (h : m.program.Built) :
    match renumber newStart oldStart step m with
    | (.ok (), m') => m.program.Fits (newStart.getD 10) (oldStart.getD 0) (step.getD 10) ∧
        m.program.Renumbered (newStart.getD 10) (oldStart.getD 0) (step.getD 10) m'.program
    | (.error halt, m') => m'.program = m.program ∧
        (m.current.line = none →
          m.program.Fits (newStart.getD 10) (oldStart.getD 0) (step.getD 10) →
          ∃ e : Error, e.kind = .outOfMemory ∧ halt = .fault (.error e)) := by
  by_cases hdirect : m.current.line = none
  · have hrun := renumber_at_prompt newStart oldStart step hdirect
    unfold Program.renumberDefault at hrun
    split at hrun
    · rename_i r hok
      obtain ⟨m', hm, hprogram⟩ := hrun
      have hfits := Program.fits_of_renumber h.orderly hok
      rw [hm]
      rcases Program.renumber_of_fits m.statementRoom h hfits with
        ⟨e, -, hdeep⟩ | ⟨q, count, hq, hrenumbered⟩
      · cases hok.symm.trans hdeep
      · obtain rfl : r = (q, count) := Except.ok.inj (hok.symm.trans hq)
        exact ⟨hfits, hprogram ▸ hrenumbered⟩
    · rename_i f hfault
      obtain ⟨m', hm, hprogram⟩ := hrun
      rw [hm]
      refine ⟨hprogram, fun _ hfits => ?_⟩
      rcases Program.renumber_of_fits m.statementRoom h hfits with
        ⟨e, hkind, hdeep⟩ | ⟨q, count, hq, -⟩
      · obtain rfl := Except.error.inj (hfault.symm.trans hdeep)
        exact ⟨e, hkind, rfl⟩
      · cases hfault.symm.trans hq
  · obtain ⟨e, hm⟩ :=
      renumber_in_line newStart oldStart step (Option.isSome_iff_ne_none.mpr hdirect)
    rw [hm]
    exact ⟨rfl, fun hnone => absurd hnone hdirect⟩

/-- Three lines with a reference of each sort: to lines that move, to a line that stays and to no
line. -/
theorem renumber_preserves_three_lines : ∃ m m' : Machine,
    m.program.listingAll =
      ["5 GOTO 10:RESTORE 7", "10 IF A THEN 20 ELSE GOSUB 5", "20 ON A GOTO 10,5,20:RUN 30"] ∧
      m'.program.listingAll =
        ["5 GOTO 100:RESTORE 7", "100 IF A THEN 150 ELSE GOSUB 5",
          "150 ON A GOTO 100,5,150:RUN 30"] ∧
      renumber (some 100) (some 10) (some 50) m = (.ok (), m') ∧
        m.program.Renumbered 100 10 50 m'.program := by
  have h : (Program.load 990
    "5 GOTO 10:RESTORE 7\n10 IF A THEN 20 ELSE GOSUB 5\n20 ON A GOTO 10,5,20:RUN 30").toOption.map
      (fun p => (p.listingAll,
        (renumber (some 100) (some 10) (some 50) { settings := default, program := p }).1.isOk,
        (renumber (some 100) (some 10) (some 50)
          { settings := default, program := p }).2.program.listingAll)) =
      some (["5 GOTO 10:RESTORE 7", "10 IF A THEN 20 ELSE GOSUB 5", "20 ON A GOTO 10,5,20:RUN 30"],
        true,
        ["5 GOTO 100:RESTORE 7", "100 IF A THEN 150 ELSE GOSUB 5",
        "150 ON A GOTO 100,5,150:RUN 30"]) := by
    decide +kernel
  generalize "5 GOTO 10:RESTORE 7\n10 IF A THEN 20 ELSE GOSUB 5\n20 ON A GOTO 10,5,20:RUN 30" =
    text at h
  cases hload : Program.load 990 text with
  | error e => rw [hload] at h; cases h
  | ok p =>
    rw [hload] at h
    simp only [Except.toOption, Option.map_some, Option.some.injEq, Prod.mk.injEq] at h
    obtain ⟨hold, hok, hnew⟩ := h
    have hpreserves := renumber_preserves (some 100) (some 10) (some 50)
      { settings := default, program := p } (Program.loadFrom_built hload .empty)
    generalize hrun : renumber (some 100) (some 10) (some 50)
      { settings := default, program := p } = r at *
    obtain ⟨e | u, m'⟩ := r
    · cases hok
    · exact ⟨_, m', hold, hnew, hrun, hpreserves.2⟩

end LineBasic.Exec
