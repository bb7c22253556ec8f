import Mathlib
import LineBasic.Proofs.Openings

/-!
# When loops were opened

The machine keeps no record of when a loop was opened, so two frames may look the same. A chronicle
is a session beside which that record is kept: for every open FOR and WHILE loop, after how many
steps it was opened and how many subroutines were open then.

* `Chronicle`, `Chronicle.Step`, `Chronicle.Reached`: sessions with that record.
  `Chronicle.reached_of_reached`: every session has one.
* `Regrows`, `Chronicle.Step.regrows`: a step closes innermost loops of a kind, and opens at most
  one.
* `Since`: what became of loops since a time: some of the inner ones were closed, and others opened.
-/

namespace LineBasic

/-- When a loop was opened: the number of steps before, and how many subroutines were open. -/
structure Birth where
  time : Nat
  subs : Nat
  deriving DecidableEq, Repr

/-- The record after a step: loops were closed and one may have been opened, so that the given
number is open. -/
def Birth.carry (opened : Bool) (now : Birth) (births : List Birth) (count : Nat) : List Birth :=
  if opened then now :: births.drop (births.length + 1 - count)
  else births.drop (births.length - count)

/-- A session, the number of its steps, and when its open loops were opened, the innermost first. -/
structure Chronicle where
  session : Session
  time : Nat
  loops : List Birth
  whiles : List Birth

namespace Chronicle

/-- What is open. -/
def stack (c : Chronicle) : Stacks := c.session.machine.stack

/-- How many subroutines are open. -/
def height (c : Chronicle) : Nat := c.stack.returns.length

/-- The open FOR loops. -/
def openLoops (c : Chronicle) : List (LoopFrame × Birth) := c.stack.loops.zip c.loops

/-- The open WHILE loops. -/
def openWhiles (c : Chronicle) : List (Position × Birth) := c.stack.whiles.zip c.whiles

/-- The birth of a loop that the next step opens. -/
def now (c : Chronicle) : Birth := ⟨c.time, c.height⟩

/-- The chronicle after a step. A step that leaves more WHILE loops open has opened one. -/
def follow (c : Chronicle) (t : Session) : Chronicle where
  session := t
  time := c.time + 1
  loops := Birth.carry (c.session.opensLoop t) c.now c.loops t.machine.stack.loops.length
  whiles := Birth.carry (c.stack.whiles.length < t.machine.stack.whiles.length) c.now c.whiles
    t.machine.stack.whiles.length

/-- One thing that can happen. -/
inductive Step (c : Chronicle) : Chronicle → Prop where
  | follow {t : Session} (step : c.session.Step t) : Step c (c.follow t)

/-- A new machine: nothing has happened. -/
def init (settings : Settings) : Chronicle := ⟨.init settings, 0, [], []⟩

/-- What a chronicle that began with a new machine comes to. -/
def Reached (settings : Settings) : Chronicle → Prop := Relation.ReflTransGen Step (init settings)

/-- The chronicle after the next turn. -/
def next (c : Chronicle) : Chronicle := c.follow c.session.next

theorem Step.next {c : Chronicle} (h : c.session.phase = .running) : c.Step c.next := by
  refine .follow ?_
  obtain ⟨⟨phase, edited, m⟩, time, loops, whiles⟩ := c
  obtain rfl : phase = .running := h
  exact .turn edited m

theorem Reached.turns {settings : Settings} {c : Chronicle} (h : Reached settings c) (n : Nat)
    (hrunning : ∀ k < n, (next^[k] c).session.phase = .running) :
    Reached settings (next^[n] c) := by
  induction n with
  | zero => exact h
  | succ n ih =>
    rw [Function.iterate_succ_apply']
    exact (ih fun k hk => hrunning k (Nat.lt_succ_of_lt hk)).tail
      (.next (hrunning n (Nat.lt_succ_self n)))

/-- **Every session has a chronicle.** -/
theorem exists_reached {settings : Settings} {s : Session} (h : s.Reached settings) :
    ∃ c, Reached settings c ∧ c.session = s := by
  induction h with
  | refl => exact ⟨init settings, .refl, rfl⟩
  | tail _ hstep ih =>
    obtain ⟨c, hreached, rfl⟩ := ih
    exact ⟨c.follow _, hreached.tail (.follow hstep), rfl⟩

end Chronicle

/-! ## Loops of one kind -/

/-- Loops of one kind before and after a step: innermost ones were closed, and at most one was
opened. -/
inductive Regrows {α : Type} (now : Birth) (before : List (α × Birth)) :
    List (α × Birth) → Prop where
  | closes {after : List (α × Birth)} (suffix : after <:+ before) : Regrows now before after
  | opens {a : α} {kept : List (α × Birth)} (suffix : kept <:+ before) : Regrows now before
      ((a, now) :: kept)

section

variable {α : Type} {now : Birth} {frames kept : List α} {births : List Birth}

theorem Birth.carry_same (now : Birth) (births : List Birth) :
    carry false now births births.length = births := by
  simp [carry]

theorem Birth.carry_outermost (hlength : births.length = frames.length) (n : Nat) :
    carry false now births (Exec.outermost n frames).length = Exec.outermost n births := by
  unfold carry Exec.outermost
  rw [if_neg Bool.false_ne_true, List.length_drop, hlength]
  congr 1
  omega

theorem Birth.length_carry_closed (hlength : births.length = frames.length) (h : kept <:+ frames) :
    (carry false now births kept.length).length = kept.length := by
  have hle := h.length_le
  simp only [carry, Bool.false_eq_true, if_false, List.length_drop]
  omega

theorem Birth.length_carry_opened (hlength : births.length = frames.length) (h : kept <:+ frames) :
    (carry true now births (kept.length + 1)).length = kept.length + 1 := by
  have hle := h.length_le
  simp only [carry, if_true, List.length_cons, List.length_drop]
  omega

theorem zip_suffix (hlength : births.length = frames.length) (h : kept <:+ frames) :
    kept.zip (births.drop (births.length - kept.length)) <:+ frames.zip births := by
  rw [List.suffix_iff_eq_drop.mp h]
  have hle := h.length_le
  have hdrop : births.length - (frames.drop (frames.length - kept.length)).length =
      frames.length - kept.length := by
    rw [List.length_drop]
    omega
  rw [hdrop, List.zip, ← List.drop_zipWith]
  exact List.drop_suffix _ _

theorem regrows_closed (hlength : births.length = frames.length) (h : kept <:+ frames) :
    Regrows now (frames.zip births) (kept.zip (Birth.carry false now births kept.length)) := by
  simp only [Birth.carry, Bool.false_eq_true, if_false]
  exact .closes (zip_suffix hlength h)

theorem regrows_opened (a : α) (hlength : births.length = frames.length) (h : kept <:+ frames) :
    Regrows now (frames.zip births)
      ((a :: kept).zip (Birth.carry true now births (kept.length + 1))) := by
  simp only [Birth.carry, if_true, Nat.add_sub_add_right, List.zip_cons_cons]
  exact .opens (zip_suffix hlength h)

end

/-! ## Every step -/

namespace Session

variable {s t : Session}

/-- The FOR loops after a step. -/
theorem Shifts.loops (h : s.Shifts t) :
    (s.opensLoop t = false ∧ t.machine.stack.loops <:+ s.machine.stack.loops) ∨
    ∃ frame kept, s.opensLoop t = true ∧ kept <:+ s.machine.stack.loops ∧
      t.machine.stack.loops = frame :: kept := by
  cases h with
  | rests opens stack => exact .inl ⟨opens, stack ▸ List.suffix_refl _⟩
  | forgets opens _ stack => exact .inl ⟨opens, stack ▸ List.nil_suffix⟩
  | executes _ _ shifts =>
    generalize s.opensLoop t = opened at shifts ⊢
    generalize t.machine.stack = stack at shifts ⊢
    cases shifts with
    | kept | opensWhile | closesWhile | calls => exact .inl ⟨rfl, List.suffix_refl _⟩
    | cleared => exact .inl ⟨rfl, List.nil_suffix⟩
    | closesLoops suffix => exact .inl ⟨rfl, suffix⟩
    | opensLoop => exact .inr ⟨_, _, rfl, Exec.closeLoop_suffix _ _, rfl⟩
    | returns => exact .inl ⟨rfl, List.drop_suffix _ _⟩

/-- The next instruction is a WHILE. -/
def nearsWhile (s : Session) : Prop :=
  s.phase = .running ∧ s.machine.upcoming?.any Instr.isWhile

/-- The next instruction is a RETURN. -/
def nearsReturn (s : Session) : Prop :=
  s.phase = .running ∧ s.machine.upcoming?.any Instr.isReturn

/-- The WHILE loops after a step. -/
theorem Shifts.whiles (h : s.Shifts t) : t.machine.stack.whiles <:+ s.machine.stack.whiles ∨
    s.nearsWhile ∧ t.machine.stack.whiles = s.machine.position :: s.machine.stack.whiles := by
  cases h with
  | rests _ stack => exact .inl (stack ▸ List.suffix_refl _)
  | forgets _ _ stack => exact .inl (stack ▸ List.nil_suffix)
  | executes running upcoming shifts =>
    generalize s.opensLoop t = opened at shifts
    generalize t.machine.stack = stack at shifts ⊢
    cases shifts with
    | kept | closesLoops | opensLoop | calls => exact .inl (List.suffix_refl _)
    | cleared => exact .inl List.nil_suffix
    | opensWhile isWhile => exact .inr ⟨⟨running, by simpa [upcoming] using isWhile⟩, rfl⟩
    | closesWhile _ innermost => exact .inl (innermost ▸ List.suffix_cons _ _)
    | returns => exact .inl (List.drop_suffix _ _)

/-- The open subroutines after a step: none is left, one was opened, or at most the innermost one
was left. -/
theorem Shifts.returns (h : s.Shifts t) : t.machine.stack.returns = [] ∨
    (∃ frame, t.machine.stack.returns = frame :: s.machine.stack.returns) ∨
    t.machine.stack.returns <:+ s.machine.stack.returns ∧
      s.machine.stack.returns.length ≤ t.machine.stack.returns.length + 1 := by
  cases h with
  | rests _ stack => exact .inr (.inr ⟨stack ▸ List.suffix_refl _, by rw [stack]; omega⟩)
  | forgets _ _ stack => exact .inl (stack ▸ rfl)
  | executes _ _ shifts =>
    generalize s.opensLoop t = opened at shifts
    generalize t.machine.stack = stack at shifts ⊢
    cases shifts with
    | kept | closesLoops | opensLoop | opensWhile | closesWhile =>
      exact .inr (.inr ⟨List.suffix_refl _, Nat.le_succ _⟩)
    | cleared => exact .inl rfl
    | calls => exact .inr (.inl ⟨_, rfl⟩)
    | returns _ innermost =>
      exact .inr (.inr ⟨innermost ▸ List.suffix_cons _ _, by simp [innermost]⟩)

/-- A step that opens a subroutine leaves all loops, and keeps how many there are. -/
theorem Shifts.of_call (h : s.Shifts t)
    (hheight : t.machine.stack.returns.length = s.machine.stack.returns.length + 1) :
    s.opensLoop t = false ∧ t.machine.stack = { s.machine.stack with
      returns :=
        ⟨s.machine.position.after, s.machine.stack.loops.length, s.machine.stack.whiles.length⟩ ::
          s.machine.stack.returns } := by
  cases h with
  | rests _ stack =>
    rw [stack] at hheight
    omega
  | forgets _ _ stack =>
    rw [stack] at hheight
    cases hheight
  | executes _ _ shifts =>
    generalize s.opensLoop t = opened at shifts ⊢
    generalize t.machine.stack = stack at shifts hheight ⊢
    cases shifts with
    | kept | closesLoops | opensLoop | opensWhile | closesWhile =>
      simp only at hheight
      omega
    | cleared => cases hheight
    | calls => exact ⟨rfl, rfl⟩
    | returns _ innermost =>
      rw [innermost, List.length_cons] at hheight
      simp only at hheight
      omega

theorem eq_leaveSub_of_isReturn {i : Instr} (h : i.isReturn = true) :
    ∃ column, i = .command column .leaveSub := by
  unfold Instr.isReturn at h
  split at h
  · exact ⟨_, rfl⟩
  · cases h

/-- A RETURN that leaves a subroutine closes the loops beyond those that were open when it was
called. -/
theorem Shifts.of_return (h : s.Shifts t) (hreturn : s.nearsReturn)
    (hheight : t.machine.stack.returns.length < s.machine.stack.returns.length) :
    s.opensLoop t = false ∧ ∃ frame, s.machine.stack.returns = frame :: t.machine.stack.returns ∧
      t.machine.stack.loops = Exec.outermost frame.loops s.machine.stack.loops ∧
      t.machine.stack.whiles = Exec.outermost frame.whiles s.machine.stack.whiles := by
  obtain ⟨hrunning, hupcoming⟩ := hreturn
  cases h with
  | rests _ stack =>
    rw [stack] at hheight
    omega
  | forgets _ prompt =>
    rw [hrunning] at prompt
    cases prompt
  | @executes i running upcoming shifts =>
    rw [upcoming, Option.any_some] at hupcoming
    obtain ⟨column, rfl⟩ := eq_leaveSub_of_isReturn hupcoming
    generalize s.opensLoop t = opened at shifts ⊢
    generalize t.machine.stack = stack at shifts hheight ⊢
    cases shifts with
    | kept | closesLoops | opensLoop =>
      simp only at hheight
      omega
    | cleared clears => cases clears
    | opensWhile isWhile | closesWhile isWhile => cases isWhile
    | calls isCall => cases isCall
    | returns _ innermost => exact ⟨rfl, _, innermost, rfl, rfl⟩

/-- A WHILE closes no WHILE loop but its own, which is then the innermost one. -/
theorem Shifts.of_while (h : s.Shifts t) (hwhile : s.nearsWhile) :
    s.machine.stack.whiles.length ≤ t.machine.stack.whiles.length ∨
      s.machine.stack.whiles = s.machine.position :: t.machine.stack.whiles := by
  obtain ⟨hrunning, hupcoming⟩ := hwhile
  cases h with
  | rests _ stack => exact .inl (stack ▸ le_rfl)
  | forgets _ prompt =>
    rw [hrunning] at prompt
    cases prompt
  | @executes i running upcoming shifts =>
    obtain ⟨column, condition, rfl⟩ : ∃ column condition, i =
        .command column (.openWhile condition) := by
      rw [upcoming, Option.any_some] at hupcoming
      unfold Instr.isWhile at hupcoming
      split at hupcoming
      · exact ⟨_, _, rfl⟩
      · cases hupcoming
    generalize s.opensLoop t = opened at shifts
    generalize t.machine.stack = stack at shifts ⊢
    cases shifts with
    | kept | closesLoops | opensLoop | calls => exact .inl le_rfl
    | cleared clears => cases clears
    | opensWhile => exact .inl (Nat.le_succ _)
    | closesWhile _ innermost => exact .inr innermost
    | returns isReturn => cases isReturn

end Session

namespace Chronicle

variable {settings : Settings} {c d : Chronicle}

/-- The record is about the loops that are open, all of which were opened before. -/
structure Faithful (c : Chronicle) : Prop where
  loops : c.loops.length = c.stack.loops.length
  whiles : c.whiles.length = c.stack.whiles.length
  loopsBefore : ∀ b ∈ c.loops, b.time < c.time
  whilesBefore : ∀ b ∈ c.whiles, b.time < c.time

theorem time_of_mem_carry {opened : Bool} {births : List Birth} {count : Nat}
    (h : ∀ b ∈ births, b.time < c.time) :
    ∀ b ∈ Birth.carry opened c.now births count, b.time < c.time + 1 := by
  intro b hb
  unfold Birth.carry at hb
  split at hb
  · rcases List.mem_cons.mp hb with rfl | hb
    · exact Nat.lt_succ_self c.time
    · exact Nat.lt_succ_of_lt (h b (List.mem_of_mem_drop hb))
  · exact Nat.lt_succ_of_lt (h b (List.mem_of_mem_drop hb))

/-- What a step does to the record of the FOR loops. -/
theorem regrows_loops (hlength : c.loops.length = c.stack.loops.length) {t : Session}
    (h : c.session.Shifts t) :
    (c.follow t).loops.length = t.machine.stack.loops.length ∧
      Regrows c.now c.openLoops (c.follow t).openLoops := by
  unfold openLoops follow stack at *
  simp only
  rcases h.loops with ⟨hopens, hsuffix⟩ | ⟨frame, kept, hopens, hsuffix, hloops⟩
  · rw [hopens]
    exact ⟨Birth.length_carry_closed hlength hsuffix, regrows_closed hlength hsuffix⟩
  · rw [hopens, hloops]
    exact ⟨Birth.length_carry_opened hlength hsuffix, regrows_opened frame hlength hsuffix⟩

/-- What a step does to the record of the WHILE loops: only WHILE opens one, which is that of its
own statement. -/
theorem whiles_follow (hlength : c.whiles.length = c.stack.whiles.length) {t : Session}
    (h : c.session.Shifts t) :
    (c.follow t).whiles.length = t.machine.stack.whiles.length ∧
      ((c.follow t).openWhiles <:+ c.openWhiles ∨
      c.session.nearsWhile ∧ (c.follow t).openWhiles = (c.session.machine.position, c.now) ::
        c.openWhiles) := by
  unfold openWhiles follow stack at *
  simp only
  rcases h.whiles with hsuffix | ⟨hnears, hwhiles⟩
  · have hclosed : decide (c.session.machine.stack.whiles.length < t.machine.stack.whiles.length) =
        false := by
      simpa using hsuffix.length_le
    rw [hclosed]
    refine ⟨Birth.length_carry_closed hlength hsuffix, .inl ?_⟩
    simp only [Birth.carry, Bool.false_eq_true, if_false]
    exact zip_suffix hlength hsuffix
  · have hopened : decide (c.session.machine.stack.whiles.length < t.machine.stack.whiles.length) =
        true := by
      simp [hwhiles]
    rw [hopened, hwhiles]
    refine ⟨Birth.length_carry_opened hlength (List.suffix_refl _), .inr ⟨hnears, ?_⟩⟩
    simp [Birth.carry, hlength]

theorem Step.whiles (h : c.Step d) (hc : c.Faithful) : d.openWhiles <:+ c.openWhiles ∨
    c.session.nearsWhile ∧ d.openWhiles = (c.session.machine.position, c.now) :: c.openWhiles := by
  obtain ⟨step⟩ := h
  exact (whiles_follow hc.whiles step.shifts).2

/-- **A step closes innermost loops of each kind, and opens at most one.** The record stays
faithful. -/
theorem Step.regrows (h : c.Step d) (hc : c.Faithful) : d.Faithful ∧ d.time = c.time + 1 ∧
    Regrows c.now c.openLoops d.openLoops ∧ Regrows c.now c.openWhiles d.openWhiles := by
  obtain ⟨step⟩ := h
  obtain ⟨hloops, hregrowsLoops⟩ := regrows_loops hc.loops step.shifts
  obtain ⟨hwhiles, hshape⟩ := whiles_follow hc.whiles step.shifts
  refine ⟨⟨hloops, hwhiles, ?_, ?_⟩, rfl, hregrowsLoops, ?_⟩
  · exact time_of_mem_carry hc.loopsBefore
  · exact time_of_mem_carry hc.whilesBefore
  · rcases hshape with hsuffix | ⟨-, hcons⟩
    · exact .closes hsuffix
    · exact hcons ▸ .opens (List.suffix_refl _)

theorem Reached.faithful (h : Reached settings c) : c.Faithful := by
  induction h with
  | refl =>
    exact ⟨by rw [stack, init, Session.init_eq]; rfl, by rw [stack, init, Session.init_eq]; rfl,
      nofun, nofun⟩
  | tail _ hstep ih => exact (hstep.regrows ih).1

end Chronicle

/-! ## Loops since a time -/

/-- What became of loops since a time: inner ones were closed, and others were opened since. -/
def Since {α : Type} (time : Nat) (base loops : List (α × Birth)) : Prop :=
  ∃ own kept, loops = own ++ kept ∧ kept <:+ base ∧ ∀ e ∈ own, time ≤ e.2.time

namespace Since

variable {α : Type} {time : Nat} {base loops loops' : List (α × Birth)} {now : Birth}

theorem refl (time : Nat) (base : List (α × Birth)) : Since time base base :=
  ⟨[], base, rfl, List.suffix_refl _, nofun⟩

theorem suffix (h : Since time base loops) (hsuffix : loops' <:+ loops) :
    Since time base loops' := by
  obtain ⟨own, kept, rfl, hkept, hown⟩ := h
  rcases List.suffix_or_suffix_of_suffix hsuffix (List.suffix_append own kept) with h | ⟨own', rfl⟩
  · exact ⟨[], loops', rfl, h.trans hkept, nofun⟩
  · have hown' := List.suffix_append_self_iff.mp hsuffix
    exact ⟨own', kept, rfl, hkept, fun e he => hown e (hown'.subset he)⟩

/-- Steps after that time add to what became of the loops. -/
theorem regrows (h : Since time base loops) (hregrows : Regrows now loops loops')
    (htime : time ≤ now.time) :
    Since time base loops' := by
  cases hregrows with
  | closes hsuffix => exact h.suffix hsuffix
  | @opens a kept' hsuffix =>
    obtain ⟨own, kept, rfl, hkept, hown⟩ := h.suffix hsuffix
    refine ⟨(a, now) :: own, kept, rfl, hkept, fun e he => ?_⟩
    rcases List.mem_cons.mp he with rfl | he
    · exact htime
    · exact hown e he

end Since

end LineBasic
