import Mathlib
import LineBasic.Proofs.LoopHistory

/-!
# Loops and subroutines

What RETURN and WHILE do to the loops of a caller.

* `Chronicle.Subroutine`: what happens from a GOSUB to the RETURN that matches it.
* `Chronicle.Returned`: what RETURN leaves of the loops. It leaves as many open as there were at the
  GOSUB. It closes every loop that the subroutine opened if the subroutine closed none of its
  caller's; otherwise loops of the subroutine stay open in the places of those that it closed.
* `Chronicle.Guarded`: WHILE closes the innermost WHILE loop only, and only as the statement that
  opened it, so a subroutine consumes its caller's loop only if it comes to the very same WHILE.
-/

namespace LineBasic

namespace Chronicle

variable {settings : Settings} {P : Chronicle → Prop} {c c₀ c₁ c₂ c₃ d : Chronicle}

/-- A subroutine: a step opens it, it stays open while other steps are taken from states with the
property `P`, and then a RETURN leaves it. -/
structure Subroutine (P : Chronicle → Prop) (c₀ c₁ c₂ c₃ : Chronicle) : Prop where
  call : c₀.Step c₁
  opened : c₁.height = c₀.height + 1
  inside : Relation.ReflTransGen (fun c d => P c ∧ c.Step d ∧ c₀.height < d.height) c₁ c₂
  last : c₂.height = c₁.height
  before : P c₂
  nears : c₂.session.nearsReturn
  leave : c₂.Step c₃
  closed : c₃.height = c₀.height

theorem Step.shifts (h : c.Step d) : c.session.Shifts d.session := by
  obtain ⟨step⟩ := h
  exact step.shifts

/-! ## Inside a subroutine -/

/-- The frame that a call keeps. -/
def frame (c : Chronicle) : ReturnFrame :=
  ⟨c.session.machine.position.after, c.stack.loops.length, c.stack.whiles.length⟩

/-- What holds inside a subroutine that was called from `c₀`: its frame is kept, and loops were
closed and opened since. -/
structure Inside (c₀ c : Chronicle) : Prop where
  faithful : c.Faithful
  later : c₀.time < c.time
  returns : c₀.frame :: c₀.stack.returns <:+ c.stack.returns
  loops : Since c₀.time c₀.openLoops c.openLoops
  whiles : Since c₀.time c₀.openWhiles c.openWhiles

/-- A call opens and closes no loop. -/
theorem Step.call_eq (h : c₀.Step c₁) (hopened : c₁.height = c₀.height + 1)
    (hfaithful : c₀.Faithful) :
    c₁.stack = { c₀.stack with returns := c₀.frame :: c₀.stack.returns } ∧
      c₁.openLoops = c₀.openLoops ∧ c₁.openWhiles = c₀.openWhiles := by
  cases h with
  | @follow t step =>
    obtain ⟨hopens, hstack⟩ := step.shifts.of_call hopened
    have hloops : (c₀.follow t).loops = c₀.loops := by
      unfold Chronicle.follow
      rw [hopens, hstack]
      simp only
      rw [show c₀.session.machine.stack.loops.length = c₀.loops.length from hfaithful.loops.symm,
        Birth.carry_same]
    have hwhiles : (c₀.follow t).whiles = c₀.whiles := by
      unfold Chronicle.follow stack
      rw [hstack]
      simp only [lt_self_iff_false, decide_false]
      rw [show c₀.session.machine.stack.whiles.length = c₀.whiles.length from hfaithful.whiles.symm,
        Birth.carry_same]
    refine ⟨hstack, ?_, ?_⟩
    · unfold openLoops
      rw [hloops, show (c₀.follow t).stack = _ from hstack]
      rfl
    · unfold openWhiles
      rw [hwhiles, show (c₀.follow t).stack = _ from hstack]
      rfl

theorem Inside.step (h : Inside c₀ c) (hstep : c.Step d) (hheight : c₀.height < d.height) :
    Inside c₀ d := by
  obtain ⟨hfaithful, htime, hloops, hwhiles⟩ := hstep.regrows h.faithful
  refine ⟨hfaithful, htime ▸ Nat.lt_succ_of_lt h.later, ?_, ?_, ?_⟩
  · rcases hstep.shifts.returns with hnil | ⟨frame, hcons⟩ | ⟨hsuffix, -⟩
    · have hzero : d.height = 0 := congrArg List.length hnil
      omega
    · have hcons : d.stack.returns = frame :: c.stack.returns := hcons
      exact hcons ▸ h.returns.trans (List.suffix_cons _ _)
    · exact List.suffix_of_suffix_length_le h.returns hsuffix hheight
  · exact h.loops.regrows hloops h.later.le
  · exact h.whiles.regrows hwhiles h.later.le

theorem Subroutine.enters (h : Subroutine P c₀ c₁ c₂ c₃) (hfaithful : c₀.Faithful) :
    Inside c₀ c₁ := by
  obtain ⟨hfaithful₁, htime, -, -⟩ := h.call.regrows hfaithful
  obtain ⟨hstack, hloops, hwhiles⟩ := h.call.call_eq h.opened hfaithful
  refine ⟨hfaithful₁, by omega, ?_, hloops ▸ .refl _ _, hwhiles ▸ .refl _ _⟩
  rw [hstack]

theorem Inside.steps (h : Inside c₀ c)
    (hsteps : Relation.ReflTransGen (fun c d => P c ∧ c.Step d ∧ c₀.height < d.height) c d) :
    Inside c₀ d := by
  induction hsteps with
  | refl => exact h
  | tail _ hstep ih => exact ih.step hstep.2.1 hstep.2.2

theorem Subroutine.runs (h : Subroutine P c₀ c₁ c₂ c₃) (hfaithful : c₀.Faithful) : Inside c₀ c₂ :=
  (h.enters hfaithful).steps h.inside

/-- The innermost subroutine is the one that was called. -/
theorem Subroutine.returns_eq (h : Subroutine P c₀ c₁ c₂ c₃) (hfaithful : c₀.Faithful) :
    c₂.stack.returns = c₀.frame :: c₀.stack.returns := by
  have hlength : c₂.stack.returns.length = (c₀.frame :: c₀.stack.returns).length :=
    h.last.trans h.opened
  exact ((h.runs hfaithful).returns.eq_of_length hlength.symm).symm

theorem zip_outermost {α β : Type} {as : List α} {bs : List β}
    (h : bs.length = as.length) (n : Nat) :
    (Exec.outermost n as).zip (Exec.outermost n bs) = Exec.outermost n (as.zip bs) := by
  unfold Exec.outermost
  rw [List.length_zip, h, min_self]
  simp only [List.zip_eq_zipWith, List.drop_zipWith]

/-- RETURN leaves as many of the outermost loops of each kind as there were at the call. -/
theorem Subroutine.leaves (h : Subroutine P c₀ c₁ c₂ c₃) (hfaithful : c₀.Faithful) :
    c₃.openLoops = Exec.outermost c₀.openLoops.length c₂.openLoops ∧
      c₃.openWhiles = Exec.outermost c₀.openWhiles.length c₂.openWhiles := by
  have hlengths : c₀.openLoops.length = c₀.stack.loops.length ∧
      c₀.openWhiles.length = c₀.stack.whiles.length := by
    simp [openLoops, openWhiles, hfaithful.loops, hfaithful.whiles]
  have hfaithful₂ := (h.runs hfaithful).faithful
  have hheight : c₃.height < c₂.height := by
    rw [h.closed, h.last, h.opened]
    exact Nat.lt_succ_self _
  have hreturns := h.returns_eq hfaithful
  have hnears := h.nears
  obtain @⟨t, step⟩ := h.leave
  obtain ⟨hopens, frame, hframe, hloops, hwhiles⟩ := step.shifts.of_return hnears hheight
  obtain rfl : frame = c₀.frame := List.head_eq_of_cons_eq (hframe.symm.trans hreturns)
  replace hloops : (c₂.follow t).stack.loops =
      Exec.outermost c₀.openLoops.length c₂.stack.loops := by
    rw [hlengths.1]
    exact hloops
  replace hwhiles : (c₂.follow t).stack.whiles =
      Exec.outermost c₀.openWhiles.length c₂.stack.whiles := by
    rw [hlengths.2]
    exact hwhiles
  constructor
  · have hbirths : (c₂.follow t).loops = Exec.outermost c₀.openLoops.length c₂.loops := by
      change Birth.carry _ _ _ (c₂.follow t).stack.loops.length = _
      rw [hopens, hloops, Birth.carry_outermost hfaithful₂.loops]
    unfold openLoops
    rw [hloops, hbirths]
    exact zip_outermost hfaithful₂.loops _
  · have hclosed : ¬c₂.stack.whiles.length <
        (Exec.outermost c₀.openWhiles.length c₂.stack.whiles).length := by
      simp [Exec.outermost]
    have hbirths : (c₂.follow t).whiles = Exec.outermost c₀.openWhiles.length c₂.whiles := by
      change Birth.carry (decide (_ < (c₂.follow t).stack.whiles.length)) _ _
        (c₂.follow t).stack.whiles.length = _
      rw [hwhiles, decide_eq_false hclosed, Birth.carry_outermost hfaithful₂.whiles]
    unfold openWhiles
    rw [hwhiles, hbirths]
    exact zip_outermost hfaithful₂.whiles _

end Chronicle

/-! ## What RETURN leaves open -/

/-- What a RETURN leaves open of the loops of one kind: those that were open before the call at the
given time and those that are open at the RETURN tell which ones are open afterwards. -/
structure Returned {α : Type} (time : Nat) (before inside after : List (α × Birth)) : Prop where
  /-- no loop that was opened since the call is left just if all older ones are still open, or no
  newer one is -/
  discards : (∀ e ∈ after, e.2.time < time) ↔ before <:+ inside ∨ ∀ e ∈ inside, e.2.time < time
  /-- if all older ones are still open, they are what is left -/
  restores : before <:+ inside → after = before
  /-- older ones that are still open are never closed -/
  keeps : ∀ e ∈ before, e ∈ inside → e ∈ after
  /-- as many newer ones are left as there are, but no more than older ones were closed -/
  survivors : (after.countP fun e => time ≤ e.2.time) =
    min (inside.countP fun e => time ≤ e.2.time)
    (before.length - inside.countP fun e => e.2.time < time)

theorem outermost_append {α : Type} {n : Nat} (own kept : List α) (h : kept.length ≤ n) :
    Exec.outermost n (own ++ kept) = Exec.outermost (n - kept.length) own ++ kept := by
  unfold Exec.outermost
  rw [List.length_append, List.drop_append, show own.length + kept.length - n - own.length =
    0 by omega, List.drop_zero]
  congr 2
  omega

section

variable {α : Type} {time : Nat} {before own kept : List (α × Birth)}

/-- If all older loops are still open, none of them was closed. -/
theorem kept_eq_of_suffix (hbefore : ∀ e ∈ before, e.2.time < time)
    (hown : ∀ e ∈ own, time ≤ e.2.time) (hkept : kept <:+ before) (h : before <:+ own ++ kept) :
    kept = before := by
  obtain ⟨own', rfl⟩ := hkept
  have hown' : own' <:+ own := List.suffix_append_self_iff.mp h
  cases own' with
  | nil => rfl
  | cons e es =>
    have hold := hbefore e (by simp)
    have hnew := hown e (hown'.subset List.mem_cons_self)
    omega

theorem countP_append_own (hown : ∀ e ∈ own, time ≤ e.2.time)
    (hkept : ∀ e ∈ kept, e.2.time < time) :
    ((own ++ kept).countP fun e => time ≤ e.2.time) = own.length ∧
      ((own ++ kept).countP fun e => e.2.time < time) = kept.length := by
  have hnew : (own.countP fun e => time ≤ e.2.time) = own.length :=
    List.countP_eq_length.mpr (by simpa using hown)
  have hnew' : (own.countP fun e => e.2.time < time) = 0 :=
    List.countP_eq_zero.mpr (by simpa using hown)
  have hold : (kept.countP fun e => time ≤ e.2.time) = 0 :=
    List.countP_eq_zero.mpr (by simpa using hkept)
  have hold' : (kept.countP fun e => e.2.time < time) = kept.length :=
    List.countP_eq_length.mpr (by simpa using hkept)
  rw [List.countP_append, List.countP_append, hnew, hnew', hold, hold']
  omega

end

/-- **The loops that a RETURN leaves open.** -/
theorem returned_of_since {α : Type} {time : Nat} {before inside : List (α × Birth)}
    (hbefore : ∀ e ∈ before, e.2.time < time) (h : Since time before inside) :
    Returned time before inside (Exec.outermost before.length inside) := by
  obtain ⟨own, kept, rfl, hkept, hown⟩ := h
  have hle := hkept.length_le
  have hold : ∀ e ∈ kept, e.2.time < time := fun e he => hbefore e (hkept.subset he)
  -- what is left are the outermost of the newer loops, as many as older ones were closed, and the
  -- rest of the older ones
  rw [outermost_append own kept hle]
  have hleft : ∀ e ∈ Exec.outermost (before.length - kept.length) own, time ≤ e.2.time :=
    fun e he => hown e (List.mem_of_mem_drop he)
  have hlength : (Exec.outermost (before.length - kept.length) own).length =
      min own.length (before.length - kept.length) := by
    rw [Exec.outermost, List.length_drop]
    omega
  have hrestores : before <:+ own ++ kept →
      Exec.outermost (before.length - kept.length) own ++ kept = before := by
    intro hsuffix
    obtain rfl := kept_eq_of_suffix hbefore hown hkept hsuffix
    simp [Exec.outermost]
  refine ⟨⟨fun hafter => ?_, ?_⟩, hrestores, fun e _ hmem => ?_, ?_⟩
  · have hempty : Exec.outermost (before.length - kept.length) own = [] := by
      refine List.eq_nil_iff_forall_not_mem.mpr fun e he => ?_
      have hnew := hleft e he
      have hold := hafter e (List.mem_append_left _ he)
      omega
    rw [hempty, List.length_nil] at hlength
    by_cases hown' : own = []
    · subst hown'
      exact .inr hold
    · have hpos := List.length_pos_iff.mpr hown'
      have hsame := hkept.eq_of_length (by omega)
      exact .inl (hsame ▸ List.suffix_append _ _)
  · rintro (hsuffix | hinside)
    · rw [hrestores hsuffix]
      exact hbefore
    · intro e he
      rcases List.mem_append.mp he with he | he
      · exact hinside e (List.mem_append_left _ (List.mem_of_mem_drop he))
      · exact hold e he
  · rcases List.mem_append.mp hmem with hmem | hmem
    · have hnew := hown e hmem
      have hold := hbefore e ‹_›
      omega
    · exact List.mem_append_right _ hmem
  · rw [(countP_append_own hleft hold).1, (countP_append_own hown hold).1,
      (countP_append_own hown hold).2, hlength]

namespace Chronicle

variable {settings : Settings} {P : Chronicle → Prop} {c c₀ c₁ c₂ c₃ d : Chronicle}

theorem Faithful.time_of_mem (h : c.Faithful) :
    (∀ e ∈ c.openLoops, e.2.time < c.time) ∧ ∀ e ∈ c.openWhiles, e.2.time < c.time :=
  ⟨fun e he => h.loopsBefore e.2 (List.of_mem_zip he).2, fun e he =>
    h.whilesBefore e.2 (List.of_mem_zip he).2⟩

/-- **What RETURN does to the loops of a subroutine and of its caller.** Every session has a
chronicle. For every call in every chronicle and the RETURN that matches it: no FOR loop that was
opened since the call stays open just if all FOR loops of the caller are still open at the RETURN,
or none of the subroutine is; if the subroutine has closed none of its caller's, the RETURN brings
back exactly those; and otherwise as many of its own stay open as it has closed. The same holds for
WHILE loops. -/
theorem return_discards (settings : Settings) :
    (∀ s : Session, s.Reached settings → ∃ c, Reached settings c ∧ c.session = s) ∧
    ∀ c₀ c₁ c₂ c₃, Reached settings c₀ → Subroutine (fun _ => True) c₀ c₁ c₂ c₃ →
      Returned c₀.time c₀.openLoops c₂.openLoops c₃.openLoops ∧
        Returned c₀.time c₀.openWhiles c₂.openWhiles c₃.openWhiles := by
  refine ⟨fun s => exists_reached, fun c₀ c₁ c₂ c₃ h hsub => ?_⟩
  obtain ⟨hloops, hwhiles⟩ := h.faithful.time_of_mem
  have hinside := hsub.runs h.faithful
  obtain ⟨hleft, hleft'⟩ := hsub.leaves h.faithful
  rw [hleft, hleft']
  exact ⟨returned_of_since hloops hinside.loops, returned_of_since hwhiles hinside.whiles⟩

/-! ### Two subroutines -/

/-- A program was given to a new machine and begins to run. -/
def ofProgram (text : String) : Chronicle :=
  let c := (init default).follow (Session.loaded false (Machine.load text (.new default)))
  c.follow (Session.started (Machine.prepare none c.session.machine))

theorem reached_ofProgram (text : String) : Reached default (ofProgram text) := by
  have hload :=
    Relation.ReflTransGen.single (Step.follow (c := init default) (.load text false (.new default)))
  refine hload.tail (.follow ?_)
  generalize Machine.load text (.new default) = r
  obtain ⟨_ | _ | _, m⟩ := r <;> exact .start none _ m

/-- The next turn calls a subroutine, and its RETURN comes that many turns later. -/
def Returns (c : Chronicle) (n : Nat) : Prop :=
  (∀ k ≤ n + 1, (next^[k] c).session.phase = .running) ∧
    (∀ k ≤ n, c.height < (next^[k] c.next).height) ∧
    c.next.height = c.height + 1 ∧ (next^[n] c.next).height = c.height + 1 ∧
    (next^[n] c.next).session.machine.upcoming?.any Instr.isReturn ∧
    (next^[n + 1] c.next).height = c.height

instance (c : Chronicle) (n : Nat) : Decidable (c.Returns n) := inferInstanceAs (Decidable (_ ∧ _))

theorem Returns.subroutine {n : Nat} (h : c₀.Returns n) (hP : ∀ k ≤ n, P (next^[k] c₀.next)) :
    Subroutine P c₀ c₀.next (next^[n] c₀.next) (next^[n + 1] c₀.next) := by
  obtain ⟨hrunning, hinside, hopened, hlast, hnears, hclosed⟩ := h
  have hsteps : ∀ k ≤ n,
      Relation.ReflTransGen (fun c d => P c ∧ c.Step d ∧ c₀.height < d.height) c₀.next
      (next^[k] c₀.next) := by
    intro k hk
    induction k with
    | zero => exact .refl
    | succ k ih =>
      refine (ih (by omega)).tail ⟨hP k (by omega), ?_, hinside (k + 1) hk⟩
      rw [Function.iterate_succ_apply']
      exact .next (hrunning (k + 1) (by omega))
  refine ⟨.next (hrunning 0 (by omega)), hopened, hsteps n le_rfl, hlast.trans hopened.symm,
    hP n le_rfl, ⟨hrunning (n + 1) le_rfl, hnears⟩, ?_, hclosed⟩
  rw [Function.iterate_succ_apply']
  exact .next (hrunning (n + 1) le_rfl)

/-- A program that calls, in a loop, a subroutine that opens a loop over another variable. -/
def besideLoopText : String :=
  "10 FOR I=1 TO 3\n20 GOSUB 50\n30 STOP\n50 FOR J=5 TO 9\n60 RETURN"

/-- The chronicle of that program, two turns after it was started. -/
def besideLoop : Chronicle := next^[2] (ofProgram besideLoopText)

theorem return_discards_besideLoop :
    ((next^[2] besideLoop.next).openLoops.countP fun e => besideLoop.time ≤ e.2.time) = 1 ∧
    ((next^[3] besideLoop.next).openLoops.countP fun e => besideLoop.time ≤ e.2.time) = 0 := by
  have hfacts : (∀ k < 2, (next^[k] (ofProgram besideLoopText)).session.phase = .running) ∧
      besideLoop.Returns 2 ∧
      ((next^[2] besideLoop.next).openLoops.countP fun e => besideLoop.time ≤ e.2.time) = 1 ∧
      besideLoop.openLoops.length - ((next^[2] besideLoop.next).openLoops.countP fun e =>
      e.2.time < besideLoop.time) = 0 := by
    decide +kernel
  obtain ⟨hrunning, hreturns, hown, hclosed⟩ := hfacts
  have hreached : Reached default besideLoop := (reached_ofProgram _).turns 2 hrunning
  refine ⟨hown, ?_⟩
  have hreturned :=
    (return_discards default).2 _ _ _ _ hreached (hreturns.subroutine fun _ _ => trivial)
  rw [hreturned.1.survivors, hown, hclosed]
  rfl

/-- A program that calls, in a loop, a subroutine that opens a loop over the same variable. -/
def sameLoopText : String :=
  "10 FOR I=1 TO 3\n20 GOSUB 50\n30 STOP\n50 FOR I=5 TO 9\n60 RETURN"

/-- The chronicle of that program, two turns after it was started. -/
def sameLoop : Chronicle := next^[2] (ofProgram sameLoopText)

/-- **Not every loop that a subroutine opened is closed by its RETURN**: the one that took the place
of its caller's stays open. -/
theorem return_keeps_sameLoop :
    ∃ c₀ c₁ c₂ c₃, Reached default c₀ ∧ Subroutine (fun _ => True) c₀ c₁ c₂ c₃ ∧
    ∃ e ∈ c₃.openLoops, c₀.time < e.2.time := by
  have hfacts : (∀ k < 2, (next^[k] (ofProgram sameLoopText)).session.phase = .running) ∧
      sameLoop.Returns 2 ∧
      (next^[3] sameLoop.next).openLoops.any (fun e => sameLoop.time < e.2.time) = true := by
    decide +kernel
  obtain ⟨hrunning, hreturns, hleft⟩ := hfacts
  obtain ⟨e, he, htime⟩ := List.any_eq_true.mp hleft
  exact ⟨sameLoop, _, _, _, (reached_ofProgram _).turns 2 hrunning, hreturns.subroutine fun _ _ =>
    trivial, e, he, of_decide_eq_true htime⟩

/-! ## WHILE in a subroutine -/

/-- The next statement is the WHILE of the innermost loop that is open in `c₀`, and no other WHILE
loop was opened since or all of them were closed. -/
def Recurs (c₀ c : Chronicle) : Prop :=
  c.session.nearsWhile ∧ c₀.stack.whiles.head? = some c.session.machine.position ∧
    c.stack.whiles.length = c₀.stack.whiles.length

instance (c₀ c : Chronicle) : Decidable (Recurs c₀ c) :=
  inferInstanceAs
    (Decidable ((c.session.phase = .running ∧
      c.session.machine.upcoming?.any Instr.isWhile = true) ∧ _))

/-- What holds inside a subroutine that was called from `c₀` and has left the WHILE loops of its
caller alone: they are open below its own, and the subroutines that it called keep to that. -/
structure Guarded (c₀ c : Chronicle) : Prop where
  faithful : c.Faithful
  whiles : c₀.openWhiles <:+ c.openWhiles
  returns : ∃ inner, c.stack.returns = inner ++ c₀.frame :: c₀.stack.returns ∧
    ∀ f ∈ inner, c₀.stack.whiles.length ≤ f.whiles

theorem Faithful.length_openWhiles (h : c.Faithful) :
    c.openWhiles.length = c.stack.whiles.length := by
  simp [openWhiles, h.whiles]

theorem Faithful.map_openWhiles (h : c.Faithful) : c.openWhiles.map Prod.fst = c.stack.whiles :=
  List.map_fst_zip (by rw [h.whiles])

/-- The caller's loops are below the subroutine's own. -/
theorem Guarded.stack_suffix (h : Guarded c₀ c) (hfaithful : c₀.Faithful) :
    c₀.stack.whiles <:+ c.stack.whiles := by
  rw [← hfaithful.map_openWhiles, ← h.faithful.map_openWhiles]
  exact h.whiles.map _

/-- A step inside the subroutine leaves as many WHILE loops as its caller has, unless it is the
WHILE of the innermost one of these. -/
theorem Guarded.shift (h : Guarded c₀ c) (hfaithful : c₀.Faithful) (hrecurs : ¬Recurs c₀ c)
    {t : Session} (hshifts : c.session.Shifts t)
    (hheight : c₀.height < t.machine.stack.returns.length) :
    c₀.stack.whiles.length ≤ t.machine.stack.whiles.length ∧
      ∃ inner, t.machine.stack.returns = inner ++ c₀.frame :: c₀.stack.returns ∧
        ∀ f ∈ inner, c₀.stack.whiles.length ≤ f.whiles := by
  have hsuffix := h.stack_suffix hfaithful
  have hle : c₀.stack.whiles.length ≤ c.session.machine.stack.whiles.length := hsuffix.length_le
  obtain ⟨inner, hreturns, hinner⟩ := h.returns
  cases hshifts with
  | rests _ stack => exact stack ▸ ⟨hle, inner, hreturns, hinner⟩
  | forgets _ _ stack =>
    rw [stack] at hheight
    cases hheight
  | @executes i running upcoming shifts =>
    generalize c.session.opensLoop t = opened at shifts
    generalize t.machine.stack = stack at shifts hheight ⊢
    cases shifts with
    | kept | closesLoops | opensLoop => exact ⟨hle, inner, hreturns, hinner⟩
    | cleared => cases hheight
    | opensWhile => exact ⟨Nat.le_succ_of_le hle, inner, hreturns, hinner⟩
    | @closesWhile outer isWhile innermost =>
      refine ⟨?_, inner, hreturns, hinner⟩
      have hlength : c.stack.whiles.length = outer.length + 1 := congrArg List.length innermost
      by_contra hlt
      replace hlt : outer.length < c₀.stack.whiles.length := not_le.mp hlt
      -- the loop that is closed is the caller's innermost one
      have hsame : c₀.stack.whiles = c.stack.whiles := hsuffix.eq_of_length_le (hlength ▸ hlt)
      refine hrecurs ⟨⟨running, by simpa [upcoming] using isWhile⟩, ?_, by rw [hsame]⟩
      rw [hsame]
      exact congrArg List.head? innermost
    | calls =>
      refine ⟨hle, _ :: inner, congrArg (List.cons _) hreturns, fun f hf => ?_⟩
      rcases List.mem_cons.mp hf with rfl | hf
      · exact hle
      · exact hinner f hf
    | @returns frame outer isReturn innermost =>
      -- the frame is not that of the subroutine itself, so it is one of those that it called
      cases inner with
      | nil =>
        have houter : c₀.frame :: c₀.stack.returns = frame :: outer := hreturns.symm.trans innermost
        have hlength : c₀.height + 1 = outer.length + 1 := congrArg List.length houter
        simp only at hheight
        omega
      | cons f inner =>
        have hframe : f :: (inner ++ c₀.frame :: c₀.stack.returns) = frame :: outer :=
          hreturns.symm.trans innermost
        obtain ⟨rfl, rfl⟩ := List.cons.inj hframe
        refine ⟨?_, inner, rfl, fun f' hf' => hinner f' (List.mem_cons_of_mem _ hf')⟩
        have hframe := hinner f List.mem_cons_self
        simp only [Exec.outermost, List.length_drop]
        omega

theorem Guarded.step (h : Guarded c₀ c) (hfaithful : c₀.Faithful) (hrecurs : ¬Recurs c₀ c)
    (hstep : c.Step d) (hheight : c₀.height < d.height) : Guarded c₀ d := by
  have hfaithful' := (hstep.regrows h.faithful).1
  obtain ⟨hlength, hreturns⟩ := h.shift hfaithful hrecurs hstep.shifts hheight
  refine ⟨hfaithful', ?_, hreturns⟩
  rcases hstep.whiles h.faithful with hsuffix | ⟨-, hcons⟩
  · refine List.suffix_of_suffix_length_le h.whiles hsuffix ?_
    rw [hfaithful.length_openWhiles, hfaithful'.length_openWhiles]
    exact hlength
  · rw [hcons]
    exact h.whiles.trans (List.suffix_cons _ _)

theorem Subroutine.guarded (h : Subroutine (fun c => ¬Recurs c₀ c) c₀ c₁ c₂ c₃)
    (hfaithful : c₀.Faithful) :
    Guarded c₀ c₂ := by
  have henters : Guarded c₀ c₁ := by
    obtain ⟨hstack, -, hwhiles⟩ := h.call.call_eq h.opened hfaithful
    exact ⟨(h.enters hfaithful).faithful, hwhiles ▸ List.suffix_refl _,
      [], by rw [hstack]; rfl, nofun⟩
  have hinside := h.inside
  clear h
  induction hinside with
  | refl => exact henters
  | tail _ hstep ih => exact ih.step hfaithful hstep.1 hstep.2.1 hstep.2.2

/-- WHILE closes no WHILE loop, or just the innermost one as the statement that opened it. -/
theorem Step.while_closes (h : c.Step d) (hfaithful : c.Faithful) (hnears : c.session.nearsWhile) :
    c.openWhiles <:+ d.openWhiles ∨ ∃ b, c.openWhiles = (c.session.machine.position, b) ::
      d.openWhiles := by
  have hfaithful' := (h.regrows hfaithful).1
  rcases h.whiles hfaithful with ⟨closed, hclosed⟩ | ⟨-, hcons⟩
  · rcases h.shifts.of_while hnears with hle | hinnermost
    · refine .inl (List.IsSuffix.eq_of_length_le ⟨closed, hclosed⟩ ?_ ▸ List.suffix_refl _)
      rw [hfaithful.length_openWhiles, hfaithful'.length_openWhiles]
      exact hle
    · have hmap : closed.map Prod.fst ++ d.stack.whiles = c.session.machine.position ::
          d.stack.whiles := by
        rw [← hfaithful'.map_openWhiles, ← List.map_append, hclosed, hfaithful.map_openWhiles]
        rw [hfaithful'.map_openWhiles]
        exact hinnermost
      obtain ⟨e, rfl, he⟩ := List.map_eq_singleton_iff.mp (List.append_cancel_right hmap)
      exact .inr ⟨e.2, by rw [← hclosed, ← he]; rfl⟩
  · exact .inl (hcons ▸ List.suffix_cons _ _)

theorem run_wend {m : Machine} {p : Position} (outer : List Position)
    (h : m.stack.whiles = p :: outer) :
    Exec.wend m = (.ok (), { m with position := p }) := by
  unfold Exec.wend
  rw [run_get_bind]
  simp only [h]
  rfl

/-- **A subroutine leaves the WHILE loops of its caller alone, unless it comes to the very WHILE of
the innermost one.** Every session has a chronicle. Whenever a WHILE is executed in one, the only
WHILE loop that it can close is the innermost one, and only if that was opened by the same
statement. So if a subroutine does not come to the WHILE of its caller's innermost loop while it has
none of its own open, it returns with the WHILE loops of its caller as they were at the call, and
WEND goes back to the innermost. -/
theorem while_spares_caller (settings : Settings) :
    (∀ s : Session, s.Reached settings → ∃ c, Reached settings c ∧ c.session = s) ∧
    ∀ c₀, Reached settings c₀ →
      (∀ d, c₀.session.nearsWhile → c₀.Step d → ∀ e ∈ c₀.openWhiles, e ∉ d.openWhiles →
        c₀.openWhiles.head? = some e ∧ e.1 = c₀.session.machine.position) ∧
      ∀ c₁ c₂ c₃, Subroutine (fun c => ¬Recurs c₀ c) c₀ c₁ c₂ c₃ →
        c₃.openWhiles = c₀.openWhiles ∧
        ∀ p outer, c₀.stack.whiles = p :: outer →
          Exec.wend c₃.session.machine = (.ok (), { c₃.session.machine with position := p }) := by
  refine ⟨fun s => exists_reached, fun c₀ h =>
    ⟨fun d hnears hstep e he hclosed => ?_, fun c₁ c₂ c₃ hsub => ?_⟩⟩
  · rcases hstep.while_closes h.faithful hnears with hsuffix | ⟨b, hcons⟩
    · exact absurd (hsuffix.subset he) hclosed
    · rw [hcons] at he ⊢
      obtain rfl : e = _ := (List.mem_cons.mp he).resolve_right hclosed
      exact ⟨rfl, rfl⟩
  · have hsuffix := (hsub.guarded h.faithful).whiles
    have hrestored : c₃.openWhiles = c₀.openWhiles := by
      rw [(hsub.leaves h.faithful).2]
      obtain ⟨own, hown⟩ := hsuffix
      rw [← hown, outermost_append own _ le_rfl]
      simp [Exec.outermost]
    refine ⟨hrestored, fun p outer hwhiles => run_wend outer ?_⟩
    have hfaithful₃ : c₃.Faithful := (hsub.leave.regrows (hsub.guarded h.faithful).faithful).1
    change c₃.stack.whiles = _
    rw [← hfaithful₃.map_openWhiles, hrestored, h.faithful.map_openWhiles, hwhiles]

/-- A program that calls, in a WHILE loop, a subroutine with a WHILE loop of its own. -/
def besideWhileText : String :=
  "10 WHILE D<1\n20 GOSUB 50\n30 WEND\n40 END\n50 WHILE D<1\n60 D=1\n70 WEND\n80 RETURN"

/-- The chronicle of that program, two turns after it was started. -/
def besideWhile : Chronicle := next^[2] (ofProgram besideWhileText)

theorem while_spares_caller_besideWhile : besideWhile.openWhiles.length = 1 ∧
    (next^[2] besideWhile.next).openWhiles.length = 2 ∧
    (next^[8] besideWhile.next).openWhiles = besideWhile.openWhiles := by
  have hfacts : (∀ k < 2, (next^[k] (ofProgram besideWhileText)).session.phase = .running) ∧
      besideWhile.Returns 7 ∧ (∀ k ≤ 7, ¬Recurs besideWhile (next^[k] besideWhile.next)) ∧
      besideWhile.openWhiles.length = 1 ∧ (next^[2] besideWhile.next).openWhiles.length = 2 := by
    decide +kernel
  obtain ⟨hrunning, hreturns, hrecurs, hlength, hlength'⟩ := hfacts
  have hreached : Reached default besideWhile := (reached_ofProgram _).turns 2 hrunning
  exact ⟨hlength, hlength',
    (((while_spares_caller default).2 _ hreached).2 _ _ _ (hreturns.subroutine hrecurs)).1⟩

/-- A program whose subroutine comes to the WHILE that its caller has open. -/
def sameWhileText : String :=
  "10 WHILE D<1\n20 D=D+1\n30 GOSUB 10\n40 WEND\n50 E=E+1\n60 IF E<2 THEN RETURN"

/-- The chronicle of that program, five turns after it was started. -/
def sameWhile : Chronicle := next^[5] (ofProgram sameWhileText)

/-- **A subroutine can close a WHILE loop of its caller**: it has but to come to the same WHILE
again. -/
theorem while_closes_sameWhile : ∃ c d, Reached default c ∧ c.session.nearsWhile ∧ c.Step d ∧
    ∃ e ∈ c.openWhiles, e.2.subs < c.height ∧ e ∉ d.openWhiles := by
  have hfacts : (∀ k < 5, (next^[k] (ofProgram sameWhileText)).session.phase = .running) ∧
      (sameWhile.session.phase = .running ∧
      sameWhile.session.machine.upcoming?.any Instr.isWhile = true) ∧
      sameWhile.openWhiles.any (fun e => e.2.subs < sameWhile.height) = true ∧
      sameWhile.next.openWhiles = [] := by
    decide +kernel
  obtain ⟨hrunning, hnears, hcaller, hclosed⟩ := hfacts
  obtain ⟨e, he, hsubs⟩ := List.any_eq_true.mp hcaller
  refine ⟨sameWhile, _, (reached_ofProgram _).turns 5 hrunning, hnears, .next hnears.1, e, he,
    of_decide_eq_true hsubs, ?_⟩
  rw [hclosed]
  exact List.not_mem_nil

end Chronicle

end LineBasic
