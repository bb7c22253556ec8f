import Mathlib
import LineBasic.Proofs.Continuing
import LineBasic.Proofs.LoopVariables

/-!
# Loops that are skipped

A FOR whose variable is past its limit at once, and a WHILE whose condition does not hold, go behind
the end of their loop. The end is looked for in the order of the code, across lines and the branches
of IF, and nothing on the way is executed.

* `Machine.codeOf`, `Machine.ahead_of_codeOf`: all the code in order, and what is ahead of a place
  in it.
* `forDepth`, `Balanced`, `findNext?_eq_none_iff`: how deep FOR and NEXT are nested, and which NEXT
  is found.
* `Outnumbered`, `findWend?_eq_none_iff`: the same for WHILE and WEND, which are only counted.
* `Exec.IsOver`, `Exec.run_openFor_of_isOver`: a FOR that runs zero times, and what it does.
* `Machine.skips_loop`: the main result.
-/

namespace LineBasic

/-! ## The code in order -/

theorem nodup_instrsFrom (line : Option Nat) (index : Nat) (code : Array Instr) :
    (instrsFrom line index code).Nodup := by
  have hindices : (instrsFrom line index code).map (fun e => e.1.index) =
      (List.range' 0 code.toList.length).drop index := by
    rw [← List.zipIdx_map_snd, ← List.map_drop]
    exact List.map_map
  refine List.Nodup.of_map (fun e => e.1.index) ?_
  rw [hindices]
  exact (List.drop_sublist _ _).nodup List.nodup_range'

/-- The code of a line is what stands before an instruction, the instruction, and what is behind
it. -/
theorem instrsFrom_split (line : Option Nat) {index : Nat} {code : Array Instr} {i : Instr}
    (h : code[index]? = some i) :
    ∃ before, instrsFrom line 0 code = before ++ (⟨line, index⟩, i) ::
      instrsFrom line (index + 1) code := by
  have hget : code.toList.zipIdx[index]? = some (i, index) := by simp [List.getElem?_zipIdx, h]
  obtain ⟨hlt, heq⟩ := List.getElem?_eq_some_iff.mp hget
  refine ⟨(code.toList.zipIdx.take index).map fun e => (⟨line, e.2⟩, e.1), ?_⟩
  have hsplit := List.take_append_drop index code.toList.zipIdx
  rw [List.drop_eq_getElem_cons hlt, heq] at hsplit
  unfold instrsFrom
  rw [List.drop_zero, ← hsplit, List.map_append, List.map_cons, hsplit]

namespace Machine

variable {m : Machine} {p q : Position} {line : Option Nat} {i : Instr} {P : ProgramLine → Prop}

/-- The code that a line belongs to, in order: the typed line alone, or all lines of the program. -/
def codeOf (m : Machine) : Option Nat → List (Position × Instr)
  | none => instrsFrom none 0 m.direct
  | some _ => m.program.lines.flatMap fun l => instrsFrom (some l.number) 0 l.code

theorem nodup_codeOf (horderly : m.program.Orderly P) (line : Option Nat) :
    (m.codeOf line).Nodup := by
  cases line with
  | none => exact nodup_instrsFrom none 0 m.direct
  | some n =>
    refine List.nodup_flatMap.mpr
      ⟨fun l _ => nodup_instrsFrom _ _ _, horderly.ascending.imp fun {a b} hlt => ?_⟩
    rintro ⟨q, j⟩ ha hb
    have hsame := (of_mem_instrsFrom ha).1.symm.trans (of_mem_instrsFrom hb).1
    rw [Option.some.injEq] at hsame
    omega

theorem codeOf_line (h : (q, i) ∈ m.codeOf line) : m.codeOf q.line = m.codeOf line := by
  cases line with
  | none => rw [(of_mem_instrsFrom h).1]
  | some n =>
    obtain ⟨l, -, hmem⟩ := List.mem_flatMap.mp h
    rw [(of_mem_instrsFrom hmem).1]
    rfl

theorem codeAt?_of_mem_codeOf (horderly : m.program.Orderly P) (h : (q, i) ∈ m.codeOf q.line) :
    ∃ code, m.codeAt? q.line = some code ∧ code[q.index]? = some i := by
  cases hline : q.line with
  | none =>
    rw [hline] at h
    exact ⟨m.direct, rfl, (of_mem_instrsFrom h).2⟩
  | some n =>
    rw [hline] at h
    obtain ⟨l, hl, hmem⟩ := List.mem_flatMap.mp h
    obtain ⟨hnumber, hget⟩ := of_mem_instrsFrom hmem
    obtain rfl := Option.some.inj (hline.symm.trans hnumber)
    exact ⟨l.code, by rw [codeAt?, horderly.line?_of_mem hl]; rfl, hget⟩

/-- The lines of a program around one of them: those behind it have greater numbers. -/
theorem lines_split (horderly : m.program.Orderly P) {l : ProgramLine} (hl : l ∈ m.program.lines) :
    ∃ before, m.program.lines = before ++ l :: m.program.lines.filter fun x =>
      l.number < x.number := by
  obtain ⟨before, behind, hsplit⟩ := List.append_of_mem hl
  have hascending := horderly.ascending
  rw [hsplit, List.pairwise_append, List.pairwise_cons] at hascending
  obtain ⟨-, ⟨hbehind, -⟩, hbefore⟩ := hascending
  refine ⟨before, ?_⟩
  rw [hsplit, List.filter_append, List.filter_cons_of_neg (by simp), List.filter_eq_nil_iff.mpr,
    List.filter_eq_self.mpr, List.nil_append]
  · exact fun x hx => by simpa using hbehind x hx
  · exact fun x hx => by simpa using (hbefore x hx l List.mem_cons_self).le

/-- All the code is what stands before an instruction, the instruction, and what is ahead behind
it. -/
theorem codeOf_split (horderly : m.program.Orderly P) (h : (p, i) ∈ m.codeOf p.line) :
    ∃ before, m.codeOf p.line = before ++ (p, i) :: m.ahead p.after := by
  obtain ⟨code, hcode, hget⟩ := codeAt?_of_mem_codeOf horderly h
  obtain ⟨inLine, hinLine⟩ := instrsFrom_split p.line hget
  obtain ⟨line, index⟩ := p
  cases line with
  | none =>
    obtain rfl := Option.some.inj hcode
    exact ⟨inLine, hinLine⟩
  | some n =>
    have hahead := ahead_eq (m := m) (p := ⟨some n, index + 1⟩) rfl hcode
    obtain ⟨l, hl, rfl⟩ := Option.map_eq_some_iff.mp hcode
    obtain rfl : l.number = n := by simpa using List.find?_some hl
    obtain ⟨before, hlines⟩ := lines_split horderly (List.mem_of_find?_eq_some hl)
    refine ⟨before.flatMap (fun l => instrsFrom (some l.number) 0 l.code) ++ inLine, ?_⟩
    rw [codeOf, Position.after, hahead]
    conv_lhs => rw [hlines]
    rw [List.flatMap_append, List.flatMap_cons, hinLine, List.append_assoc, List.append_assoc,
      List.cons_append]

/-- **What is ahead of a place is the code behind it.** -/
theorem ahead_of_codeOf (horderly : m.program.Orderly P) {before behind : List (Position × Instr)}
    (h : m.codeOf line = before ++ (p, i) :: behind) : m.ahead p.after = behind := by
  have hmem : (p, i) ∈ m.codeOf line := by simp [h]
  have hline := codeOf_line hmem
  obtain ⟨before', hsplit⟩ := codeOf_split horderly (hline ▸ hmem)
  have hnodup := nodup_codeOf horderly line
  rw [hline] at hsplit
  rw [hsplit, List.nodup_middle, List.nodup_cons, List.mem_append, not_or] at hnodup
  exact ((List.append_cons_inj_of_notMem hnodup.1.1 hnodup.1.2).mp (hsplit.symm.trans h)).2.2

end Machine

/-! ## NEXT -/

/-- The instruction is a NEXT. -/
def Instr.isNext : Instr → Bool
  | .command _ (.next _) => true
  | _ => false

/-- The instruction is a NEXT that names the variable with the key, or names nothing. -/
def Instr.isNextOf (resolve : String → String) (key : String) : Instr → Bool
  | .command _ (.next name) => name.all fun s => resolve s = key
  | _ => false

/-- The depth of nesting behind an instruction: FOR raises it, and NEXT lowers it if it is
positive. -/
def Instr.forDepth (depth : Nat) (i : Instr) : Nat :=
  if i.isFor then depth + 1 else if i.isNext then depth - 1 else depth

/-- The depth of nesting behind some code. -/
def forDepth (depth : Nat) (code : List (Position × Instr)) : Nat :=
  code.foldl (fun d e => e.2.forDepth d) depth

/-- Code in which FOR and NEXT are balanced like brackets. -/
inductive Balanced : List (Position × Instr) → Prop where
  | nil : Balanced []
  | other {e : Position × Instr} {rest : List (Position × Instr)} (notFor : e.2.isFor = false)
      (notNext : e.2.isNext = false) (balanced : Balanced rest) : Balanced (e :: rest)
  | loop {first last : Position × Instr} {body rest : List (Position × Instr)}
      (isFor : first.2.isFor = true)
      (inside : Balanced body) (isNext : last.2.isNext = true) (balanced : Balanced rest) :
      Balanced (first :: (body ++ last :: rest))

section

variable {resolve : String → String} {key : String} {e : Position × Instr}
  {code rest : List (Position × Instr)}

theorem Instr.not_isNext {i : Instr} (h : i.isFor = true) : i.isNext = false := by
  unfold isFor at h
  split at h
  · rfl
  · cases h

theorem Instr.forDepth_next {i : Instr} (h : i.isNext = true) (depth : Nat) :
    i.forDepth depth = depth - 1 := by
  unfold isNext at h
  split at h
  · rfl
  · cases h

theorem Instr.not_isNextOf {i : Instr} (h : i.isNext = false) : i.isNextOf resolve key = false := by
  unfold isNext at h
  unfold isNextOf
  split <;> simp_all

/-- Looking for a NEXT takes one instruction after the other. -/
theorem findNext?_cons (depth : Nat) : findNext? resolve key depth (e :: rest) =
    if depth = 0 ∧ e.2.isNextOf resolve key = true then some e.1.after
    else findNext? resolve key (e.2.forDepth depth) rest := by
  obtain ⟨p, i⟩ := e
  cases i with
  | branch | jump =>
    rw [if_neg (by simp [Instr.isNextOf])]
    rfl
  | command column c =>
    cases c with
    | next name =>
      cases depth with
      | zero => simp [findNext?, Instr.isNextOf, Instr.forDepth, Instr.isNext, Instr.isFor]
      | succ depth => rfl
    | _ =>
      rw [if_neg (by simp [Instr.isNextOf])]
      rfl

/-- **There is no NEXT for the loop** just if none that names its variable or nothing stands at
depth zero. -/
theorem findNext?_eq_none_iff (depth : Nat) : findNext? resolve key depth code = none ↔
    ∀ body e rest, code = body ++ e :: rest → e.2.isNextOf resolve key = true →
      forDepth depth body ≠ 0 := by
  induction code generalizing depth with
  | nil =>
    refine ⟨fun _ body e rest h => ?_, fun _ => rfl⟩
    cases List.eq_nil_of_append_eq_nil h.symm |>.2
  | cons first code ih =>
    rw [findNext?_cons]
    by_cases hfound : depth = 0 ∧ first.2.isNextOf resolve key = true
    · rw [if_pos hfound]
      refine ⟨nofun, fun h => absurd hfound.1 (h [] first code rfl hfound.2)⟩
    · rw [if_neg hfound, ih]
      constructor
      · intro h body e rest hsplit hnext
        rcases List.cons_eq_append_iff.mp hsplit with ⟨rfl, hhead⟩ | ⟨body', rfl, htail⟩
        · obtain ⟨rfl, rfl⟩ := List.cons.inj hhead
          exact fun hzero => hfound ⟨hzero, hnext⟩
        · exact h body' e rest htail hnext
      · intro h body e rest hsplit hnext
        exact h (first :: body) e rest (by rw [hsplit, List.cons_append]) hnext

/-- Loops are passed over whole. -/
theorem Balanced.findNext? (h : Balanced code) (depth : Nat) :
    findNext? resolve key depth (code ++ rest) = LineBasic.findNext? resolve key depth rest := by
  induction h generalizing depth rest with
  | nil => rfl
  | other notFor notNext balanced ih =>
    rw [List.cons_append, findNext?_cons, if_neg (by simp [Instr.not_isNextOf notNext]),
      Instr.forDepth, notFor, notNext]
    exact ih depth
  | @loop first last body rest' isFor inside isNext balanced ihBody ihRest =>
    have hfirst : first.2.isNextOf resolve key = false :=
      Instr.not_isNextOf (Instr.not_isNext isFor)
    rw [List.cons_append, findNext?_cons, if_neg (by simp [hfirst]), Instr.forDepth, if_pos isFor,
      List.append_assoc, ihBody, List.cons_append, findNext?_cons, if_neg (by simp),
      Instr.forDepth_next isNext, Nat.add_sub_cancel, ihRest]

end

/-! ## WEND -/

/-- The instruction is a WEND. -/
def Instr.isWend : Instr → Bool
  | .command _ .wend => true
  | _ => false

/-- The WENDs of some code outnumber its WHILEs and some more that were there before. -/
def Outnumbered (depth : Nat) (code : List (Position × Instr)) : Prop :=
  depth + code.countP (fun e => e.2.isWhile) < code.countP (fun e => e.2.isWend)

section

variable {e : Position × Instr} {body code rest : List (Position × Instr)}

theorem not_outnumbered_nil (depth : Nat) : ¬Outnumbered depth [] := Nat.not_lt_zero _

theorem Instr.not_isWend {i : Instr} (h : i.isWhile = true) : i.isWend = false := by
  unfold isWhile at h
  split at h
  · rfl
  · cases h

theorem outnumbered_of_isWend (h : e.2.isWend = true) : Outnumbered 0 [e] := by
  have hwhile : ¬e.2.isWhile = true := fun hwhile => by simp [Instr.not_isWend hwhile] at h
  simp [Outnumbered, h, hwhile]

/-- The depth of nesting behind an instruction that does not end the loop. -/
def Instr.whileDepth (depth : Nat) (i : Instr) : Nat :=
  if i.isWhile then depth + 1 else if i.isWend then depth - 1 else depth

/-- Looking for a WEND takes one instruction after the other. -/
theorem findWend?_cons (depth : Nat) : findWend? depth (e :: rest) =
    if depth = 0 ∧ e.2.isWend = true then some e.1.after
    else findWend? (e.2.whileDepth depth) rest := by
  obtain ⟨p, i⟩ := e
  cases i with
  | branch | jump =>
    rw [if_neg (by simp [Instr.isWend])]
    rfl
  | command column c =>
    cases c with
    | wend => cases depth <;> rfl
    | _ =>
      rw [if_neg (by simp [Instr.isWend])]
      rfl

/-- The first instruction leaves the rest with a depth. -/
theorem outnumbered_cons {depth : Nat} (h : ¬(depth = 0 ∧ e.2.isWend = true)) :
    Outnumbered depth (e :: code) ↔ Outnumbered (e.2.whileDepth depth) code := by
  unfold Outnumbered Instr.whileDepth
  rw [List.countP_cons, List.countP_cons]
  by_cases hwhile : e.2.isWhile = true
  · simp only [hwhile, Instr.not_isWend hwhile, if_true, Bool.false_eq_true, if_false]
    omega
  · by_cases hwend : e.2.isWend = true
    · have hdepth : depth ≠ 0 := fun hzero => h ⟨hzero, hwend⟩
      simp only [hwhile, hwend, if_true, Bool.false_eq_true, if_false]
      omega
    · simp only [hwhile, hwend, Bool.false_eq_true, if_false, Nat.add_zero]

/-- **There is no WEND for the loop** just if at no place the WENDs outnumber the WHILEs. -/
theorem findWend?_eq_none_iff (depth : Nat) :
    findWend? depth code = none ↔ ∀ body, body <+: code → ¬Outnumbered depth body := by
  induction code generalizing depth with
  | nil =>
    refine ⟨fun _ body h => ?_, fun _ => rfl⟩
    rw [List.prefix_nil.mp h]
    exact not_outnumbered_nil depth
  | cons first code ih =>
    rw [findWend?_cons]
    by_cases hfound : depth = 0 ∧ first.2.isWend = true
    · rw [if_pos hfound]
      obtain ⟨rfl, hwend⟩ := hfound
      exact ⟨nofun, fun h => absurd (outnumbered_of_isWend hwend) (h [first] ⟨code, rfl⟩)⟩
    · rw [if_neg hfound, ih]
      constructor
      · intro h body hprefix
        rcases List.prefix_cons_iff.mp hprefix with rfl | ⟨body', rfl, hprefix'⟩
        · exact not_outnumbered_nil depth
        · exact fun houtnumbered => h body' hprefix' ((outnumbered_cons hfound).mp houtnumbered)
      · intro h body hprefix houtnumbered
        exact h (first :: body) (List.cons_prefix_cons.mpr ⟨rfl, hprefix⟩)
          ((outnumbered_cons hfound).mpr houtnumbered)

/-- The WEND that is found is the first at which the WENDs outnumber the WHILEs. -/
theorem findWend?_of_first {depth : Nat}
    (hbefore : ∀ before, before <+: body → ¬Outnumbered depth before)
    (hhere : Outnumbered depth (body ++ [e])) :
    findWend? depth (body ++ e :: rest) = some e.1.after := by
  induction body generalizing depth with
  | nil =>
    have hcounts : depth = 0 ∧ e.2.isWend = true := by
      unfold Outnumbered at hhere
      rw [List.nil_append, List.countP_cons, List.countP_cons, List.countP_nil, List.countP_nil]
        at hhere
      by_cases hwend : e.2.isWend = true
      · rw [if_pos hwend] at hhere
        exact ⟨by omega, hwend⟩
      · rw [if_neg hwend] at hhere
        omega
    rw [List.nil_append, findWend?_cons, if_pos hcounts]
  | cons first body ih =>
    have hnot : ¬(depth = 0 ∧ first.2.isWend = true) := by
      rintro ⟨rfl, hwend⟩
      exact hbefore [first] ⟨body, rfl⟩ (outnumbered_of_isWend hwend)
    rw [List.cons_append, findWend?_cons, if_neg hnot]
    refine ih (fun before hprefix houtnumbered => ?_) ((outnumbered_cons hnot).mp hhere)
    exact hbefore (first :: before) (List.cons_prefix_cons.mpr ⟨rfl, hprefix⟩)
      ((outnumbered_cons hnot).mpr houtnumbered)

end

/-! ## What is executed -/

/-- The kind of the error that stopped the execution. -/
def Halt.kind? : Halt → Option ErrorKind
  | .fault (.error e) => some e.kind
  | _ => none

theorem Halt.isControl_of_kind? {h : Halt} {kind : ErrorKind} (hkind : h.kind? = some kind)
    (hcontrol : kind ∈ ErrorKind.control) : h.IsControl := by
  rcases h with _ | (e | c)
  · cases hkind
  · obtain rfl := Option.some.inj hkind
    exact hcontrol
  · cases hkind

/-- What a loop that is skipped comes to: the machine goes on behind the end of the loop, or there
is none. -/
def Machine.skipTo (m : Machine) (e : Error) : Option Position → Except Halt Unit × Machine
  | some p => (.ok (), { m with position := p })
  | none => (.error (.fault (.error e)), m)

/-- The machine without its innermost WHILE loop, if that is the one being executed. -/
def Machine.leaveWhile (m : Machine) : Machine :=
  { m with stack :=
    { m.stack with whiles := if m.stack.whiles.head? = some m.current then m.stack.whiles.tail
    else m.stack.whiles } }

namespace Exec

open Machine

variable {m m' : Machine} {column : Nat} {name : String} {start limit condition : Expr}
  {step : Option Expr} {h : Halt}

/-! ### FOR -/

/-- The FOR runs zero times: its variable has taken the first value, which is past the limit at
once. The machine is the one that the first value and the bounds have left. -/
inductive IsOver (m : Machine) (column : Nat) (name : String) (start limit : Expr)
    (step : Option Expr) :
    Machine → Prop where
  | intro {m₁ m₂ : Machine} {limit' step' x : Float}
      (first : command column (.assign (.scalar column (m.memory.store.loopName name)) start) m =
        (.ok (), m₁))
      (bounds : loopBounds (m.memory.store.kindOf (m.memory.store.loopName name)) limit step m₁ =
        (.ok (limit', step'), m₂))
      (read : (m₂.memory.store.get (m.memory.store.loopName name)).number = .ok x)
      (past : isPast step' x limit' = true) :
      IsOver m column name start limit step m₂

theorem remembers_let (column : Nat) (name : String) (e : Expr) :
    Moves Remembers (command column (.assign (.scalar column name) e)) :=
  (remembers_value e).bind fun v => remembers_setScalar name v

theorem remembers_loopBounds (kind : Kind) (limit : Expr) (step : Option Expr) :
    Moves Remembers (loopBounds kind limit step) := by
  refine (remembers_bound kind limit).bind fun _ => ?_
  cases step with
  | none => exact moves_pure _
  | some e => exact (remembers_bound kind e).bind fun _ => moves_pure _

theorem IsOver.remembers (h : IsOver m column name start limit step m') : m.Remembers m' := by
  obtain ⟨first, bounds, -, -⟩ := h
  exact trans_of Remembers ((remembers_let _ _ _).of_run first)
    ((remembers_loopBounds _ _ _).of_run bounds)

theorem IsOver.touches (h : IsOver m column name start limit step m') :
    m.Touches (m.memory.store.resolve (m.memory.store.loopName name)) m' := by
  obtain ⟨first, bounds, -, -⟩ := h
  have hlet := touches_let column (m.memory.store.loopName name) start m
  rw [first] at hlet
  exact trans_of (Touches _) hlet ((sameScalars_loopBounds _ _ _).of_run bounds).touches

/-- A loop that is over at once goes behind its NEXT. -/
theorem run_enterLoop_of_past {var : String} {limit step x : Float}
    (hread : (m.memory.store.get var).number = .ok x) (hpast : isPast step x limit = true) :
    enterLoop column var limit step m =
    (m.withLoops (closeLoop var m.stack.loops)).skipTo (.atColumn .forWithoutNext column)
      (findNext? m.memory.store.resolve var 0 (m.ahead m.position)) := by
  unfold enterLoop
  rw [run_modifyStacks_bind, run_get_bind, run_loopNumber_bind]
  simp only [hread, if_pos hpast]
  rw [run_get_bind]
  have hahead : (m.withLoops (closeLoop var m.stack.loops)).ahead m.position =
      m.ahead m.position := rfl
  generalize hfound : findNext? m.memory.store.resolve var 0 (m.ahead m.position) = found
  rw [← hahead] at hfound
  unfold withLoops at hfound
  simp only [hfound]
  cases found <;> rfl

theorem run_openFor_of_isOver (h : IsOver m column name start limit step m') :
    openFor column name start limit step m =
    (m'.withLoops (closeLoop (m.memory.store.resolve name) m.stack.loops)).skipTo
      (.atColumn .forWithoutNext column)
      (findNext? m.memory.store.resolve (m.memory.store.resolve name) 0 (m.ahead m.position)) := by
  obtain ⟨memory, hmemory⟩ := h.remembers
  have hresolve : m'.memory.store.resolve = m.memory.store.resolve :=
    funext (Store.resolve_congr h.touches.letters)
  have hname := m.memory.store.resolve_loopName name
  obtain ⟨first, bounds, read, past⟩ := h
  rw [Store.get_congr (b := m.memory.store.resolve name) (by rw [hresolve, hname])] at read
  rw [openFor_eq column name _ start limit step m hname, run_bind, first]
  simp only
  rw [run_bind, bounds]
  simp only
  rw [run_enterLoop_of_past read past, hresolve]
  subst hmemory
  rfl

theorem unbroken_let (column : Nat) (name : String) (e : Expr) :
    Unbroken (command column (.assign (.scalar column name) e)) :=
  (unbroken_value e).bind fun v => unbroken_setScalar name v

theorem unbroken_bound (kind : Kind) (e : Expr) : Unbroken (bound kind e) := by
  refine (unbroken_value e).bind fun v => (unbroken_lift v.avoids_number).bind fun x => ?_
  split
  · exact unbroken_lift (avoids_toDouble x)
  · exact unbroken_lift (avoids_toSingle x)

theorem unbroken_loopBounds (kind : Kind) (limit : Expr) (step : Option Expr) :
    Unbroken (loopBounds kind limit step) := by
  refine (unbroken_bound kind limit).bind fun _ => ?_
  cases step with
  | none => exact unbroken_pure _
  | some e => exact (unbroken_bound kind e).bind fun _ => unbroken_pure _

theorem Unbroken.not_kind? {α : Type} {x : Exec α} (hx : Unbroken x) (hrun : x m = (.error h, m'))
    {kind : ErrorKind} (hcontrol : kind ∈ ErrorKind.control) : h.kind? ≠ some kind :=
  fun hkind => hx m h (by rw [hrun]) (Halt.isControl_of_kind? hkind hcontrol)

/-- Only a FOR that runs zero times and has no NEXT is without NEXT. -/
theorem isOver_of_forWithoutNext (hrun : openFor column name start limit step m = (.error h, m'))
    (hkind : h.kind? = some .forWithoutNext) : (∃ m₂, IsOver m column name start limit step m₂) ∧
      findNext? m.memory.store.resolve (m.memory.store.resolve name) 0 (m.ahead m.position) =
        none := by
  have hbegins := begins_openFor column name start limit step m
  rw [hrun] at hbegins
  cases hbegins with
  | unset first => exact absurd hkind ((unbroken_let _ _ _).not_kind? first (by decide))
  | unbounded first bounds =>
    exact absurd hkind ((unbroken_loopBounds _ _ _).not_kind? bounds (by decide))
  | @enters m₁ m₂ limit' step' v r first bounds tested enters =>
    rw [run_value_variable] at tested
    obtain ⟨hv, -⟩ := Prod.mk.inj tested
    cases enters with
    | unread | full => cases hkind
    | unended read past missing =>
      obtain rfl := Except.ok.inj hv
      have hover : IsOver m column name start limit step m₂ := .intro first bounds read past
      have hresolve : m₂.memory.store.resolve = m.memory.store.resolve :=
        funext (Store.resolve_congr hover.touches.letters)
      rw [hresolve] at missing
      obtain ⟨memory, rfl⟩ := hover.remembers
      exact ⟨⟨_, hover⟩, missing⟩

/-! ### WHILE -/

/-- The condition does not hold; the machine is the one that its evaluation has left. -/
def IsFalse (m : Machine) (condition : Expr) (m' : Machine) : Prop :=
  ∃ v, value condition m = (.ok v, m') ∧ v.truth = .ok false

theorem IsFalse.remembers (h : IsFalse m condition m') : m.Remembers m' := by
  obtain ⟨v, hvalue, -⟩ := h
  exact (remembers_value condition).of_run hvalue

theorem IsFalse.sameScalars (h : IsFalse m condition m') : m.SameScalars m' := by
  obtain ⟨v, hvalue, -⟩ := h
  exact (sameScalars_value condition).of_run hvalue

theorem run_skipWhile (m : Machine) : (do
    let m ← get
    match findWend? 0 (m.ahead m.position) with
    | some p => moveTo p
    | none => refuse .whileWithoutWend : Exec Unit) m =
    m.skipTo (.of .whileWithoutWend) (findWend? 0 (m.ahead m.position)) := by
  rw [run_get_bind]
  cases findWend? 0 (m.ahead m.position) <;> rfl

/-- A loop whose condition does not hold is left and goes behind its WEND. -/
theorem run_openWhile_of_isFalse (h : IsFalse m condition m') : openWhile condition m =
    m'.leaveWhile.skipTo (.of .whileWithoutWend) (findWend? 0 (m.ahead m.position)) := by
  obtain ⟨memory, rfl⟩ := h.remembers
  obtain ⟨v, hvalue, htruth⟩ := h
  unfold openWhile
  rw [run_get_bind, run_get_bind, run_bind, hvalue]
  simp only [htruth]
  by_cases hopen : m.stack.whiles.head? = some m.current
  · have hleave : leaveWhile { m with memory } =
        { m with memory, stack := { m.stack with whiles := m.stack.whiles.tail } } := by
      unfold leaveWhile
      rw [if_pos hopen]
    rw [hleave]
    simp only [if_pos hopen]
    exact run_skipWhile _
  · have hleave : leaveWhile { m with memory } = { m with memory } := by
      unfold leaveWhile
      rw [if_neg hopen]
    rw [hleave]
    simp only [if_neg hopen]
    exact run_skipWhile _

theorem skipTo_eq_error {e : Error} {found : Option Position}
    (hskip : m.skipTo e found = (.error h, m')) :
    found = none := by
  cases found with
  | none => rfl
  | some p => cases hskip

theorem unbroken_checkStack : Unbroken checkStack := by
  intro m
  unfold checkStack
  rw [run_get_bind]
  split
  · exact avoids_halt (by decide : (.stackOverflow : ErrorKind) ∉ ErrorKind.control)
  · exact avoids_ok _

/-- Only a WHILE whose condition does not hold and that has no WEND is without WEND. -/
theorem isFalse_of_whileWithoutWend (hrun : openWhile condition m = (.error h, m'))
    (hkind : h.kind? = some .whileWithoutWend) :
    (∃ m₂, IsFalse m condition m₂) ∧ findWend? 0 (m.ahead m.position) = none := by
  rcases hvalue : value condition m with ⟨e | v, m₁⟩
  · unfold openWhile at hrun
    rw [run_get_bind, run_get_bind, run_bind, hvalue] at hrun
    obtain rfl := Except.error.inj (Prod.mk.inj hrun).1
    exact absurd hkind ((unbroken_value condition).not_kind? hvalue (by decide))
  cases htruth : v.truth with
  | error e =>
    have havoids : Avoids Error.IsControl v.truth := v.avoids_number.bind fun _ => avoids_pure _
    unfold openWhile at hrun
    rw [run_get_bind, run_get_bind, run_bind, hvalue] at hrun
    simp only [htruth] at hrun
    obtain rfl := Except.error.inj (Prod.mk.inj hrun).1
    exact absurd (Halt.isControl_of_kind? hkind (by decide)) (havoids e htruth)
  | ok holds =>
    cases holds with
    | true =>
      have henters : Unbroken (if m.stack.whiles.head? = some m.current then pure ()
          else do
            checkStack
            modifyStacks fun s => { s with whiles := m.current :: s.whiles }) := by
        split
        · exact unbroken_pure _
        · exact unbroken_checkStack.bind fun _ _ => avoids_ok _
      unfold openWhile at hrun
      rw [run_get_bind, run_get_bind, run_bind, hvalue] at hrun
      simp only [htruth] at hrun
      exact absurd hkind (henters.not_kind? hrun (by decide))
    | false =>
      have hfalse : IsFalse m condition m₁ := ⟨v, hvalue, htruth⟩
      rw [run_openWhile_of_isFalse hfalse] at hrun
      exact ⟨⟨m₁, hfalse⟩, skipTo_eq_error hrun⟩

end Exec

/-! ## The main result -/

namespace Machine

variable {m m₁ : Machine} {i : Instr} {behind : List (Position × Instr)} {P : ProgramLine → Prop}

/-- The next turn executes an instruction with some code behind it. The machine is the one that
executes it, when its line has been shown. -/
structure Starts (m : Machine) (i : Instr) (behind : List (Position × Instr)) (m₁ : Machine) :
    Prop where
  pending : m.breakPending = false
  code : ∃ before, m.codeOf m.position.line = before ++ (m.position, i) :: behind
  trace : ∃ m₀, showTrace m = (.ok (), m₀) ∧ m₁ = m₀.atStatement m.position

theorem Starts.tick (h : m.Starts i behind m₁) (horderly : m.program.Orderly P) : tick m =
    match Exec.instr i m₁ with
    | (.error e, m') => (.error (placeHalt m.position.line e), m')
    | (.ok _, m') => (.ok true, m') := by
  obtain ⟨hpending, ⟨before, hcode⟩, m₀, htrace, rfl⟩ := h
  obtain ⟨code, hat, hget⟩ := codeAt?_of_mem_codeOf horderly (q := m.position) (i := i)
    (by simp [hcode])
  have htick := tick_of_upcoming? (upcoming?_eq_some hpending hat hget)
  rw [htrace] at htick
  exact htick

theorem Starts.ahead (h : m.Starts i behind m₁) (horderly : m.program.Orderly P) :
    m₁.ahead m₁.position = behind := by
  obtain ⟨-, ⟨before, hcode⟩, m₀, htrace, rfl⟩ := h
  obtain ⟨t, b, c, rfl⟩ := writes_of_showTrace htrace
  exact ahead_of_codeOf horderly hcode

/-- What is ahead behind an instruction farther on. -/
theorem Starts.ahead_behind (h : m.Starts i behind m₁) (horderly : m.program.Orderly P)
    {body rest : List (Position × Instr)} {q : Position} {j : Instr}
    (hbehind : behind = body ++ (q, j) :: rest) :
    m.ahead q.after = rest := by
  obtain ⟨-, ⟨before, hcode⟩, -⟩ := h
  have hsplit : m.codeOf m.position.line = (before ++ (m.position, i) :: body) ++
      (q, j) :: rest := by
    rw [hcode, hbehind, List.append_assoc, List.cons_append]
  exact ahead_of_codeOf horderly hsplit

theorem kind?_placeHalt (line : Option Nat) (h : Halt) : (placeHalt line h).kind? = h.kind? := by
  rcases h with _ | (e | c)
  · rfl
  · have hkind : (e.inLine? line).kind = e.kind := by
      unfold Error.inLine? Error.inLine
      cases line with
      | none => rfl
      | some n => cases e.line <;> rfl
    exact congrArg some hkind
  · rfl

/-- The next turn ends in an error of the kind. -/
def Raises (m : Machine) (kind : ErrorKind) : Prop :=
  ∃ h m', tick m = (.error h, m') ∧ h.kind? = some kind

/-- The kind of the error in which the next turn ends. -/
def raised? (m : Machine) : Option ErrorKind :=
  match (tick m).1 with
  | .error h => h.kind?
  | .ok _ => none

theorem raised?_eq_some_iff {kind : ErrorKind} : m.raised? = some kind ↔ m.Raises kind := by
  unfold raised? Raises
  rcases tick m with ⟨h | _, m'⟩
  · refine ⟨fun hkind => ⟨h, m', rfl, hkind⟩, ?_⟩
    rintro ⟨h', m'', hrun, hkind⟩
    rwa [← Except.error.inj (Prod.mk.inj hrun).1] at hkind
  · refine ⟨nofun, ?_⟩
    rintro ⟨h', m'', hrun, -⟩
    cases hrun

instance (kind : ErrorKind) : Decidable (m.Raises kind) := decidable_of_iff _ raised?_eq_some_iff

/-- A turn that executes an instruction raises what this raises. -/
theorem raises_iff_of_tick {m m' : Machine} {kind : ErrorKind} {r : Except Halt Unit}
    {line : Option Nat} (h : tick m = ((r.map fun _ => true).mapError (placeHalt line), m')) :
    m.Raises kind ↔ ∃ halt, r = .error halt ∧ halt.kind? = some kind := by
  unfold Raises
  rw [h]
  cases r with
  | error e =>
    constructor
    · rintro ⟨halt, m'', hrun, hkind⟩
      rw [← Except.error.inj (Prod.mk.inj hrun).1, kind?_placeHalt] at hkind
      exact ⟨e, rfl, hkind⟩
    · rintro ⟨halt, hhalt, hkind⟩
      obtain rfl := Except.error.inj hhalt
      exact ⟨_, _, rfl, (kind?_placeHalt _ _).trans hkind⟩
  | ok u =>
    constructor
    · rintro ⟨halt, m'', hrun, -⟩
      cases hrun
    · rintro ⟨halt, hhalt, -⟩
      cases hhalt

theorem Starts.raises_iff (h : m.Starts i behind m₁) (horderly : m.program.Orderly P)
    {kind : ErrorKind} :
    m.Raises kind ↔ ∃ halt m', Exec.instr i m₁ = (.error halt, m') ∧ halt.kind? = some kind := by
  have htick := h.tick horderly
  generalize Exec.instr i m₁ = result at htick ⊢
  obtain ⟨r, m'⟩ := result
  have hresult : Machine.tick m =
      ((r.map fun _ => true).mapError (placeHalt m.position.line), m') := by
    rw [htick]
    cases r <;> rfl
  rw [raises_iff_of_tick hresult]
  constructor
  · rintro ⟨halt, rfl, hkind⟩
    exact ⟨halt, m', rfl, hkind⟩
  · rintro ⟨halt, m'', hrun, hkind⟩
    exact ⟨halt, (Prod.mk.inj hrun).1, hkind⟩

section

variable {column : Nat} {name : String} {start limit condition : Expr} {step : Option Expr}
  {m₂ : Machine} {body rest : List (Position × Instr)} {q : Position} {j : Instr}

/-- A FOR that runs zero times goes on behind its NEXT. -/
theorem Starts.tick_for (h : m.Starts (.command column (.openFor name start limit step)) behind m₁)
    (horderly : m.program.Orderly P) (hover : Exec.IsOver m₁ column name start limit step m₂)
    (hbehind : behind = body ++ (q, j) :: rest) (hbody : Balanced body)
    (hnext : j.isNextOf m₁.memory.store.resolve (m₁.memory.store.resolve name) = true) :
    Machine.tick m =
      (.ok true,
        { m₂.withLoops (Exec.closeLoop (m₁.memory.store.resolve name) m₁.stack.loops)
          with position := q.after }) := by
  have hfound : findNext? m₁.memory.store.resolve (m₁.memory.store.resolve name) 0
    (m₁.ahead m₁.position) =
      some q.after := by
    rw [h.ahead horderly, hbehind, hbody.findNext?, findNext?_cons, if_pos ⟨rfl, hnext⟩]
  have hrun : Exec.instr (.command column (.openFor name start limit step)) m₁ = _ :=
    Exec.run_openFor_of_isOver hover
  rw [h.tick horderly, hrun, hfound]
  rfl

/-- A FOR is without NEXT just if it runs zero times and none of the NEXTs behind it can end it. -/
theorem Starts.raises_forWithoutNext_iff
    (h : m.Starts (.command column (.openFor name start limit step)) behind m₁)
    (horderly : m.program.Orderly P) : m.Raises .forWithoutNext ↔
      (∃ m₂, Exec.IsOver m₁ column name start limit step m₂) ∧
        ∀ body e rest, behind = body ++ e :: rest →
        e.2.isNextOf m₁.memory.store.resolve (m₁.memory.store.resolve name) = true →
          forDepth 0 body ≠ 0 := by
  rw [h.raises_iff horderly, ← findNext?_eq_none_iff, ← h.ahead horderly]
  constructor
  · rintro ⟨halt, m', hrun, hkind⟩
    exact Exec.isOver_of_forWithoutNext hrun hkind
  · rintro ⟨⟨m₂, hover⟩, hnone⟩
    have hrun : Exec.instr (.command column (.openFor name start limit step)) m₁ = _ :=
      Exec.run_openFor_of_isOver hover
    rw [hrun, hnone]
    exact ⟨_, _, rfl, rfl⟩

/-- A WHILE whose condition does not hold goes on behind its WEND. -/
theorem Starts.tick_while (h : m.Starts (.command column (.openWhile condition)) behind m₁)
    (horderly : m.program.Orderly P) (hfalse : Exec.IsFalse m₁ condition m₂)
    (hbehind : behind = body ++ (q, j) :: rest)
    (hbefore : ∀ before, before <+: body → ¬Outnumbered 0 before)
    (hhere : Outnumbered 0 (body ++ [(q, j)])) :
    Machine.tick m = (.ok true, { m₂.leaveWhile with position := q.after }) := by
  have hfound : findWend? 0 (m₁.ahead m₁.position) = some q.after := by
    rw [h.ahead horderly, hbehind, findWend?_of_first hbefore hhere]
  have hrun : Exec.instr (.command column (.openWhile condition)) m₁ = _ :=
    Exec.run_openWhile_of_isFalse hfalse
  rw [h.tick horderly, hrun, hfound]
  rfl

/-- A WHILE is without WEND just if its condition does not hold and the WENDs behind it never
outnumber the WHILEs. -/
theorem Starts.raises_whileWithoutWend_iff
    (h : m.Starts (.command column (.openWhile condition)) behind m₁)
    (horderly : m.program.Orderly P) : m.Raises .whileWithoutWend ↔
      (∃ m₂, Exec.IsFalse m₁ condition m₂) ∧ ∀ body, body <+: behind → ¬Outnumbered 0 body := by
  rw [h.raises_iff horderly, ← findWend?_eq_none_iff, ← h.ahead horderly]
  constructor
  · rintro ⟨halt, m', hrun, hkind⟩
    exact Exec.isFalse_of_whileWithoutWend hrun hkind
  · rintro ⟨⟨m₂, hfalse⟩, hnone⟩
    have hrun : Exec.instr (.command column (.openWhile condition)) m₁ = _ :=
      Exec.run_openWhile_of_isFalse hfalse
    rw [hrun, hnone]
    exact ⟨_, _, rfl, rfl⟩

end

/-- **A skipped loop lands just past its own end.** The code behind the statement may be spread over
lines and branches.

A FOR that runs zero times, with behind it a body in which FOR and NEXT are balanced and then a NEXT
that names its variable or nothing, goes on just behind that NEXT: the turn does nothing else than
to set the variable and to close loops. It is without NEXT just if no such NEXT stands at depth
zero. A WHILE whose condition does not hold goes on just behind the first WEND at which the WENDs
outnumber the WHILEs, and is without WEND just if there is none. -/
theorem skips_loop (horderly : m.program.Orderly P) {column : Nat} {c : Command}
    (hstarts : m.Starts (.command column c) behind m₁) :
    (∀ name start limit step, c = .openFor name start limit step →
      (∀ m₂ body q next rest, Exec.IsOver m₁ column name start limit step m₂ →
        behind = body ++ (q, next) :: rest →
        Balanced body →
          next.isNextOf m₁.memory.store.resolve (m₁.memory.store.resolve name) = true →
        tick m = (.ok true,
          { m₂.withLoops (Exec.closeLoop (m₁.memory.store.resolve name) m₁.stack.loops)
            with position := q.after }) ∧
        m.ahead q.after = rest ∧ m₁.Remembers m₂ ∧
        m₁.Touches (m₁.memory.store.resolve (m₁.memory.store.loopName name)) m₂) ∧
      (m.Raises .forWithoutNext ↔ (∃ m₂, Exec.IsOver m₁ column name start limit step m₂) ∧
        ∀ body e rest, behind = body ++ e :: rest →
          e.2.isNextOf m₁.memory.store.resolve (m₁.memory.store.resolve name) = true →
          forDepth 0 body ≠ 0)) ∧
    (∀ condition, c = .openWhile condition →
      (∀ m₂ body q wend rest, Exec.IsFalse m₁ condition m₂ → behind = body ++ (q, wend) :: rest →
        (∀ before, before <+: body → ¬Outnumbered 0 before) → Outnumbered 0 (body ++ [(q, wend)]) →
        tick m = (.ok true, { m₂.leaveWhile with position := q.after }) ∧
        m.ahead q.after = rest ∧ m₁.Remembers m₂ ∧ m₁.SameScalars m₂) ∧
      (m.Raises .whileWithoutWend ↔
        (∃ m₂, Exec.IsFalse m₁ condition m₂) ∧ ∀ body, body <+: behind → ¬Outnumbered 0 body)) := by
  constructor
  · rintro name start limit step rfl
    refine ⟨fun m₂ body q next rest hover hbehind hbody hnext => ?_,
      hstarts.raises_forWithoutNext_iff horderly⟩
    exact ⟨hstarts.tick_for horderly hover hbehind hbody hnext,
      hstarts.ahead_behind horderly hbehind, hover.remembers, hover.touches⟩
  · rintro condition rfl
    refine ⟨fun m₂ body q wend rest hfalse hbehind hbefore hhere => ?_,
      hstarts.raises_whileWithoutWend_iff horderly⟩
    exact ⟨hstarts.tick_while horderly hfalse hbehind hbefore hhere,
      hstarts.ahead_behind horderly hbehind, hfalse.remembers, hfalse.sameScalars⟩

/-- A machine at a loop that runs zero times. A loop in its body begins in one branch and ends in
the other. -/
def atBranchedLoop : Machine where
  settings := ⟨{}⟩
  position := ⟨some 10, 0⟩
  program :=
    ⟨[.new 10 "FOR I=5 TO 1:IF A THEN FOR J=1 TO 2 ELSE NEXT J"
        [.command 4 (.openFor "I" (.literal 10 (.single 5.0)) (.literal 15 (.single 1.0)) none),
          .branch 17 (.variable 20 "A")
            [.command 27
              (.openFor "J" (.literal 33 (.single 1.0)) (.literal 38 (.single 2.0)) none)]
            [.command 45 (.next (some "J"))]],
      .new 20 "NEXT:STOP" [.command 4 (.next none), .command 9 .stop]]⟩

theorem skips_loop_branched : ∃ m', tick atBranchedLoop = (.ok true, m') ∧
    m'.position = ⟨some 20, 1⟩ ∧
    m'.memory.store.get "I" = .single 5.0 ∧ atBranchedLoop.ahead ⟨some 20, 1⟩ =
      [(⟨some 20, 1⟩, .command 9 .stop)] := by
  have horderly : atBranchedLoop.program.Orderly fun _ => True := ⟨by decide, fun _ _ => trivial⟩
  have hstarts : atBranchedLoop.Starts
      (.command 4 (.openFor "I" (.literal 10 (.single 5.0)) (.literal 15 (.single 1.0)) none))
      _ _ :=
    ⟨rfl, ⟨[], rfl⟩, _, rfl, rfl⟩
  have hbody : Balanced ((atBranchedLoop.ahead ⟨some 10, 1⟩).take 4) :=
    .other rfl rfl (@Balanced.loop _ _ [_] [] rfl (.other rfl rfl .nil) rfl .nil)
  obtain ⟨htick, hahead, -⟩ := ((skips_loop horderly hstarts).1 _ _ _ _ rfl).1 _ _ ⟨some 20, 0⟩ _ _
    (.intro rfl rfl rfl (by decide)) rfl hbody rfl
  exact ⟨_, htick, rfl, rfl, hahead⟩

end Machine

end LineBasic
