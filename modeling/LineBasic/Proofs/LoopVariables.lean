import Mathlib
import LineBasic.Proofs.Openings

/-!
# The variables of loops

FOR and NEXT make a key of the name that they carry and then use the key as if it were a name. The
variable that they set, step and test is therefore the one that LET and expressions call by
`Store.loopName`. That is the name itself, but for a name that is marked `!` and whose first letter
is declared for another kind.

* `Store.loopName`, `Store.loopName_eq`: the name under which LET and expressions have the variable
  of a loop.
* `Machine.Touches`: no scalar has changed but the one with a key.
* `Exec.Begins`, `Exec.EndsTurnOf`: what FOR and NEXT do, told by what LET and expressions do.
-/

namespace LineBasic

namespace Store

variable {s : Store} {a b base mark name : String}

/-! ## Names -/

/-- A name without a mark. -/
def IsPlain (base : String) : Prop := ∃ c, base.toList.getLast? = some c ∧ c ∉ ['!', '$', '%', '#']

/-- The kind that is declared for the first letter of a name. -/
def declared (s : Store) (name : String) : Kind :=
  (name.toList.head?.bind fun c => s.letters.get? (String.singleton c)).getD .single

/-- The name by which LET and expressions call the variable of a loop. -/
def loopName (s : Store) (name : String) : String :=
  if s.resolve (s.resolve name) = s.resolve name then name else s.resolve name

/-- A key as a name stands for the variable of the loop. -/
theorem resolve_loopName (s : Store) (name : String) :
    s.resolve (s.loopName name) = s.resolve (s.resolve name) := by
  unfold loopName
  split
  · rename_i hsame
    exact hsame.symm
  · rfl

theorem resolve_plain (h : IsPlain base) : s.resolve base = base ++ (s.declared base).sigil := by
  obtain ⟨c, hlast, hmark⟩ := h
  simp only [List.mem_cons, List.not_mem_nil, or_false, not_or] at hmark
  unfold resolve declared
  cases hchars : base.toList with
  | nil =>
    rw [hchars] at hlast
    cases hlast
  | cons first rest =>
    rw [hchars] at hlast
    simp only [hlast, hmark, decide_false, Bool.or_self, Bool.false_eq_true, if_false,
      List.head?_cons, Option.bind_some]
    cases s.letters.get? (String.singleton first) with
    | none => rfl
    | some kind => rfl

theorem resolve_single (s : Store) (base : String) : s.resolve (base ++ "!") = base := by
  have hchars : (base ++ "!").toList = base.toList ++ ['!'] := String.toList_append
  unfold resolve
  simp only [hchars, List.getLast?_concat, List.dropLast_concat, String.ofList_toList]
  cases base.toList <;> rfl

theorem resolve_marked (s : Store) (base : String) (h : mark ∈ ["$", "%", "#"]) :
    s.resolve (base ++ mark) = base ++ mark := by
  obtain ⟨c, hmark, hc⟩ : ∃ c, mark.toList = [c] ∧ c ∈ ['$', '%', '#'] := by
    simp only [List.mem_cons, List.not_mem_nil, or_false] at h
    rcases h with rfl | rfl | rfl
    · exact ⟨'$', rfl, by simp⟩
    · exact ⟨'%', rfl, by simp⟩
    · exact ⟨'#', rfl, by simp⟩
  have hchars : (base ++ mark).toList = base.toList ++ [c] := by rw [String.toList_append, hmark]
  have hsingle : c ≠ '!' := by
    rintro rfl
    revert hc
    decide
  have hmarked : (c = '$' || c = '%' || c = '#') = true := by simpa [or_assoc] using hc
  unfold resolve
  simp only [hchars, List.getLast?_concat]
  cases base.toList <;>
    simp only [List.nil_append, List.cons_append, if_neg hsingle, if_pos hmarked]

/-- A key is a key again, and so is a name that has lost its mark unless another kind is declared
for its letter. -/
theorem resolve_resolve (h : IsPlain base) (hmark : mark ∈ ["", "!", "#", "%"]) :
    s.resolve (s.resolve (base ++ mark)) =
      if mark = "!" then base ++ (s.declared base).sigil else s.resolve (base ++ mark) := by
  simp only [List.mem_cons, List.not_mem_nil, or_false] at hmark
  rcases hmark with rfl | rfl | rfl | rfl
  · rw [String.append_empty, if_neg (by decide), resolve_plain h]
    cases hkind : s.declared base with
    | single =>
      have hplain := resolve_plain (s := s) h
      rw [hkind] at hplain
      rw [Kind.sigil, String.append_empty] at hplain ⊢
      exact hplain
    | text => exact resolve_marked s base (by decide)
    | integer => exact resolve_marked s base (by decide)
    | double => exact resolve_marked s base (by decide)
  · rw [resolve_single, if_pos rfl, resolve_plain h]
  · rw [if_neg (by decide), resolve_marked s base (by decide), resolve_marked s base (by decide)]
  · rw [if_neg (by decide), resolve_marked s base (by decide), resolve_marked s base (by decide)]

/-- A loop has the variable of its name, but for a name marked `!` whose letter is declared for
another kind: such a name loses its mark. -/
theorem loopName_eq (s : Store) (h : IsPlain base) (hmark : mark ∈ ["", "!", "#", "%"]) :
    s.loopName (base ++ mark) = if mark = "!" ∧
      s.declared base ≠ .single then base else base ++ mark := by
  unfold loopName
  rw [resolve_resolve h hmark]
  by_cases hsingle : mark = "!"
  · subst hsingle
    rw [resolve_single, if_pos rfl]
    cases hkind : s.declared base with
    | single => simp [Kind.sigil]
    | text | integer | double => simp [Kind.sigil]
  · simp [hsingle]

/-- The variable of a loop is the one that its name stands for just if the name does not lose its
mark. -/
theorem resolve_loopName_iff (h : IsPlain base) (hmark : mark ∈ ["", "!", "#", "%"]) :
    s.resolve (s.loopName (base ++ mark)) = s.resolve (base ++ mark) ↔
      ¬(mark = "!" ∧ s.declared base ≠ .single) := by
  rw [resolve_loopName, resolve_resolve h hmark]
  by_cases hsingle : mark = "!"
  · subst hsingle
    rw [if_pos rfl, resolve_single]
    cases s.declared base <;> simp [Kind.sigil]
  · simp [hsingle]

/-! ## Access -/

theorem get_congr (h : s.resolve a = s.resolve b) : s.get a = s.get b := by
  unfold get
  rw [h]

theorem set_congr (h : s.resolve a = s.resolve b) (v : Value) : s.set a v = s.set b v := by
  unfold set
  rw [h]

theorem kindOf_congr (h : s.resolve a = s.resolve b) : s.kindOf a = s.kindOf b := by
  unfold kindOf
  rw [h]

end Store

namespace Machine

/-- The scalars and the declared kinds are the same. -/
def SameScalars (m m' : Machine) : Prop :=
  m'.memory.store.scalars = m.memory.store.scalars ∧
    m'.memory.store.letters = m.memory.store.letters

instance : IsPreorder Machine SameScalars where
  refl _ := ⟨rfl, rfl⟩
  trans _ _ _ h h' := ⟨h'.1.trans h.1, h'.2.trans h.2⟩

/-- No scalar has changed but the one with the key, and the declared kinds are the same. -/
structure Touches (key : String) (m m' : Machine) : Prop where
  letters : m'.memory.store.letters = m.memory.store.letters
  others : ∀ k ≠ key, m'.memory.store.scalars.get? k = m.memory.store.scalars.get? k

instance (key : String) : IsPreorder Machine (Touches key) where
  refl _ := ⟨rfl, fun _ _ => rfl⟩
  trans _ _ _ h h' :=
    ⟨h'.letters.trans h.letters, fun k hk => (h'.others k hk).trans (h.others k hk)⟩

variable {m m' : Machine} {key : String}

theorem SameScalars.touches (h : m.SameScalars m') : m.Touches key m' :=
  ⟨h.2, fun _ _ => by rw [h.1]⟩

end Machine

namespace Exec

open Machine

variable {m : Machine} {column : Nat} {n n' : String}

theorem sameScalars_value (e : Expr) : Moves SameScalars (value e) := by
  intro m
  obtain ⟨memory, lost, hrun, hframes, -⟩ := value_frames e m
  rw [hrun]
  exact ⟨congrArg Table.mk hframes.store.scalars.eq, hframes.store.letters⟩

theorem touches_setScalar (name : String) (v : Value) (m : Machine) :
    m.Touches (m.memory.store.resolve name) (setScalar name v m).2 := by
  rw [run_setScalar]
  cases hset : m.memory.store.set name v with
  | error e => exact refl_of (Touches _) m
  | ok store =>
    obtain ⟨w, -, rfl, -⟩ := Store.set_eq_ok hset
    refine ⟨rfl, fun k hk => ?_⟩
    exact (Table.find?_put _ _ _ _).trans (if_neg hk)

/-- LET changes the scalar that it names. -/
theorem touches_let (column : Nat) (name : String) (e : Expr) (m : Machine) :
    m.Touches (m.memory.store.resolve name)
      (command column (.assign (.scalar column name) e) m).2 := by
  change m.Touches _ ((value e >>= fun v => setScalar name v) m).2
  have hvalue := sameScalars_value e m
  rw [run_bind]
  cases hrun : value e m with
  | mk r m₁ =>
    rw [hrun] at hvalue
    cases r with
    | error h => exact hvalue.touches
    | ok v =>
      have hset := touches_setScalar name v m₁
      rw [Store.resolve_congr hvalue.2] at hset
      exact trans_of (Touches _) hvalue.touches hset

theorem sameScalars_bound (kind : Kind) (e : Expr) : Moves SameScalars (bound kind e) :=
  (sameScalars_value e).bind fun _ => (moves_lift _).bind fun _ => moves_lift _

/-! ## FOR -/

/-- The limit and the step of a loop. -/
def loopBounds (kind : Kind) (limit : Expr) (step : Option Expr) : Exec (Float × Float) := do
  let limit ← bound kind limit
  let step ← match step with
    | some e => bound kind e
    | none => pure 1.0
  return (limit, step)

theorem sameScalars_loopBounds (kind : Kind) (limit : Expr) (step : Option Expr) :
    Moves SameScalars (loopBounds kind limit step) := by
  refine (sameScalars_bound kind limit).bind fun _ => ?_
  cases step with
  | none => exact moves_pure _
  | some e => exact (sameScalars_bound kind e).bind fun _ => moves_pure _

/-- What FOR does with the variable that LET and expressions call `name`: LET gives it the first
value, its kind is that of the bounds, and an expression that is the name gives the number that is
tested. The loop is kept under a key. -/
inductive Begins (m : Machine) (column : Nat) (name key : String) (start limit : Expr)
    (step : Option Expr) :
    Except Halt Unit × Machine → Prop where
  | unset {h : Halt} {m₁ : Machine}
      (first : command column (.assign (.scalar column name) start) m = (.error h, m₁)) :
      Begins m column name key start limit step (.error h, m₁)
  | unbounded {h : Halt} {m₁ m₂ : Machine}
      (first : command column (.assign (.scalar column name) start) m = (.ok (), m₁))
      (bounds : loopBounds (m.memory.store.kindOf name) limit step m₁ = (.error h, m₂)) :
      Begins m column name key start limit step (.error h, m₂)
  | enters {m₁ m₂ : Machine} {limit' step' : Float} {v : Value} {r : Except Halt Unit × Machine}
      (first : command column (.assign (.scalar column name) start) m = (.ok (), m₁))
      (bounds : loopBounds (m.memory.store.kindOf name) limit step m₁ = (.ok (limit', step'), m₂))
      (tested : value (.variable column name) m₂ = (.ok v, m₂))
      (enters : Enters m₂ v.number key limit' step' r) :
      Begins m column name key start limit step r

theorem setScalar_congr (h : m.memory.store.resolve n = m.memory.store.resolve n') (v : Value) :
    setScalar n v m = setScalar n' v m := by
  rw [run_setScalar, run_setScalar, Store.set_congr h]

/-- A loop begins with a LET. -/
theorem openFor_eq (column : Nat) (name n : String) (start limit : Expr) (step : Option Expr)
    (m : Machine)
    (h : m.memory.store.resolve n = m.memory.store.resolve (m.memory.store.resolve name)) :
    openFor column name start limit step m = (do
      command column (.assign (.scalar column n) start)
      let b ← loopBounds (m.memory.store.kindOf n) limit step
      enterLoop column (m.memory.store.resolve name) b.1 b.2 : Exec Unit) m := by
  have hlet : command column (.assign (.scalar column n) start) m =
      (value start >>= setScalar (m.memory.store.resolve name)) m := by
    change (value start >>= setScalar n) m = _
    have hvalue := sameScalars_value start m
    rw [run_bind, run_bind]
    cases hrun : value start m with
    | mk r m₁ =>
      rw [hrun] at hvalue
      cases r with
      | error e => rfl
      | ok v =>
        refine setScalar_congr ?_ v
        rw [Store.resolve_congr hvalue.2, Store.resolve_congr hvalue.2, h]
  rw [run_bind, hlet, ← run_bind, Store.kindOf_congr h]
  unfold openFor loopBounds
  rw [run_get_bind]
  cases step <;> simp only [bind_assoc, pure_bind]

theorem touches_of_enters {number : Except Error Float} {key var : String} {limit step : Float}
    {r : Except Halt Unit × Machine} (h : Enters m number var limit step r) :
    m.Touches key r.2 := by
  cases h <;> exact ⟨rfl, fun _ _ => rfl⟩

theorem begins_openFor (column : Nat) (name : String) (start limit : Expr) (step : Option Expr)
    (m : Machine) :
    Begins m column (m.memory.store.loopName name) (m.memory.store.resolve name) start limit step
      (openFor column name start limit step m) := by
  have hname := m.memory.store.resolve_loopName name
  rw [openFor_eq column name _ start limit step m hname, run_bind]
  rcases hfirst : command column (.assign (.scalar column (m.memory.store.loopName name)) start) m
    with ⟨_ | _, m₁⟩
  · exact .unset hfirst
  simp only
  rw [run_bind]
  rcases hbounds : loopBounds (m.memory.store.kindOf (m.memory.store.loopName name)) limit step m₁
    with ⟨_ | b, m₂⟩
  · exact .unbounded hfirst hbounds
  -- neither LET nor the bounds declare anything, so the key as a name still stands for the same
  -- variable
  have hlet := touches_let column (m.memory.store.loopName name) start m
  have hloop :=
    sameScalars_loopBounds (m.memory.store.kindOf (m.memory.store.loopName name)) limit step m₁
  rw [hfirst] at hlet
  rw [hbounds] at hloop
  have hletters := hloop.2.trans hlet.letters
  have henters := enters_enterLoop column (m.memory.store.resolve name) b.1 b.2 m₂
  rw [Store.get_congr (b := m.memory.store.loopName name)
    (by rw [Store.resolve_congr hletters, Store.resolve_congr hletters, hname])] at henters
  exact .enters hfirst hbounds (run_value_variable _ _ _) henters

theorem Begins.touches {name key : String} {start limit : Expr} {step : Option Expr}
    {r : Except Halt Unit × Machine} (h : Begins m column name key start limit step r) :
    m.Touches (m.memory.store.resolve name) r.2 := by
  have hlet := touches_let column name start m
  have hbounds := sameScalars_loopBounds (m.memory.store.kindOf name) limit step
  cases h with
  | unset first =>
    rw [first] at hlet
    exact hlet
  | @unbounded h m₁ m₂ first bounds =>
    rw [first] at hlet
    exact trans_of (Touches _) hlet (hbounds.of_run bounds).touches
  | @enters m₁ m₂ limit' step' v r first bounds tested enters =>
    rw [first] at hlet
    exact trans_of (Touches _) (trans_of (Touches _) hlet (hbounds.of_run bounds).touches)
      (touches_of_enters enters)

/-! ## NEXT -/

/-- What NEXT does with the variable that LET and expressions call as told: it is the loop's own, by
the name that NEXT carries if there is one, and it is stepped and tested. -/
inductive EndsTurnOf (m : Machine) (name : Option String) : Except Halt Unit × Machine → Prop where
  | fails (missing : ∀ frame ∈ m.stack.loops, ∃ s, name = some s ∧
      frame.var ≠ m.memory.store.resolve s) (h : Halt) :
      EndsTurnOf m name (.error h, m)
  | named {s : String} {frame : LoopFrame} {outer : List LoopFrame} {r : Except Halt Unit × Machine}
      (given : name = some s)
      (suffix : frame :: outer <:+ m.stack.loops) (key : frame.var = m.memory.store.resolve s)
      (turn : EndsTurn m (m.memory.store.loopName s) frame outer r)
      (touches : m.Touches (m.memory.store.resolve (m.memory.store.loopName s)) r.2) :
        EndsTurnOf m name r
  | innermost {frame : LoopFrame} {outer : List LoopFrame} {r : Except Halt Unit × Machine}
      (given : name = none)
      (loops : m.stack.loops = frame :: outer) (turn : EndsTurn m frame.var frame outer r)
      (touches : m.Touches (m.memory.store.resolve frame.var) r.2) : EndsTurnOf m name r

theorem EndsTurn.congr {a b : String} {frame : LoopFrame} {outer : List LoopFrame}
    {r : Except Halt Unit × Machine} (h : EndsTurn m a frame outer r)
    (hsame : m.memory.store.resolve a = m.memory.store.resolve b) :
    EndsTurn m b frame outer r := by
  -- the variable is stepped in a store with the same declared kinds
  have hstepped : ∀ {v store}, m.memory.store.set a v = .ok store → store.get a = store.get b := by
    intro v store hset
    obtain ⟨w, -, rfl, -⟩ := Store.set_eq_ok hset
    exact Store.get_congr hsame
  have hget := Store.get_congr hsame
  have hset := Store.set_congr hsame
  cases h with
  | unread number => exact .unread (hget ▸ number)
  | unset number set => exact .unset (hget ▸ number) (hset _ ▸ set)
  | leaves number set stepped past =>
    exact .leaves (hget ▸ number) (hset _ ▸ set) (hstepped set ▸ stepped) past
  | repeats number set stepped past =>
    exact .repeats (hget ▸ number) (hset _ ▸ set) (hstepped set ▸ stepped) past

theorem EndsTurn.touches {name : String} {frame : LoopFrame} {outer : List LoopFrame}
    {r : Except Halt Unit × Machine} (h : EndsTurn m name frame outer r) :
    m.Touches (m.memory.store.resolve name) r.2 := by
  have hset : ∀ {v store}, m.memory.store.set name v = .ok store →
      m.Touches (m.memory.store.resolve name) { m with memory := { m.memory with store } } := by
    intro v store hset
    have htouches := touches_setScalar name v m
    rw [run_setScalar, hset] at htouches
    exact htouches
  cases h with
  | unread | unset => exact ⟨rfl, fun _ _ => rfl⟩
  | leaves _ set | repeats _ set => exact ⟨(hset set).letters, (hset set).others⟩

theorem endsTurnOf_nextLoop (column : Nat) (name : Option String) (m : Machine) :
    EndsTurnOf m name (nextLoop column name m) := by
  have hnexts := nexts_nextLoop column name m
  generalize nextLoop column name m = r at hnexts
  cases hnexts with
  | fails missing h => exact .fails missing h
  | ends suffix named unnamed turn =>
    cases name with
    | none => exact .innermost rfl (unnamed rfl) turn turn.touches
    | some s =>
      have hkey := named s rfl
      have hturn :=
        turn.congr (b := m.memory.store.loopName s) (by rw [hkey, Store.resolve_loopName])
      exact .named rfl suffix hkey hturn hturn.touches

/-! ## The main result -/

/-- **FOR and NEXT use the variable that LET and expressions call by `Store.loopName` of the name
that they carry.** FOR gives it the first value as LET does, with bounds of its kind, and tests what
an expression reads under that name; NEXT steps and tests it. No other scalar changes, whatever the
outcome. The name is the one that FOR and NEXT carry, and the variable is that of this name, except
just for names that are marked `!` and whose letter is declared for another kind: these lose their
mark. A NEXT without a name takes the variable of the innermost loop. -/
theorem loops_use_loopName (m : Machine) (column : Nat) :
    (∀ name start limit step,
      Begins m column (m.memory.store.loopName name) (m.memory.store.resolve name) start limit step
        (command column (.openFor name start limit step) m) ∧
      m.Touches (m.memory.store.resolve (m.memory.store.loopName name))
        (command column (.openFor name start limit step) m).2) ∧
    (∀ name, EndsTurnOf m name (command column (.next name) m)) ∧
    ∀ base mark, Store.IsPlain base → mark ∈ ["", "!", "#", "%"] →
      m.memory.store.loopName (base ++ mark) =
        (if mark = "!" ∧ m.memory.store.declared base ≠ .single then base else base ++ mark) ∧
      (m.memory.store.resolve (m.memory.store.loopName (base ++ mark)) = m.memory.store.resolve
        (base ++ mark) ↔
        ¬(mark = "!" ∧ m.memory.store.declared base ≠ .single)) := by
  refine ⟨fun name start limit step => ?_, fun name => endsTurnOf_nextLoop column name m,
    fun base mark hbase hmark => ?_⟩
  · have hbegins := begins_openFor column name start limit step m
    exact ⟨hbegins, hbegins.touches⟩
  · exact ⟨Store.loopName_eq _ hbase hmark, Store.resolve_loopName_iff hbase hmark⟩

/-- A new machine on which the letter I was declared for integers. -/
def integerLetter : Machine := (command 1 (.declare .integer ["I"]) (Machine.new default)).2

theorem loops_use_loopName_integerLetter : integerLetter.memory.store.loopName "I!" = "I" ∧
    integerLetter.memory.store.loopName "J!" = "J!" := by
  have hmain := (loops_use_loopName integerLetter 1).2.2
  refine ⟨(hmain "I" "!" ⟨'I', by decide, by decide⟩ (by decide)).1.trans ?_,
    (hmain "J" "!" ⟨'J', by decide, by decide⟩ (by decide)).1.trans ?_⟩ <;> decide +kernel

/-- **FOR does not always set the variable that it names**: it can leave alone the one that LET has
under that name, and change another one. -/
theorem for_misses_integerLetter : ∃ m column name start limit,
    (command column (.openFor name start limit none) m).1 = .ok () ∧
    (command column (.openFor name start limit none) m).2.memory.store.snapshot name = none ∧
    (command column (.assign (.scalar column name) start) m).2.memory.store.snapshot name ≠ none ∧
    ¬m.Touches (m.memory.store.resolve name)
      (command column (.openFor name start limit none) m).2 := by
  have hfacts :
      (command 10 (.openFor "I!" (.literal 17 (.single 1.0)) (.literal 22 (.single 2.0)) none)
        integerLetter).1.isOk ∧
      ((command 10 (.openFor "I!" (.literal 17 (.single 1.0)) (.literal 22 (.single 2.0)) none)
        integerLetter).2.memory.store.snapshot "I!").isNone ∧
      ((command 10 (.assign (.scalar 10 "I!") (.literal 17 (.single 1.0)))
      integerLetter).2.memory.store.snapshot
        "I!").isSome ∧
      ((command 10 (.openFor "I!" (.literal 17 (.single 1.0)) (.literal 22 (.single 2.0)) none)
        integerLetter).2.memory.store.scalars.get? "I%").isSome ∧
      (integerLetter.memory.store.scalars.get? "I%").isNone ∧
      "I%" ≠ integerLetter.memory.store.resolve "I!" := by
    decide +kernel
  obtain ⟨hok, hleft, hlet, hset, hnew, hother⟩ := hfacts
  refine ⟨integerLetter, 10, "I!", .literal 17 (.single 1.0), .literal 22 (.single 2.0), ?_,
    Option.isNone_iff_eq_none.mp hleft, Option.isSome_iff_ne_none.mp hlet, fun htouches => ?_⟩
  · cases hrun :
        (command 10 (.openFor "I!" (.literal 17 (.single 1.0)) (.literal 22 (.single 2.0)) none)
        integerLetter).1 with
    | error e =>
      rw [hrun] at hok
      cases hok
    | ok u => rfl
  · rw [htouches.others _ hother, Option.isNone_iff_eq_none.mp hnew] at hset
    cases hset

end Exec

end LineBasic
