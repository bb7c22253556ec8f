import Mathlib
import LineBasic.Proofs.Swapping

/-!
# Overwriting part of a string

An assignment to MID$ writes a replacement over the characters of a string variable, from a place
counted from one. The string keeps its length: what would stand behind its end is dropped.

* `Overwritten`: what becomes of a text. `overwritten_overwrite`: that is what the assignment
  computes.
* `Exec.Parts`: the values of the parts of the assignment, in the order in which they are evaluated.
* `Exec.Overwrites`: what the assignment comes to, for a target that designates the same cell again.
-/

namespace LineBasic

/-! ## Texts -/

/-- In a text, `n` characters from place `start` on are now the first `n` ones of a replacement.
Places are counted from one, so that the first of the characters has index `start - 1`. -/
structure Overwritten (s : List Char) (start n : Nat) (replacement s' : List Char) : Prop where
  length : s'.length = s.length
  inside : ∀ i < n, s'[start - 1 + i]? = replacement[i]?
  outside : ∀ i, i < start - 1 ∨ start - 1 + n ≤ i → s'[i]? = s[i]?

/-- The whole replacement is written, as far as the text goes. -/
theorem overwritten_overwrite {start : Nat} (hstart : 1 ≤ start) (s replacement : List Char) :
    Overwritten s start (min replacement.length (s.length + 1 - start)) replacement
      (Exec.overwrite s start replacement) := by
  have hhead : (s.take (start - 1)).length = min (start - 1) s.length := List.length_take
  refine ⟨?_, fun i hi => ?_, fun i hi => ?_⟩
  · simp only [Exec.overwrite, List.length_take, List.length_append, List.length_drop]
    omega
  · -- there is such a character, so the text reaches beyond the head
    have hlong : start - 1 + i < s.length := by omega
    unfold Exec.overwrite
    rw [List.getElem?_take_of_lt hlong,
      List.getElem?_append_left (by rw [List.length_append, hhead]; omega),
      List.getElem?_append_right (by rw [hhead]; omega), hhead]
    congr 1
    omega
  · unfold Exec.overwrite
    by_cases hlong : i < s.length
    · rw [List.getElem?_take_of_lt hlong]
      rcases hi with hi | hi
      · rw [List.append_assoc, List.getElem?_append_left (by rw [hhead]; omega),
          List.getElem?_take_of_lt hi]
      · rw [List.getElem?_append_right (by rw [List.length_append, hhead]; omega),
          List.getElem?_drop, List.length_append, hhead]
        congr 1
        omega
    · rw [List.getElem?_eq_none (by rw [List.length_take]; omega), List.getElem?_eq_none (by omega)]

namespace Overwritten

variable {s replacement s' : List Char} {start n : Nat}

/-- No more than the first characters of a replacement matter. -/
theorem of_take {k : Nat} (h : Overwritten s start n (replacement.take k) s') (hn : n ≤ k) :
    Overwritten s start n replacement s' where
  length := h.length
  inside i hi := (h.inside i hi).trans (List.getElem?_take_of_lt (Nat.lt_of_lt_of_le hi hn))
  outside := h.outside

/-- The characters that were written can be read again. -/
theorem take_drop (h : Overwritten s start n replacement s') :
    (s'.drop (start - 1)).take n = replacement.take n := by
  refine List.ext_getElem? fun i => ?_
  by_cases hi : i < n
  · rw [List.getElem?_take_of_lt hi, List.getElem?_take_of_lt hi, List.getElem?_drop, h.inside i hi]
  · rw [List.getElem?_eq_none (by rw [List.length_take]; omega),
      List.getElem?_eq_none (by rw [List.length_take]; omega)]

theorem eq_of_zero (h : Overwritten s start 0 replacement s') : s' = s :=
  List.ext_getElem? fun i => h.outside i (by omega)

end Overwritten

/-- A text, and what is written over it from which place on: no more than so many characters, if a
length is given. -/
structure Overwrite where
  text : String
  start : Nat
  replacement : String
  length : Option Nat

namespace Overwrite

/-- How many characters are overwritten. -/
def width (o : Overwrite) : Nat :=
  min (min o.replacement.length (o.length.getD o.replacement.length)) (o.text.length + 1 - o.start)

/-- The replacement without what exceeds the length. -/
def replaced (o : Overwrite) : List Char :=
  o.replacement.toList.take (o.length.getD o.replacement.length)

/-- The text that comes out. -/
def result (o : Overwrite) : String :=
  String.ofList (Exec.overwrite o.text.toList o.start o.replaced)

theorem overwritten_result (o : Overwrite) (hstart : 1 ≤ o.start) :
    Overwritten o.text.toList o.start o.width o.replacement.toList o.result.toList := by
  have h := overwritten_overwrite hstart o.text.toList o.replaced
  have hwidth : min o.replaced.length (o.text.toList.length + 1 - o.start) = o.width := by
    simp only [replaced, width, List.length_take, String.length_toList]
    omega
  rw [hwidth] at h
  rw [result, String.toList_ofList]
  refine Overwritten.of_take (k := o.length.getD o.replacement.length) h ?_
  unfold width
  omega

theorem length_result (o : Overwrite) (hstart : 1 ≤ o.start) : o.result.length = o.text.length := by
  have h := (o.overwritten_result hstart).length
  rwa [String.length_toList, String.length_toList] at h

/-- Nothing is overwritten behind the end, with an empty replacement or with length zero. -/
theorem result_eq_text (o : Overwrite) (hstart : 1 ≤ o.start)
    (h : o.text.length < o.start ∨ o.replacement = "" ∨ o.length = some 0) : o.result = o.text := by
  have hwidth : o.width = 0 := by
    unfold width
    rcases h with h | h | h
    · omega
    · simp [h]
    · simp [h]
  have hresult := o.overwritten_result hstart
  rw [hwidth] at hresult
  exact String.toList_inj.mp hresult.eq_of_zero

/-- MID$ gives what was written. -/
theorem apply_mid (o : Overwrite) (hstart : 1 ≤ o.start) (now : Instant) (column : Nat)
    {v w : Value} (hv : v.count = .ok o.start) (hw : w.count = .ok o.width) :
    Builtin.mid.apply now column [.text o.result, v, w] =
      .ok (.text (Builtin.takeText o.width o.replacement)) := by
  have htext := (o.overwritten_result hstart).take_drop
  simp only [Builtin.apply, Value.string, hv, hw, bind, Except.bind, pure, Except.pure]
  rw [if_neg (by omega), Builtin.takeText, Builtin.dropText, String.toList_ofList, htext]
  rfl

end Overwrite

/-! ## The parts of the assignment -/

/-- Expressions are evaluated: they find the same functions again, and no cell differs. -/
structure Machine.Evaluates (m m' : Machine) : Prop where
  scope : m.SameScope m'
  rewrites : m.memory.store.Rewrites ∅ m'.memory.store
  sound : m.memory.store.Sound → m'.memory.store.Sound

instance : IsPreorder Machine Machine.Evaluates where
  refl m := ⟨refl_of Machine.SameScope m, .refl _ _, id⟩
  trans _ _ _ h h' :=
    ⟨trans_of Machine.SameScope h.scope h'.scope, h.rewrites.after h'.rewrites, h'.sound ∘ h.sound⟩

namespace Exec

variable {m m₁ m' : Machine} {t : Target} {start e : Expr} {length : Option Expr}
  {o : Overwrite} {c : Cell}

/-- The text that an expression stands for. -/
def textOf (e : Expr) : Exec String := do lift (← value e).string

/-- The count that an expression stands for. -/
def countOf (e : Expr) : Exec Nat := do lift (← value e).count

/-- The count that an expression stands for, if there is one. -/
def limitOf : Option Expr → Exec (Option Nat)
  | none => pure none
  | some e => do return some (← countOf e)

/-- The parts have these values: first the target, then the place, which is not zero, then the
replacement and at last the length. -/
structure Parts (m : Machine) (t : Target) (start : Expr) (length : Option Expr) (e : Expr)
    (o : Overwrite) (m' : Machine) :
    Prop where
  positive : 1 ≤ o.start
  evaluated : ∃ m₁ m₂ m₃, textOf t.toExpr m = (.ok o.text, m₁) ∧
    countOf start m₁ = (.ok o.start, m₂) ∧
    textOf e m₂ = (.ok o.replacement, m₃) ∧ limitOf length m₃ = (.ok o.length, m')

theorem assignPart_eq (t : Target) (start : Expr) (length : Option Expr) (e : Expr) :
    assignPart t start length e = (do
      let s ← textOf t.toExpr
      let n ← countOf start
      if n = 0 then refuse .illegalQuantity
      else
        let r ← textOf e
        let k ← limitOf length
        assign t (.text (Overwrite.result ⟨s, n, r, k⟩))) := by
  unfold assignPart textOf countOf limitOf
  simp only [bind_assoc]
  refine bind_congr fun v => bind_congr fun s => bind_congr fun w => bind_congr fun n => ?_
  split
  · rfl
  · refine bind_congr fun x => bind_congr fun r => ?_
    cases length with
    | none =>
      simp only [pure_bind, Overwrite.result, Overwrite.replaced, Option.getD_none,
        ← String.length_toList, List.take_length]
    | some e => simp only [bind_assoc, pure_bind, countOf]; rfl

theorem evaluates_value (e : Expr) : Moves Machine.Evaluates (value e) := fun m =>
  ⟨sameScope_value e m, rewrites_value rfl, Machine.Alters.sound (computes_value e m)⟩

theorem evaluates_textOf (e : Expr) : Moves Machine.Evaluates (textOf e) :=
  (evaluates_value e).bind fun _ => moves_lift _

theorem evaluates_countOf (e : Expr) : Moves Machine.Evaluates (countOf e) :=
  (evaluates_value e).bind fun _ => moves_lift _

theorem evaluates_limitOf (e : Option Expr) : Moves Machine.Evaluates (limitOf e) := by
  cases e with
  | none => exact moves_pure none
  | some e => exact (evaluates_countOf e).bind fun _ => moves_pure _

theorem value_of_textOf {s : String} (h : textOf e m = (.ok s, m')) :
    value e m = (.ok (.text s), m') := by
  unfold textOf at h
  rw [run_bind] at h
  rcases hvalue : value e m with ⟨_ | v, m₁⟩
  · rw [hvalue] at h
    cases h
  · rw [hvalue] at h
    cases v with
    | text s' =>
      obtain ⟨hs, rfl⟩ := Prod.mk.inj h
      rw [Except.ok.inj hs]
    | single | double => cases h

/-- The other parts are evaluated after the target. -/
theorem Parts.after_target (h : Parts m t start length e o m') :
    ∃ m₁, value t.toExpr m = (.ok (.text o.text), m₁) ∧ m₁.Evaluates m' := by
  obtain ⟨m₁, m₂, m₃, htext, hstart, hreplacement, hlength⟩ := h.evaluated
  have h₃ := trans_of Machine.Evaluates ((evaluates_countOf _).of_run hstart)
    ((evaluates_textOf _).of_run hreplacement)
  exact ⟨m₁, value_of_textOf htext,
    trans_of Machine.Evaluates h₃ ((evaluates_limitOf _).of_run hlength)⟩

theorem Parts.evaluates (h : Parts m t start length e o m') : m.Evaluates m' := by
  obtain ⟨m₁, htarget, hrest⟩ := h.after_target
  exact trans_of Machine.Evaluates ((evaluates_value _).of_run htarget) hrest

/-- With all parts at hand there is one more step. -/
theorem assignPart_of_parts (h : Parts m t start length e o m₁) :
    assignPart t start length e m = assign t (.text o.result) m₁ := by
  obtain ⟨m₂, m₃, m₄, htext, hstart, hreplacement, hlength⟩ := h.evaluated
  have hpositive : o.start ≠ 0 := Nat.one_le_iff_ne_zero.mp h.positive
  rw [assignPart_eq, run_bind, htext]
  simp only
  rw [run_bind, hstart]
  simp only
  rw [if_neg hpositive, run_bind, hreplacement]
  simp only
  rw [run_bind, hlength]

/-- The first of two steps has a result with which the second goes on, or both fail as it does. -/
theorem Moves.bind_cases {α β : Type} {R : Machine → Machine → Prop} {x : Exec α} (hx : Moves R x)
    (f : α → Exec β) (m : Machine) : (∃ a m', x m = (.ok a, m') ∧ (x >>= f) m = f a m' ∧ R m m') ∨
      ∃ h m', (x >>= f) m = (.error h, m') ∧ R m m' := by
  rw [run_bind]
  rcases hrun : x m with ⟨h | a, m'⟩
  · exact .inr ⟨h, m', rfl, hx.of_run hrun⟩
  · exact .inl ⟨a, m', rfl, rfl, hx.of_run hrun⟩

/-- The parts have values, or the assignment fails before anything is stored. -/
theorem parts_or_fails (m : Machine) (t : Target) (start : Expr) (length : Option Expr) (e : Expr) :
    (∃ o m', Parts m t start length e o m') ∨
    ∃ h m', assignPart t start length e m = (.error h, m') ∧ m.Evaluates m' := by
  rw [assignPart_eq]
  rcases (evaluates_textOf t.toExpr).bind_cases _ m with ⟨s, m₁, hs, heq, h₁⟩ | hfails
  swap
  · exact .inr hfails
  rw [heq]
  rcases (evaluates_countOf start).bind_cases _ m₁ with ⟨n, m₂, hn, heq, h₂⟩ | ⟨h, m₂, heq, h₂⟩
  swap
  · exact .inr ⟨h, m₂, heq, trans_of Machine.Evaluates h₁ h₂⟩
  rw [heq]
  have h₂ := trans_of Machine.Evaluates h₁ h₂
  by_cases hzero : n = 0
  · rw [if_pos hzero]
    exact .inr ⟨_, m₂, rfl, h₂⟩
  rw [if_neg hzero]
  rcases (evaluates_textOf e).bind_cases _ m₂ with ⟨r, m₃, hr, heq, h₃⟩ | ⟨h, m₃, heq, h₃⟩
  swap
  · exact .inr ⟨h, m₃, heq, trans_of Machine.Evaluates h₂ h₃⟩
  rw [heq]
  have h₃ := trans_of Machine.Evaluates h₂ h₃
  rcases (evaluates_limitOf length).bind_cases _ m₃ with ⟨k, m₄, hk, heq, -⟩ | ⟨h, m₄, heq, h₄⟩
  · exact .inl ⟨⟨s, n, r, k⟩, m₄, Nat.one_le_iff_ne_zero.mpr hzero, m₁, m₂, m₃, hs, hn, hr, hk⟩
  · exact .inr ⟨h, m₄, heq, trans_of Machine.Evaluates h₃ h₄⟩

theorem rewrites_of_fails (hsound : m.memory.store.Sound) {h : Halt}
    (hfails : assignPart t start length e m = (.error h, m')) :
    m.memory.store.Rewrites ∅ m'.memory.store := by
  rcases parts_or_fails m t start length e with ⟨o, m₁, hparts⟩ | ⟨h', m₁, hrun, hevaluates⟩
  · have hevaluates := hparts.evaluates
    have hassigns := assigns_assign (hevaluates.sound hsound) t (.text o.result)
    rw [← assignPart_of_parts hparts, hfails] at hassigns
    cases hassigns with
    | unlocated _ rewrites | refused _ rewrites _ => exact hevaluates.rewrites.after rewrites
  · obtain ⟨-, rfl⟩ := Prod.mk.inj (hrun.symm.trans hfails)
    exact hevaluates.rewrites

/-! ## The main result -/

/-- What the assignment comes to: the cell holds the text with part of it overwritten, or there is
no room. Then the cell is a scalar that was never set and so stands for the empty text, or the
subscripts of the target call functions of the program. -/
inductive Overwrites (m : Machine) (t : Target) (c : Cell) (o : Overwrite) :
    Except Halt Unit × Machine → Prop where
  | overwritten {s : String} {m' : Machine}
      (text : Overwritten o.text.toList o.start o.width o.replacement.toList s.toList)
      (read : m'.memory.store.read c = .text s)
      (rewrites : m.memory.store.Rewrites {c} m'.memory.store)
      (unchanged : o.text.length < o.start ∨ o.replacement = "" ∨ o.length = some 0 →
        ∀ d, m'.memory.store.read d = m.memory.store.read d)
      (mid : ∀ now column v w, v.count = .ok o.start → w.count = .ok o.width →
        Builtin.mid.apply now column [m'.memory.store.read c, v, w] =
          .ok (.text (Builtin.takeText o.width o.replacement)))
      (back : ∀ k name, t = .scalar k name → ∀ column v w, v.count = .ok o.start →
        w.count = .ok o.width →
        value (.call column .mid [t.toExpr, .literal column v, .literal column w]) m' =
          (.ok (.text (Builtin.takeText o.width o.replacement)), m')) :
      Overwrites m t c o (.ok (), m')
  | full {m' : Machine} (rewrites : m.memory.store.Rewrites ∅ m'.memory.store)
      (cause : m'.memory.store.Full c ∧ o.text = "" ∨ .opens ∈ subscripts t m) :
      Overwrites m t c o (.error (.fault (.error (.of .outOfMemory))), m')

/-- A cell that holds a text takes any other one of that length. -/
theorem coerce_of_length_eq {k : Kind} {s s' : String} (h : k.coerce (.text s) = .ok (.text s))
    (hlength : s'.length = s.length) : k.coerce (.text s') = .ok (.text s') := by
  cases k with
  | integer | double | single => cases h
  | text =>
    change (checkString s >>= fun s => pure (Value.text s)) = _ at h
    change (checkString s' >>= fun s => pure (Value.text s)) = _
    unfold checkString at h ⊢
    rw [hlength]
    split at h
    · cases h
    · rename_i hshort
      rw [if_neg hshort]
      rfl

/-- A scalar that was never set stands for the empty text, if it stands for a text. -/
theorem eq_empty_of_full {s s' : Store} (hfull : s'.Full c) (hrewrites : s.Rewrites ∅ s')
    {text : String} (hread : s.read c = .text text) : text = "" := by
  obtain ⟨key, rfl, hnone, -⟩ := hfull
  rw [hrewrites.scalars key (Set.notMem_empty _)] at hnone
  rw [Store.read, hnone, Option.getD_none] at hread
  cases hkind : Kind.ofName key with
  | text =>
    rw [hkind] at hread
    exact (Value.text.inj hread).symm
  | integer | double | single =>
    rw [hkind] at hread
    cases hread

/-- The value of MID$ for a scalar. -/
theorem run_value_mid {k column : Nat} {name : String} {v w r : Value}
    (h : Builtin.mid.apply m.memory.clock.now m.scope.column [m.memory.store.get name, v, w] =
      .ok r) :
    value (.call column .mid [.variable k name, .literal column v, .literal column w]) m =
      (.ok r, m) := by
  have hcall : Builtin.mid.call m.memory.clock.now m.scope.column [m.memory.store.get name, v, w]
      m.memory.random = .ok (r, m.memory.random) := by
    have hdomain : Builtin.mid.checkDomain [m.memory.store.get name, v, w] = .ok () := by
      cases m.memory.store.get name <;> rfl
    change (Builtin.mid.checkDomain _ >>= fun _ => orFault _ >>= fun v =>
      pure (v, m.memory.random)) = _
    rw [hdomain, h]
    rfl
  have hscalar : evaluate (m.spare + 55 + 2) (.variable k name) m.scope m.memory =
      (.ok (m.memory.store.get name), m.memory) := by
    rw [evaluate, Eval.run_scalar, if_neg (by omega)]
  have hargs : evaluateAll (m.spare + 58) [.variable k name, .literal column v, .literal column w]
      m.scope m.memory = (.ok [m.memory.store.get name, v, w], m.memory) := by
    rw [evaluateAll_succ, List.mapM_cons, Eval.run_bind, hscalar]
    rfl
  have hroom : ¬m.spare + 58 < 5 := by omega
  have hbuiltin : Eval.builtin (m.spare + 58) .mid [m.memory.store.get name, v, w] m.scope
      m.memory = (.ok r, m.memory) := Observed.builtin_of_call hroom hroom rfl hcall
  have hevaluated : evaluate m.statementRoom
      (.call column .mid [.variable k name, .literal column v, .literal column w])
        m.scope m.memory =
        (.ok r, m.memory) := by
    rw [Machine.statementRoom_eq, evaluate, Eval.run_bind, hargs]
    exact hbuiltin
  rw [value_eq, run_ofEval, hevaluated]

/-- What the assignment comes to once its parts have values. -/
theorem overwrites_assignPart (hsound : m.memory.store.Sound) (hsettled : m.memory.store.Settled)
    (hsteady : .consults true ∉ subscripts t m) (hparts : Parts m t start length e o m₁)
    (hrandom : .consults false ∈ subscripts t m → m₁.memory.random = m.memory.random) :
    ∃ c, (locate t m).1 = .ok c ∧ m.memory.store.read c = .text o.text ∧
      Overwrites m t c o (assignPart t start length e m) := by
  obtain ⟨m₂, htarget, hafter⟩ := hparts.after_target
  obtain ⟨c, m₃, hlocate, hrest, -, hread, hready⟩ := value_target_eq_ok htarget
  refine ⟨c, congrArg Prod.fst hlocate, hread.symm, ?_⟩
  have hevaluates := hparts.evaluates
  have htakes := coerce_of_length_eq (hread ▸ hsettled.read hsound.regular c)
    (o.length_result hparts.positive)
  have hunmoved : Unmoved (subscripts t m) m.memory m₃.memory m₁.memory := by
    refine ⟨(hrest.after hafter.rewrites).mono (Set.empty_subset _), hevaluates.scope.calls, ?_⟩
    by_cases hconsults : .consults false ∈ subscripts t m
    · exact .inl (hrandom hconsults)
    · refine .inr fun varies => ?_
      cases varies with
      | true => exact hsteady
      | false => exact hconsults
  rw [assignPart_of_parts hparts]
  rcases assign_again hlocate hsteady hevaluates.scope hunmoved (hevaluates.sound hsound)
    (hready.rewrites hafter.rewrites) htakes with
    ⟨m', hrun, hrewrites, hstored, -⟩ | ⟨m', hrun, hrewrites, hcause⟩
  · have hrewrites := hevaluates.rewrites.after hrewrites
    rw [hrun]
    refine .overwritten (o.overwritten_result hparts.positive) hstored hrewrites
      (fun hnothing d => ?_) (fun now column v w hv hw => ?_) ?_
    · rw [o.result_eq_text hparts.positive hnothing, hread] at hstored
      by_cases hd : d = c
      · rw [hd, hstored]
      · exact hrewrites.read hd
    · rw [hstored]
      exact o.apply_mid hparts.positive now column hv hw
    · rintro k name rfl column v w hv hw
      have hc : c = .scalar (m.memory.store.resolve name) := (locate_eq_ok hlocate).1
      have hget : m'.memory.store.get name = .text o.result := by
        rw [← hstored, hc, ← Store.resolve_congr hrewrites.letters name]
        rfl
      refine run_value_mid ?_
      rw [hget]
      exact o.apply_mid hparts.positive _ _ hv hw
  · have hrewrites := hevaluates.rewrites.after hrewrites
    rw [hrun]
    exact .full hrewrites (hcause.imp_left fun hfull =>
      ⟨hfull, eq_empty_of_full hfull hrewrites hread.symm⟩)

/-- **An assignment to MID$ overwrites in place.** Whenever it fails, no cell differs. If evaluating
the subscripts of the target draws no random number and does not look at the clock, then for every
text of the target, place, replacement and length that the parts of the assignment stand for, the
cell that the target designates keeps the length of its text; as many characters from that place on
as the replacement, the length and the text itself have are the first ones of the replacement, and
MID$ gives them back. All other characters and cells stay, and all of them if the place is behind
the end, the replacement is empty or the length is zero. Only when there is no room for a variable
that was never set, or for a call that the subscripts need, the assignment is refused. Where the
subscripts repeat the last random number, the other parts must not draw one. -/
theorem assignPart_overwrites {settings : Settings} {s : Session} (hs : Session.Reached settings s)
    (hm : m.memory.store = s.machine.memory.store) (column : Nat) (t : Target) (start : Expr)
    (length : Option Expr) (e : Expr) :
    (∀ h m', command column (.assignPart t start length e) m = (.error h, m') →
      m.memory.store.Rewrites ∅ m'.memory.store) ∧
    (.consults true ∉ subscripts t m → ∀ o m₁, Parts m t start length e o m₁ →
      (.consults false ∈ subscripts t m → m₁.memory.random = m.memory.random) →
      ∃ c, (locate t m).1 = .ok c ∧ m.memory.store.read c = .text o.text ∧
        Overwrites m t c o (command column (.assignPart t start length e) m)) := by
  have hsound := hm ▸ hs.sound
  exact ⟨fun _ _ => rewrites_of_fails hsound, fun hsteady _ _ hparts =>
    overwrites_assignPart hsound (hm ▸ hs.settled) hsteady hparts⟩

/-- A string in an array, and a number in a variable. -/
def greeting : Machine := (ran default "10 A$(2)=\"HELLO\":I=2" 2).machine

/-- The element whose subscript is that number. -/
def greetingElement : Target := .element 6 "A$" [.variable 9 "I"]

/-- The place and the length, which are both two. -/
def literalTwo : Expr := .literal 12 (.single 2.0)

/-- Overwrites part of the element. -/
def greetingPart : Command :=
  .assignPart greetingElement literalTwo (some literalTwo) (.literal 18 (.text "XYZ"))

theorem assignPart_overwrites_greeting :
    (command 1 greetingPart greeting).1 = .ok () ∧
    ∃ s, (command 1 greetingPart greeting).2.memory.store.read (.element "A$" [2]) = .text s ∧
      Overwritten "HELLO".toList 2 2 "XYZ".toList s.toList := by
  have hfacts : (∀ k < 2, (ran default "10 A$(2)=\"HELLO\":I=2" k).phase = .running) ∧
      (command 1 greetingPart greeting).1 = .ok () ∧
      (locate greetingElement greeting).1 = .ok (.element "A$" [2]) ∧
      (textOf greetingElement.toExpr greeting).1 = .ok "HELLO" ∧
      (Value.single 2.0).count = .ok 2 ∧
      .consults true ∉ subscripts greetingElement greeting ∧
      .consults false ∉ subscripts greetingElement greeting := by
    decide +kernel
  obtain ⟨hrunning, hok, hlocate, htext, htwo, hsteady, hunused⟩ := hfacts
  have hstart : ∀ m, countOf literalTwo m = (.ok 2, m) := by
    intro m
    rw [countOf, run_bind, literalTwo, run_value_literal]
    simp only
    rw [htwo]
    rfl
  have hreplacement : ∀ m, textOf (.literal 18 (.text "XYZ")) m = (.ok "XYZ", m) := by
    intro m
    rw [textOf, run_bind, run_value_literal]
    rfl
  have hlength : limitOf (some literalTwo) (textOf greetingElement.toExpr greeting).2 =
      (.ok (some 2), (textOf greetingElement.toExpr greeting).2) := by
    rw [limitOf, run_bind, hstart]
    rfl
  have hparts : Parts greeting greetingElement literalTwo (some literalTwo)
    (.literal 18 (.text "XYZ"))
      ⟨"HELLO", 2, "XYZ", some 2⟩ (textOf greetingElement.toExpr greeting).2 :=
    ⟨by decide, _, _, _, Prod.ext htext rfl, hstart _, hreplacement _, hlength⟩
  obtain ⟨c, hc, -, hoverwrites⟩ :=
    (assignPart_overwrites (reached_ran hrunning) (m := greeting) rfl 1 greetingElement
    literalTwo (some literalTwo) (.literal 18 (.text "XYZ"))).2 hsteady _ _ hparts
      fun hmem => absurd hmem hunused
  obtain rfl := Except.ok.inj (hlocate.symm.trans hc)
  refine ⟨hok, ?_⟩
  change Overwrites _ _ _ _ (command 1 greetingPart greeting) at hoverwrites
  rcases hrun : command 1 greetingPart greeting with ⟨r, m'⟩
  rw [hrun] at hok hoverwrites
  cases hoverwrites with
  | full => cases hok
  | overwritten text read _ _ _ _ => exact ⟨_, read, text⟩

end Exec

end LineBasic
