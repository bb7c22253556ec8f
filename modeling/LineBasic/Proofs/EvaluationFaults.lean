import Mathlib
import LineBasic.Proofs.EvaluationFrame

/-!
# How evaluation fails

Evaluating an expression gives a value or an error that can be shown. There is a third way: a
function or a power of a number that is out of its range crashes, and so does an array that the host
cannot make. Evaluation has no other way to end: it is never interrupted, and the errors of loops,
subroutines and DATA are not among its own.

* `Avoids`: a result is not a failure of a certain sort.
* `ErrorKind.control`: a break, and the errors of loops, subroutines and DATA.
* `Crash.evaluation`, `Fault.IsForeign`: the crashes that evaluation has, and the faults that it has
  not.
* `evaluate_native`: evaluation has none of these.
* `Exec.value_leaves_scalars`: the main result, how evaluation ends and what it leaves alone.
-/

namespace LineBasic

/-- The error says that the program was interrupted. -/
def Error.IsBreak (e : Error) : Prop := e.kind = .interrupted

/-- The errors of control: the program was interrupted, a loop or a subroutine has no beginning or
no end, or there is no DATA left. -/
def ErrorKind.control : List ErrorKind :=
  [interrupted, forWithoutNext, nextWithoutFor, whileWithoutWend, wendWithoutWhile,
    returnWithoutGosub, outOfData]

/-- The error is one of control. -/
def Error.IsControl (e : Error) : Prop := e.kind ∈ ErrorKind.control

theorem Error.IsBreak.isControl {e : Error} (h : e.IsBreak) : e.IsControl := by
  unfold IsControl
  rw [h]
  decide

/-- The crashes of evaluation: of a number that is out of range (a random seed, an integer part, or
the argument of a function), and of an array that the host cannot count or has no memory for. -/
def Crash.evaluation : List Crash :=
  [seedRange, infiniteInteger, noInteger, outsideDomain, arrayRange, arrayMemory]

/-- The fault is none of evaluation: an error of control, or another crash. -/
def Fault.IsForeign : Fault → Prop
  | .error e => e.IsControl
  | .crash c => c ∉ Crash.evaluation

/-! ## Rules -/

/-- The result is not a failure of the given sort. -/
def Avoids {ε α : Type} (bad : ε → Prop) (x : Except ε α) : Prop := ∀ e, x = .error e → ¬bad e

section Rules

variable {ε α β : Type} {bad : ε → Prop}

theorem avoids_ok (a : α) : Avoids bad (.ok a) := nofun

theorem avoids_pure (a : α) : Avoids bad (pure a : Except ε α) := nofun

theorem Avoids.bind {x : Except ε α} {f : α → Except ε β} (hx : Avoids bad x)
    (hf : ∀ a, Avoids bad (f a)) :
    Avoids bad (x >>= f) := by
  cases x with
  | error e => exact fun e' h => hx e' (by cases h; rfl)
  | ok a => exact hf a

theorem Avoids.map {x : Except ε α} (hx : Avoids bad x) (f : α → β) : Avoids bad (x.map f) := by
  cases x with
  | error e => exact fun e' h => hx e' (by cases h; rfl)
  | ok a => exact avoids_ok _

/-- A failure is passed on. -/
theorem Avoids.error {x : Except ε α} {e : ε} (hx : Avoids bad x) (he : x = .error e) :
    Avoids bad (.error e : Except ε β) := by
  intro e' he'
  obtain rfl := Except.error.inj he'
  exact hx e he

theorem avoids_mapM {f : α → Except ε β} (hf : ∀ a, Avoids bad (f a)) (as : List α) :
    Avoids bad (as.mapM f) := by
  induction as with
  | nil => exact avoids_pure _
  | cons a as ih =>
    rw [List.mapM_cons]
    exact (hf a).bind fun b => ih.bind fun bs => avoids_pure _

theorem avoids_fail {kind : ErrorKind} (h : kind ∉ ErrorKind.control) :
    Avoids Error.IsControl (fail kind : Except Error α) := by
  intro e he
  obtain rfl := Except.error.inj he
  exact h

theorem Avoids.orFault {x : Except Error α} (hx : Avoids Error.IsControl x) :
    Avoids Fault.IsForeign (orFault x) := by
  cases x with
  | error e => exact fun f h => Except.error.inj h ▸ hx e rfl
  | ok a => exact avoids_ok a

theorem avoids_crash {c : Crash} (h : c ∈ Crash.evaluation) :
    Avoids Fault.IsForeign (.error (.crash c) : Except Fault α) := by
  intro f hf
  obtain rfl := Except.error.inj hf
  exact fun hforeign => hforeign h

end Rules

/-! ## Values -/

theorem avoids_toSingle (x : Float) : Avoids Error.IsControl (toSingle x) := by
  unfold toSingle
  split
  · split <;> exact avoids_fail (by decide)
  · split
    · exact avoids_fail (by decide)
    · exact avoids_ok _

theorem avoids_toDouble (x : Float) : Avoids Error.IsControl (toDouble x) := by
  unfold toDouble
  split
  · exact avoids_fail (by decide)
  · split
    · exact avoids_fail (by decide)
    · exact avoids_ok _

theorem avoids_toInteger (x : Float) : Avoids Error.IsControl (toInteger x) := by
  unfold toInteger
  split
  · exact avoids_fail (by decide)
  · split
    · exact avoids_fail (by decide)
    · exact avoids_ok _

theorem Precision.avoids_fit (p : Precision) (x : Float) : Avoids Error.IsControl (p.fit x) := by
  cases p with
  | single => exact (avoids_toSingle x).map _
  | double => exact (avoids_toDouble x).map _

namespace Value

theorem avoids_number (v : Value) : Avoids Error.IsControl v.number := by
  cases v with
  | text s => exact avoids_fail (by decide)
  | single x => exact avoids_ok x
  | double x => exact avoids_ok x

theorem avoids_string (v : Value) : Avoids Error.IsControl v.string := by
  cases v with
  | text s => exact avoids_ok s
  | single x => exact avoids_fail (by decide)
  | double x => exact avoids_fail (by decide)

theorem avoids_integer (v : Value) : Avoids Error.IsControl v.integer :=
  v.avoids_number.bind avoids_toInteger

theorem avoids_count (v : Value) : Avoids Error.IsControl v.count := by
  refine v.avoids_number.bind fun x => (avoids_toInteger x).bind fun n => ?_
  split
  · exact avoids_fail (by decide)
  · exact avoids_pure _

end Value

theorem avoids_checkString (s : String) : Avoids Error.IsControl (checkString s) := by
  unfold checkString
  split
  · exact avoids_fail (by decide)
  · exact avoids_ok s

theorem Kind.avoids_coerce (k : Kind) (v : Value) : Avoids Error.IsControl (k.coerce v) := by
  cases k with
  | text => exact v.avoids_string.bind fun s => (avoids_checkString s).bind fun _ => avoids_pure _
  | integer => exact v.avoids_integer.bind fun _ => avoids_pure _
  | double => exact v.avoids_number.bind fun x => (avoids_toDouble x).bind fun _ => avoids_pure _
  | single => exact v.avoids_number.bind fun x => (avoids_toSingle x).bind fun _ => avoids_pure _

theorem avoids_readNumber (p : Precision) (s : String) :
    Avoids Error.IsControl (readNumber p s) := by
  unfold readNumber
  split
  · exact avoids_ok _
  · exact (p.avoids_fit _).map _

/-! ## Operators and functions -/

theorem evaluation_of_integerCrash? {x : Float} {c : Crash} (h : integerCrash? x = some c) :
    c ∈ Crash.evaluation := by
  unfold integerCrash? at h
  split at h
  · obtain rfl := Option.some.inj h
    decide
  · split at h
    · obtain rfl := Option.some.inj h
      decide
    · cases h

theorem Builtin.evaluation_of_crashAt? {f : Builtin} {x : Float} {c : Crash}
    (h : f.crashAt? x = some c) :
    c ∈ Crash.evaluation := by
  cases f with
  | int | fix => exact evaluation_of_integerCrash? h
  | sin | cos | tan =>
    simp only [crashAt?] at h
    split at h
    · obtain rfl := Option.some.inj h
      decide
    · cases h
  | _ => cases h

theorem avoids_checkPower (base exponent : Float) :
    Avoids Fault.IsForeign (checkPower base exponent) := by
  have hwhole : Avoids Fault.IsForeign (isWholeNumber exponent) := by
    unfold isWholeNumber
    split
    · rename_i hcrash
      exact avoids_crash (evaluation_of_integerCrash? hcrash)
    · exact avoids_ok _
  unfold checkPower
  split
  · refine hwhole.bind fun whole => ?_
    split
    · exact avoids_pure _
    · exact Avoids.orFault (avoids_fail (by decide))
  · split
    · exact Avoids.orFault (avoids_fail (by decide))
    · exact avoids_pure _

theorem Arithmetic.avoids_apply (op : Arithmetic) (p : Precision) (a b : Float) :
    Avoids Fault.IsForeign (op.apply p a b) := by
  cases op with
  | add | sub | mul => exact (p.avoids_fit _).orFault
  | div =>
    refine Avoids.orFault ?_
    split
    · exact avoids_fail (by decide)
    · exact p.avoids_fit _
  | pow => exact (avoids_checkPower a b).bind fun _ => (p.avoids_fit _).orFault

theorem Arithmetic.avoids_applyValues (op : Arithmetic) (a b : Value) :
    Avoids Fault.IsForeign (op.applyValues a b) := by
  unfold Arithmetic.applyValues
  split
  · refine Avoids.orFault ?_
    split
    · exact (avoids_checkString _).map _
    · exact avoids_fail (by decide)
  · exact (Value.avoids_number _).orFault.bind fun x =>
      (Value.avoids_number _).orFault.bind fun y =>
      op.avoids_apply _ x y

theorem Bitwise.avoids_apply (op : Bitwise) (a b : Int) :
    Avoids Error.IsControl (op.apply a b) := by
  cases op with
  | and | or | xor => exact avoids_ok _
  | quotient | remainder =>
    unfold Bitwise.apply
    simp only
    split
    · exact avoids_fail (by decide)
    · exact avoids_ok _

theorem Relation.avoids_apply (r : Relation) (a b : Value) :
    Avoids Error.IsControl (r.apply a b) := by
  unfold Relation.apply
  split
  · exact avoids_ok _
  · exact avoids_fail (by decide)
  · exact avoids_fail (by decide)
  · exact (Value.avoids_number _).bind fun _ => (Value.avoids_number _).bind fun _ => avoids_pure _

theorem BinaryOp.avoids_apply (op : BinaryOp) (a b : Value) :
    Avoids Fault.IsForeign (op.apply a b) := by
  cases op with
  | relation r => exact (r.avoids_apply a b).orFault
  | arithmetic o => exact o.avoids_applyValues a b
  | bitwise o =>
    refine Avoids.orFault (a.avoids_number.bind fun x => b.avoids_number.bind fun y => ?_)
    exact (avoids_toInteger x).bind fun i => (avoids_toInteger y).bind fun j =>
      (o.avoids_apply i j).bind fun _ =>
      avoids_pure _

theorem UnaryOp.avoids_apply (op : UnaryOp) (v : Value) : Avoids Error.IsControl (op.apply v) := by
  refine v.avoids_number.bind fun x => ?_
  cases op with
  | minus => exact v.precision.avoids_fit _
  | plus => exact avoids_pure _
  | not => exact (avoids_toInteger x).bind fun _ => avoids_pure _

namespace Builtin

theorem avoids_leadingNumber (cs : List Char) : Avoids Error.IsControl (leadingNumber cs) := by
  induction cs with
  | nil => exact avoids_ok _
  | cons c cs ih =>
    refine (avoids_readNumber _ _).bind fun v => ?_
    cases v with
    | none => exact ih
    | some v => exact avoids_pure v

theorem avoids_fillChar (v : Value) : Avoids Error.IsControl (fillChar v) := by
  unfold fillChar
  split
  · split
    · exact avoids_ok _
    · exact avoids_fail (by decide)
  · exact (Value.avoids_count _).bind fun _ => avoids_pure _

theorem avoids_real (f : Float → Float) (v : Value) : Avoids Error.IsControl (real f v) :=
  v.avoids_number.bind fun _ => Precision.avoids_fit _ _

theorem avoids_apply (now : Instant) (column : Nat) (f : Builtin) (args : List Value) :
    Avoids Error.IsControl (f.apply now column args) := by
  -- every function is a chain of conversions and checks; only the head of the chain is looked at,
  -- so nothing is unfolded
  unfold apply
  split
  all_goals
    repeat' first
      | with_reducible exact avoids_ok _
      | with_reducible exact avoids_pure _
      | with_reducible refine avoids_fail ?_
      | with_reducible exact Value.avoids_number _
      | with_reducible exact Value.avoids_string _
      | with_reducible exact Value.avoids_integer _
      | with_reducible exact Value.avoids_count _
      | with_reducible exact Precision.avoids_fit _ _
      | with_reducible exact avoids_leadingNumber _
      | with_reducible exact avoids_fillChar _
      | with_reducible exact avoids_real _ _
      | with_reducible refine Avoids.bind ?_ fun _ => ?_
      | decide
      | split

theorem avoids_drawArgument (args : List Value) : Avoids Error.IsControl (drawArgument args) := by
  cases args with
  | nil => exact avoids_ok _
  | cons v args => exact v.avoids_number

theorem avoids_checkDomain (f : Builtin) (args : List Value) :
    Avoids Fault.IsForeign (f.checkDomain args) := by
  unfold checkDomain
  split
  · split
    · rename_i hcrash
      exact avoids_crash (evaluation_of_crashAt? hcrash)
    · exact avoids_ok _
  · split
    · rename_i hcrash
      exact avoids_crash (evaluation_of_crashAt? hcrash)
    · exact avoids_ok _
  · exact avoids_ok _

theorem avoids_draw (r : Random) (x : Float) : Avoids Fault.IsForeign (r.draw x) := by
  have hseed : Avoids Fault.IsForeign (Random.ofSeed x) := by
    unfold Random.ofSeed
    split
    · exact avoids_ok _
    · split
      · exact avoids_crash (by decide)
      · exact avoids_ok _
  have hafter : Avoids Fault.IsForeign (r.after x) := by
    unfold Random.after
    simp only
    split
    · exact hseed.bind fun _ => avoids_pure _
    · exact (avoids_pure r).bind fun _ => avoids_pure _
  have hfraction : ∀ r : Random, Avoids Error.IsControl r.fraction := fun r =>
    (avoids_toSingle _).bind fun _ => (avoids_toSingle _).bind fun _ =>
      (avoids_toSingle _).bind fun _ =>
      (avoids_toSingle _).bind fun _ => (avoids_toSingle _).bind fun _ => avoids_toSingle _
  exact hafter.bind fun r => (hfraction r).orFault.bind fun _ => avoids_pure _

theorem avoids_call (now : Instant) (column : Nat) (f : Builtin) (args : List Value) (r : Random) :
    Avoids Fault.IsForeign (f.call now column args r) := by
  unfold call
  split
  · exact Avoids.orFault (avoids_fail (by decide))
  · split
    · exact (avoids_drawArgument args).orFault.bind fun x => (avoids_draw r x).bind fun _ =>
        avoids_pure _
    · refine (avoids_checkDomain f args).bind fun _ => ?_
      exact (avoids_apply now column f args).orFault.bind fun _ => avoids_pure _

end Builtin

/-! ## Variables -/

namespace Store

theorem avoids_reserve (s : Store) (count : Nat) : Avoids Error.IsControl (s.reserve count) := by
  unfold reserve
  split
  · exact avoids_fail (by decide)
  · exact avoids_ok _

theorem avoids_set (s : Store) (name : String) (v : Value) :
    Avoids Error.IsControl (s.set name v) := by
  refine (Kind.avoids_coerce _ v).bind fun w => ?_
  simp only
  split
  · exact avoids_pure _
  · exact (s.avoids_reserve 1).bind fun _ => avoids_pure _

theorem avoids_readIndex (v : Value) : Avoids Error.IsControl (readIndex v) := by
  refine v.avoids_integer.bind fun n => ?_
  split
  · exact avoids_fail (by decide)
  · exact avoids_pure _

theorem avoids_unmade {α : Type} {f : Fault} (h : f.Unmade) :
    Avoids Fault.IsForeign (.error f : Except Fault α) := by
  rcases h with rfl | rfl | rfl
  · exact Avoids.orFault (avoids_fail (by decide))
  · exact avoids_crash (by decide)
  · exact avoids_crash (by decide)

theorem avoids_addGrid (cells room : Nat) (s : Store) (key : String) (bounds : List Nat) :
    Avoids Fault.IsForeign (s.addGrid cells room key bounds).1 := by
  unfold addGrid
  split
  · exact Avoids.orFault (avoids_fail (by decide))
  · cases hreserve : s.reserve (Grid.sizeOf bounds) with
    | error e => exact ((s.avoids_reserve _).error hreserve).orFault
    | ok s₁ =>
      rcases makeGrid_cases cells room key bounds with hmake | ⟨f, hunmade, hmake⟩
      · simp only [hmake]
        exact avoids_ok _
      · simp only [hmake]
        exact avoids_unmade hunmade

theorem avoids_reach (cells room : Nat) (s : Store) (name : String) (dims : Nat) :
    Avoids Fault.IsForeign (s.reach cells room name dims).1 := by
  unfold reach
  simp only
  split
  · exact avoids_ok _
  · exact s.avoids_addGrid _ _ _ _

theorem avoids_getElement (cells room : Nat) (s : Store) (name : String) (indices : List Value) :
    Avoids Fault.IsForeign (s.getElement cells room name indices).1 := by
  unfold getElement
  cases his : indices.mapM readIndex with
  | error e => exact ((avoids_mapM avoids_readIndex indices).error his).orFault
  | ok is =>
    simp only
    have havoids := s.avoids_reach cells (room - 1) name is.length
    cases hreach : s.reach cells (room - 1) name is.length with
    | mk r s₁ =>
      rw [hreach] at havoids
      cases r with
      | error f => exact havoids.error rfl
      | ok g =>
        simp only
        split
        · exact Avoids.orFault (avoids_fail (by decide))
        · exact avoids_ok _

theorem avoids_setElement (cells room : Nat) (s : Store) (name : String) (indices : List Value)
    (v : Value) : Avoids Fault.IsForeign (s.setElement cells room name indices v).1 := by
  unfold setElement
  cases his : indices.mapM readIndex with
  | error e => exact ((avoids_mapM avoids_readIndex indices).error his).orFault
  | ok is =>
    simp only
    have havoids := s.avoids_reach cells (room - 1) name is.length
    cases hreach : s.reach cells (room - 1) name is.length with
    | mk r s₁ =>
      rw [hreach] at havoids
      cases r with
      | error f => exact havoids.error rfl
      | ok g =>
        simp only
        cases hcoerce : (Kind.ofName g.key).coerce v with
        | error e => exact ((Kind.avoids_coerce _ v).error hcoerce).orFault
        | ok w =>
          simp only
          split
          · exact Avoids.orFault (avoids_fail (by decide))
          · exact avoids_ok _

end Store

/-! ## Evaluation -/

namespace Eval

variable {α β : Type} {scope : Scope}

/-- The evaluation has no foreign fault. -/
def Native (scope : Scope) (x : Eval α) : Prop := ∀ m, Avoids Fault.IsForeign (x scope m).1

theorem Native.bind {x : Eval α} {f : α → Eval β} (hx : Native scope x)
    (hf : ∀ a, Native scope (f a)) :
    Native scope (x >>= f) := by
  intro m
  rw [run_bind]
  cases hrun : x scope m with
  | mk r m' =>
    cases r with
    | error e => exact (hx m).error (by rw [hrun])
    | ok a => exact hf a m'

theorem native_pure (a : α) : Native scope (pure a : Eval α) := fun _ => avoids_ok a

theorem native_refuse {kind : ErrorKind} (h : kind ∉ ErrorKind.control) :
    Native scope (refuse kind : Eval α) :=
  fun _ => Avoids.orFault (avoids_fail h)

theorem native_lift {x : Except Error α} (h : Avoids Error.IsControl x) :
    Native scope (lift x) := by
  intro m
  cases x with
  | error e => exact h.orFault
  | ok a => exact avoids_ok a

theorem native_liftFault {x : Except Fault α} (h : Avoids Fault.IsForeign x) :
    Native scope (liftFault x) := by
  intro m
  cases x with
  | error e => exact h
  | ok a => exact avoids_ok a

theorem native_mapM {f : α → Eval β} (h : ∀ a, Native scope (f a)) (as : List α) :
    Native scope (as.mapM f) := by
  induction as with
  | nil => exact native_pure _
  | cons a as ih =>
    rw [List.mapM_cons]
    exact (h a).bind fun b => ih.bind fun bs => native_pure _

theorem native_within (calls room : Nat) : Native scope (within calls room) := by
  unfold within
  split
  · exact native_refuse (by decide)
  · exact native_pure _

theorem native_scalar (room : Nat) (name : String) : Native scope (scalar room name) :=
  (native_within _ _).bind fun _ _ => avoids_ok _

theorem native_element (room : Nat) (name : String) (indices : List Value) :
    Native scope (element room name indices) := by
  refine (native_within _ _).bind fun _ m => ?_
  exact native_liftFault (m.store.avoids_getElement scope.cells room name indices) _

theorem native_builtin (room : Nat) (f : Builtin) (args : List Value) :
    Native scope (builtin room f args) := by
  intro m
  have hdeep : Avoids Fault.IsForeign (.error (.error (.of .stackOverflow)) : Except Fault Value) :=
    Avoids.orFault (avoids_fail (by decide))
  have hcall := Builtin.avoids_call m.clock.now scope.column f args m.random
  rw [run_builtin]
  split
  · exact hdeep
  · cases hrun : f.call m.clock.now scope.column args m.random with
    | error e => exact hcall.error hrun
    | ok r =>
      simp only
      split
      · exact hdeep
      · exact avoids_ok r.1

theorem native_checkStack (room : Nat) : Native scope (checkStack room) := by
  refine (native_within _ _).bind fun _ m => ?_
  change Avoids Fault.IsForeign ((if scope.stackLimit ≤ scope.frames + m.calls then
    refuse .stackOverflow else return () : Eval Unit) scope m).1
  split
  · exact native_refuse (by decide) m
  · exact avoids_ok _

theorem native_bindParams (room : Nat) (args : List (String × Value)) :
    Native scope (bindParams room args) := by
  induction args with
  | nil => exact native_pure _
  | cons a args ih =>
    intro m
    obtain ⟨name, v⟩ := a
    rw [run_bindParams_cons]
    split
    · exact Avoids.orFault (avoids_fail (by decide))
    · cases hset : m.store.set name v with
      | error e => exact ((m.store.avoids_set name v).error hset).orFault
      | ok s => exact ih { m with store := s }

theorem native_inCall (room : Nat) {params : List String} {args : List Value} {body : Eval Value}
    (h : Native scope body) : Native scope (inCall room params args body) := by
  refine (native_within _ _).bind fun _ m => ?_
  exact (native_bindParams room (params.zip args)).bind (fun _ => h) { m with calls := m.calls + 1 }

theorem native_coerced (room : Nat) (name : String) (v : Value) :
    Native scope (coerced room name v) := by
  intro m
  rw [run_coerced]
  split
  · exact Avoids.orFault (avoids_fail (by decide))
  · exact native_lift (Kind.avoids_coerce _ v) m

theorem native_evaluateAll {room : Nat} (h : ∀ k < room, ∀ e, Native scope (evaluate k e))
    (es : List Expr) : Native scope (evaluateAll room es) := by
  cases room with
  | zero => exact native_refuse (by decide)
  | succ room =>
    rw [evaluateAll_succ]
    exact native_mapM (h room (Nat.lt_succ_self room)) es

end Eval

/-- **Evaluation has no foreign fault.** -/
theorem evaluate_native (room : Nat) (e : Expr) (scope : Scope) :
    Eval.Native scope (evaluate room e) := by
  induction room using Nat.strong_induction_on generalizing e with
  | _ room ih =>
    rcases room with _ | _ | room
    · exact Eval.native_refuse (by decide)
    · exact Eval.native_refuse (by decide)
    · have hpart : ∀ e, Eval.Native scope (evaluate room e) := ih room (by omega)
      have hall := Eval.native_evaluateAll fun k (hk : k < room) => ih k (by omega)
      cases e with
      | literal column v => exact Eval.native_pure v
      | «variable» column name => exact Eval.native_scalar room name
      | element column name indices =>
        exact (hall indices).bind fun vs => Eval.native_element room name vs
      | unary column op e' =>
        refine (hpart e').bind fun v => (Eval.native_within _ _).bind fun _ => ?_
        exact Eval.native_lift (op.avoids_apply v)
      | binary column op left right =>
        refine (hpart left).bind fun a => (hpart right).bind fun b => ?_
        exact (Eval.native_within _ _).bind fun _ => Eval.native_liftFault (op.avoids_apply a b)
      | call column f args => exact (hall args).bind fun vs => Eval.native_builtin room f vs
      | userCall column name args =>
        intro m
        rw [evaluate_userCall]
        cases scope.functions.get? name with
        | none => exact Eval.native_refuse (by decide) m
        | some f =>
          simp only
          split
          · exact Eval.native_refuse (by decide) m
          · refine Eval.Native.bind (hall args) (fun vs => ?_) m
            refine (Eval.native_checkStack room).bind fun _ => ?_
            exact (Eval.native_inCall room (hpart f.body)).bind fun v =>
              Eval.native_coerced room name v

/-- Neither has evaluating expressions one after the other. -/
theorem evaluateAll_native (room : Nat) (es : List Expr) (scope : Scope) :
    Eval.Native scope (evaluateAll room es) :=
  Eval.native_evaluateAll (fun k _ e => evaluate_native k e scope) es

/-! ## The main result -/

/-- What evaluation ends with: a value, an error that can be shown, or one of its crashes. -/
theorem Exec.value_ends (e : Expr) (m : Machine) : (∃ v, (value e m).1 = .ok v) ∨
    (∃ error, (value e m).1 = .error (.fault (.error error))) ∨
    ∃ c ∈ Crash.evaluation, (value e m).1 = .error (.fault (.crash c)) := by
  have hnative := evaluate_native m.statementRoom e m.scope m.memory
  rw [value_eq, run_ofEval]
  simp only
  cases hrun : (evaluate m.statementRoom e m.scope m.memory).1 with
  | ok v => exact .inl ⟨v, rfl⟩
  | error f =>
    cases f with
    | error error => exact .inr (.inl ⟨error, rfl⟩)
    | crash c => exact .inr (.inr ⟨c, not_not.mp (hnative _ hrun), rfl⟩)

/-- **Evaluating an expression has no effect on scalars, however it ends.** It ends with a value,
with an error that can be shown, or with the crash of a number that is out of range or of an array
that the host cannot make. In each case nothing of the machine has changed but its memory, in which
scalars, declared kinds and open calls are the same. The arrays that were there are the same, and
those that were made have the implied bounds of an element that the expression refers to, and take
just their memory. Only when the evaluation ends since the host could not make one more such array,
for want of room for its calls or for so many cells, the memory of this one is taken too. -/
theorem Exec.value_leaves_scalars (e : Expr) (m : Machine) :
    ((∃ v, (value e m).1 = .ok v) ∨ (∃ error, (value e m).1 = .error (.fault (.error error))) ∨
      ∃ c ∈ Crash.evaluation, (value e m).1 = .error (.fault (.crash c))) ∧
    ∃ memory, (value e m).2 = { m with memory } ∧ memory.calls = m.memory.calls ∧
      memory.store.scalars = m.memory.store.scalars ∧
      memory.store.letters = m.memory.store.letters ∧
      memory.store.limit = m.memory.store.limit ∧
      ∃ (made : List (String × Nat)) (lost : Option (String × Nat)),
        memory.store.arrays.entries = m.memory.store.arrays.entries ++ made.map Store.implied ∧
        (∀ d ∈ made, m.memory.store.arrays.get? d.1 = none ∧
          ∃ name, e.Refers m.functions name d.2 ∧ m.memory.store.resolve name = d.1) ∧
        (made.map Prod.fst).Nodup ∧
        memory.store.used = m.memory.store.used + Store.impliedSize made +
          Store.impliedSize lost.toList ∧
        ∀ d ∈ lost, (∃ f : Fault, f.Unmade ∧ (value e m).1 = .error (.fault f)) ∧
          memory.store.arrays.get? d.1 = none ∧
          ∃ name, e.Refers m.functions name d.2 ∧ m.memory.store.resolve name = d.1 := by
  obtain ⟨memory, lost, hrun, ⟨⟨hlimit, -, hletters, hvaries,
    ⟨made, harrays, hmade, hnodup, hused⟩, hunmade⟩, hcalls⟩, hlost⟩ := value_frames e m
  have hscalars : memory.store.scalars = m.memory.store.scalars := congrArg Table.mk hvaries.eq
  refine ⟨value_ends e m, memory, hrun, hcalls, hscalars, hletters, hlimit, made, lost, harrays,
    hmade, hnodup, ?_, fun d hd => ⟨?_, hunmade d hd⟩⟩
  · rw [hused, hscalars, sub_self, add_zero]
  · obtain ⟨f, hf, hkind⟩ := hlost (Option.isSome_of_mem hd)
    exact ⟨f, hkind, hf⟩

/-- RND of a negative number has the faults of its seed. -/
theorem evaluate_rnd_minus {room : Nat} {x y : Float} {f : Fault} {scope : Scope} {m : Memory}
    (hminus : toDouble (-x) = .ok y) (hdraw : m.random.draw y = .error f) :
    evaluate (room + 9) (.call 7 .rnd [.unary 11 .minus (.literal 12 (.double x))]) scope m =
      (.error f, m) := by
  have harg : evaluate (room + 6) (.unary 11 .minus (.literal 12 (.double x))) scope m =
      (.ok (.double y), m) := by
    rw [evaluate, Eval.run_bind, evaluate]
    change (Eval.within 2 (room + 4) >>= fun _ =>
      Eval.lift ((toDouble (-x)).map Value.double) : Eval Value) scope m = _
    rw [Eval.run_within_bind, if_neg (by omega), hminus]
    rfl
  have hcall : Builtin.rnd.call m.clock.now scope.column [.double y] m.random = .error f := by
    change (m.random.draw y >>= _) = _
    rw [hdraw]
    rfl
  have hfirst : ¬room + 7 < Builtin.rnd.firstCalls := by
    change ¬room + 7 < 3
    omega
  have hrnd : Eval.builtin (room + 7) .rnd [.double y] scope m = (.error f, m) := by
    rw [Eval.run_builtin, if_neg hfirst, hcall]
  rw [evaluate, evaluateAll_succ, List.mapM_cons, Eval.run_bind, Eval.run_bind, harg]
  exact hrnd

/-- There are expressions of the third sort: RND(-1D39) crashes. -/
theorem Exec.value_rnd_crashes :
    (value (.call 7 .rnd [.unary 11 .minus (.literal 12 (.double 1e39))]) (.new default)).1 =
      .error (.fault (.crash .seedRange)) := by
  have hminus : toDouble (-1e39) = .ok (-1e39) := by decide +kernel
  have hnegative : (-1e39 : Float) < 0.0 := by decide +kernel
  have hseed : Random.ofSeed (-1e39) = .error (.crash .seedRange) := by decide +kernel
  have hdraw : ∀ r : Random, r.draw (-1e39) = .error (.crash .seedRange) := by
    intro r
    unfold Random.draw Random.after
    simp only [hnegative, if_true, hseed]
    rfl
  have hroom : (Machine.new default).statementRoom = 977 + 9 := rfl
  rw [value_eq, run_ofEval, hroom, evaluate_rnd_minus hminus (hdraw _)]

end LineBasic
