import Mathlib
import LineBasic.Proofs.EvaluationFrame

/-!
# Evaluation as it goes on

`evaluate` says what comes of an expression. `observe` evaluates it in the same way and keeps a
record of what happens until then: the memories that evaluation passes through, the cells that it
reads, the calls of functions that it opens, and whether random numbers or the clock have a part in
its value. What a function reads from its own parameters is nobody else's business and is left out.

* `Moment`: what is recorded. `Observed`: an evaluation with its record.
* `observes_evaluate`, `observes_evaluateAll`: without the records, it is `evaluate`.
* `Observed.memories`: all memories that an evaluation passes through.
* `Upheld`, `upholds_observe`: what each change of the memory keeps holds in all of them.
-/

namespace LineBasic

/-- A scalar or an element of an array, under its key. -/
inductive Cell where
  | scalar (key : String)
  | element (key : String) (indices : List Nat)
  deriving DecidableEq, Repr

/-- The key of a cell. -/
def Cell.key : Cell → String
  | scalar key | element key _ => key

/-- What happens while expressions are evaluated. -/
inductive Moment where
  /-- the memory is this one now -/
  | passes (m : Memory)
  | reads (c : Cell)
  /-- RND, DATE$ or TIME$ is evaluated; it `varies` if a number is drawn or the clock looked at -/
  | consults (varies : Bool)
  /-- a function of the program is called -/
  | opens

namespace Moment

/-- The memory that is passed through. -/
def memory? : Moment → Option Memory
  | passes m => some m
  | _ => none

/-- A scalar with one of the keys is read. -/
def readsAny (keys : List String) : Moment → Bool
  | reads (.scalar key) => key ∈ keys
  | _ => false

/-- The cell that is read. -/
def cell? : Moment → Option Cell
  | reads c => some c
  | _ => none

/-- Random numbers or the clock are consulted, and whether the value varies with them. -/
def consulted? : Moment → Option Bool
  | consults varies => some varies
  | _ => none

/-- A record is searched for one kind of moment. -/
theorem mem_filterMap_iff {α : Type} {kind? : Moment → Option α} {kind : α → Moment}
    (h : ∀ e a, kind? e = some a ↔ e = kind a) {a : α} {seen : List Moment} :
    a ∈ seen.filterMap kind? ↔ kind a ∈ seen := by
  simp only [List.mem_filterMap, h, exists_eq_right]

theorem memory?_eq_some (e : Moment) (m : Memory) : e.memory? = some m ↔ e = passes m := by
  cases e <;> simp [memory?]

theorem cell?_eq_some (e : Moment) (c : Cell) : e.cell? = some c ↔ e = reads c := by
  cases e <;> simp [cell?]

theorem consulted?_eq_some (e : Moment) (varies : Bool) :
    e.consulted? = some varies ↔ e = consults varies := by
  cases e <;> simp [consulted?]

-- memories are not compared, so that a record can be searched
instance (c : Cell) (seen : List Moment) : Decidable (.reads c ∈ seen) :=
  decidable_of_iff _ (mem_filterMap_iff cell?_eq_some)

instance (varies : Bool) (seen : List Moment) : Decidable (.consults varies ∈ seen) :=
  decidable_of_iff _ (mem_filterMap_iff consulted?_eq_some)

end Moment

/-- Evaluation with a record of what happens. -/
def Observed (α : Type) : Type := Scope → Memory → (Except Fault α × Memory) × List Moment

namespace Observed

variable {α β : Type}

instance : Monad Observed where
  pure a := fun _ m => ((.ok a, m), [])
  bind x f := fun scope m =>
    match x scope m with
    | ((.ok a, m'), seen) => ((f a scope m').1, seen ++ (f a scope m').2)
    | ((.error e, m'), seen) => ((.error e, m'), seen)

/-- A step, with what is to be noted about the memories before and after it. -/
def step (notes : Memory → Memory → List Moment) (x : Eval α) : Observed α := fun scope m =>
  (x scope m, notes m (x scope m).2 ++ [.passes (x scope m).2])

/-- A step about which nothing else is to be noted. -/
def plain (x : Eval α) : Observed α := step (fun _ _ => []) x

/-- What evaluation reads. -/
def scope : Observed Scope := fun scope m => ((.ok scope, m), [])

/-- The value of a scalar. -/
def scalar (room : Nat) (name : String) : Observed Value :=
  step (fun m _ => [.reads (.scalar (m.store.resolve name))]) (Eval.scalar room name)

/-- The element that is read under subscripts. -/
def elementNotes (name : String) (vs : List Value) (m _after : Memory) : List Moment :=
  match vs.mapM Store.readIndex with
  | .ok is => [.reads (.element (m.store.resolve name) is)]
  | .error _ => []

/-- The value of an array element. -/
def element (room : Nat) (name : String) (vs : List Value) : Observed Value :=
  step (elementNotes name vs) (Eval.element room name vs)

/-- What a built-in function has to do with random numbers and the clock. -/
def builtinNotes (f : Builtin) (m m' : Memory) : List Moment :=
  if f = .rnd ∨ f.looksAtClock then [.consults (f.looksAtClock || decide (m'.random ≠ m.random))]
  else []

/-- The value of a built-in function. -/
def builtin (room : Nat) (f : Builtin) (args : List Value) : Observed Value :=
  step (builtinNotes f) (Eval.builtin room f args)

/-- One value after the other. -/
def each (f : Expr → Observed Value) : List Expr → Observed (List Value)
  | [] => pure []
  | e :: es => do
    let v ← f e
    let vs ← each f es
    return v :: vs

/-- Stores arguments in parameters. -/
def bindParams (room : Nat) : List (String × Value) → Observed Unit
  | [] => pure ()
  | arg :: args => do
    plain (Eval.bindParams room [arg])
    bindParams room args

/-- The body of a call, with arguments in the parameters. -/
def inside (room : Nat) (params : List String) (args : List Value) (body : Observed Value) :
    Observed Value := do
  bindParams room (params.zip args)
  body

/-- Evaluates the body of a function with arguments in its parameters: the call is opened, and when
it is closed the parameters get back their old values one by one. -/
def inCall (room : Nat) (params : List String) (args : List Value) (body : Observed Value) :
    Observed Value := fun scope m =>
  if room < (if params.isEmpty then 1 else 3) then
    ((.error (.error (.of .stackOverflow)), m), [])
  else
    let opened := { m with calls := m.calls + 1 }
    let ((result, m'), seen) := inside room params args body scope opened
    let stores := (params.map fun name => (name, m.store.snapshot name)).scanl
      (fun s e => s.restore e.1 e.2) m'.store
    ((result, { m' with
        calls := m'.calls - 1
        store := Eval.unbindParams (params.map fun name => (name, m.store.snapshot name))
          m'.store }),
      .opens :: .passes opened ::
        seen.filter (fun e => !e.readsAny (params.map m.store.resolve)) ++
        stores.map fun store => .passes { m' with calls := m'.calls - 1, store })

end Observed

open Observed in
mutual

/-- The value of an expression, as `evaluate` finds it. -/
def observe : Nat → Expr → Observed Value
  | 0, _ | 1, _ => plain (Eval.refuse .stackOverflow)
  | _ + 2, .literal _ v => pure v
  | room + 2, .variable _ name => scalar room name
  | room + 2, .element _ name indices => do
    let indices ← observeAll room indices
    element room name indices
  | room + 2, .unary _ op e => do
    let v ← observe room e
    plain do
      Eval.within op.calls room
      Eval.lift (op.apply v)
  | room + 2, .binary _ op left right => do
    let a ← observe room left
    let b ← observe room right
    plain do
      Eval.within op.calls room
      Eval.liftFault (op.apply a b)
  | room + 2, .call _ f args => do
    let args ← observeAll room args
    builtin room f args
  | room + 2, .userCall _ name args => do
    match (← scope).functions.get? name with
    | none => plain (Eval.refuse .undefinedFunction)
    | some f =>
      if args.length != f.params.length then plain (Eval.refuse .illegalQuantity)
      else
        let args ← observeAll room args
        plain (Eval.checkStack room)
        let result ← inCall room f.params args (observe room f.body)
        plain (Eval.coerced room name result)

/-- The values of expressions, as `evaluateAll` finds them. -/
def observeAll : Nat → List Expr → Observed (List Value)
  | 0, _ => plain (Eval.refuse .stackOverflow)
  | room + 1, es => each (observe room) es

end

open Observed in
/-- A call of a function of the program. -/
theorem observe_userCall (room column : Nat) (name : String) (args : List Expr) (scope : Scope)
    (m : Memory) :
    observe (room + 2) (.userCall column name args) scope m =
      (match scope.functions.get? name with
      | none => plain (Eval.refuse .undefinedFunction)
      | some f =>
        if args.length != f.params.length then plain (Eval.refuse .illegalQuantity)
        else do
          let args ← observeAll room args
          plain (Eval.checkStack room)
          let result ← inCall room f.params args (observe room f.body)
          plain (Eval.coerced room name result) : Observed Value) scope m := by
  rw [observe]
  rfl

/-! ## Without the records -/

namespace Observed

variable {α β : Type}

theorem run_bind (x : Observed α) (f : α → Observed β) (scope : Scope) (m : Memory) :
    (x >>= f) scope m = match x scope m with
      | ((.ok a, m'), seen) => ((f a scope m').1, seen ++ (f a scope m').2)
      | ((.error e, m'), seen) => ((.error e, m'), seen) :=
  rfl

/-- The records apart, these are the same evaluations. -/
def Observes (w : Observed α) (x : Eval α) : Prop := ∀ scope m, (w scope m).1 = x scope m

theorem observes_step (notes : Memory → Memory → List Moment) (x : Eval α) :
    Observes (step notes x) x :=
  fun _ _ => rfl

theorem observes_pure (a : α) : Observes (pure a) (pure a) := fun _ _ => rfl

theorem Observes.bind {w : Observed α} {x : Eval α} {g : α → Observed β} {f : α → Eval β}
    (hw : Observes w x) (hg : ∀ a, Observes (g a) (f a)) : Observes (w >>= g) (x >>= f) := by
  intro scope m
  rw [run_bind, Eval.run_bind, ← hw scope m]
  rcases w scope m with ⟨⟨_ | a, m'⟩, seen⟩
  · rfl
  · exact hg a scope m'

theorem observes_each {w : Expr → Observed Value} {f : Expr → Eval Value} {es : List Expr}
    (h : ∀ e ∈ es, Observes (w e) (f e)) : Observes (each w es) (es.mapM f) := by
  induction es with
  | nil => exact observes_pure []
  | cons e es ih =>
    rw [List.mapM_cons]
    refine (h e List.mem_cons_self).bind fun v => ?_
    exact (ih fun e' he' => h e' (List.mem_cons_of_mem _ he')).bind fun vs => observes_pure _

theorem observes_bindParams (room : Nat) (args : List (String × Value)) :
    Observes (bindParams room args) (Eval.bindParams room args) := by
  induction args with
  | nil => exact observes_pure ()
  | cons arg args ih =>
    have hcons : Eval.bindParams room (arg :: args) =
        (Eval.bindParams room [arg] >>= fun _ => Eval.bindParams room args) := by
      funext scope m
      rw [Eval.run_bindParams_cons, Eval.run_bind, Eval.run_bindParams_cons]
      split
      · rfl
      · cases m.store.set arg.1 arg.2 <;> rfl
    rw [hcons]
    exact (observes_step _ _).bind fun _ => ih

theorem observes_inside (room : Nat) (params : List String) (args : List Value)
    {w : Observed Value} {x : Eval Value} (h : Observes w x) :
    Observes (inside room params args w) (Eval.inside room params args x) :=
  (observes_bindParams room _).bind fun _ => h

theorem observes_inCall (room : Nat) (params : List String) (args : List Value)
    {w : Observed Value} {x : Eval Value} (h : Observes w x) :
    Observes (inCall room params args w) (Eval.inCall room params args x) := by
  intro scope m
  have hinside := observes_inside room params args h scope { m with calls := m.calls + 1 }
  rw [Eval.run_inCall, ← hinside]
  unfold inCall
  by_cases hroom : room < if params.isEmpty then 1 else 3
  · rw [if_pos hroom, if_pos hroom]
  · rw [if_neg hroom, if_neg hroom]

end Observed

open Observed in
theorem observes_observeAll {room : Nat} {es : List Expr}
    (h : ∀ k < room, ∀ e ∈ es, Observes (observe k e) (evaluate k e)) :
    Observes (observeAll room es) (evaluateAll room es) := by
  cases room with
  | zero =>
    rw [observeAll, evaluateAll]
    exact observes_step _ _
  | succ room =>
    rw [observeAll, evaluateAll_succ]
    exact observes_each (h room (Nat.lt_succ_self room))

open Observed in
/-- **What is observed is what `evaluate` does.** -/
theorem observes_evaluate (room : Nat) (e : Expr) :
    Observes (observe room e) (evaluate room e) := by
  induction room using Nat.strong_induction_on generalizing e with
  | _ room ih =>
    rcases room with _ | _ | room
    · rw [observe, evaluate]
      exact observes_step _ _
    · rw [observe, evaluate]
      exact observes_step _ _
    · have hall : ∀ es, Observes (observeAll room es) (evaluateAll room es) :=
        fun es => observes_observeAll fun k hk e _ => ih k (by omega) e
      have hpart := ih room (by omega)
      cases e with
      | literal column v =>
        rw [observe, evaluate]
        exact observes_pure v
      | «variable» column name =>
        rw [observe, evaluate]
        exact observes_step _ _
      | element column name indices =>
        rw [observe, evaluate]
        exact (hall indices).bind fun _ => observes_step _ _
      | unary column op e =>
        rw [observe, evaluate]
        exact (hpart e).bind fun _ => observes_step _ _
      | binary column op left right =>
        rw [observe, evaluate]
        exact (hpart left).bind fun _ => (hpart right).bind fun _ => observes_step _ _
      | call column f args =>
        rw [observe, evaluate]
        exact (hall args).bind fun _ => observes_step _ _
      | userCall column name args =>
        intro scope m
        rw [observe_userCall, evaluate_userCall]
        cases scope.functions.get? name with
        | none => rfl
        | some f =>
          simp only
          split
          · rfl
          · refine (hall args).bind (fun vs => (observes_step _ _).bind fun _ => ?_) scope m
            exact (observes_inCall room f.params vs (hpart f.body)).bind fun _ => observes_step _ _

/-- So it is with several expressions. -/
theorem observes_evaluateAll (room : Nat) (es : List Expr) :
    Observed.Observes (observeAll room es) (evaluateAll room es) :=
  observes_observeAll fun k _ e _ => observes_evaluate k e

/-! ## The memories on the way -/

/-- The memory holds what it should, where something may be lost if evaluation ends with an array
that the host could not make. -/
def Admits (H : Bool → Memory → Prop) (ended : Option Fault) (m : Memory) : Prop :=
  ∃ lost, H lost m ∧ (lost = true → ∃ f ∈ ended, f.Unmade)

theorem Admits.intact {H : Bool → Memory → Prop} {m : Memory} (h : H false m)
    (ended : Option Fault) : Admits H ended m :=
  ⟨false, h, nofun⟩

/-- What each change of the memory keeps: `H false` holds of a memory as long as nothing is lost,
and `H true` when the memory of an array is. After that calls are closed and nothing else
happens. -/
structure Upheld (scope : Scope) (H : Bool → Memory → Prop) : Prop where
  varied {m : Memory} (random : Random) (clock : Clock) (h : H false m) :
    H false { m with random, clock }
  reached {m : Memory} (room : Nat) (name : String) (vs : List Value) (h : H false m) :
    Admits H (faultOf (m.store.getElement scope.cells room name vs).1)
      { m with store := (m.store.getElement scope.cells room name vs).2 }
  opened {m : Memory} (free : (scope.frames + m.calls : Int) < scope.stackLimit) (h : H false m) :
    H false { m with calls := m.calls + 1 }
  bound {m : Memory} {name : String} {v : Value} {store : Store}
    (set : m.store.set name v = .ok store) (h : H false m) : H false { m with store }
  closed {lost : Bool} {m : Memory} (h : H lost m) : H lost { m with calls := m.calls - 1 }
  restored {lost : Bool} {m₀ m : Memory} {keys : Set String} {refers : String → Nat → Prop}
    {d : Option (String × Nat)} (spans : m₀.store.Spans keys refers d m.store) (h₀ : H false m₀)
    (name : String) (h : H lost m) :
    H lost { m with store := m.store.restore name (m₀.store.snapshot name) }

namespace Observed

variable {α β : Type} {scope : Scope} {H : Bool → Memory → Prop}

/-- The memories that an evaluation passes through, the last one first. -/
def memories (r : (Except Fault α × Memory) × List Moment) : List Memory :=
  r.1.2 :: r.2.filterMap Moment.memory?

/-- Evaluation from a memory passes through memories that hold what they should. -/
def Upholds (scope : Scope) (H : Bool → Memory → Prop) (x : Observed α) (m : Memory) : Prop :=
  H false m → ∀ m' ∈ memories (x scope m), Admits H (faultOf (x scope m).1.1) m'

theorem upholds_pure (a : α) (m : Memory) : Upholds scope H (pure a) m := by
  intro h m' hm'
  obtain rfl := List.mem_singleton.mp hm'
  exact .intact h _

theorem Upholds.bind {x : Observed α} {f : α → Observed β} {m : Memory} (hx : Upholds scope H x m)
    (hf : ∀ a m₁, (x scope m).1 = (.ok a, m₁) → Upholds scope H (f a) m₁) :
    Upholds scope H (x >>= f) m := by
  intro h
  have hfirst := hx h
  rw [run_bind]
  rcases hrun : x scope m with ⟨⟨e | a, m₁⟩, seen⟩
  · rw [hrun] at hfirst
    exact hfirst
  · rw [hrun] at hfirst
    -- nothing is lost in an evaluation that goes on
    have hfirst' : ∀ m' ∈ memories (((.ok a : Except Fault _), m₁), seen), H false m' := by
      intro m' hm'
      obtain ⟨lost, h', hlost⟩ := hfirst m' hm'
      cases lost with
      | false => exact h'
      | true =>
        obtain ⟨f, hf, -⟩ := hlost rfl
        cases hf
    have hrest := hf a m₁ (by rw [hrun]) (hfirst' m₁ List.mem_cons_self)
    intro m' hm'
    simp only [memories, List.filterMap_append, List.mem_cons, List.mem_append] at hm'
    rcases hm' with rfl | hm' | hm'
    · exact hrest _ List.mem_cons_self
    · exact .intact (hfirst' m' (List.mem_cons_of_mem _ hm')) _
    · exact hrest m' (List.mem_cons_of_mem _ hm')

/-- A step passes through no memory but the last one. -/
theorem upholds_step {notes : Memory → Memory → List Moment} {x : Eval α} {m : Memory}
    (hnotes : ∀ m m', (notes m m').filterMap Moment.memory? = [])
    (h : H false m → Admits H (faultOf (x scope m).1) (x scope m).2) :
    Upholds scope H (step notes x) m := by
  intro hm m' hm'
  simp only [memories, step, List.filterMap_append, hnotes, List.nil_append] at hm'
  obtain rfl : m' = (x scope m).2 := by simpa [Moment.memory?] using hm'
  exact h hm

/-- A step that leaves the memory as it is. -/
theorem upholds_plain {x : Eval α} {m : Memory} (h : (x scope m).2 = m) :
    Upholds scope H (plain x) m :=
  upholds_step (fun _ _ => rfl) fun hm => .intact (h.symm ▸ hm) _

theorem upholds_each {f : Expr → Observed Value} {es : List Expr}
    (h : ∀ e ∈ es, ∀ m, Upholds scope H (f e) m) (m : Memory) : Upholds scope H (each f es) m := by
  induction es generalizing m with
  | nil => exact upholds_pure [] m
  | cons e es ih =>
    refine (h e List.mem_cons_self m).bind fun v m₁ _ => ?_
    exact (ih (fun e' he' => h e' (List.mem_cons_of_mem _ he')) m₁).bind fun vs m₂ _ =>
      upholds_pure _ m₂

variable (hup : Upheld scope H)
include hup

theorem upholds_element (room : Nat) (name : String) (vs : List Value) (m : Memory) :
    Upholds scope H (element room name vs) m := by
  refine upholds_step (fun m m' => ?_) fun h => ?_
  · unfold elementNotes
    cases vs.mapM Store.readIndex <;> rfl
  · rw [Eval.run_element]
    split
    · exact .intact h _
    · exact hup.reached room name vs h

theorem upholds_builtin (room : Nat) (f : Builtin) (args : List Value) (m : Memory) :
    Upholds scope H (builtin room f args) m := by
  refine upholds_step (fun m m' => ?_) fun h => .intact ?_ _
  · unfold builtinNotes
    split <;> rfl
  · rw [Eval.run_builtin]
    split
    · exact h
    · cases f.call m.clock.now scope.column args m.random with
      | error e => exact h
      | ok r => exact hup.varied r.2 _ h

theorem upholds_bindParams (room : Nat) (args : List (String × Value)) (m : Memory) :
    Upholds scope H (bindParams room args) m := by
  induction args generalizing m with
  | nil => exact upholds_pure () m
  | cons arg args ih =>
    refine Upholds.bind (upholds_step (fun _ _ => rfl) fun h => .intact ?_ _) fun _ m₁ _ => ih m₁
    rw [Eval.run_bindParams_cons]
    split
    · exact h
    · cases hset : m.store.set arg.1 arg.2 with
      | error e => exact h
      | ok store => exact hup.bound hset h

/-- The parameters get back their old values one by one. -/
theorem upheld_restores {lost : Bool} {m₀ m : Memory} {keys : Set String}
    {refers : String → Nat → Prop} {d : Option (String × Nat)} (h₀ : H false m₀)
    (spans : m₀.store.Spans keys refers d m.store) (h : H lost m) (params : List String) :
    (∀ store ∈ (params.map fun name => (name, m₀.store.snapshot name)).scanl
      (fun s e => s.restore e.1 e.2) m.store, H lost { m with store }) ∧
    H lost { m with
      store := Eval.unbindParams (params.map fun name => (name, m₀.store.snapshot name))
        m.store } := by
  induction params generalizing m keys with
  | nil =>
    refine ⟨fun store hstore => ?_, h⟩
    obtain rfl := List.mem_singleton.mp hstore
    exact h
  | cons name params ih =>
    obtain ⟨hall, hlast⟩ :=
      ih (m := { m with store := m.store.restore name (m₀.store.snapshot name) })
      (spans.restore name) (hup.restored spans h₀ name h)
    refine ⟨fun store hstore => ?_, hlast⟩
    rw [List.map_cons, List.scanl_cons] at hstore
    rcases List.mem_cons.mp hstore with rfl | hstore
    · exact h
    · exact hall store hstore

/-- A call that there is room for, with a body that may be evaluated anywhere. -/
theorem upholds_inCall (room : Nat) (params : List String) (args : List Value) {w : Observed Value}
    {x : Eval Value} {refers : String → Nat → Prop} (hw : Observes w x)
    (hframed : Eval.Framed scope refers x) (hbody : ∀ m, Upholds scope H w m) {m : Memory}
    (hfree : (scope.frames + m.calls : Int) < scope.stackLimit) :
    Upholds scope H (inCall room params args w) m := by
  intro h
  unfold inCall
  by_cases hroom : room < if params.isEmpty then 1 else 3
  · rw [if_pos hroom]
    intro m' hm'
    obtain rfl := List.mem_singleton.mp hm'
    exact .intact h _
  rw [if_neg hroom]
  have hopened := hup.opened hfree h
  have hinside : Upholds scope H (inside room params args w) { m with calls := m.calls + 1 } :=
    (upholds_bindParams hup room _ _).bind fun _ m₁ _ => hbody m₁
  replace hinside := hinside hopened
  obtain ⟨⟨d, hspans, -⟩, -⟩ := Eval.spans_inside room params args hframed m
  rw [← observes_inside room params args hw scope { m with calls := m.calls + 1 }] at hspans
  rcases hrun : inside room params args w scope { m with calls := m.calls + 1 } with ⟨⟨r, m₁⟩, seen⟩
  rw [hrun] at hinside hspans
  simp only [hrun]
  -- what holds at the end of the body holds while the parameters are put back
  obtain ⟨lost, hlost, hended⟩ := hinside m₁ List.mem_cons_self
  obtain ⟨hback, hlast⟩ := upheld_restores hup (m := { m₁ with calls := m₁.calls - 1 }) h hspans
    (hup.closed hlost) params
  intro m' hm'
  simp only [memories, List.filterMap_cons, List.filterMap_append, List.mem_cons, List.mem_append,
    Moment.mem_filterMap_iff Moment.memory?_eq_some, Moment.memory?] at hm'
  rcases hm' with rfl | (rfl | hm') | hm'
  · exact ⟨lost, hlast, hended⟩
  · exact .intact hopened _
  · have hseen : m' ∈ seen.filterMap Moment.memory? :=
      (Moment.mem_filterMap_iff Moment.memory?_eq_some).mpr (List.mem_of_mem_filter hm')
    exact hinside m' (List.mem_cons_of_mem _ hseen)
  · obtain ⟨store, hstore, heq⟩ := List.mem_map.mp hm'
    obtain rfl := Moment.passes.inj heq
    exact ⟨lost, hback store hstore, hended⟩

end Observed

open Observed in
theorem upholds_observeAll {scope : Scope} {H : Bool → Memory → Prop} {room : Nat} {es : List Expr}
    (h : ∀ k < room, ∀ e ∈ es, ∀ m, Upholds scope H (observe k e) m) (m : Memory) :
    Upholds scope H (observeAll room es) m := by
  cases room with
  | zero =>
    rw [observeAll]
    exact upholds_plain rfl
  | succ room =>
    rw [observeAll]
    exact upholds_each (h room (Nat.lt_succ_self room)) m

theorem Eval.free_of_checkStack {room : Nat} {scope : Scope} {m m' : Memory}
    (h : checkStack room scope m = (.ok (), m')) :
    m' = m ∧ (scope.frames + m.calls : Int) < scope.stackLimit := by
  rw [run_checkStack] at h
  split_ifs at h with hroom hfull
  · cases h
  · cases h
  · exact ⟨(Prod.mk.inj h).2.symm, by omega⟩

open Observed in
/-- **What each change of the memory keeps holds in all memories that an evaluation passes
through.** -/
theorem upholds_observe {scope : Scope} {H : Bool → Memory → Prop} (hup : Upheld scope H)
    (room : Nat) (e : Expr) (m : Memory) : Upholds scope H (observe room e) m := by
  induction room using Nat.strong_induction_on generalizing e m with
  | _ room ih =>
    rcases room with _ | _ | room
    · rw [observe]
      exact upholds_plain rfl
    · rw [observe]
      exact upholds_plain rfl
    · have hall : ∀ es m, Upholds scope H (observeAll room es) m :=
        fun es => upholds_observeAll fun k hk e _ m => ih k (by omega) e m
      have hpart := ih room (by omega)
      cases e with
      | literal column v =>
        rw [observe]
        exact upholds_pure v m
      | «variable» column name =>
        rw [observe]
        refine upholds_step (fun _ _ => rfl) fun h => .intact ?_ _
        rw [Eval.run_scalar]
        split <;> exact h
      | element column name indices =>
        rw [observe]
        exact (hall indices m).bind fun vs m₁ _ => upholds_element hup room name vs m₁
      | unary column op e =>
        rw [observe]
        refine (hpart e m).bind fun v m₁ _ => upholds_plain ?_
        rw [Eval.run_within_bind]
        split
        · rfl
        · cases op.apply v <;> rfl
      | binary column op left right =>
        rw [observe]
        refine (hpart left m).bind fun a m₁ _ => (hpart right m₁).bind fun b m₂ _ =>
          upholds_plain ?_
        rw [Eval.run_within_bind]
        split
        · rfl
        · cases op.apply a b <;> rfl
      | call column f args =>
        rw [observe]
        exact (hall args m).bind fun vs m₁ _ => upholds_builtin hup room f vs m₁
      | userCall column name args =>
        unfold Upholds
        rw [observe_userCall]
        cases scope.functions.get? name with
        | none => exact upholds_plain rfl
        | some f =>
          simp only
          split
          · exact upholds_plain rfl
          · refine Upholds.bind (hall args m) fun vs m₁ _ => ?_
            refine Upholds.bind (upholds_plain ?_) fun u m₂ hchecked => ?_
            · rw [Eval.run_checkStack]
              split_ifs <;> rfl
            obtain ⟨rfl, hfree⟩ := Eval.free_of_checkStack hchecked
            refine Upholds.bind (upholds_inCall hup room f.params vs (observes_evaluate room f.body)
              (evaluate_frames room f.body scope) (hpart f.body) hfree) fun v m₃ _ =>
              upholds_plain ?_
            rw [Eval.run_coerced, Eval.run_lift]
            split_ifs
            · rfl
            · cases (m₃.store.kindOf name).coerce v <;> rfl

/-- So it is with several expressions. -/
theorem upholds_evaluateAll {scope : Scope} {H : Bool → Memory → Prop} (hup : Upheld scope H)
    (room : Nat) (es : List Expr) (m : Memory) : Observed.Upholds scope H (observeAll room es) m :=
  upholds_observeAll (fun k _ e _ => upholds_observe hup k e) m

end LineBasic
