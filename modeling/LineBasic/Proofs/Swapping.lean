import Mathlib
import LineBasic.Proofs.SteadyExpressions

/-!
# Exchanging variables

SWAP reads its two targets and then stores each value in the other one. Subscripts are evaluated for
reading and again for storing, and there is no way back when the second value cannot be stored.

* `Exec.locate`: the cell that a target designates. `Exec.subscripts`: the record of evaluating its
  subscripts.
* `Exec.locate_again`: when a target designates the same cell again.
* `Exec.Assigns`: what storing a value in a target comes to.
* `Exec.Swaps`: what SWAP comes to, for targets that designate the same cells again.
-/

namespace LineBasic

/-! ## Targets -/

namespace Target

/-- The subscripts of a target. -/
def indices : Target → List Expr
  | .scalar _ _ => []
  | .element _ _ indices => indices

/-- The cells that a target may designate: the scalar, or all elements of the array. -/
def cells (s : Store) : Target → Set Cell
  | .scalar _ name => {.scalar (s.resolve name)}
  | .element _ name _ => {c | ∃ is, c = .element (s.resolve name) is}

theorem key_of_mem_cells {s : Store} {t : Target} {c : Cell} (h : c ∈ t.cells s) :
    c.key = s.resolve t.name := by
  cases t with
  | scalar column name =>
    obtain rfl := Set.mem_singleton_iff.mp h
    rfl
  | element column name indices =>
    obtain ⟨is, rfl⟩ := h
    rfl

theorem cells_congr {s s' : Store} (h : s'.letters = s.letters) (t : Target) :
    t.cells s' = t.cells s := by
  cases t <;> simp only [cells, Store.resolve_congr h]

end Target

/-- The cell is a scalar, or an element that exists. -/
def Store.Ready (s : Store) : Cell → Prop
  | .scalar _ => True
  | .element key is => s.Has key is

theorem Store.Ready.rewrites {s s' : Store} {X : Set Cell} {c : Cell} (h : s.Ready c)
    (hrewrites : s.Rewrites X s') : s'.Ready c := by
  cases c with
  | scalar key => trivial
  | element key is => exact Store.Has.rewrites h hrewrites

/-- The cell is a scalar that was never set, and there is no room for it. -/
def Store.Full (s : Store) (c : Cell) : Prop :=
  ∃ key, c = .scalar key ∧ s.scalars.get? key = none ∧ s.limit < s.used + 1

/-- Expressions find the same functions and as much room, and as many calls are open. -/
structure Machine.SameScope (m m' : Machine) : Prop where
  scope : m'.scope = m.scope
  room : m'.statementRoom = m.statementRoom
  calls : m'.memory.calls = m.memory.calls

instance : IsPreorder Machine Machine.SameScope where
  refl _ := ⟨rfl, rfl, rfl⟩
  trans _ _ _ h h' := ⟨h'.scope.trans h.scope, h'.room.trans h.room, h'.calls.trans h.calls⟩

/-- Sound variables stay sound, and no cell differs but certain ones. -/
def Machine.Confines (letters : Table Kind) (X : Set Cell) (m m' : Machine) : Prop :=
  m.memory.store.letters = letters → m.memory.store.Sound →
    m.memory.store.Rewrites X m'.memory.store ∧ m'.memory.store.Sound

instance (letters : Table Kind) (X : Set Cell) :
    IsPreorder Machine (Machine.Confines letters X) where
  refl _ _ hsound := ⟨.refl _ _, hsound⟩
  trans m₁ m₂ m₃ h h' hletters hsound := by
    obtain ⟨hrewrites, hsound₂⟩ := h hletters hsound
    obtain ⟨hrewrites', hsound₃⟩ := h' (hrewrites.letters.trans hletters) hsound₂
    exact ⟨(hrewrites.trans hrewrites').mono (Set.union_self X).subset, hsound₃⟩

/-! ## The cell of a target -/

namespace Exec

variable {m m₁ m' : Machine} {t : Target} {v : Value} {c : Cell} {X : Set Cell}

/-- The cell that a target designates; the subscripts are evaluated now. -/
def locate : Target → Exec Cell
  | .scalar _ name => do return .scalar ((← get).memory.store.resolve name)
  | .element _ name indices => do
    let vs ← values 1 indices
    let is ← lift (vs.mapM Store.readIndex)
    return .element ((← get).memory.store.resolve name) is

/-- What happens while the subscripts of a target are evaluated. -/
def subscripts (t : Target) (m : Machine) : List Moment :=
  (observeAll (m.statementRoom - 1) t.indices m.scope m.memory).2

theorem value_eq_ok {e : Expr} (h : value e m = (.ok v, m')) : ∃ memory,
    evaluate m.statementRoom e m.scope m.memory = (.ok v, memory) ∧ m' = { m with memory } := by
  rw [value_eq, run_ofEval] at h
  rcases hevaluated : evaluate m.statementRoom e m.scope m.memory with ⟨_ | w, memory⟩
  · rw [hevaluated] at h
    cases h
  · rw [hevaluated] at h
    obtain ⟨hw, rfl⟩ := Prod.mk.inj h
    obtain rfl := Except.ok.inj hw
    exact ⟨memory, rfl, rfl⟩

theorem rewrites_evaluateAll {room : Nat} {es : List Expr} {r : Except Fault (List Value)}
    {scope : Scope} {memory memory' : Memory}
    (h : evaluateAll room es scope memory = (r, memory')) :
    memory.store.Rewrites ∅ memory'.store := by
  obtain ⟨_, hframes, -⟩ := evaluateAll_frames room es scope memory
  rw [h] at hframes
  exact hframes.store.rewrites

/-- The cell of an element is told by the values of its subscripts. -/
theorem run_locate_element (column : Nat) (name : String) (es : List Expr) (m : Machine) :
    locate (.element column name es) m =
      match evaluateAll (m.statementRoom - 1) es m.scope m.memory with
      | (.error f, memory) => (.error (.fault f), { m with memory })
      | (.ok vs, memory) =>
        match vs.mapM Store.readIndex with
        | .error e => (.error (.fault (.error e)), { m with memory })
        | .ok is => (.ok (.element (m.memory.store.resolve name) is), { m with memory }) := by
  rw [locate, run_bind, values_eq, run_ofEval]
  rcases hvalues : evaluateAll (m.statementRoom - 1) es m.scope m.memory with ⟨_ | vs, memory⟩
  · rfl
  simp only
  rw [run_bind, run_lift]
  cases vs.mapM Store.readIndex with
  | error e => rfl
  | ok is =>
    simp only
    rw [run_get_bind, Store.resolve_congr (rewrites_evaluateAll hvalues).letters]
    rfl

theorem locate_element_eq_ok {column : Nat} {name : String} {es : List Expr}
    (h : locate (.element column name es) m = (.ok c, m₁)) : ∃ vs is memory,
      evaluateAll (m.statementRoom - 1) es m.scope m.memory = (.ok vs, memory) ∧
      vs.mapM Store.readIndex = .ok is ∧ c = .element (m.memory.store.resolve name) is ∧
      m₁ = { m with memory } := by
  rw [run_locate_element] at h
  rcases hvalues : evaluateAll (m.statementRoom - 1) es m.scope m.memory with ⟨_ | vs, memory⟩
  · rw [hvalues] at h
    cases h
  rw [hvalues] at h
  cases hindices : vs.mapM Store.readIndex with
  | error e =>
    simp only [hindices] at h
    cases h
  | ok is =>
    simp only [hindices] at h
    obtain ⟨hc, rfl⟩ := Prod.mk.inj h
    exact ⟨vs, is, memory, rfl, hindices, (Except.ok.inj hc).symm, rfl⟩

/-- To find a cell rewrites none, and it is one of the target's. -/
theorem locate_eq_ok (h : locate t m = (.ok c, m₁)) :
    c ∈ t.cells m.memory.store ∧ m.memory.store.Rewrites ∅ m₁.memory.store := by
  cases t with
  | scalar column name =>
    obtain ⟨hc, rfl⟩ :=
      Prod.mk.inj (h : (Except.ok (Cell.scalar (m.memory.store.resolve name)), m) = _)
    obtain rfl := Except.ok.inj hc
    exact ⟨rfl, .refl _ _⟩
  | element column name es =>
    obtain ⟨vs, is, memory, hvalues, -, rfl, rfl⟩ := locate_element_eq_ok h
    exact ⟨⟨is, rfl⟩, rewrites_evaluateAll hvalues⟩

theorem observeAll_of_evaluateAll {room : Nat} {es : List Expr} {scope : Scope}
    {memory memory' : Memory} {vs : List Value}
    (h : evaluateAll room es scope memory = (.ok vs, memory')) :
    observeAll room es scope memory = ((.ok vs, memory'), (observeAll room es scope memory).2) :=
  Prod.ext ((observes_evaluateAll room es scope memory).trans h) rfl

/-- To find a cell leaves the random numbers alone, if no number is drawn. -/
theorem random_locate (h : locate t m = (.ok c, m₁)) (hsteady : .consults true ∉ subscripts t m) :
    m₁.memory.random = m.memory.random := by
  cases t with
  | scalar column name =>
    obtain ⟨-, rfl⟩ :=
      Prod.mk.inj (h : (Except.ok (Cell.scalar (m.memory.store.resolve name)), m) = _)
    rfl
  | element column name es =>
    obtain ⟨vs, is, memory, hvalues, -, -, rfl⟩ := locate_element_eq_ok h
    exact (repeats_observeAll _ es m.scope).unvaried (observeAll_of_evaluateAll hvalues) hsteady

/-- A target designates the same cell again where nothing is different that its subscripts depend
on, and nothing changes, unless calls find no room. -/
theorem locate_again {m₂ : Machine} (h : locate t m = (.ok c, m₁))
    (hsteady : .consults true ∉ subscripts t m) (hsame : m.SameScope m₂)
    (hunmoved : Unmoved (subscripts t m) m.memory m₁.memory m₂.memory) :
    locate t m₂ = (.ok c, m₂) ∨
      .opens ∈ subscripts t m ∧ (locate t m₂).1 = .error (.fault (.error (.of .outOfMemory))) := by
  have hletters := hunmoved.store.letters.trans (locate_eq_ok h).2.letters
  cases t with
  | scalar column name =>
    obtain ⟨hc, rfl⟩ :=
      Prod.mk.inj (h : (Except.ok (Cell.scalar (m.memory.store.resolve name)), m) = _)
    obtain rfl := Except.ok.inj hc
    refine .inl ?_
    change (Except.ok (Cell.scalar (m₂.memory.store.resolve name)), m₂) = _
    rw [Store.resolve_congr hletters]
  | element column name es =>
    obtain ⟨vs, is, memory, hvalues, hindices, rfl, rfl⟩ := locate_element_eq_ok h
    have hagain := (repeats_observeAll _ es m.scope).again (observeAll_of_evaluateAll hvalues)
      hsteady hunmoved
    rw [observes_evaluateAll] at hagain
    rw [run_locate_element, hsame.scope, hsame.room]
    rcases hagain with hagain | ⟨hopens, hfull⟩
    · refine .inl ?_
      rw [hagain]
      simp only [hindices]
      rw [Store.resolve_congr hletters]
    · refine .inr ⟨hopens, ?_⟩
      rcases hrun : evaluateAll (m.statementRoom - 1) es m.scope m₂.memory with ⟨r, memory₂⟩
      rw [hrun] at hfull
      obtain rfl : r = .error (.error (.of .outOfMemory)) := hfull
      rfl

/-- A target was read: this is the cell that it designates. -/
structure Reads (t : Target) (m m' : Machine) (v : Value) (c : Cell) (m₁ : Machine) : Prop where
  located : locate t m = (.ok c, m₁)
  rewrites : m₁.memory.store.Rewrites ∅ m'.memory.store
  random : m'.memory.random = m₁.memory.random
  value : v = m.memory.store.read c
  ready : m'.memory.store.Ready c

/-- What is read from a target is what the cell holds that it designates. -/
theorem value_target_eq_ok (h : value t.toExpr m = (.ok v, m')) : ∃ c m₁, Reads t m m' v c m₁ := by
  cases t with
  | scalar column name =>
    obtain ⟨hv, rfl⟩ := Prod.mk.inj ((run_value_variable column name m).symm.trans h)
    exact ⟨_, m, rfl, .refl _ _, rfl, (Except.ok.inj hv).symm, trivial⟩
  | element column name es =>
    obtain ⟨memory, hevaluated, rfl⟩ := value_eq_ok h
    change evaluate m.statementRoom (.element column name es) m.scope m.memory = _ at hevaluated
    rw [Machine.statementRoom_eq, evaluate] at hevaluated
    obtain ⟨vs, memory₁, hvalues, helement⟩ := Eval.run_bind_eq_ok hevaluated
    rw [Eval.run_element, if_neg (by omega)] at helement
    obtain ⟨hget, rfl⟩ := Prod.mk.inj helement
    obtain ⟨is, hindices, hhas, hv⟩ := Store.getElement_eq_ok (Prod.ext hget rfl)
    -- for reading there was less room than for finding the cell, which makes no difference
    have hvalues' : evaluateAll (m.statementRoom - 1) es m.scope m.memory = (.ok vs, memory₁) := by
      refine evaluateAll_mono ?_ es _ _ _ hvalues
      rw [Machine.statementRoom_eq]
      omega
    have hlocate : locate (.element column name es) m =
        (.ok (.element (m.memory.store.resolve name) is), { m with memory := memory₁ }) := by
      rw [run_locate_element, hvalues']
      simp only [hindices]
    have hkey := Store.resolve_congr (rewrites_evaluateAll hvalues).letters name
    have hreads := Store.rewrites_getElement m.scope.cells (m.spare + 58) name vs
        (s := memory₁.store)
    refine ⟨_, _, hlocate, hreads, rfl, ?_, hkey ▸ hhas⟩
    rw [hv, hkey]
    exact ((locate_eq_ok hlocate).2.after hreads).read (Set.notMem_empty _)

/-! ## Storing in a target -/

theorem sameScope_value (e : Expr) : Moves Machine.SameScope (value e) := by
  intro m
  obtain ⟨memory, _, hrun, hframes, -⟩ := value_frames e m
  rw [hrun]
  exact ⟨rfl, rfl, hframes.calls⟩

theorem run_setElement (name : String) (vs : List Value) (v : Value) (m : Machine) :
    setElement name vs v m =
      match m.memory.store.setElement m.cells (m.statementRoom - 1) name vs v with
      | (.ok (), store) => (.ok (), { m with memory := { m.memory with store } })
      | (.error f, store) => (.error (.fault f), { m with memory := { m.memory with store } }) := by
  unfold setElement
  rw [run_get_bind]
  rcases m.memory.store.setElement m.cells (m.statementRoom - 1) name vs v
    with ⟨_ | _, store⟩ <;> rfl

theorem run_assign_element (column : Nat) (name : String) (es : List Expr) (v : Value)
    (m : Machine) :
    assign (.element column name es) v m =
      match evaluateAll (m.statementRoom - 1) es m.scope m.memory with
      | (.error f, memory) => (.error (.fault f), { m with memory })
      | (.ok vs, memory) => setElement name vs v { m with memory } := by
  change (values 1 es >>= fun vs => setElement name vs v) m = _
  rw [run_bind, values_eq, run_ofEval]
  rcases evaluateAll (m.statementRoom - 1) es m.scope m.memory with ⟨f | vs, memory⟩ <;> rfl

theorem sameScope_assign (t : Target) (v : Value) : Moves Machine.SameScope (assign t v) := by
  intro m
  cases t with
  | scalar column name =>
    change m.SameScope (setScalar name v m).2
    rw [run_setScalar]
    split <;> exact ⟨rfl, rfl, rfl⟩
  | element column name es =>
    obtain ⟨_, hframes, -⟩ := evaluateAll_frames (m.statementRoom - 1) es m.scope m.memory
    rw [run_assign_element]
    rcases hvalues : evaluateAll (m.statementRoom - 1) es m.scope m.memory with ⟨f | vs, memory⟩
    · rw [hvalues] at hframes
      exact ⟨rfl, rfl, hframes.calls⟩
    · rw [hvalues] at hframes
      simp only
      rw [run_setElement]
      split <;> exact ⟨rfl, rfl, hframes.calls⟩

/-- What storing a value in a target comes to: there is no such cell, the cell does not take the
value, or it does. -/
inductive Assigns (m : Machine) (t : Target) (v : Value) : Except Halt Unit × Machine → Prop where
  | unlocated {h : Halt} {m' : Machine} (unlocated : (locate t m).1 = .error h)
      (rewrites : m.memory.store.Rewrites ∅ m'.memory.store) : Assigns m t v (.error h, m')
  | refused {c : Cell} {h : Halt} {m₁ m' : Machine} (located : locate t m = (.ok c, m₁))
      (rewrites : m.memory.store.Rewrites ∅ m'.memory.store)
      (cause : ∀ w, (Kind.ofName c.key).coerce v = .ok w → m₁.memory.store.Ready c →
        m'.memory.store.Full c ∧ h = .fault (.error (.of .outOfMemory))) :
      Assigns m t v (.error h, m')
  | assigns {c : Cell} {w : Value} {m₁ m' : Machine} (located : locate t m = (.ok c, m₁))
      (coerced : (Kind.ofName c.key).coerce v = .ok w)
      (rewrites : m.memory.store.Rewrites {c} m'.memory.store)
      (read : m'.memory.store.read c = w) (random : m'.memory.random = m₁.memory.random) :
      Assigns m t v (.ok (), m')

theorem assigns_scalar (column : Nat) (name : String) (v : Value) (m : Machine) :
    Assigns m (.scalar column name) v (assign (.scalar column name) v m) := by
  have hlocate : locate (.scalar column name) m =
    (.ok (.scalar (m.memory.store.resolve name)), m) := rfl
  change Assigns m _ v (setScalar name v m)
  rw [run_setScalar]
  cases hset : m.memory.store.set name v with
  | ok store =>
    obtain ⟨w, hcoerce, hrewrites, hread⟩ := Store.rewrites_set hset
    exact .assigns hlocate hcoerce hrewrites hread rfl
  | error e =>
    refine .refused hlocate (.refl _ _) fun w hcoerce _ => ?_
    rcases Store.set_of_coerce hcoerce with ⟨store, hstore⟩ | ⟨hfull, hnew, hlimit⟩
    · rw [hset] at hstore
      cases hstore
    · rw [hset] at hfull
      exact ⟨⟨_, rfl, hnew, hlimit⟩, by rw [Except.error.inj hfull]⟩

theorem assigns_element (hsound : m.memory.store.Sound) (column : Nat) (name : String)
    (es : List Expr) (v : Value) :
    Assigns m (.element column name es) v (assign (.element column name es) v m) := by
  have hlocate := run_locate_element column name es m
  obtain ⟨lost, haccounts⟩ := hsound
  have hloses := haccounts.evaluateAll (m.statementRoom - 1) es m.scope
  rw [run_assign_element]
  rcases hvalues : evaluateAll (m.statementRoom - 1) es m.scope m.memory with ⟨f | vs, memory⟩
  · rw [hvalues] at hlocate
    exact .unlocated (congrArg Prod.fst hlocate) (rewrites_evaluateAll hvalues)
  rw [hvalues] at hlocate hloses
  simp only at hlocate ⊢
  have hrewrites := rewrites_evaluateAll hvalues
  rw [run_setElement]
  simp only
  cases hindices : vs.mapM Store.readIndex with
  | error e =>
    have hset : ∀ cells room, memory.store.setElement cells room name vs v =
        (.error (.error e), memory.store) := by
      intro cells room
      unfold Store.setElement
      rw [hindices]
    rw [hindices] at hlocate
    rw [hset]
    exact .unlocated (congrArg Prod.fst hlocate) hrewrites
  | ok is =>
    rw [hindices] at hlocate
    have hstores := Store.stores_setElement hloses.sound.regular m.cells
      (({ m with memory } : Machine).statementRoom - 1) name vs v
    have hkey := Store.resolve_congr hrewrites.letters name
    generalize memory.store.setElement m.cells
      (({ m with memory } : Machine).statementRoom - 1) name vs v = r at hstores
    cases hstores with
    | fails rewrites cause =>
      refine .refused hlocate (hrewrites.after rewrites) fun w hcoerce hready => ?_
      rw [hkey] at cause
      exact absurd hcoerce (cause is w hindices hready)
    | stores indices coerced reach _ rewrites read =>
      obtain rfl := Except.ok.inj (hindices.symm.trans indices)
      have hstored := (Store.rewrites_reach reach).after rewrites
      rw [hkey] at coerced hstored read
      exact .assigns hlocate coerced (hrewrites.after hstored) read rfl

theorem assigns_assign (hsound : m.memory.store.Sound) (t : Target) (v : Value) :
    Assigns m t v (assign t v m) := by
  cases t with
  | scalar column name => exact assigns_scalar column name v m
  | element column name es => exact assigns_element hsound column name es v

/-- A value of the cell's kind can be stored in a target that was read before, unless there is no
room. -/
theorem assign_again {m₂ : Machine} (h : locate t m = (.ok c, m₁))
    (hsteady : .consults true ∉ subscripts t m) (hsame : m.SameScope m₂)
    (hunmoved : Unmoved (subscripts t m) m.memory m₁.memory m₂.memory)
    (hsound : m₂.memory.store.Sound) (hready : m₂.memory.store.Ready c)
    (hkind : (Kind.ofName c.key).coerce v = .ok v) :
    (∃ m', assign t v m₂ = (.ok (), m') ∧ m₂.memory.store.Rewrites {c} m'.memory.store ∧
      m'.memory.store.read c = v ∧ m'.memory.random = m₂.memory.random) ∨
    ∃ m', assign t v m₂ = (.error (.fault (.error (.of .outOfMemory))), m') ∧
      m₂.memory.store.Rewrites ∅ m'.memory.store ∧
      (m'.memory.store.Full c ∨ .opens ∈ subscripts t m) := by
  have hassigns := assigns_assign hsound t v
  rcases hrun : assign t v m₂ with ⟨r, m'⟩
  rw [hrun] at hassigns
  rcases locate_again h hsteady hsame hunmoved with hagain | ⟨hopens, hfull⟩
  · cases hassigns with
    | unlocated unlocated =>
      rw [hagain] at unlocated
      cases unlocated
    | refused located rewrites cause =>
      obtain ⟨hc, rfl⟩ := Prod.mk.inj (hagain.symm.trans located)
      obtain rfl := Except.ok.inj hc
      obtain ⟨hfull, rfl⟩ := cause v hkind hready
      exact .inr ⟨m', rfl, rewrites, .inl hfull⟩
    | assigns located coerced rewrites read random =>
      obtain ⟨hc, rfl⟩ := Prod.mk.inj (hagain.symm.trans located)
      obtain rfl := Except.ok.inj hc
      obtain rfl := Except.ok.inj (hkind.symm.trans coerced)
      exact .inl ⟨m', rfl, rewrites, read, random⟩
  · cases hassigns with
    | unlocated unlocated rewrites =>
      obtain rfl := Except.error.inj (unlocated.symm.trans hfull)
      exact .inr ⟨m', rfl, rewrites, .inr hopens⟩
    | refused located | assigns located =>
      rw [located] at hfull
      cases hfull

theorem Assigns.rewrites {r : Except Halt Unit × Machine} (h : Assigns m t v r) :
    m.memory.store.Rewrites (t.cells m.memory.store) r.2.memory.store := by
  cases h with
  | unlocated _ rewrites => exact rewrites.mono (Set.empty_subset _)
  | refused _ rewrites _ => exact rewrites.mono (Set.empty_subset _)
  | assigns located _ rewrites _ =>
    exact rewrites.mono (Set.singleton_subset_iff.mpr (locate_eq_ok located).1)

/-! ## Exchanging -/

/-- The cells that two targets designate, the second one after the first was read. -/
def Designate (m : Machine) (first second : Target) (c₁ c₂ : Cell) : Prop :=
  ∃ m₁ a m₂ m₃, locate first m = (.ok c₁, m₁) ∧ value first.toExpr m = (.ok a, m₂) ∧
    locate second m₂ = (.ok c₂, m₃)

/-- What happens while the subscripts of the second target are evaluated, the first one having been
read. -/
def laterSubscripts (first second : Target) (m : Machine) : List Moment :=
  subscripts second (value first.toExpr m).2

/-- The two targets designate the same cells when they are read and when they are stored to: their
subscripts neither draw random numbers nor look at the clock, and those of the second target do not
read the cell that the first one designates. -/
structure Steady (first second : Target) (m : Machine) : Prop where
  here : .consults true ∉ subscripts first m
  later : .consults true ∉ laterSubscripts first second m
  apart : ∀ c, (locate first m).1 = .ok c → .reads c ∉ laterSubscripts first second m

/-- What SWAP comes to: the cells exchange their values, or nothing is rewritten. Or else the first
cell has got the value of the second one, and there is no room to go on: the second is a scalar that
was never set, or its subscripts call functions of the program. -/
inductive Swaps (m : Machine) (first second : Target) : Except Halt Unit × Machine → Prop where
  | exchanged {c₁ c₂ : Cell} {m' : Machine} (cells : Designate m first second c₁ c₂)
      (rewrites : m.memory.store.Rewrites {c₁, c₂} m'.memory.store)
      (left : m'.memory.store.read c₁ = m.memory.store.read c₂)
      (right : m'.memory.store.read c₂ = m.memory.store.read c₁) : Swaps m first second (.ok (), m')
  | unchanged {h : Halt} {m' : Machine} (rewrites : m.memory.store.Rewrites ∅ m'.memory.store) :
      Swaps m first second (.error h, m')
  | halfway {c₁ c₂ : Cell} {m' : Machine} (cells : Designate m first second c₁ c₂)
      (rewrites : m.memory.store.Rewrites {c₁} m'.memory.store)
      (left : m'.memory.store.read c₁ = m.memory.store.read c₂)
      (cause : m'.memory.store.Full c₂ ∨ .opens ∈ laterSubscripts first second m) :
      Swaps m first second (.error (.fault (.error (.of .outOfMemory))), m')

theorem rewrites_value {e : Expr} {r : Except Halt Value} (h : value e m = (r, m')) :
    m.memory.store.Rewrites ∅ m'.memory.store := by
  obtain ⟨memory, _, hrun, hframes, -⟩ := value_frames e m
  obtain rfl : m' = { m with memory } := (congrArg Prod.snd h).symm.trans hrun
  exact hframes.store.rewrites

theorem Designate.of_scalar {column : Nat} {name : String} {second : Target}
    (h : locate second m = (.ok c, m₁)) :
    Designate m (.scalar column name) second (.scalar (m.memory.store.resolve name)) c :=
  ⟨m, _, m, m₁, rfl, run_value_variable column name m, h⟩

theorem Designate.kind {first second : Target} {c₁ c₂ : Cell} (h : Designate m first second c₁ c₂)
    (hkind : m.memory.store.kindOf first.name = m.memory.store.kindOf second.name) :
    Kind.ofName c₁.key = Kind.ofName c₂.key := by
  obtain ⟨m₁, a, m₂, m₃, hfirst, hread, hsecond⟩ := h
  have hkey := Store.resolve_congr (rewrites_value hread).letters second.name
  rw [Target.key_of_mem_cells (locate_eq_ok hfirst).1,
    Target.key_of_mem_cells (locate_eq_ok hsecond).1, hkey]
  exact hkind

theorem run_swap (first second : Target) (m : Machine) : swap first second m =
    if m.memory.store.kindOf first.name != m.memory.store.kindOf second.name then
      (.error (.fault (.error (.of .typeMismatch))), m)
    else (do
      let a ← value first.toExpr
      let b ← value second.toExpr
      assign first b
      assign second a) m := by
  unfold swap
  rw [run_get_bind]
  split <;> rfl

/-- SWAP after both targets were read. -/
theorem swaps_assign {first second : Target} {a b : Value} {m₂ m₄ : Machine}
    (hsound : m.memory.store.Sound) (hsettled : m.memory.store.Settled)
    (hkind : m.memory.store.kindOf first.name = m.memory.store.kindOf second.name)
    (hsteady : Steady first second m) (hread₁ : value first.toExpr m = (.ok a, m₂))
    (hread₂ : value second.toExpr m₂ = (.ok b, m₄)) :
    Swaps m first second ((do assign first b; assign second a : Exec Unit) m₄) := by
  obtain ⟨hfirst, hsecond, hapart⟩ := hsteady
  have hlater : laterSubscripts first second m = subscripts second m₂ := by
    rw [laterSubscripts, hread₁]
  rw [hlater] at hsecond
  have hm₂ := rewrites_value hread₁
  have hm₄ := rewrites_value hread₂
  have hscope₂ := (sameScope_value _).of_run hread₁
  have hscope₄ := (sameScope_value _).of_run hread₂
  have hsound₄ := Machine.Alters.sound ((computes_value _).of_run hread₂)
    (Machine.Alters.sound ((computes_value _).of_run hread₁) hsound)
  obtain ⟨c₁, m₁, hc₁, hrest₁, hrandom₁, rfl, hready₁⟩ := value_target_eq_ok hread₁
  obtain ⟨c₂, m₃, hc₂, hrest₂, hrandom₂, hb, hready₂⟩ := value_target_eq_ok hread₂
  have hrandom₄ : m₄.memory.random = m₂.memory.random :=
    hrandom₂.trans (random_locate hc₂ hsecond)
  obtain rfl : b = m.memory.store.read c₂ := hb.trans (hm₂.read (Set.notMem_empty _))
  have hcells : Designate m first second c₁ c₂ := ⟨m₁, _, m₂, m₃, hc₁, hread₁, hc₂⟩
  -- each cell takes what the other one holds
  have hkinds := hcells.kind hkind
  have htakes₁ : (Kind.ofName c₁.key).coerce (m.memory.store.read c₂) =
      .ok (m.memory.store.read c₂) := hkinds ▸ hsettled.read hsound.regular c₂
  have htakes₂ : (Kind.ofName c₂.key).coerce (m.memory.store.read c₁) =
      .ok (m.memory.store.read c₁) := hkinds ▸ hsettled.read hsound.regular c₁
  have hscope := trans_of Machine.SameScope hscope₂ hscope₄
  have hunmoved₁ : Unmoved (subscripts first m) m.memory m₁.memory m₄.memory :=
    ⟨(hrest₁.after hm₄).mono (Set.empty_subset _), hscope.calls,
      .inl (hrandom₄.trans (hrandom₁.trans (random_locate hc₁ hfirst)))⟩
  rw [run_bind]
  rcases assign_again hc₁ hfirst hscope hunmoved₁ hsound₄ (hready₁.rewrites hm₄) htakes₁ with
    ⟨m₅, hrun₁, hrewrites₁, hleft, hrandom₅⟩ | ⟨m₅, hrun₁, hrewrites₁, -⟩
  · have hscope₅ := trans_of Machine.SameScope hscope₄ ((sameScope_assign _ _).of_run hrun₁)
    have hsound₅ := Machine.Alters.sound ((computes_assign _ _).of_run hrun₁) hsound₄
    -- the cell that has changed is none that the subscripts of the second target read
    have hunread : {c₁} ⊆ {c | Moment.reads c ∉ subscripts second m₂} := by
      rw [← hlater]
      exact Set.singleton_subset_iff.mpr (hapart c₁ (congrArg Prod.fst hc₁))
    have hunmoved₂ : Unmoved (subscripts second m₂) m₂.memory m₃.memory m₅.memory :=
      ⟨hrest₂.after (hrewrites₁.mono hunread), hscope₅.calls, .inl (hrandom₅.trans hrandom₄)⟩
    rw [hrun₁]
    simp only
    rcases assign_again hc₂ hsecond hscope₅ hunmoved₂ hsound₅ (hready₂.rewrites hrewrites₁)
      htakes₂ with ⟨m₆, hrun₂, hrewrites₂, hright, -⟩ | ⟨m₆, hrun₂, hrewrites₂, hcause⟩
    · rw [hrun₂]
      refine .exchanged hcells ((hm₂.after hm₄).after (hrewrites₁.trans hrewrites₂)) ?_ hright
      by_cases hsame : c₁ = c₂
      · rw [hsame] at hright ⊢
        exact hright
      · exact (hrewrites₂.read hsame).trans hleft
    · rw [hrun₂]
      have hrewrites := (hrewrites₁.trans hrewrites₂).mono (Set.union_empty _).subset
      refine .halfway hcells ((hm₂.after hm₄).after hrewrites)
        ((hrewrites₂.read (Set.notMem_empty _)).trans hleft) ?_
      rw [hlater]
      exact hcause
  · rw [hrun₁]
    exact .unchanged ((hm₂.after hm₄).after hrewrites₁)

theorem swaps_swap {first second : Target} (hsound : m.memory.store.Sound)
    (hsettled : m.memory.store.Settled) (hsteady : Steady first second m) :
    Swaps m first second (swap first second m) := by
  rw [run_swap]
  split
  · exact .unchanged (.refl _ _)
  rename_i hkind
  simp only [bne_iff_ne, ne_eq, not_not] at hkind
  rw [run_bind]
  rcases hread₁ : value first.toExpr m with ⟨h | a, m₂⟩
  · exact .unchanged (rewrites_value hread₁)
  simp only
  rw [run_bind]
  rcases hread₂ : value second.toExpr m₂ with ⟨h | b, m₄⟩
  · exact .unchanged ((rewrites_value hread₁).after (rewrites_value hread₂))
  exact swaps_assign hsound hsettled hkind hsteady hread₁ hread₂

/-! ## The main result -/

theorem confines_value (letters : Table Kind) (X : Set Cell) (e : Expr) :
    Moves (Machine.Confines letters X) (value e) :=
  fun m _ hsound =>
    ⟨(rewrites_value rfl).mono (Set.empty_subset X),
      Machine.Alters.sound (computes_value e m) hsound⟩

theorem confines_assign {s : Store} (hX : t.cells s ⊆ X) (v : Value) :
    Moves (Machine.Confines s.letters X) (assign t v) := by
  intro m hletters hsound
  refine ⟨(assigns_assign hsound t v).rewrites.mono ?_,
    Machine.Alters.sound (computes_assign t v m) hsound⟩
  rw [Target.cells_congr hletters]
  exact hX

/-- Whatever the subscripts are, only cells of the two targets are rewritten. -/
theorem rewrites_swap (hsound : m.memory.store.Sound) (first second : Target) :
    m.memory.store.Rewrites (first.cells m.memory.store ∪ second.cells m.memory.store)
      (swap first second m).2.memory.store := by
  have hconfines : Moves (Machine.Confines m.memory.store.letters
      (first.cells m.memory.store ∪ second.cells m.memory.store)) (swap first second) := by
    refine moves_get fun m' => moves_ite (moves_refuse _) ?_ m'
    refine (confines_value _ _ _).bind fun a => (confines_value _ _ _).bind fun b => ?_
    exact (confines_assign Set.subset_union_left b).bind fun _ =>
      confines_assign Set.subset_union_right a
  exact (hconfines m rfl hsound).1

/-- **SWAP exchanges two cells.** Whatever the subscripts are, no cell changes but those of the two
targets. If evaluating the subscripts draws no random number and does not look at the clock, and
evaluating those of the second target does not read the cell that the first designates, SWAP
exchanges the values of the cells that the targets designate, or fails and changes nothing. Only
when it runs out of memory with the second value in hand, since the second target is a scalar that
was never set or its subscripts call functions of the program, the first target holds the value of
the second one. -/
theorem swap_exchanges {settings : Settings} {s : Session} (hs : Session.Reached settings s)
    (hm : m.memory.store = s.machine.memory.store) (column : Nat) (first second : Target) :
    m.memory.store.Rewrites (first.cells m.memory.store ∪ second.cells m.memory.store)
      (command column (.swap first second) m).2.memory.store ∧
    (Steady first second m → Swaps m first second (command column (.swap first second) m)) := by
  have hsound := hm ▸ hs.sound
  exact ⟨rewrites_swap hsound first second, swaps_swap hsound (hm ▸ hs.settled)⟩

/-- A program runs on a new machine, and that many turns are over. -/
def ran (settings : Settings) (text : String) : Nat → Session
  | 0 => Session.started
    (Machine.prepare none (Session.loaded false (Machine.load text (.new settings))).machine)
  | n + 1 => (ran settings text n).next

theorem reached_ran {settings : Settings} {text : String} {n : Nat}
    (h : ∀ k < n, (ran settings text k).phase = .running) :
    Session.Reached settings (ran settings text n) := by
  induction n with
  | zero =>
    have hloaded : Session.Reached settings
        (Session.loaded false (Machine.load text (.new settings))) :=
      Session.Reached.loaded (s := Session.init settings) .refl rfl text
    refine hloaded.started ?_ none
    unfold Session.loaded
    split <;> rfl
  | succ n ih =>
    exact (ih fun k hk => h k (Nat.lt_succ_of_lt hk)).next (h n (Nat.lt_succ_self n))

/-- A machine with elements of two arrays, and a function that adds one. -/
def twoElements : Machine :=
  { (ran default "10 A(2)=7:A(3)=1:B(1)=5" 3).machine with
    functions := ⟨[("FNA", ⟨["X"],
      .binary 1 (.arithmetic .add) (.variable 1 "X") (.literal 1 (.single 1.0))⟩)]⟩ }

/-- An element that takes a call to find. -/
def elementByCall : Target := .element 1 "A" [.userCall 1 "FNA" [.literal 1 (.single 1.0)]]

/-- An element whose subscript is an element of the other array. -/
def elementByElement : Target := .element 1 "B" [.element 1 "A" [.literal 1 (.single 3.0)]]

theorem swap_exchanges_twoElements :
    ((command 1 (.swap elementByCall elementByElement) twoElements).2.memory.store.read
      (.element "A" [2])).integer = .ok 5 ∧
    ((command 1 (.swap elementByCall elementByElement) twoElements).2.memory.store.read
      (.element "B" [1])).integer = .ok 7 := by
  have hfacts : (∀ k < 3, (ran default "10 A(2)=7:A(3)=1:B(1)=5" k).phase = .running) ∧
      (command 1 (.swap elementByCall elementByElement) twoElements).1 = .ok () ∧
      (locate elementByCall twoElements).1 = .ok (.element "A" [2]) ∧
      (locate elementByElement (value elementByCall.toExpr twoElements).2).1 =
        .ok (.element "B" [1]) ∧
      (twoElements.memory.store.read (.element "A" [2])).integer = .ok 7 ∧
      (twoElements.memory.store.read (.element "B" [1])).integer = .ok 5 ∧
      .consults true ∉ subscripts elementByCall twoElements ∧
      .consults true ∉ laterSubscripts elementByCall elementByElement twoElements ∧
      .reads (.element "A" [2]) ∉ laterSubscripts elementByCall elementByElement twoElements := by
    decide +kernel
  obtain ⟨hrunning, hok, hcall, helement, hseven, hfive, hfirst, hsecond, hunread⟩ := hfacts
  have hapart : ∀ c, (locate elementByCall twoElements).1 = .ok c →
      .reads c ∉ laterSubscripts elementByCall elementByElement twoElements := by
    intro c hc
    obtain rfl := Except.ok.inj (hcall.symm.trans hc)
    exact hunread
  have hswaps := (swap_exchanges (reached_ran hrunning) (m := twoElements) rfl 1 elementByCall
    elementByElement).2 ⟨hfirst, hsecond, hapart⟩
  rcases hrun : command 1 (.swap elementByCall elementByElement) twoElements with ⟨r, m'⟩
  rw [hrun] at hswaps hok
  cases hswaps with
  | unchanged | halfway => cases hok
  | exchanged cells rewrites left right =>
    obtain ⟨m₁, a, m₂, m₃, hc₁, hread, hc₂⟩ := cells
    rw [hc₁] at hcall
    rw [hread, hc₂] at helement
    obtain rfl := Except.ok.inj hcall
    obtain rfl := Except.ok.inj helement
    rw [left, right]
    exact ⟨hfive, hseven⟩

/-- There is room for one scalar, and it is set. -/
def oneUnit : Session := ran (.ofList [("MEMORY_LIMIT", "1")]) "10 A=1" 1

/-- A scalar is the subscript of an element that was set. -/
def ownSubscript : Session := ran default "10 I=1:A(1)=5" 2

/-- **SWAP can change a variable and then fail**, for want of room, **or succeed without an
exchange**, when the subscript of the second target is the first one. -/
theorem swap_halfway_oneUnit :
    (∃ settings s column first second, Session.Reached settings s ∧
      s.machine.memory.store.kindOf first = s.machine.memory.store.kindOf second ∧
      (command column (.swap (.scalar column first) (.scalar column second)) s.machine).1 =
        .error (.fault (.error (.of .outOfMemory))) ∧
      ¬s.machine.memory.store.Rewrites ∅
        (command column (.swap (.scalar column first) (.scalar column second))
          s.machine).2.memory.store) ∧
    ∃ settings s column first second c₁ c₂, Session.Reached settings s ∧
      Designate s.machine first second c₁ c₂ ∧
      (command column (.swap first second) s.machine).1 = .ok () ∧
      (command column (.swap first second) s.machine).2.memory.store.read c₂ ≠
        s.machine.memory.store.read c₁ := by
  constructor
  · have hfacts : (∀ k < 1, (ran (.ofList [("MEMORY_LIMIT", "1")]) "10 A=1" k).phase = .running) ∧
        oneUnit.machine.memory.store.kindOf "A" = oneUnit.machine.memory.store.kindOf "B" ∧
        (command 1 (.swap (.scalar 1 "A") (.scalar 1 "B")) oneUnit.machine).1 =
          .error (.fault (.error (.of .outOfMemory))) ∧
        (oneUnit.machine.memory.store.read (.scalar "A")).integer = .ok 1 ∧
        ((command 1 (.swap (.scalar 1 "A") (.scalar 1 "B")) oneUnit.machine).2.memory.store.read
          (.scalar "A")).integer = .ok 0 := by
      decide +kernel
    obtain ⟨hrunning, hkind, hfull, hone, hzero⟩ := hfacts
    refine ⟨_, oneUnit, 1, "A", "B", reached_ran hrunning, hkind, hfull, fun hrewrites => ?_⟩
    rw [hrewrites.read (Set.notMem_empty _), hone] at hzero
    cases hzero
  · have hfacts : (∀ k < 2, (ran default "10 I=1:A(1)=5" k).phase = .running) ∧
        (locate (.element 1 "A" [.variable 1 "I"]) ownSubscript.machine).1 =
          .ok (.element "A" [1]) ∧
        (command 1 (.swap (.scalar 1 "I") (.element 1 "A" [.variable 1 "I"]))
          ownSubscript.machine).1 = .ok () ∧
        ((command 1 (.swap (.scalar 1 "I") (.element 1 "A" [.variable 1 "I"]))
          ownSubscript.machine).2.memory.store.read (.element "A" [1])).integer = .ok 5 ∧
        (ownSubscript.machine.memory.store.read
          (.scalar (ownSubscript.machine.memory.store.resolve "I"))).integer = .ok 1 := by
      decide +kernel
    obtain ⟨hrunning, hsecond, hok, hfive, hone⟩ := hfacts
    refine ⟨_, ownSubscript, 1, .scalar 1 "I", .element 1 "A" [.variable 1 "I"], _, _,
      reached_ran hrunning, .of_scalar (Prod.ext hsecond rfl), hok, fun heq => ?_⟩
    rw [heq, hone] at hfive
    cases hfive

end Exec

end LineBasic
