import Mathlib
import LineBasic.Proofs.Cells

/-!
# Expressions that keep their value

Once an expression was evaluated it has the same value again, and evaluating it changes nothing, as
long as the cells that it reads are not rewritten and neither random numbers nor the clock have a
part in it. With functions of the program there is one more way to fail: the memory may have no room
for their parameters any more.

* `evaluate_mono`, `evaluateAll_mono`: more room changes no value.
* `Unmoved`: nothing has changed that an evaluation depends on.
* `Repeats`, `repeats_observe`, `repeats_observeAll`: the main result.
-/

namespace LineBasic

/-! ## More room -/

theorem Store.reach_mono {cells room room' dims : Nat} {s s' : Store} {name : String} {g : Grid}
    (hroom : room ≤ room') (h : s.reach cells room name dims = (.ok g, s')) :
    s.reach cells room' name dims = (.ok g, s') := by
  unfold reach at h ⊢
  simp only at h ⊢
  split at h
  · exact h
  · unfold addGrid at h ⊢
    split at h
    · cases h
    · rw [if_neg (by omega)]
      cases hreserve : s.reserve (Grid.sizeOf (List.replicate dims defaultBound)) with
      | error e =>
        rw [hreserve] at h
        cases h
      | ok s₁ =>
        rw [hreserve] at h
        simp only at h ⊢
        unfold makeGrid at h ⊢
        split_ifs at h with hdeep hrange hmemory
        · cases h
        · cases h
        · cases h
        · rw [if_neg (by omega), if_neg hrange, if_neg hmemory]
          exact h

theorem Store.getElement_mono {cells room room' : Nat} {s s' : Store} {name : String}
    {vs : List Value} {v : Value} (hroom : room ≤ room')
    (h : s.getElement cells room name vs = (.ok v, s')) :
    s.getElement cells room' name vs = (.ok v, s') := by
  unfold getElement at h ⊢
  split at h
  · cases h
  · rename_i is _
    rcases hreach : s.reach cells (room - 1) name is.length with ⟨f | g, s₁⟩
    · rw [hreach] at h
      cases h
    · rw [hreach] at h
      simp only [reach_mono (Nat.sub_le_sub_right hroom 1) hreach]
      exact h

namespace Eval

variable {α β : Type} {scope : Scope} {m m' : Memory} {room room' : Nat}

/-- One evaluation has every value that another has. -/
def Extends (scope : Scope) (x y : Eval α) : Prop :=
  ∀ m m' a, x scope m = (.ok a, m') → y scope m = (.ok a, m')

theorem Extends.bind {x y : Eval α} {f g : α → Eval β} (hx : Extends scope x y)
    (hf : ∀ a, Extends scope (f a) (g a)) : Extends scope (x >>= f) (y >>= g) := by
  intro m m' b h
  obtain ⟨a, m₁, hfirst, hrest⟩ := run_bind_eq_ok h
  rw [run_bind, hx m m₁ a hfirst]
  exact hf a m₁ m' b hrest

theorem Extends.refl (x : Eval α) : Extends scope x x := fun _ _ _ h => h

theorem Extends.mapM {f g : α → Eval β} (h : ∀ a, Extends scope (f a) (g a)) (as : List α) :
    Extends scope (as.mapM f) (as.mapM g) := by
  induction as with
  | nil => exact .refl _
  | cons a as ih =>
    rw [List.mapM_cons, List.mapM_cons]
    exact (h a).bind fun b => ih.bind fun bs => .refl _

section

variable (hroom : room ≤ room')
include hroom

theorem extends_within (calls : Nat) : Extends scope (within calls room) (within calls room') := by
  intro m m' u h
  rw [run_within] at h ⊢
  split_ifs at h with hdeep
  · cases h
  · rw [if_neg (by omega)]
    exact h

theorem extends_element (name : String) (vs : List Value) :
    Extends scope (element room name vs) (element room' name vs) := by
  intro m m' v h
  rw [run_element] at h ⊢
  split_ifs at h with hdeep
  · cases h
  · obtain ⟨hv, rfl⟩ := Prod.mk.inj h
    rw [if_neg (by omega), Store.getElement_mono hroom (Prod.ext hv rfl)]

theorem extends_builtin (f : Builtin) (args : List Value) :
    Extends scope (builtin room f args) (builtin room' f args) := by
  intro m m' v h
  rw [run_builtin] at h ⊢
  by_cases hdeep : room < f.firstCalls
  · rw [if_pos hdeep] at h
    cases h
  rw [if_neg hdeep] at h
  rw [if_neg (by omega)]
  cases hcall : f.call m.clock.now scope.column args m.random with
  | error e =>
    rw [hcall] at h
    cases h
  | ok r =>
    rw [hcall] at h
    simp only at h ⊢
    obtain ⟨hv, rfl⟩ := Prod.mk.inj h
    by_cases hdeeper : room < f.calls
    · rw [if_pos hdeeper] at hv
      cases hv
    · rw [if_neg hdeeper] at hv
      rw [if_neg (by omega), hv]

theorem extends_checkStack : Extends scope (checkStack room) (checkStack room') := by
  intro m m' u h
  rw [run_checkStack] at h ⊢
  split_ifs at h with hdeep hfull
  · cases h
  · cases h
  · rw [if_neg (by omega), if_neg hfull]
    exact h

theorem extends_bindParams (args : List (String × Value)) :
    Extends scope (bindParams room args) (bindParams room' args) := by
  induction args with
  | nil => exact .refl _
  | cons arg args ih =>
    intro m m' u h
    rw [run_bindParams_cons] at h ⊢
    split_ifs at h with hdeep
    · cases h
    · rw [if_neg (by omega)]
      cases hset : m.store.set arg.1 arg.2 with
      | error e =>
        rw [hset] at h
        cases h
      | ok store =>
        rw [hset] at h
        exact ih _ _ _ h

theorem extends_inCall {x y : Eval Value} (h : Extends scope x y) (params : List String)
    (args : List Value) :
    Extends scope (inCall room params args x) (inCall room' params args y) := by
  have hinside : Extends scope (inside room params args x) (inside room' params args y) :=
    (extends_bindParams hroom _).bind fun _ => h
  intro m m' v hrun
  rw [run_inCall] at hrun ⊢
  by_cases hdeep : room < if params.isEmpty then 1 else 3
  · rw [if_pos hdeep] at hrun
    cases hrun
  · rw [if_neg hdeep] at hrun
    obtain ⟨hv, rfl⟩ := Prod.mk.inj hrun
    rw [if_neg (by omega), hinside _ _ _ (Prod.ext hv rfl)]

theorem extends_coerced (name : String) (v : Value) :
    Extends scope (coerced room name v) (coerced room' name v) := by
  intro m m' w h
  rw [run_coerced] at h ⊢
  split_ifs at h with hdeep
  · cases h
  · rw [if_neg (by omega)]
    exact h

end

theorem extends_evaluateAll {es : List Expr} (hroom : room ≤ room')
    (h : ∀ k < room, ∀ k', k ≤ k' → ∀ e, Extends scope (evaluate k e) (evaluate k' e)) :
    Extends scope (evaluateAll room es) (evaluateAll room' es) := by
  cases room with
  | zero => exact nofun
  | succ room =>
    obtain ⟨room', rfl⟩ := Nat.exists_eq_add_of_le' (Nat.one_le_of_lt hroom)
    rw [evaluateAll_succ, evaluateAll_succ]
    exact .mapM (fun e => h room (Nat.lt_succ_self _) room' (Nat.le_of_succ_le_succ hroom) e) es

end Eval

open Eval in
/-- More room changes no value. -/
theorem evaluate_mono {scope : Scope} {room room' : Nat} (h : room ≤ room') (e : Expr) :
    Extends scope (evaluate room e) (evaluate room' e) := by
  induction room using Nat.strong_induction_on generalizing room' e with
  | _ room ih =>
    rcases room with _ | _ | room
    · exact nofun
    · exact nofun
    · obtain ⟨room', rfl⟩ := Nat.exists_eq_add_of_le' (Nat.le_of_add_left_le h : 2 ≤ room')
      have hroom : room ≤ room' := by omega
      have hpart : ∀ e, Extends scope (evaluate room e) (evaluate room' e) :=
        ih room (by omega) hroom
      have hall : ∀ es, Extends scope (evaluateAll room es) (evaluateAll room' es) :=
        fun es => extends_evaluateAll hroom fun k hk k' hk' e => ih k (by omega) hk' e
      cases e with
      | literal => exact .refl _
      | «variable» column name =>
        rw [evaluate, evaluate]
        exact (extends_within hroom 3).bind fun _ => .refl _
      | element column name indices =>
        rw [evaluate, evaluate]
        exact (hall indices).bind fun vs => extends_element hroom name vs
      | unary column op e =>
        rw [evaluate, evaluate]
        exact (hpart e).bind fun _ => (extends_within hroom _).bind fun _ => .refl _
      | binary column op left right =>
        rw [evaluate, evaluate]
        refine (hpart left).bind fun _ => (hpart right).bind fun _ => ?_
        exact (extends_within hroom _).bind fun _ => .refl _
      | call column f args =>
        rw [evaluate, evaluate]
        exact (hall args).bind fun vs => extends_builtin hroom f vs
      | userCall column name args =>
        intro m m' v
        rw [evaluate_userCall, evaluate_userCall]
        cases hdefined : scope.functions.get? name with
        | none => exact id
        | some f =>
          simp only
          split
          · exact id
          · refine ((hall args).bind fun vs => (extends_checkStack hroom).bind fun _ => ?_) m m' v
            exact (extends_inCall hroom (hpart f.body) _ vs).bind fun v =>
              extends_coerced hroom name v

theorem evaluateAll_mono {scope : Scope} {room room' : Nat} (h : room ≤ room') (es : List Expr) :
    Eval.Extends scope (evaluateAll room es) (evaluateAll room' es) :=
  Eval.extends_evaluateAll h fun _ _ _ hk e => evaluate_mono hk e

/-! ## The same value again -/

/-- An evaluation has led from a memory to another one, with this record. In the memory `n` nothing
is different that it depends on: only cells that it did not read, and the random numbers if it had
nothing to do with them. -/
structure Unmoved (seen : List Moment) (m m' n : Memory) : Prop where
  store : m'.store.Rewrites {c | .reads c ∉ seen} n.store
  calls : n.calls = m.calls
  random : n.random = m.random ∨ ∀ varies, .consults varies ∉ seen

/-- Once the evaluation has a value, without drawing a random number or looking at the clock, it has
it again where nothing is different that it depends on, and leaves the memory as it is. Only calls
may find no room for their parameters. -/
structure Repeats {α : Type} (scope : Scope) (x : Observed α) : Prop where
  frames {m m' : Memory} {a : α} {seen : List Moment} (run : x scope m = ((.ok a, m'), seen)) :
    m.Frames (fun _ _ => True) none m'
  unvaried {m m' : Memory} {a : α} {seen : List Moment} (run : x scope m = ((.ok a, m'), seen))
    (steady : .consults true ∉ seen) : m'.random = m.random
  again {m m' n : Memory} {a : α} {seen : List Moment} (run : x scope m = ((.ok a, m'), seen))
    (steady : .consults true ∉ seen) (unmoved : Unmoved seen m m' n) :
    (x scope n).1 = (.ok a, n) ∨
      .opens ∈ seen ∧ (x scope n).1.1 = .error (.error (.of .outOfMemory))

namespace Observed

variable {α β : Type} {scope : Scope}

theorem run_bind_eq_ok {x : Observed α} {f : α → Observed β} {m m' : Memory} {b : β}
    {seen : List Moment} (h : (x >>= f) scope m = ((.ok b, m'), seen)) :
    ∃ a m₁ seen₁ seen₂, x scope m = ((.ok a, m₁), seen₁) ∧ f a scope m₁ = ((.ok b, m'), seen₂) ∧
      seen = seen₁ ++ seen₂ := by
  rw [run_bind] at h
  rcases hrun : x scope m with ⟨⟨e | a, m₁⟩, seen₁⟩
  · rw [hrun] at h
    cases h
  · rw [hrun] at h
    obtain ⟨hfirst, rfl⟩ := Prod.mk.inj h
    exact ⟨a, m₁, seen₁, _, rfl, Prod.ext hfirst rfl, rfl⟩

theorem step_eq_ok {notes : Memory → Memory → List Moment} {x : Eval α} {m m' : Memory} {a : α}
    {seen : List Moment} (h : step notes x scope m = ((.ok a, m'), seen)) :
    x scope m = (.ok a, m') ∧ seen = notes m m' ++ [.passes m'] := by
  obtain ⟨hrun, rfl⟩ := Prod.mk.inj h
  exact ⟨hrun, by rw [hrun]⟩

theorem fst_bind_of_ok {x : Observed α} {f : α → Observed β} {m m' : Memory} {a : α}
    (h : (x scope m).1 = (.ok a, m')) : ((x >>= f) scope m).1 = (f a scope m').1 := by
  rw [run_bind]
  rcases hrun : x scope m with ⟨r, seen⟩
  rw [hrun] at h
  obtain rfl : r = (.ok a, m') := h
  rfl

theorem fst_bind_of_error {x : Observed α} {f : α → Observed β} {m : Memory} {e : Fault}
    (h : (x scope m).1.1 = .error e) : ((x >>= f) scope m).1.1 = .error e := by
  rw [run_bind]
  rcases hrun : x scope m with ⟨⟨r, m'⟩, seen⟩
  rw [hrun] at h
  obtain rfl : r = .error e := h
  rfl

end Observed

namespace Repeats

open Observed

variable {α β : Type} {scope : Scope}

theorem bind {x : Observed α} {f : α → Observed β} (hx : Repeats scope x)
    (hf : ∀ m m' a seen, x scope m = ((.ok a, m'), seen) → Repeats scope (f a)) :
    Repeats scope (x >>= f) where
  frames h := by
    obtain ⟨a, m₁, seen₁, seen₂, hfirst, hrest, -⟩ := run_bind_eq_ok h
    exact (hx.frames hfirst).trans ((hf _ _ _ _ hfirst).frames hrest)
  unvaried h steady := by
    obtain ⟨a, m₁, seen₁, seen₂, hfirst, hrest, rfl⟩ := run_bind_eq_ok h
    rw [List.mem_append, not_or] at steady
    exact ((hf _ _ _ _ hfirst).unvaried hrest steady.2).trans (hx.unvaried hfirst steady.1)
  again {m m' n b seen} h steady unmoved := by
    obtain ⟨a, m₁, seen₁, seen₂, hfirst, hrest, rfl⟩ := run_bind_eq_ok h
    rw [List.mem_append, not_or] at steady
    have hframes := hx.frames hfirst
    have hlater := (hf _ _ _ _ hfirst).frames hrest
    -- what follows rewrites nothing, so the first part is repeated too
    have hunmoved₁ : Unmoved seen₁ m m₁ n :=
      ⟨(hlater.store.rewrites.after unmoved.store).mono fun c hc hread =>
          hc (List.mem_append_left _ hread),
        unmoved.calls,
        unmoved.random.imp_right fun h varies hmem => h varies (List.mem_append_left _ hmem)⟩
    have hunmoved₂ : Unmoved seen₂ m₁ m' n :=
      ⟨unmoved.store.mono fun c hc hread => hc (List.mem_append_right _ hread),
        unmoved.calls.trans hframes.calls.symm,
        unmoved.random.imp (fun h => h.trans (hx.unvaried hfirst steady.1).symm)
          fun h varies hmem => h varies (List.mem_append_right _ hmem)⟩
    rcases hx.again hfirst steady.1 hunmoved₁ with hagain | ⟨hopens, hfull⟩
    · rw [fst_bind_of_ok hagain]
      exact ((hf _ _ _ _ hfirst).again hrest steady.2 hunmoved₂).imp_right fun h =>
        ⟨List.mem_append_right _ h.1, h.2⟩
    · exact .inr ⟨List.mem_append_left _ hopens, fst_bind_of_error hfull⟩

/-- A step that does not look at the memory, or only at what stays the same. -/
theorem of_result {x : Eval α} {r : Memory → Except Fault α} (hrun : ∀ m, x scope m = (r m, m))
    (hr : ∀ m n, n.store.letters = m.store.letters → n.calls = m.calls → r n = r m) :
    Repeats scope (plain x) where
  frames {m m' a seen} h := by
    obtain ⟨-, rfl⟩ := Prod.mk.inj ((hrun m).symm.trans (step_eq_ok h).1)
    exact .refl _ _
  unvaried {m m' a seen} h _ := by
    obtain ⟨-, rfl⟩ := Prod.mk.inj ((hrun m).symm.trans (step_eq_ok h).1)
    rfl
  again {m m' n a seen} h _ unmoved := by
    obtain ⟨hvalue, rfl⟩ := Prod.mk.inj ((hrun m).symm.trans (step_eq_ok h).1)
    refine .inl ?_
    change x scope n = _
    rw [hrun, hr m n unmoved.store.letters unmoved.calls, hvalue]

theorem congr {x y : Observed α} (hxy : ∀ m, x scope m = y scope m) (hy : Repeats scope y) :
    Repeats scope x where
  frames h := hy.frames ((hxy _).symm.trans h)
  unvaried h := hy.unvaried ((hxy _).symm.trans h)
  again {_ _ n _ _} h := by
    rw [hxy n]
    exact hy.again ((hxy _).symm.trans h)

theorem of_const {x : Eval α} {r : Except Fault α} (hrun : ∀ m, x scope m = (r, m)) :
    Repeats scope (plain x) :=
  of_result hrun fun _ _ _ _ => rfl

end Repeats

namespace Observed

variable {α : Type} {scope : Scope}

theorem repeats_pure (a : α) : Repeats scope (pure a : Observed α) where
  frames h := by
    obtain ⟨-, rfl⟩ := Prod.mk.inj (Prod.mk.inj h).1
    exact .refl _ _
  unvaried h _ := by
    obtain ⟨-, rfl⟩ := Prod.mk.inj (Prod.mk.inj h).1
    rfl
  again {_ _ n _ _} h _ _ := by
    obtain ⟨hvalue, -⟩ := Prod.mk.inj (Prod.mk.inj h).1
    exact .inl (congrArg (·, n) hvalue)

theorem repeats_each {f : Expr → Observed Value} {es : List Expr}
    (h : ∀ e ∈ es, Repeats scope (f e)) : Repeats scope (each f es) := by
  induction es with
  | nil => exact repeats_pure []
  | cons e es ih =>
    refine (h e List.mem_cons_self).bind fun _ _ v _ _ => ?_
    exact (ih fun e' he' => h e' (List.mem_cons_of_mem _ he')).bind fun _ _ vs _ _ =>
      repeats_pure _

theorem repeats_within_lift (calls room : Nat) (x : Except Fault α) :
    Repeats scope (plain do Eval.within calls room; Eval.liftFault x) := by
  refine .of_const (r := if room < calls then .error (.error (.of .stackOverflow)) else x)
    fun m => ?_
  rw [Eval.run_within_bind]
  split
  · rfl
  · exact Eval.run_liftFault x scope m

theorem repeats_checkStack (room : Nat) : Repeats scope (plain (Eval.checkStack room)) := by
  refine .of_result (r := fun m => if room < 2 then .error (.error (.of .stackOverflow))
    else if scope.stackLimit ≤ scope.frames + m.calls then .error (.error (.of .stackOverflow))
    else .ok ()) (fun m => ?_) fun m n _ hcalls => by rw [hcalls]
  rw [Eval.run_checkStack]
  split_ifs <;> rfl

theorem repeats_coerced (room : Nat) (name : String) (v : Value) :
    Repeats scope (plain (Eval.coerced room name v)) := by
  refine .of_result (r := fun m =>
    if room < (m.store.kindOf name).calls then .error (.error (.of .stackOverflow))
    else orFault ((m.store.kindOf name).coerce v)) (fun m => ?_) fun m n hletters _ => ?_
  · rw [Eval.run_coerced, Eval.run_lift]
    split_ifs
    · rfl
    · cases (m.store.kindOf name).coerce v <;> rfl
  · unfold Store.kindOf
    rw [Store.resolve_congr hletters]

theorem repeats_scalar (room : Nat) (name : String) : Repeats scope (scalar room name) := by
  have hrun : ∀ {m m' a seen}, scalar room name scope m = ((.ok a, m'), seen) →
      ¬room < 3 ∧ a = m.store.get name ∧ m' = m ∧
      .reads (.scalar (m.store.resolve name)) ∈ seen := by
    intro m m' a seen h
    obtain ⟨hscalar, rfl⟩ := step_eq_ok h
    rw [Eval.run_scalar] at hscalar
    split_ifs at hscalar with hroom
    · cases hscalar
    · obtain ⟨hvalue, rfl⟩ := Prod.mk.inj hscalar
      exact ⟨hroom, (Except.ok.inj hvalue).symm, rfl, List.mem_cons_self⟩
  refine ⟨fun h => ?_, fun h _ => ?_, fun {m m' n a seen} h _ unmoved => .inl ?_⟩
  · obtain ⟨-, -, rfl, -⟩ := hrun h
    exact .refl _ _
  · obtain ⟨-, -, rfl, -⟩ := hrun h
    rfl
  · obtain ⟨hroom, rfl, rfl, hread⟩ := hrun h
    have hsame : n.store.get name = m'.store.get name := by
      have hc : Cell.scalar (m'.store.resolve name) ∉ {c | Moment.reads c ∉ seen} :=
        fun hc => hc hread
      change n.store.read (.scalar (n.store.resolve name)) = _
      rw [Store.resolve_congr unmoved.store.letters, unmoved.store.read hc]
      rfl
    change Eval.scalar room name scope n = _
    rw [Eval.run_scalar, if_neg hroom, hsame]

theorem repeats_element (room : Nat) (name : String) (vs : List Value) :
    Repeats scope (element room name vs) := by
  have hrun : ∀ {m m' a seen}, element room name vs scope m = ((.ok a, m'), seen) →
      ¬room < 4 ∧ m.store.getElement scope.cells room name vs = (.ok a, m'.store) ∧
        m' = { m with store := m'.store } ∧ seen = elementNotes name vs m m' ++ [.passes m'] := by
    intro m m' a seen h
    obtain ⟨helement, hseen⟩ := step_eq_ok h
    rw [Eval.run_element] at helement
    split_ifs at helement with hroom
    · cases helement
    · obtain ⟨hvalue, rfl⟩ := Prod.mk.inj helement
      exact ⟨hroom, Prod.ext hvalue rfl, rfl, hseen⟩
  refine ⟨fun {m m' a seen} h => ?_, fun h _ => ?_, fun {m m' n a seen} h _ unmoved => .inl ?_⟩
  · exact @Eval.Framed.ok _ scope (fun _ _ => True) _ (Eval.framed_element room trivial) m m' a
      (Prod.mk.inj h).1
  · obtain ⟨-, -, hm', -⟩ := hrun h
    rw [hm']
  · obtain ⟨hroom, hget, hm', rfl⟩ := hrun h
    obtain ⟨is, hindices, hhas, hvalue⟩ := Store.getElement_eq_ok hget
    have hletters : m'.store.letters = m.store.letters := by
      have hrewrites := Store.rewrites_getElement scope.cells room name vs (s := m.store)
      rw [hget] at hrewrites
      exact hrewrites.letters
    have hkey : n.store.resolve name = m.store.resolve name :=
      Store.resolve_congr (unmoved.store.letters.trans hletters) name
    -- the record has the element that was read
    have hread : Cell.element (m.store.resolve name) is ∉
        {c | Moment.reads c ∉ elementNotes name vs m m' ++ [.passes m']} := by
      intro hc
      refine hc (List.mem_append_left _ ?_)
      rw [elementNotes, hindices]
      exact List.mem_cons_self
    have hhas' := hhas.rewrites unmoved.store
    rw [← hkey] at hhas'
    change Eval.element room name vs scope n = _
    rw [Eval.run_element, if_neg hroom, Store.getElement_of_has hindices hhas', hkey,
      unmoved.store.read hread, ← hvalue]

end Observed

namespace Builtin

/-- The clock has a part in the value of those functions only that look at it. -/
theorem apply_congr {f : Builtin} (hf : f.looksAtClock = false) (now now' : Instant) (column : Nat)
    (args : List Value) : f.apply now column args = f.apply now' column args := by
  rcases args with _ | ⟨a, _ | ⟨b, _ | ⟨c, _ | ⟨d, rest⟩⟩⟩⟩ <;> cases f <;> first | rfl | cases hf

theorem call_congr {f : Builtin} (hf : f.looksAtClock = false) (now now' : Instant) (column : Nat)
    (args : List Value) (r : Random) : f.call now column args r = f.call now' column args r := by
  unfold call
  rw [apply_congr hf now now']

/-- Any function but RND has a value of its own, and leaves the random numbers alone. -/
theorem call_again {f : Builtin} (hf : f ≠ .rnd) {now : Instant} {column : Nat} {args : List Value}
    {r r' : Random} {v : Value} (h : f.call now column args r = .ok (v, r')) :
    r' = r ∧ ∀ r₁, f.call now column args r₁ = .ok (v, r₁) := by
  unfold Builtin.call at h ⊢
  by_cases haccepts : (!f.accepts args.length) = true
  · rw [if_pos haccepts] at h
    cases h
  · rw [if_neg haccepts, if_neg hf] at h
    obtain ⟨u, hdomain, h⟩ := ok_of_bind h
    obtain ⟨w, hvalue, h⟩ := ok_of_bind h
    obtain ⟨rfl, rfl⟩ := Prod.mk.inj (Except.ok.inj h)
    refine ⟨rfl, fun r₁ => ?_⟩
    rw [if_neg haccepts, if_neg hf, hdomain]
    change (orFault (f.apply now column args) >>= fun v => pure (v, r₁)) = _
    rw [hvalue]
    rfl

end Builtin

namespace Observed

variable {scope : Scope}

/-- What is left of the memory when a function has a value. -/
theorem builtin_eq_ok {room : Nat} {f : Builtin} {args : List Value} {m m' : Memory} {v : Value}
    (h : Eval.builtin room f args scope m = (.ok v, m')) :
    ¬room < f.firstCalls ∧ ¬room < f.calls ∧
      f.call m.clock.now scope.column args m.random = .ok (v, m'.random) := by
  rw [Eval.run_builtin] at h
  by_cases hfirst : room < f.firstCalls
  · rw [if_pos hfirst] at h
    cases h
  rw [if_neg hfirst] at h
  cases hcall : f.call m.clock.now scope.column args m.random with
  | error e =>
    rw [hcall] at h
    cases h
  | ok r =>
    rw [hcall] at h
    simp only at h
    obtain ⟨hv, rfl⟩ := Prod.mk.inj h
    by_cases hcalls : room < f.calls
    · rw [if_pos hcalls] at hv
      cases hv
    · rw [if_neg hcalls] at hv
      obtain rfl := Except.ok.inj hv
      exact ⟨hfirst, hcalls, rfl⟩

theorem builtin_of_call {room : Nat} {f : Builtin} {args : List Value} {n : Memory} {v : Value}
    (hfirst : ¬room < f.firstCalls) (hcalls : ¬room < f.calls) (hclock : f.looksAtClock = false)
    (hcall : f.call n.clock.now scope.column args n.random = .ok (v, n.random)) :
    Eval.builtin room f args scope n = (.ok v, n) := by
  rw [Eval.run_builtin, if_neg hfirst, hcall]
  simp only [if_neg hcalls, hclock]
  rfl

theorem repeats_builtin (room : Nat) (f : Builtin) (args : List Value) :
    Repeats scope (builtin room f args) := by
  -- RND may repeat a number, but nothing else that varies may happen
  have hsteady : ∀ {m m' a seen}, builtin room f args scope m = ((.ok a, m'), seen) →
      .consults true ∉ seen → f.looksAtClock = false ∧ m'.random = m.random ∧
        (f = .rnd → .consults false ∈ seen) := by
    intro m m' a seen h steady
    obtain ⟨hrun, rfl⟩ := step_eq_ok h
    obtain ⟨-, -, hcall⟩ := builtin_eq_ok hrun
    by_cases hconsults : f = .rnd ∨ f.looksAtClock
    · have hnotes : builtinNotes f m m' =
          [.consults (f.looksAtClock || decide (m'.random ≠ m.random))] := if_pos hconsults
      rw [hnotes] at steady ⊢
      cases hvaries : f.looksAtClock || decide (m'.random ≠ m.random) with
      | true =>
        rw [hvaries] at steady
        exact absurd List.mem_cons_self steady
      | false =>
        rw [Bool.or_eq_false_iff, decide_eq_false_iff_not, not_not] at hvaries
        exact ⟨hvaries.1, hvaries.2, fun _ => List.mem_cons_self⟩
    · rw [not_or, Bool.not_eq_true] at hconsults
      exact ⟨hconsults.2, (Builtin.call_again hconsults.1 hcall).1, fun hrnd =>
        absurd hrnd hconsults.1⟩
  refine ⟨fun {m m' a seen} h => ?_, fun h steady => (hsteady h steady).2.1,
    fun {m m' n a seen} h steady unmoved => .inl ?_⟩
  · exact @Eval.Framed.ok _ scope (fun _ _ => True) _ (Eval.framed_builtin room f args) m m' a
      (step_eq_ok h).1
  · obtain ⟨hclock, hrandom, hrnd⟩ := hsteady h steady
    obtain ⟨hfirst, hcalls, hcall⟩ := builtin_eq_ok (step_eq_ok h).1
    rw [Builtin.call_congr hclock _ n.clock.now] at hcall
    refine builtin_of_call hfirst hcalls hclock ?_
    by_cases hf : f = .rnd
    · have hsame : n.random = m.random := unmoved.random.resolve_right fun hnone =>
        hnone false (hrnd hf)
      rw [hsame, hcall, hrandom]
    · exact (Builtin.call_again hf hcall).2 n.random

/-! ### Calls of functions -/

/-- The scalars of the parameters. -/
def paramCells (s : Store) (params : List String) : Set Cell :=
  {c | ∃ name ∈ params, c = .scalar (s.resolve name)}

theorem random_bindParams (room : Nat) (args : List (String × Value)) (m : Memory) :
    (Eval.bindParams room args scope m).2.random = m.random := by
  induction args generalizing m with
  | nil => rfl
  | cons arg args ih =>
    rw [Eval.run_bindParams_cons]
    split
    · rfl
    · cases m.store.set arg.1 arg.2 with
      | error e => rfl
      | ok store => exact ih { m with store }

/-- Parameters take the same arguments again, unless there is no room. Then they are not among what
differs. -/
theorem bindParams_again {room : Nat} {args : List (String × Value)} {m m' n : Memory}
    {X : Set Cell} (hrun : Eval.bindParams room args scope m = (.ok (), m'))
    (h : m.store.Rewrites X n.store) :
    (∃ store, Eval.bindParams room args scope n = (.ok (), { n with store }) ∧
      store.arrays = n.store.arrays ∧
      m'.store.Rewrites (X \ paramCells m.store (args.map Prod.fst)) store) ∨
    (Eval.bindParams room args scope n).1 = .error (.error (.of .outOfMemory)) := by
  induction args generalizing m n X with
  | nil =>
    obtain ⟨-, rfl⟩ := Prod.mk.inj (hrun : (Except.ok (), m) = _)
    exact .inl ⟨_, rfl, rfl, h.mono fun c hc => ⟨hc, nofun⟩⟩
  | cons arg args ih =>
    obtain ⟨name, v⟩ := arg
    have hkind : n.store.kindOf name = m.store.kindOf name := by
      unfold Store.kindOf
      rw [Store.resolve_congr h.letters]
    rw [Eval.run_bindParams_cons] at hrun ⊢
    split_ifs at hrun with hroom
    · cases hrun
    rw [hkind, if_neg hroom]
    cases hset : m.store.set name v with
    | error e =>
      rw [hset] at hrun
      cases hrun
    | ok s =>
      rw [hset] at hrun
      have hletters : s.letters = m.store.letters :=
        (Store.rewrites_set hset).choose_spec.2.1.letters
      rcases Store.set_again hset h with ⟨s₁, hset₁, harrays, hagain⟩ | hfull
      · rw [hset₁]
        rcases ih (n := { n with store := s₁ }) hrun hagain with
          ⟨store, hbound, harrays', hrest⟩ | hfull
        · refine .inl ⟨store, hbound, harrays'.trans harrays, hrest.mono ?_⟩
          rintro c ⟨⟨hc, hne⟩, hparam⟩
          refine ⟨hc, fun ⟨name', hmem, heq⟩ => ?_⟩
          rcases List.mem_cons.mp hmem with rfl | hmem
          · exact hne heq
          · exact hparam ⟨name', hmem, by rw [Store.resolve_congr hletters]; exact heq⟩
        · exact .inr hfull
      · rw [hfull]
        exact .inr rfl

theorem arrays_unbindParams (saved : List (String × Option Value)) (store : Store) :
    (Eval.unbindParams saved store).arrays = store.arrays := by
  unfold Eval.unbindParams
  induction saved generalizing store with
  | nil => rfl
  | cons e saved ih =>
    refine (ih _).trans ?_
    obtain ⟨name, v⟩ := e
    cases v with
    | some v => rfl
    | none =>
      simp only [Store.restore, Store.delete]
      split <;> rfl

/-- What a call with a value comes to, and what its record has of the body's. -/
theorem inCall_eq_ok {room : Nat} {params : List String} {args : List Value} {w : Observed Value}
    {m m' : Memory} {v : Value} {seen : List Moment}
    (h : inCall room params args w scope m = ((.ok v, m'), seen)) :
    ¬room < (if params.isEmpty then 1 else 3) ∧ ∃ mᵢ mₒ seenᵢ,
      Eval.bindParams room (params.zip args) scope { m with calls := m.calls + 1 } = (.ok (), mᵢ) ∧
      w scope mᵢ = ((.ok v, mₒ), seenᵢ) ∧
      m' = { mₒ with
        calls := mₒ.calls - 1
        store := Eval.unbindParams (params.map fun name => (name, m.store.snapshot name))
          mₒ.store } ∧
      .opens ∈ seen ∧ (∀ varies, .consults varies ∈ seenᵢ → .consults varies ∈ seen) ∧
      ∀ c, .reads c ∈ seenᵢ → c ∉ paramCells m.store params → .reads c ∈ seen := by
  unfold inCall at h
  by_cases hroom : room < if params.isEmpty then 1 else 3
  · rw [if_pos hroom] at h
    cases h
  rw [if_neg hroom] at h
  rcases hinside : inside room params args w scope { m with calls := m.calls + 1 } with
    ⟨⟨r, mₒ⟩, seen'⟩
  simp only [hinside] at h
  obtain ⟨hresult, rfl⟩ := Prod.mk.inj h
  obtain ⟨rfl, rfl⟩ := Prod.mk.inj hresult
  obtain ⟨u, mᵢ, seenₚ, seenᵢ, hbind, hbody, rfl⟩ := run_bind_eq_ok hinside
  have hbind' := observes_bindParams room (params.zip args) scope { m with calls := m.calls + 1 }
  rw [hbind] at hbind'
  -- the record of the body is kept, but for what it reads from the parameters
  have hkept : ∀ e ∈ seenᵢ, e.readsAny (params.map m.store.resolve) = false →
      e ∈ .opens :: .passes { m with calls := m.calls + 1 } ::
        (seenₚ ++ seenᵢ).filter fun e => !e.readsAny (params.map m.store.resolve) := by
    intro e he hvisible
    refine List.mem_cons_of_mem _ (List.mem_cons_of_mem _ (List.mem_filter.mpr ⟨?_, ?_⟩))
    · exact List.mem_append_right _ he
    · rw [hvisible]
      rfl
  refine ⟨hroom, mᵢ, mₒ, seenᵢ, hbind'.symm, hbody, rfl, List.mem_cons_self,
    fun varies hmem => List.mem_append_left _ (hkept _ hmem rfl),
    fun c hmem hc => List.mem_append_left _ (hkept _ hmem ?_)⟩
  cases c with
  | element key is => rfl
  | scalar key =>
    refine decide_eq_false fun hkey => hc ?_
    obtain ⟨name, hname, rfl⟩ := List.mem_map.mp hkey
    exact ⟨name, hname, rfl⟩

section

variable {room : Nat} {params : List String} {args : List Value} {w : Observed Value}

/-- A call whose parameters take their arguments comes to what its body comes to. -/
theorem fst_inCall_of_bound {n mᵢ mₒ : Memory} {r : Except Fault Value}
    (hroom : ¬room < if params.isEmpty then 1 else 3)
    (hbind : Eval.bindParams room (params.zip args) scope { n with calls := n.calls + 1 } =
      (.ok (), mᵢ)) (hbody : (w scope mᵢ).1 = (r, mₒ)) :
    (inCall room params args w scope n).1 = (r, { mₒ with
      calls := mₒ.calls - 1
      store := Eval.unbindParams (params.map fun name => (name, n.store.snapshot name))
        mₒ.store }) := by
  have hinside : (inside room params args w scope { n with calls := n.calls + 1 }).1 = (r, mₒ) :=
    (fst_bind_of_ok ((observes_bindParams room _ _ _).trans hbind)).trans hbody
  rcases hrun : inside room params args w scope { n with calls := n.calls + 1 } with
    ⟨⟨r', mₒ'⟩, seen⟩
  rw [hrun] at hinside
  obtain ⟨rfl, rfl⟩ := Prod.mk.inj hinside
  unfold inCall
  rw [if_neg hroom]
  simp only [hrun]

/-- A call whose parameters do not take their arguments ends with them. -/
theorem fst_inCall_of_unbound {n : Memory} {f : Fault}
    (hroom : ¬room < if params.isEmpty then 1 else 3)
    (hbind : (Eval.bindParams room (params.zip args) scope
      { n with calls := n.calls + 1 }).1 = .error f) :
    (inCall room params args w scope n).1.1 = .error f := by
  have hbind' : (bindParams room (params.zip args) scope
      { n with calls := n.calls + 1 }).1.1 = .error f := by
    rw [observes_bindParams]
    exact hbind
  have hinside : (inside room params args w scope { n with calls := n.calls + 1 }).1.1 =
      .error f := fst_bind_of_error hbind'
  rcases hrun : inside room params args w scope { n with calls := n.calls + 1 } with
    ⟨⟨r', mₒ'⟩, seen⟩
  rw [hrun] at hinside
  unfold inCall
  rw [if_neg hroom]
  simp only [hrun]
  exact hinside

/-- To the body of a call nothing is different if nothing is to the call: the parameters have the
same arguments, and the arrays that it made the first time are still there. -/
theorem unmoved_inside {m m' n mᵢ mₒ : Memory} {seen seenᵢ : List Moment} {store : Store}
    (hbind : Eval.bindParams room (params.zip args) scope { m with calls := m.calls + 1 } =
      (.ok (), mᵢ)) (hinner : mᵢ.store.Rewrites ∅ mₒ.store)
    (harraysₒ : m'.store.arrays = mₒ.store.arrays)
    (hconsults : ∀ varies, .consults varies ∈ seenᵢ → .consults varies ∈ seen)
    (hreads : ∀ c, .reads c ∈ seenᵢ → c ∉ paramCells m.store params → .reads c ∈ seen)
    (hunmoved : Unmoved seen m m' n) (harrays : store.arrays = n.store.arrays)
    (hagain : mᵢ.store.Rewrites ({c | .reads c ∉ seen} \ paramCells m.store params) store) :
    Unmoved seenᵢ mᵢ mₒ { n with calls := n.calls + 1, store } where
  store := by
    have hle : {c | Moment.reads c ∉ seen} \ paramCells m.store params ⊆
        {c | Moment.reads c ∉ seenᵢ} := fun c hc hmem => hc.1 (hreads c hmem hc.2)
    refine ⟨hagain.letters.trans hinner.letters.symm, fun key hkey => ?_, fun key is hkey => ?_,
      fun key g hg => ?_⟩
    · rw [hagain.scalars key fun hc => hkey (hle hc), hinner.scalars key (Set.notMem_empty _)]
    · rw [hagain.elements key is fun hc => hkey (hle hc),
        hinner.elements key is (Set.notMem_empty _)]
    · rw [harrays]
      refine hunmoved.store.bounds key g ?_
      rw [harraysₒ]
      exact hg
  calls := by
    have hcalls := (@Eval.spans_bindParams (fun _ _ => True) scope room Set.univ m.store
      (params.zip args) (fun _ _ => Set.mem_univ _) { m with calls := m.calls + 1 } (.refl _ _ _)).2
    rw [hbind] at hcalls
    change n.calls + 1 = mᵢ.calls
    rw [hcalls, hunmoved.calls]
  random := by
    have hrandom := @random_bindParams scope room (params.zip args)
      { m with calls := m.calls + 1 }
    rw [hbind] at hrandom
    exact hunmoved.random.imp (fun hsame => hsame.trans hrandom.symm)
      fun hnone varies hmem => hnone varies (hconsults varies hmem)

end

/-- A call has the same value again if its body has, to which the parameters are as they were. -/
theorem repeats_inCall (room : Nat) {params : List String} {args : List Value} {w : Observed Value}
    {x : Eval Value} (hw : Observes w x) (hframed : Eval.Framed scope (fun _ _ => True) x)
    (hlength : params.length ≤ args.length) (hbody : Repeats scope w) :
    Repeats scope (inCall room params args w) := by
  have hframes : ∀ {m m' v}, (inCall room params args w scope m).1 = (.ok v, m') →
      m.Frames (fun _ _ => True) none m' := by
    intro m m' v h
    rw [observes_inCall room params args hw] at h
    exact (Eval.framed_inCall room hframed).ok h
  refine ⟨fun h => hframes (congrArg Prod.fst h), fun {m m' v seen} h steady => ?_,
    fun {m m' n v seen} h steady unmoved => ?_⟩
  · obtain ⟨-, mᵢ, mₒ, seenᵢ, hbind, hvalue, rfl, -, hconsults, -⟩ := inCall_eq_ok h
    have hrandom := @random_bindParams scope room (params.zip args)
      { m with calls := m.calls + 1 }
    rw [hbind] at hrandom
    exact (hbody.unvaried hvalue fun hmem => steady (hconsults _ hmem)).trans hrandom
  obtain ⟨hroom, mᵢ, mₒ, seenᵢ, hbind, hvalue, rfl, hopens, hconsults, hreads⟩ := inCall_eq_ok h
  rcases bindParams_again (n := { n with calls := n.calls + 1 }) hbind
    ((hframes (congrArg Prod.fst h)).store.rewrites.after unmoved.store) with
    ⟨store, hbind', harrays, hagain⟩ | hfull
  · rw [List.map_fst_zip hlength] at hagain
    have hunmoved := unmoved_inside hbind (hbody.frames hvalue).store.rewrites
      (arrays_unbindParams _ _) hconsults hreads unmoved harrays hagain
    rcases hbody.again hvalue (fun hmem => steady (hconsults _ hmem)) hunmoved with
      hvalue' | ⟨-, hfull⟩
    · -- the call puts back what it found, and it has made no array
      have hrun := fst_inCall_of_bound hroom hbind' hvalue'
      have hback := (hframes hrun).store.eq_of_arrays ((arrays_unbindParams _ _).trans harrays)
      refine .inl (hrun.trans ?_)
      simp only at hback
      rw [hback]
      rfl
    · refine .inr ⟨hopens, ?_⟩
      rw [fst_inCall_of_bound hroom hbind' (Prod.ext hfull rfl)]
  · exact .inr ⟨hopens, fst_inCall_of_unbound hroom hfull⟩

theorem repeats_observeAll_of {room : Nat} {es : List Expr}
    (h : ∀ k < room, ∀ e ∈ es, Repeats scope (observe k e)) :
    Repeats scope (observeAll room es) := by
  cases room with
  | zero =>
    rw [observeAll]
    exact .of_const fun _ => rfl
  | succ room =>
    rw [observeAll]
    exact repeats_each (h room (Nat.lt_succ_self room))

end Observed

open Observed in
/-- **An expression keeps its value** while nothing is different that it depends on, and evaluating
it again changes nothing. -/
theorem repeats_observe (room : Nat) (e : Expr) (scope : Scope) :
    Repeats scope (observe room e) := by
  induction room using Nat.strong_induction_on generalizing e with
  | _ room ih =>
    rcases room with _ | _ | room
    · rw [observe]
      exact .of_const fun _ => rfl
    · rw [observe]
      exact .of_const fun _ => rfl
    · have hall : ∀ es, Repeats scope (observeAll room es) :=
        fun es => repeats_observeAll_of fun k hk e _ => ih k (by omega) e
      have hpart := ih room (by omega)
      cases e with
      | literal column v =>
        rw [observe]
        exact repeats_pure v
      | «variable» column name =>
        rw [observe]
        exact repeats_scalar room name
      | element column name indices =>
        rw [observe]
        exact (hall indices).bind fun _ _ vs _ _ => repeats_element room name vs
      | unary column op e =>
        rw [observe]
        refine (hpart e).bind fun _ _ v _ _ => ?_
        have hlift : (Eval.lift (op.apply v) : Eval Value) =
            Eval.liftFault (orFault (op.apply v)) := by
          cases op.apply v <;> rfl
        rw [hlift]
        exact repeats_within_lift _ _ _
      | binary column op left right =>
        rw [observe]
        refine (hpart left).bind fun _ _ a _ _ => (hpart right).bind fun _ _ b _ _ => ?_
        exact repeats_within_lift _ _ _
      | call column f args =>
        rw [observe]
        exact (hall args).bind fun _ _ vs _ _ => repeats_builtin room f vs
      | userCall column name args =>
        refine .congr (observe_userCall room column name args scope) ?_
        cases scope.functions.get? name with
        | none => exact .of_const fun _ => rfl
        | some f =>
          simp only
          split
          · exact .of_const fun _ => rfl
          · rename_i hcount
            refine (hall args).bind fun m m' vs seen hvs => (repeats_checkStack room).bind
              fun _ _ _ _ _ => ?_
            have hlength : f.params.length ≤ vs.length := by
              have hrun := observes_evaluateAll room args scope m
              rw [hvs] at hrun
              rw [Eval.length_of_evaluateAll hrun.symm]
              simp only [bne_iff_ne, ne_eq, not_not] at hcount
              exact hcount.ge
            refine (repeats_inCall room (observes_evaluate room f.body)
              ((evaluate_frames room f.body scope).mono fun _ _ _ => trivial) hlength
              (hpart f.body)).bind fun _ _ v _ _ => ?_
            exact repeats_coerced room name v

/-- So do several expressions. -/
theorem repeats_observeAll (room : Nat) (es : List Expr) (scope : Scope) :
    Repeats scope (observeAll room es) :=
  Observed.repeats_observeAll_of fun k _ e _ => repeats_observe k e scope

end LineBasic
