import Mathlib
import LineBasic.Proofs.Execution
import LineBasic.Proofs.Tables

/-!
# What evaluation leaves alone

Evaluating an expression changes no scalar, however it ends: the parameters of functions get back
what stood there before. It changes no array either, but may make arrays that were never
dimensioned. The memory of such an array is taken before the host makes it, and if the host cannot,
evaluation ends there with the memory gone.

* `Expr.Refers`: an expression, or the body of a function that it calls, has an array element.
* `Store.Adds`: what making an array comes to. `Fault.Unmade`: the host could not make it.
* `Store.Spans`: the variables differ in certain scalars, in arrays that were made without DIM, and
  in the memory of one that could not be made.
* `Eval.spans_bindParams`, `Eval.spans_unbindParams`: parameters are stored, and put back.
* `evaluate_frames`, `evaluateAll_frames`, `Exec.value_frames`: the main results.
-/

namespace LineBasic

/-- The expression, or the body of a function that is called in it, has an element of the array with
a name, with that many subscripts. -/
inductive Expr.Refers (functions : Table Definition) : Expr → String → Nat → Prop where
  | element {column : Nat} {name : String} {indices : List Expr} :
      Refers functions (.element column name indices) name indices.length
  | index {column dims : Nat} {name array : String} {indices : List Expr} {e : Expr}
      (mem : e ∈ indices) (inside : Refers functions e array dims) :
      Refers functions (.element column name indices) array dims
  | unary {column dims : Nat} {op : UnaryOp} {array : String} {e : Expr}
      (inside : Refers functions e array dims) : Refers functions (.unary column op e) array dims
  | left {column dims : Nat} {op : BinaryOp} {array : String} {a b : Expr}
      (inside : Refers functions a array dims) : Refers functions (.binary column op a b) array dims
  | right {column dims : Nat} {op : BinaryOp} {array : String} {a b : Expr}
      (inside : Refers functions b array dims) : Refers functions (.binary column op a b) array dims
  | arg {column dims : Nat} {f : Builtin} {array : String} {args : List Expr} {e : Expr}
      (mem : e ∈ args) (inside : Refers functions e array dims) :
      Refers functions (.call column f args) array dims
  | userArg {column dims : Nat} {name array : String} {args : List Expr} {e : Expr}
      (mem : e ∈ args) (inside : Refers functions e array dims) :
      Refers functions (.userCall column name args) array dims
  | body {column dims : Nat} {name array : String} {args : List Expr} {f : Definition}
      (defined : functions.get? name = some f) (inside : Refers functions f.body array dims) :
      Refers functions (.userCall column name args) array dims

/-- The fault that something ended in, if it did. -/
def faultOf {α : Type} : Except Fault α → Option Fault
  | .ok _ => none
  | .error f => some f

/-- The host could not make an array: calls are nested too deep, or the array has more cells than it
can count or has memory for. -/
def Fault.Unmade (f : Fault) : Prop :=
  f = .error (.of .stackOverflow) ∨ f = .crash .arrayRange ∨ f = .crash .arrayMemory

namespace Store

/-! ## Variables before and after -/

theorem resolve_congr {s s' : Store} (h : s'.letters = s.letters) (name : String) :
    s'.resolve name = s.resolve name := by
  unfold resolve
  rw [h]

/-- The bounds of an array that was never dimensioned. -/
def impliedBounds (dims : Nat) : List Nat := List.replicate dims defaultBound

/-- An array that was never dimensioned: its key, and how many dimensions its first use had. -/
def implied (d : String × Nat) : String × Grid := (d.1, Grid.new d.1 (impliedBounds d.2))

/-- The memory that such arrays take. -/
def impliedSize (ds : List (String × Nat)) : Int :=
  (ds.map fun d => (Grid.sizeOf (impliedBounds d.2) : Int)).sum

/-- The variables differ in scalars with the given keys, by arrays that were made without DIM for
the given references, and by the memory that was taken for one that could not be made. Each of them
takes its memory, and more memory is taken only up to the limit. -/
structure Spans (keys : Set String) (refers : String → Nat → Prop) (lost : Option (String × Nat))
    (s s' : Store) : Prop where
  limit : s'.limit = s.limit
  room : s'.used ≤ s.used ∨ s'.used ≤ s.limit
  letters : s'.letters = s.letters
  scalars : Table.Varies keys s.scalars.entries s'.scalars.entries
  made : ∃ made : List (String × Nat), s'.arrays.entries = s.arrays.entries ++ made.map implied ∧
    (∀ d ∈ made, s.arrays.get? d.1 = none ∧ ∃ name, refers name d.2 ∧ s.resolve name = d.1) ∧
    (made.map Prod.fst).Nodup ∧
    s'.used = s.used + impliedSize made + impliedSize lost.toList +
      ((s'.scalars.size : Int) - s.scalars.size)
  unmade : ∀ d ∈ lost, s'.arrays.get? d.1 = none ∧ ∃ name, refers name d.2 ∧ s.resolve name = d.1

namespace Spans

variable {keys : Set String} {refers refers' : String → Nat → Prop} {lost : Option (String × Nat)}
  {s s' s'' : Store}

theorem refl (keys : Set String) (refers : String → Nat → Prop) (s : Store) :
    s.Spans keys refers none s :=
  ⟨rfl, .inl le_rfl, rfl, .refl _ _, ⟨[], by simp, nofun, .nil, by simp [impliedSize]⟩, nofun⟩

theorem mono (h : s.Spans keys refers lost s')
    (hrefers : ∀ name dims, refers name dims → refers' name dims) :
    s.Spans keys refers' lost s' := by
  have hmono : ∀ d : String × Nat, (∃ name, refers name d.2 ∧ s.resolve name = d.1) →
      ∃ name, refers' name d.2 ∧ s.resolve name = d.1 := by
    rintro d ⟨name, hname, hkey⟩
    exact ⟨name, hrefers _ _ hname, hkey⟩
  obtain ⟨hlimit, hroom, hletters, hscalars, ⟨made, harrays, hmade, hnodup, hused⟩, hunmade⟩ := h
  exact ⟨hlimit, hroom, hletters, hscalars,
    ⟨made, harrays, fun d hd => (hmade d hd).imp_right (hmono d), hnodup, hused⟩,
    fun d hd => (hunmade d hd).imp_right (hmono d)⟩

theorem trans (h : s.Spans keys refers none s') (h' : s'.Spans ∅ refers lost s'') :
    s.Spans keys refers lost s'' := by
  obtain ⟨hlimit, hroom, hletters, hscalars, ⟨made, harrays, hmade, hnodup, hused⟩, -⟩ := h
  obtain ⟨hlimit', hroom', hletters', hscalars', ⟨made', harrays', hmade', hnodup', hused'⟩,
    hunmade⟩ := h'
  have hsame : s''.scalars.entries = s'.scalars.entries := hscalars'.eq
  have hkeys : ∀ d : String × Nat, (∃ name, refers name d.2 ∧ s'.resolve name = d.1) →
      ∃ name, refers name d.2 ∧ s.resolve name = d.1 := by
    rintro d ⟨name, hname, hkey⟩
    exact ⟨name, hname, resolve_congr hletters name ▸ hkey⟩
  -- an array that is made later is neither old nor made before
  have hapart : ∀ d ∈ made', s.arrays.get? d.1 = none ∧ d.1 ∉ made.map Prod.fst := by
    intro d hd
    have hnew := (hmade' d hd).1
    rw [Table.get?, harrays, Table.find?_append, Option.or_eq_none_iff] at hnew
    refine ⟨hnew.1, fun hmem => ?_⟩
    obtain ⟨d', hd', heq⟩ := List.mem_map.mp hmem
    exact Table.find?_eq_none_iff.mp hnew.2 (implied d') (List.mem_map_of_mem hd') heq
  have hroom'' : s''.used ≤ s.used ∨ s''.used ≤ s.limit := by omega
  refine ⟨hlimit'.trans hlimit, hroom'', hletters'.trans hletters, hsame ▸ hscalars,
    ⟨made ++ made', ?_, ?_, ?_, ?_⟩, fun d hd => (hunmade d hd).imp_right (hkeys d)⟩
  · rw [harrays', harrays, List.map_append, List.append_assoc]
  · intro d hd
    rcases List.mem_append.mp hd with hd | hd
    · exact hmade d hd
    · exact ⟨(hapart d hd).1, hkeys d (hmade' d hd).2⟩
  · rw [List.map_append, List.nodup_append]
    refine ⟨hnodup, hnodup', ?_⟩
    rintro x hx y hy rfl
    obtain ⟨d, hd, rfl⟩ := List.mem_map.mp hy
    exact (hapart d hd).2 hx
  · simp only [Table.size, hsame, impliedSize, Option.toList_none, List.map_nil, List.sum_nil,
      List.map_append, List.sum_append] at hused hused' ⊢
    omega

end Spans

/-! ## Elements -/

variable {refers : String → Nat → Prop} {s s' : Store} {name : String}

theorem length_of_mapM {α β : Type} {f : α → Except Error β} {as : List α} {bs : List β}
    (h : as.mapM f = .ok bs) : bs.length = as.length := by
  induction as generalizing bs with
  | nil =>
    obtain rfl := Except.ok.inj h
    rfl
  | cons a as ih =>
    rw [List.mapM_cons] at h
    obtain ⟨b, -, h⟩ := ok_of_bind h
    obtain ⟨bs', hbs, h⟩ := ok_of_bind h
    obtain rfl := Except.ok.inj h
    rw [List.length_cons, List.length_cons, ih hbs]

theorem reserve_eq_ok {count : Nat} (h : s.reserve count = .ok s') :
    s' = { s with used := s.used + count } ∧ s.used + count ≤ s.limit := by
  unfold reserve at h
  split at h
  · cases h
  · rename_i hle
    exact ⟨(Except.ok.inj h).symm, Int.not_lt.mp hle⟩

/-- What making an array comes to: it is made, or its memory is taken and the host cannot make it,
or it is refused at once. -/
inductive Adds (s : Store) (key : String) (bounds : List Nat) :
    Except Fault Grid × Store → Prop where
  | made (room : s.used + Grid.sizeOf bounds ≤ s.limit) :
      Adds s key bounds (.ok (Grid.new key bounds), { s with
        used := s.used + Grid.sizeOf bounds
        arrays := s.arrays.insert key (Grid.new key bounds) })
  | lost {f : Fault} (unmade : f.Unmade) (room : s.used + Grid.sizeOf bounds ≤ s.limit) :
      Adds s key bounds (.error f, { s with used := s.used + Grid.sizeOf bounds })
  | refused {f : Fault} : Adds s key bounds (.error f, s)

theorem makeGrid_cases (cells room : Nat) (key : String) (bounds : List Nat) :
    makeGrid cells room key bounds = .ok (Grid.new key bounds) ∨
      ∃ f : Fault, f.Unmade ∧ makeGrid cells room key bounds = .error f := by
  unfold makeGrid
  split_ifs
  · exact .inr ⟨_, .inl rfl, rfl⟩
  · exact .inr ⟨_, .inr (.inl rfl), rfl⟩
  · exact .inr ⟨_, .inr (.inr rfl), rfl⟩
  · exact .inl rfl

theorem adds_addGrid (cells room : Nat) (s : Store) (key : String) (bounds : List Nat) :
    Adds s key bounds (s.addGrid cells room key bounds) := by
  unfold addGrid
  split
  · exact .refused
  · cases hreserve : s.reserve (Grid.sizeOf bounds) with
    | error e => exact .refused
    | ok s₁ =>
      obtain ⟨rfl, hroom⟩ := reserve_eq_ok hreserve
      rcases makeGrid_cases cells room key bounds with hmake | ⟨f, hunmade, hmake⟩
      · simp only [hmake]
        exact .made hroom
      · simp only [hmake]
        exact .lost hunmade hroom

theorem addGrid_eq_ok {cells room : Nat} {key : String} {bounds : List Nat} {g : Grid}
    (h : s.addGrid cells room key bounds = (.ok g, s')) :
    g = Grid.new key bounds ∧ s.used + Grid.sizeOf bounds ≤ s.limit ∧
      s' = { s with
        used := s.used + Grid.sizeOf bounds
        arrays := s.arrays.insert key (Grid.new key bounds) } := by
  have hadds := adds_addGrid cells room s key bounds
  rw [h] at hadds
  cases hadds with
  | made room => exact ⟨rfl, room, rfl⟩

/-- The variables differ by arrays that were made without DIM. If the memory of another one is gone,
this is how it ended. -/
def Extends {α : Type} (refers : String → Nat → Prop) (s : Store) (r : Except Fault α × Store) :
    Prop :=
  ∃ lost, s.Spans ∅ refers lost r.2 ∧ (lost.isSome → ∃ f ∈ faultOf r.1, f.Unmade)

theorem Extends.refl {α : Type} (refers : String → Nat → Prop) (s : Store) (r : Except Fault α) :
    s.Extends refers (r, s) :=
  ⟨none, .refl _ _ _, nofun⟩

/-- An array that is not there is made. -/
theorem extends_reach (cells room : Nat) {dims : Nat} (hrefers : refers name dims) :
    s.Extends refers (s.reach cells room name dims) := by
  unfold reach
  simp only
  split
  · exact .refl _ _ _
  · rename_i hnone
    have hadds := adds_addGrid cells (room - 1) s (s.resolve name) (impliedBounds dims)
    change s.Extends refers (s.addGrid cells (room - 1) (s.resolve name) (impliedBounds dims))
    generalize s.addGrid cells (room - 1) (s.resolve name) (impliedBounds dims) = r at hadds
    cases hadds with
    | made hroom =>
      refine ⟨none, ⟨rfl, .inr hroom, rfl, .refl _ _, ⟨[(s.resolve name, dims)], ?_, ?_,
        List.nodup_singleton _, ?_⟩, nofun⟩, nofun⟩
      · exact Table.put_of_find?_eq_none hnone
      · intro d hd
        obtain rfl := List.mem_singleton.mp hd
        exact ⟨hnone, name, hrefers, rfl⟩
      · simp [impliedSize]
    | lost hunmade hroom =>
      refine ⟨some (s.resolve name, dims), ⟨rfl, .inr hroom, rfl, .refl _ _, ⟨[], by simp, nofun,
        .nil, by simp [impliedSize]⟩, ?_⟩, fun _ => ⟨_, rfl, hunmade⟩⟩
      rintro d ⟨⟩
      exact ⟨hnone, name, hrefers, rfl⟩
    | refused => exact .refl _ _ _

theorem extends_getElement (cells room : Nat) {indices : List Value}
    (hrefers : refers name indices.length) :
    s.Extends refers (s.getElement cells room name indices) := by
  unfold getElement
  split
  · exact .refl _ _ _
  · rename_i is his
    rw [← length_of_mapM his] at hrefers
    have hreach := extends_reach cells (room - 1) (s := s) hrefers
    cases hrun : s.reach cells (room - 1) name is.length with
    | mk r s₁ =>
      rw [hrun] at hreach
      cases r with
      | error f => exact hreach
      | ok g =>
        obtain ⟨lost, hspans, hlost⟩ := hreach
        have hnone : ¬lost.isSome := fun h => by
          obtain ⟨f, hf, -⟩ := hlost h
          cases hf
        simp only
        split <;> exact ⟨lost, hspans, fun h => absurd h hnone⟩

/-! ## Scalars -/

variable {keys : Set String} {lost : Option (String × Nat)} {s₀ : Store}

theorem set_eq_ok {v : Value} (h : s.set name v = .ok s') :
    ∃ w, (Kind.ofName (s.resolve name)).coerce v = .ok w ∧
      s' = { s with
        scalars := s.scalars.insert (s.resolve name) w
        used := if s.scalars.contains (s.resolve name) then s.used else s.used + 1 } ∧
      (s.scalars.contains (s.resolve name) = false → s.used + 1 ≤ s.limit) := by
  obtain ⟨w, hcoerce, h⟩ := ok_of_bind h
  refine ⟨w, hcoerce, ?_⟩
  simp only at h
  split at h
  · rename_i hcontains
    obtain rfl := Except.ok.inj h
    exact ⟨by rw [if_pos hcontains], fun hfalse => by rw [hcontains] at hfalse; cases hfalse⟩
  · rename_i hcontains
    obtain ⟨s₁, hreserve, h⟩ := ok_of_bind h
    obtain rfl := Except.ok.inj h
    obtain ⟨rfl, hle⟩ := reserve_eq_ok hreserve
    exact ⟨by rw [if_neg hcontains]; rfl, fun _ => hle⟩

/-- Storing a value takes memory if the scalar is new. -/
theorem size_put (t : Table Value) (key : String) (v : Value) :
    ((t.insert key v).size : Int) = t.size + if t.contains key then 0 else 1 := by
  unfold Table.size Table.insert Table.contains Table.get?
  cases hfind : Table.find? key t.entries with
  | some w =>
    have hkeys := congrArg List.length (Table.keys_put_of_find? (a := v) hfind)
    simp only [List.length_map] at hkeys
    simp [hkeys]
  | none => simp [Table.put_of_find?_eq_none hfind]

/-- Storing a value under one of the keys. -/
theorem Spans.set {v : Value} (h : s₀.Spans keys refers lost s) (hkey : s₀.resolve name ∈ keys)
    (hset : s.set name v = .ok s') : s₀.Spans keys refers lost s' := by
  obtain ⟨w, -, rfl, hfree⟩ := set_eq_ok hset
  obtain ⟨hlimit, hroom, hletters, hscalars, ⟨made, harrays, hmade, hnodup, hused⟩, hunmade⟩ := h
  rw [← resolve_congr hletters] at hkey
  refine ⟨hlimit, ?_, hletters, hscalars.put hkey w, ⟨made, harrays, hmade, hnodup, ?_⟩, hunmade⟩
  · simp only
    split
    · exact hroom
    · rename_i hnew
      exact .inr (hlimit ▸ hfree (by simpa using hnew))
  · rw [size_put]
    simp only [hused]
    split <;> omega

/-- What stood in a scalar is put back. -/
theorem Spans.restore (h : s₀.Spans keys refers lost s) (name : String) :
    s₀.Spans (keys \ {s₀.resolve name}) refers lost (s.restore name (s₀.snapshot name)) := by
  obtain ⟨hlimit, hroom, hletters, hscalars, ⟨made, harrays, hmade, hnodup, hused⟩, hunmade⟩ := h
  have hundo := hscalars.undo (s₀.resolve name)
  have hkey := resolve_congr hletters name
  unfold snapshot Table.get?
  cases hfind : Table.find? (s₀.resolve name) s₀.scalars.entries with
  | some v =>
    rw [hfind] at hundo
    unfold Store.restore
    rw [hkey]
    refine ⟨hlimit, hroom, hletters, hundo, ⟨made, harrays, hmade, hnodup, ?_⟩, hunmade⟩
    have hcontains : s.scalars.contains (s₀.resolve name) :=
      hscalars.isSome_find? (by rw [hfind]; rfl)
    simp only [size_put, hcontains, if_true]
    omega
  | none =>
    rw [hfind] at hundo
    have hlength := hscalars.length_remove hfind
    unfold Store.restore delete
    simp only [hkey]
    split
    · rename_i hcontains
      have hroom' : s.used - 1 ≤ s₀.used ∨ s.used - 1 ≤ s₀.limit := by omega
      refine ⟨hlimit, hroom', hletters, hundo, ⟨made, harrays, hmade, hnodup, ?_⟩, hunmade⟩
      replace hcontains : (Table.find? (s₀.resolve name) s.scalars.entries).isSome = true :=
        hcontains
      rw [hcontains] at hlength
      simp only [Table.size, Table.erase, if_true] at hlength hused ⊢
      omega
    · rename_i hcontains
      refine ⟨hlimit, hroom, hletters, ?_, ⟨made, harrays, hmade, hnodup, hused⟩, hunmade⟩
      have hnone : Table.find? (s₀.resolve name) s.scalars.entries = none := by
        simpa [Table.contains, Table.get?] using hcontains
      rwa [Table.remove_of_find?_eq_none hnone] at hundo

end Store

/-! ## Evaluation -/

/-- The memory differs only by arrays that were made without DIM, by the memory of one that could
not be made, by random numbers that were drawn and by looks at the clock. -/
structure Memory.Frames (refers : String → Nat → Prop) (lost : Option (String × Nat))
    (m m' : Memory) : Prop where
  store : m.store.Spans ∅ refers lost m'.store
  calls : m'.calls = m.calls

namespace Memory.Frames

variable {refers refers' : String → Nat → Prop} {lost : Option (String × Nat)} {m m' m'' : Memory}

theorem refl (refers : String → Nat → Prop) (m : Memory) : m.Frames refers none m :=
  ⟨.refl _ _ _, rfl⟩

theorem trans (h : m.Frames refers none m') (h' : m'.Frames refers lost m'') :
    m.Frames refers lost m'' :=
  ⟨h.store.trans h'.store, h'.calls.trans h.calls⟩

theorem mono (h : m.Frames refers lost m')
    (hrefers : ∀ name dims, refers name dims → refers' name dims) : m.Frames refers' lost m' :=
  ⟨h.store.mono hrefers, h.calls⟩

end Memory.Frames

namespace Eval

variable {α β : Type} {scope : Scope} {refers refers' : String → Nat → Prop}

/-- Two evaluations one after the other. -/
theorem run_bind (x : Eval α) (f : α → Eval β) (scope : Scope) (m : Memory) :
    (x >>= f) scope m = match x scope m with
      | (.ok a, m') => f a scope m'
      | (.error e, m') => (.error e, m') := by
  change (x scope >>= fun a => f a scope : ExceptT Fault (StateM Memory) β) m = _
  rw [LineBasic.run_bind]
  obtain ⟨r, m'⟩ := x scope m
  cases r <;> rfl

theorem run_get_bind (f : Memory → Eval β) (scope : Scope) (m : Memory) :
    (get >>= f) scope m = f m scope m :=
  rfl

theorem run_bind_eq_ok {x : Eval α} {f : α → Eval β} {m m' : Memory} {b : β}
    (h : (x >>= f) scope m = (.ok b, m')) :
    ∃ a m₁, x scope m = (.ok a, m₁) ∧ f a scope m₁ = (.ok b, m') := by
  rw [run_bind] at h
  cases hrun : x scope m with
  | mk r m₁ =>
    rw [hrun] at h
    cases r with
    | error e => cases h
    | ok a => exact ⟨a, m₁, rfl, h⟩

theorem run_within (calls room : Nat) (scope : Scope) (m : Memory) : within calls room scope m =
    if room < calls then (.error (.error (.of .stackOverflow)), m) else (.ok (), m) := by
  unfold within
  split <;> rfl

/-- What follows once there is room for some calls. -/
theorem run_within_bind (calls room : Nat) (f : Unit → Eval β) (scope : Scope) (m : Memory) :
    (within calls room >>= f) scope m =
      if room < calls then (.error (.error (.of .stackOverflow)), m) else f () scope m := by
  rw [run_bind, run_within]
  split_ifs <;> rfl

theorem run_lift (x : Except Error α) (scope : Scope) (m : Memory) : lift x scope m =
    match x with
    | .ok a => (.ok a, m)
    | .error e => (.error (.error e), m) := by
  cases x <;> rfl

theorem run_liftFault (x : Except Fault α) (scope : Scope) (m : Memory) :
    liftFault x scope m = (x, m) := by
  cases x <;> rfl

theorem run_scalar (room : Nat) (name : String) (scope : Scope) (m : Memory) :
    scalar room name scope m =
      if room < 3 then (.error (.error (.of .stackOverflow)), m)
      else (.ok (m.store.get name), m) := by
  unfold scalar
  rw [run_within_bind]
  rfl

theorem run_element (room : Nat) (name : String) (vs : List Value) (scope : Scope) (m : Memory) :
    element room name vs scope m =
      if room < 4 then (.error (.error (.of .stackOverflow)), m)
      else ((m.store.getElement scope.cells room name vs).1,
        { m with store := (m.store.getElement scope.cells room name vs).2 }) := by
  unfold element
  rw [run_within_bind]
  split_ifs
  · rfl
  · exact run_liftFault _ _ _

theorem run_builtin (room : Nat) (f : Builtin) (args : List Value) (scope : Scope) (m : Memory) :
    builtin room f args scope m =
      if room < f.firstCalls then (.error (.error (.of .stackOverflow)), m)
      else match f.call m.clock.now scope.column args m.random with
        | .ok (v, random) =>
          (if room < f.calls then .error (.error (.of .stackOverflow)) else .ok v,
            { m with random, clock := if f.looksAtClock then m.clock.next else m.clock })
        | .error e => (.error e, m) := by
  unfold builtin
  rw [run_within_bind]
  congr 1
  change (match f.call m.clock.now scope.column args m.random with
    | .ok (v, random) => do
      set { m with random, clock := if f.looksAtClock then m.clock.next else m.clock }
      within f.calls room
      return v
    | .error e => throw e : Eval Value) scope m = _
  cases f.call m.clock.now scope.column args m.random with
  | error e => rfl
  | ok r =>
    refine (run_within_bind f.calls room (fun _ => pure r.1) scope _).trans ?_
    simp only
    split <;> rfl

theorem run_checkStack (room : Nat) (scope : Scope) (m : Memory) : checkStack room scope m =
    if room < 2 then (.error (.error (.of .stackOverflow)), m)
    else if scope.stackLimit ≤ scope.frames + m.calls then
      (.error (.error (.of .stackOverflow)), m)
    else (.ok (), m) := by
  unfold checkStack
  rw [run_within_bind]
  congr 1
  change (if scope.stackLimit ≤ scope.frames + m.calls then refuse .stackOverflow
    else return () : Eval Unit) scope m = _
  split <;> rfl

theorem run_bindParams_cons (room : Nat) (name : String) (v : Value) (args : List (String × Value))
    (scope : Scope) (m : Memory) :
    bindParams room ((name, v) :: args) scope m =
      if room < 1 + (m.store.kindOf name).calls then (.error (.error (.of .stackOverflow)), m)
      else match m.store.set name v with
        | .ok store => bindParams room args scope { m with store }
        | .error e => (.error (.error e), m) := by
  rw [bindParams, run_get_bind, run_within_bind, run_bind, run_lift]
  cases m.store.set name v <;> rfl

theorem run_coerced (room : Nat) (name : String) (v : Value) (scope : Scope) (m : Memory) :
    coerced room name v scope m =
      if room < (m.store.kindOf name).calls then (.error (.error (.of .stackOverflow)), m)
      else lift ((m.store.kindOf name).coerce v) scope m :=
  run_within_bind (m.store.kindOf name).calls room
    (fun _ => lift ((m.store.kindOf name).coerce v)) scope m

/-- The body of a call, with arguments in the parameters. -/
def inside (room : Nat) (params : List String) (args : List Value) (body : Eval Value) :
    Eval Value := do
  bindParams room (params.zip args)
  body

theorem run_inCall (room : Nat) (params : List String) (args : List Value) (body : Eval Value)
    (scope : Scope) (m : Memory) : inCall room params args body scope m =
      if room < (if params.isEmpty then 1 else 3) then (.error (.error (.of .stackOverflow)), m)
      else
        let r := inside room params args body scope { m with calls := m.calls + 1 }
        (r.1, { r.2 with
          calls := r.2.calls - 1
          store := unbindParams (params.map fun name => (name, m.store.snapshot name))
              r.2.store }) := by
  unfold inCall
  rw [run_within_bind]
  rfl

/-- The evaluation changes nothing in the memory but that arrays are made and numbers are drawn. If
the memory of an array is lost, this is how it ends. -/
def Framed (scope : Scope) (refers : String → Nat → Prop) (x : Eval α) : Prop :=
  ∀ m : Memory, ∃ lost, m.Frames refers lost (x scope m).2 ∧
    (lost.isSome → ∃ f ∈ faultOf (x scope m).1, f.Unmade)

namespace Framed

variable {x : Eval α}

theorem ok (h : Framed scope refers x) {m m' : Memory} {a : α} (hrun : x scope m = (.ok a, m')) :
    m.Frames refers none m' := by
  obtain ⟨lost, hframes, hlost⟩ := h m
  rw [hrun] at hframes hlost
  cases lost with
  | none => exact hframes
  | some d =>
    obtain ⟨f, hf, -⟩ := hlost rfl
    cases hf

theorem mono (h : Framed scope refers x)
    (hrefers : ∀ name dims, refers name dims → refers' name dims) : Framed scope refers' x := by
  intro m
  obtain ⟨lost, hframes, hlost⟩ := h m
  exact ⟨lost, hframes.mono hrefers, hlost⟩

/-- An evaluation that leaves the memory as it is. -/
theorem of_pure {r : Memory → Except Fault α} (h : ∀ m, x scope m = (r m, m)) :
    Framed scope refers x := by
  intro m
  rw [h]
  exact ⟨none, .refl _ _, nofun⟩

theorem bind {f : α → Eval β} (hx : Framed scope refers x)
    (hf : ∀ m m' a, x scope m = (.ok a, m') → Framed scope refers (f a)) :
    Framed scope refers (x >>= f) := by
  intro m
  have hfirst := hx m
  rw [run_bind]
  cases hrun : x scope m with
  | mk r m' =>
    rw [hrun] at hfirst
    cases r with
    | error e => exact hfirst
    | ok a =>
      obtain ⟨lost, hframes, hlost⟩ := hf m m' a hrun m'
      exact ⟨lost, (hx.ok hrun).trans hframes, hlost⟩

end Framed

theorem framed_pure (a : α) : Framed scope refers (pure a : Eval α) := .of_pure fun _ => rfl

theorem framed_refuse (kind : ErrorKind) : Framed scope refers (refuse kind : Eval α) :=
  .of_pure fun _ => rfl

theorem framed_lift (x : Except Error α) : Framed scope refers (lift x) := by
  cases x <;> exact .of_pure fun _ => rfl

theorem framed_liftFault (x : Except Fault α) : Framed scope refers (liftFault x) :=
  .of_pure fun m => run_liftFault x scope m

theorem framed_within (calls room : Nat) : Framed scope refers (within calls room) := by
  unfold within
  split
  · exact framed_refuse _
  · exact framed_pure _

theorem framed_mapM {f : α → Eval β} {as : List α} (h : ∀ a ∈ as, Framed scope refers (f a)) :
    Framed scope refers (as.mapM f) := by
  induction as with
  | nil => exact framed_pure _
  | cons a as ih =>
    rw [List.mapM_cons]
    refine (h a List.mem_cons_self).bind fun _ _ b _ => ?_
    exact (ih fun a' ha' => h a' (List.mem_cons_of_mem _ ha')).bind fun _ _ bs _ => framed_pure _

theorem length_of_run_mapM {f : α → Eval β} {as : List α} {bs : List β} {m m' : Memory}
    (h : as.mapM f scope m = (.ok bs, m')) : bs.length = as.length := by
  induction as generalizing bs m m' with
  | nil =>
    obtain ⟨rfl, -⟩ := Prod.mk.inj (h : (Except.ok [], m) = _) |>.imp_left Except.ok.inj
    rfl
  | cons a as ih =>
    rw [List.mapM_cons] at h
    obtain ⟨b, m₁, -, h⟩ := run_bind_eq_ok h
    obtain ⟨bs', m₂, hbs, h⟩ := run_bind_eq_ok h
    obtain ⟨rfl, -⟩ := Prod.mk.inj (h : (Except.ok (b :: bs'), m₂) = _) |>.imp_left Except.ok.inj
    rw [List.length_cons, List.length_cons, ih hbs]

theorem framed_scalar (room : Nat) (name : String) : Framed scope refers (scalar room name) := by
  refine (framed_within _ _).bind fun _ _ _ _ => ?_
  exact .of_pure fun _ => rfl

theorem framed_element (room : Nat) {name : String} {indices : List Value}
    (hrefers : refers name indices.length) : Framed scope refers (element room name indices) := by
  intro m
  rw [run_element]
  split_ifs
  · exact ⟨none, .refl _ _, nofun⟩
  · obtain ⟨lost, hspans, hlost⟩ :=
      Store.extends_getElement scope.cells room (s := m.store) hrefers
    exact ⟨lost, ⟨hspans, rfl⟩, hlost⟩

theorem framed_builtin (room : Nat) (f : Builtin) (args : List Value) :
    Framed scope refers (builtin room f args) := by
  intro m
  rw [run_builtin]
  split_ifs
  · exact ⟨none, .refl _ _, nofun⟩
  all_goals
    cases f.call m.clock.now scope.column args m.random with
    | error e => exact ⟨none, .refl _ m, nofun⟩
    | ok r => exact ⟨none, ⟨.refl _ _ _, rfl⟩, nofun⟩

theorem framed_checkStack (room : Nat) : Framed scope refers (checkStack room) := by
  intro m
  rw [run_checkStack]
  split_ifs <;> exact ⟨none, .refl _ m, nofun⟩

theorem framed_coerced (room : Nat) (name : String) (v : Value) :
    Framed scope refers (coerced room name v) := by
  intro m
  rw [run_coerced]
  split_ifs
  · exact ⟨none, .refl _ m, nofun⟩
  · exact framed_lift _ m

/-! ## Calls of functions -/

/-- Parameters are stored one after the other; an error on the way leaves the rest as it is. -/
theorem spans_bindParams (scope : Scope) (room : Nat) {keys : Set String} {s₀ : Store}
    {args : List (String × Value)} (hargs : ∀ a ∈ args, s₀.resolve a.1 ∈ keys) {m : Memory}
    (h : s₀.Spans keys refers none m.store) :
    s₀.Spans keys refers none (bindParams room args scope m).2.store ∧
      (bindParams room args scope m).2.calls = m.calls := by
  induction args generalizing m with
  | nil => exact ⟨h, rfl⟩
  | cons a args ih =>
    obtain ⟨name, v⟩ := a
    rw [run_bindParams_cons]
    split_ifs
    · exact ⟨h, rfl⟩
    · cases hset : m.store.set name v with
      | error e => exact ⟨h, rfl⟩
      | ok s =>
        have hspans := h.set (hargs _ List.mem_cons_self) hset
        exact ih (fun a ha => hargs a (List.mem_cons_of_mem _ ha)) (m := { m with store := s })
          hspans

/-- What stood in the parameters is put back. -/
theorem spans_unbindParams (params : List String) {s₀ : Store} {keys : Set String}
    {lost : Option (String × Nat)} {s : Store} (h : s₀.Spans keys refers lost s) :
    s₀.Spans (keys \ {key | key ∈ params.map s₀.resolve}) refers lost
      (unbindParams (params.map fun name => (name, s₀.snapshot name)) s) := by
  induction params generalizing keys s with
  | nil => simpa [unbindParams] using h
  | cons name params ih =>
    have hkeys : keys \ {key | key ∈ (name :: params).map s₀.resolve} =
        (keys \ {s₀.resolve name}) \ {key | key ∈ params.map s₀.resolve} := by
      ext key
      simp [and_assoc]
    rw [hkeys]
    exact ih (h.restore name)

/-- Inside a call, scalars differ in the parameters only. -/
theorem spans_inside (room : Nat) (params : List String) (args : List Value) {body : Eval Value}
    (hbody : Framed scope refers body) (m : Memory) :
    let r := inside room params args body scope { m with calls := m.calls + 1 }
    (∃ lost, m.store.Spans {key | key ∈ params.map m.store.resolve} refers lost r.2.store ∧
      (lost.isSome → ∃ f ∈ faultOf r.1, f.Unmade)) ∧ r.2.calls = m.calls + 1 := by
  have hparams : ∀ a ∈ params.zip args,
      m.store.resolve a.1 ∈ {key | key ∈ params.map m.store.resolve} :=
    fun a ha => List.mem_map_of_mem (List.of_mem_zip ha).1
  have hbind := spans_bindParams scope room hparams (m := { m with calls := m.calls + 1 })
    (.refl _ refers m.store)
  simp only [inside]
  rw [run_bind]
  cases hrun : bindParams room (params.zip args) scope { m with calls := m.calls + 1 } with
  | mk r m₁ =>
    rw [hrun] at hbind
    cases r with
    | error e => exact ⟨⟨none, hbind.1, nofun⟩, hbind.2⟩
    | ok u =>
      obtain ⟨lost, hframes, hlost⟩ := hbody m₁
      exact ⟨⟨lost, hbind.1.trans hframes.store, hlost⟩, hframes.calls.trans hbind.2⟩

/-- **A call leaves no trace in the scalars**, however its body ends. -/
theorem framed_inCall (room : Nat) {params : List String} {args : List Value} {body : Eval Value}
    (hbody : Framed scope refers body) : Framed scope refers (inCall room params args body) := by
  intro m
  obtain ⟨⟨lost, hinside, hlost⟩, hcalls⟩ := spans_inside room params args hbody m
  have hout := spans_unbindParams params hinside
  rw [Set.sdiff_self] at hout
  rw [run_inCall]
  by_cases hroom : room < if params.isEmpty then 1 else 3
  · rw [if_pos hroom]
    exact ⟨none, .refl _ m, nofun⟩
  · rw [if_neg hroom]
    refine ⟨lost, ⟨hout, ?_⟩, hlost⟩
    change (inside room params args body scope { m with calls := m.calls + 1 }).2.calls - 1 = _
    rw [hcalls, Nat.add_sub_cancel]

end Eval

/-- A call of a function of the program. -/
theorem evaluate_userCall (room column : Nat) (name : String) (args : List Expr) (scope : Scope)
    (m : Memory) :
    evaluate (room + 2) (.userCall column name args) scope m =
      (match scope.functions.get? name with
      | none => Eval.refuse .undefinedFunction
      | some f =>
        if args.length != f.params.length then Eval.refuse .illegalQuantity
        else do
          let args ← evaluateAll room args
          Eval.checkStack room
          let result ← Eval.inCall room f.params args (evaluate room f.body)
          Eval.coerced room name result : Eval Value) scope m := by
  rw [evaluate]
  rfl

/-- The parts of an expression are evaluated in the room that is left for them. -/
theorem evaluateAll_succ (room : Nat) (es : List Expr) :
    evaluateAll (room + 1) es = es.mapM (evaluate room) := by
  rw [evaluateAll]

theorem Eval.framed_evaluateAll {scope : Scope} {refers : String → Nat → Prop} {room : Nat}
    {es : List Expr} (h : ∀ k < room, ∀ e ∈ es, Framed scope refers (evaluate k e)) :
    Framed scope refers (evaluateAll room es) := by
  cases room with
  | zero => exact framed_refuse _
  | succ room =>
    rw [evaluateAll_succ]
    exact framed_mapM (h room (Nat.lt_succ_self room))

theorem Eval.length_of_evaluateAll {scope : Scope} {room : Nat} {es : List Expr} {vs : List Value}
    {m m' : Memory} (h : evaluateAll room es scope m = (.ok vs, m')) : vs.length = es.length := by
  cases room with
  | zero => cases h
  | succ room =>
    rw [evaluateAll_succ] at h
    exact length_of_run_mapM h

/-- **Evaluating an expression has no effect on scalars**, and none on arrays but that new ones may
be made. -/
theorem evaluate_frames (room : Nat) (e : Expr) (scope : Scope) :
    Eval.Framed scope (e.Refers scope.functions) (evaluate room e) := by
  induction room using Nat.strong_induction_on generalizing e with
  | _ room ih =>
    rcases room with _ | _ | room
    · exact Eval.framed_refuse _
    · exact Eval.framed_refuse _
    · -- the parts of an expression refer to nothing that it does not refer to
      have hpart : ∀ k < room + 1, ∀ e',
          (∀ name dims, e'.Refers scope.functions name dims → e.Refers scope.functions name dims) →
          Eval.Framed scope (e.Refers scope.functions) (evaluate k e') :=
        fun k hk e' hrefers => (ih k (by omega) e').mono hrefers
      have hroom : room < room + 1 := Nat.lt_succ_self room
      cases e with
      | literal column v => exact Eval.framed_pure v
      | «variable» column name => exact Eval.framed_scalar room name
      | element column name indices =>
        refine Eval.Framed.bind (Eval.framed_evaluateAll fun k hk e' he' =>
          hpart k (by omega) e' fun _ _ => .index he') fun m m' vs hvs => ?_
        refine Eval.framed_element room ?_
        rw [Eval.length_of_evaluateAll hvs]
        exact .element
      | unary column op e' =>
        refine (hpart room hroom e' fun _ _ => .unary).bind fun _ _ v _ => ?_
        exact (Eval.framed_within _ _).bind fun _ _ _ _ => Eval.framed_lift _
      | binary column op left right =>
        refine (hpart room hroom left fun _ _ => .left).bind fun _ _ a _ => ?_
        refine (hpart room hroom right fun _ _ => .right).bind fun _ _ b _ => ?_
        exact (Eval.framed_within _ _).bind fun _ _ _ _ => Eval.framed_liftFault _
      | call column f args =>
        exact (Eval.framed_evaluateAll fun k hk e' he' => hpart k (by omega) e' fun _ _ =>
          .arg he').bind fun _ _ vs _ => Eval.framed_builtin room f vs
      | userCall column name args =>
        intro m
        rw [evaluate_userCall]
        cases hdefined : scope.functions.get? name with
        | none => exact Eval.framed_refuse _ m
        | some f =>
          simp only
          split
          · exact Eval.framed_refuse _ m
          · refine Eval.Framed.bind (Eval.framed_evaluateAll fun k hk e' he' =>
              hpart k (by omega) e' fun _ _ => .userArg he') (fun _ _ vs _ => ?_) m
            refine (Eval.framed_checkStack room).bind fun _ _ _ _ => ?_
            refine (Eval.framed_inCall room
              (hpart room hroom f.body fun _ _ => .body hdefined)).bind fun _ _ v _ => ?_
            exact Eval.framed_coerced room name v

/-- So has evaluating expressions one after the other. -/
theorem evaluateAll_frames (room : Nat) (es : List Expr) (scope : Scope) :
    Eval.Framed scope (fun name dims => ∃ e ∈ es, e.Refers scope.functions name dims)
      (evaluateAll room es) :=
  Eval.framed_evaluateAll fun k _ e he =>
    (evaluate_frames k e scope).mono fun _ _ hrefers => ⟨e, he, hrefers⟩

/-- A statement always has room for the simplest expressions. -/
theorem Machine.statementRoom_eq (m : Machine) : m.statementRoom = m.spare + 58 + 2 := by
  unfold statementRoom room leastRoom
  omega

theorem Exec.run_value_literal (column : Nat) (v : Value) (m : Machine) :
    value (.literal column v) m = (.ok v, m) := by
  rw [value_eq, run_ofEval, Machine.statementRoom_eq]
  rfl

theorem Exec.run_value_variable (column : Nat) (name : String) (m : Machine) :
    value (.variable column name) m = (.ok (m.memory.store.get name), m) := by
  have hscalar : evaluate (m.spare + 58 + 2) (.variable column name) m.scope m.memory =
      (.ok (m.memory.store.get name), m.memory) := by
    rw [evaluate, Eval.run_scalar, if_neg (by omega)]
  rw [value_eq, run_ofEval, Machine.statementRoom_eq, hscalar]

/-- **Evaluating an expression changes nothing else of the machine.** -/
theorem Exec.value_frames (e : Expr) (m : Machine) : ∃ memory lost,
    (Exec.value e m).2 = { m with memory } ∧ m.memory.Frames (e.Refers m.functions) lost memory ∧
      (lost.isSome → ∃ f : Fault, (Exec.value e m).1 = .error (.fault f) ∧ f.Unmade) := by
  obtain ⟨lost, hframes, hlost⟩ := evaluate_frames m.statementRoom e m.scope m.memory
  rw [value_eq, run_ofEval]
  refine ⟨_, lost, rfl, hframes, fun h => ?_⟩
  obtain ⟨f, hf, hunmade⟩ := hlost h
  cases hvalue : (evaluate m.statementRoom e m.scope m.memory).1 with
  | ok v => rw [hvalue] at hf; cases hf
  | error f' =>
    rw [hvalue] at hf
    cases hf
    exact ⟨f, rfl, hunmade⟩

end LineBasic
