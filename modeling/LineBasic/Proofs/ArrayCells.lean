import Mathlib
import LineBasic.Proofs.Cells

/-!
# Array cells

The cells of an array lie in one row. Each list of subscripts within the bounds has a place in it,
no two have the same, and every place is taken. So an element that is stored is read back, and
nothing else changes.

* `Grid.isSome_placeFrom?_iff`, `Grid.exists_placeFrom?`: which subscripts have a place, and that no
  place is left over.
* `Store.Made`: the stores that the operations on variables make. `Store.Made.regular`: their arrays
  have all their cells.
* `Store.getElement_eq`: reading an array that exists is refused just outside its bounds.
* `Store.elements_apart`: the main result.
-/

namespace LineBasic

namespace Grid

/-! ## Places -/

/-- Subscripts have a place just if there is one for each dimension and none is above its bound. -/
theorem isSome_placeFrom?_iff {n : Nat} {bounds is : List Nat} :
    (placeFrom? n bounds is).isSome ↔ List.Forall₂ (· ≤ ·) is bounds := by
  induction bounds generalizing n is with
  | nil => cases is <;> simp [placeFrom?]
  | cons b bounds ih =>
    cases is with
    | nil => simp [placeFrom?]
    | cons i is =>
      rw [List.forall₂_cons, placeFrom?]
      by_cases hi : i ≤ b
      · simp [hi, ih]
      · simp [hi]

/-- Every place between those of two neighbours is the place of a cell. -/
theorem exists_placeFrom? {n p : Nat} {bounds : List Nat} (hlow : n * (bounds.map (· + 1)).prod ≤ p)
    (hhigh : p < (n + 1) * (bounds.map (· + 1)).prod) : ∃ is, placeFrom? n bounds is = some p := by
  induction bounds generalizing n with
  | nil =>
    obtain rfl : n = p := by simp at hlow hhigh; omega
    exact ⟨[], rfl⟩
  | cons b bounds ih =>
    rw [List.map_cons, List.prod_cons, ← mul_assoc] at hlow hhigh
    set row := (bounds.map (· + 1)).prod with hrow
    have hpos : 0 < row := Nat.pos_of_ne_zero fun hzero => by simp [hzero] at hhigh
    -- the first subscript says which of the rows of the other dimensions the place is in
    have hfirst : n * (b + 1) ≤ p / row := (Nat.le_div_iff_mul_le hpos).mpr hlow
    have hlast : p / row < (n + 1) * (b + 1) := (Nat.div_lt_iff_lt_mul hpos).mpr hhigh
    obtain ⟨is, his⟩ :=
      ih (n := p / row) (Nat.div_mul_le_self p row) (Nat.lt_mul_of_div_lt (Nat.lt_succ_self _) hpos)
    refine ⟨(p / row - n * (b + 1)) :: is, ?_⟩
    have hle : p / row - n * (b + 1) ≤ b := by
      rw [Nat.add_mul, Nat.one_mul] at hlast
      omega
    rw [placeFrom?, if_pos hle, Nat.add_sub_of_le hfirst, his]

/-- **No place is left over.** -/
theorem exists_placeFrom?_of_lt {p : Nat} {bounds : List Nat} (h : p < sizeOf bounds) :
    ∃ is, placeFrom? 0 bounds is = some p := by
  refine exists_placeFrom? (by simp) ?_
  rwa [Nat.zero_add, Nat.one_mul, ← sizeOf_eq_prod]

end Grid

namespace Store

variable {s s' : Store} {name key : String} {is : List Nat}

/-! ## All stores -/

/-- The stores that come from an empty one by the operations on variables, in any order. -/
inductive Made : Store → Prop where
  | empty (limit : Int) : Made { limit }
  | change {ended : Option Fault} {s s' : Store} (made : Made s) (change : s.Change ended s') :
      Made s'
  | getElement {s : Store} (made : Made s) (cells room : Nat) (name : String)
      (indices : List Value) : Made (s.getElement cells room name indices).2
  | delete {s : Store} (made : Made s) (name : String) : Made (s.delete name)
  | restore {s : Store} (made : Made s) (name : String) (v : Option Value) : Made (s.restore name v)

namespace Regular

theorem of_arrays (h : s.Regular) (harrays : s'.arrays = s.arrays) : s'.Regular := by
  unfold Regular
  rw [harrays]
  exact h

theorem of_spans {keys : Set String} {refers : String → Nat → Prop} {lost : Option (String × Nat)}
    (h : s.Regular) (hspans : s.Spans keys refers lost s') : s'.Regular := by
  intro e he
  obtain ⟨made, harrays, -⟩ := hspans.made
  rw [harrays] at he
  rcases List.mem_append.mp he with he | he
  · exact h e he
  · obtain ⟨d, -, rfl⟩ := List.mem_map.mp he
    exact ⟨rfl, (Grid.sound_new _ _).cells⟩

theorem of_extends {α : Type} {refers : String → Nat → Prop} {r : Except Fault α × Store}
    (h : s.Regular) (hextends : s.Extends refers r) : r.2.Regular := by
  obtain ⟨_, hspans, -⟩ := hextends
  exact h.of_spans hspans

theorem setElement (h : s.Regular) (cells room : Nat) (name : String) (vs : List Value)
    (v : Value) :
    (s.setElement cells room name vs v).2.Regular := by
  unfold Store.setElement
  split
  · exact h
  · rename_i is _
    have hs₁ := h.of_extends
      (@extends_reach (fun _ _ => True) s name cells (room - 1) is.length trivial)
    rcases hreach : s.reach cells (room - 1) name is.length with ⟨f | g, s₁⟩
    · rw [hreach] at hs₁
      exact hs₁
    · rw [hreach] at hs₁
      obtain ⟨-, hcells⟩ := hs₁.get? (get?_of_reach hreach)
      simp only
      split
      · exact hs₁
      · split
        · exact hs₁
        · exact hs₁.insert (g := g.setCell _ _) rfl (Array.size_setIfInBounds.trans hcells) _

theorem dim (h : s.Regular) (cells room : Nat) (name : String) (bounds : List Value) :
    (s.dim cells room name bounds).2.Regular := by
  unfold Store.dim
  simp only
  split
  · exact h
  · split
    · exact h
    · rename_i bs _
      have hadds := adds_addGrid cells room s (s.resolve name) bs
      generalize s.addGrid cells room (s.resolve name) bs = r at hadds
      cases hadds with
      | made => exact h.insert rfl (Grid.sound_new _ _).cells _
      | lost | refused => exact h

theorem declare (h : s.Regular) (letters : List String) (kind : Kind) :
    (s.declare letters kind).Regular := by
  unfold Store.declare
  induction letters generalizing s with
  | nil => exact h
  | cons letter letters ih =>
    refine ih ?_
    unfold declareLetter
    split <;> exact h

theorem change {ended : Option Fault} (h : s.Regular) (hchange : s.Change ended s') :
    s'.Regular := by
  cases hchange with
  | set run =>
    obtain ⟨w, -, rfl, -⟩ := set_eq_ok run
    exact h
  | setElement => exact h.setElement _ _ _ _ _
  | dim => exact h.dim _ _ _ _
  | eraseArray run =>
    unfold Store.eraseArray at run
    simp only at run
    split at run
    · cases run
    · obtain rfl := Except.ok.inj run
      exact fun e he => h e (Table.mem_remove he)
  | eraseAll => exact List.forall_mem_nil _
  | declare => exact h.declare _ _
  | clear => exact List.forall_mem_nil _
  | evaluate room es scope m =>
    obtain ⟨_, hframes, -⟩ := evaluateAll_frames room es scope m
    exact h.of_spans hframes.store

end Regular

/-- **In every store each array is kept under its own key and has all its cells.** -/
theorem Made.regular (h : s.Made) : s.Regular := by
  induction h with
  | empty limit => exact List.forall_mem_nil _
  | change _ hchange ih => exact ih.change hchange
  | @getElement s _ cells room name indices ih =>
    exact ih.of_extends (@extends_getElement (fun _ _ => True) s name cells room indices trivial)
  | @delete s _ name ih =>
    refine ih.of_arrays ?_
    unfold Store.delete
    simp only
    split <;> rfl
  | @restore s _ name v ih =>
    refine ih.of_arrays ?_
    cases v with
    | some v => rfl
    | none =>
      unfold Store.restore Store.delete
      simp only
      split <;> rfl

/-! ## Reading -/

/-- Subscripts that are integers are refused if one is negative. -/
theorem mapM_readIndex {vs : List Value} {ns : List Int} (h : vs.mapM Value.integer = .ok ns) :
    vs.mapM readIndex = if ∃ n ∈ ns, n < 0 then fail .subscriptOutOfRange
      else .ok (ns.map Int.toNat) := by
  induction vs generalizing ns with
  | nil =>
    obtain rfl := Except.ok.inj h
    simp
    rfl
  | cons v vs ih =>
    rw [List.mapM_cons] at h ⊢
    obtain ⟨n, hn, h⟩ := ok_of_bind h
    obtain ⟨ns', hns, h⟩ := ok_of_bind h
    obtain rfl := Except.ok.inj h
    rw [ih hns, readIndex, hn]
    by_cases hneg : n < 0
    · simp [hneg, fail, bind, Except.bind]
    · by_cases hrest : ∃ m ∈ ns', m < 0
      · simp [hneg, hrest, fail, bind, Except.bind, pure, Except.pure]
      · simp [hneg, hrest, bind, Except.bind, pure, Except.pure]

/-- Integers that are no subscripts within the bounds: their number is another, one is negative, or
one is above its bound. -/
def Outside (bounds : List Nat) (ns : List Int) : Prop :=
  ns.length ≠ bounds.length ∨ ∃ x ∈ ns.zip bounds, x.1 < 0 ∨ (x.2 : Int) < x.1

theorem outside_cons {b : Nat} {bounds : List Nat} {n : Int} {ns : List Int} :
    Outside (b :: bounds) (n :: ns) ↔ (n < 0 ∨ (b : Int) < n) ∨ Outside bounds ns := by
  simp only [Outside, List.length_cons, ne_eq, Nat.add_right_cancel_iff, List.zip_cons_cons,
    List.mem_cons, exists_eq_or_imp]
  exact or_left_comm

/-- Subscripts have a place just if they are not outside the bounds. -/
theorem outside_iff {bounds : List Nat} {ns : List Int} :
    Outside bounds ns ↔ (∃ n ∈ ns, n < 0) ∨
      (Grid.placeFrom? 0 bounds (ns.map Int.toNat)).isSome = false := by
  rw [← Bool.not_eq_true, Grid.isSome_placeFrom?_iff]
  induction bounds generalizing ns with
  | nil => cases ns <;> simp [Outside]
  | cons b bounds ih =>
    cases ns with
    | nil => simp [Outside]
    | cons n ns =>
      rw [outside_cons, ih, List.map_cons, List.forall₂_cons]
      by_cases hneg : n < 0
      · simp [hneg]
      · have hle : n.toNat ≤ b ↔ ¬(b : Int) < n := by omega
        by_cases hlt : (b : Int) < n <;> simp [hneg, hle, hlt]

/-- **Reading an array that exists** is refused outside its bounds and gives an element within
them. -/
theorem getElement_of_get? {g : Grid} {vs : List Value} {ns : List Int}
    (hget : s.arrays.get? (s.resolve name) = some g) (hints : vs.mapM Value.integer = .ok ns)
    (cells room : Nat) :
    Outside g.bounds ns ∧
        s.getElement cells room name vs = (.error (.error (.of .subscriptOutOfRange)), s) ∨
      ¬Outside g.bounds ns ∧ ∃ v, s.getElement cells room name vs = (.ok v, s) := by
  have hindices := mapM_readIndex hints
  rw [outside_iff]
  by_cases hneg : ∃ n ∈ ns, n < 0
  · rw [if_pos hneg] at hindices
    refine .inl ⟨.inl hneg, ?_⟩
    unfold getElement
    rw [hindices]
    rfl
  · rw [if_neg hneg] at hindices
    cases hplace : g.place? (ns.map Int.toNat) with
    | none =>
      refine .inl ⟨.inr (by rw [← Grid.place?, hplace]; rfl), ?_⟩
      unfold getElement
      simp only [hindices, reach_of_get? hget, hplace]
      rfl
    | some p =>
      refine .inr ⟨?_, _, getElement_of_has hindices ⟨g, hget, by rw [hplace]; rfl⟩ cells room⟩
      rintro (hmem | hnone)
      · exact hneg hmem
      · rw [← Grid.place?, hplace] at hnone
        cases hnone

/-- What is read from an array that exists depends on its bounds and on the cells that can be
read. -/
theorem getElement_congr {X : Set Cell} {vs : List Value} (h : s.Rewrites X s')
    (hexists : s.arrays.contains (s.resolve name) = true)
    (hothers : ∀ is, vs.mapM readIndex = .ok is → .element (s.resolve name) is ∉ X)
    (cells room : Nat) :
    (s'.getElement cells room name vs).1 = (s.getElement cells room name vs).1 := by
  have hkey := resolve_congr h.letters name
  obtain ⟨g, hget⟩ := Option.isSome_iff_exists.mp hexists
  obtain ⟨g', hget', hbounds⟩ := h.bounds _ g hget
  cases hindices : vs.mapM readIndex with
  | error e =>
    unfold getElement
    rw [hindices]
  | ok is =>
    have hplace : g'.place? is = g.place? is := by
      unfold Grid.place?
      rw [hbounds]
    by_cases hsome : (g.place? is).isSome
    · have hhas : s.Has (s.resolve name) is := ⟨g, hget, hsome⟩
      have hhas' := hhas.rewrites h
      rw [← hkey] at hhas'
      rw [getElement_of_has hindices hhas, getElement_of_has hindices hhas', hkey,
        h.read (hothers is hindices)]
    · have hnone : g.place? is = none := by simpa using hsome
      rw [← hkey] at hget'
      unfold getElement
      simp only [hindices, reach_of_get? hget, reach_of_get? hget', hplace, hnone]

/-! ## Storing -/

/-- What has become of a store in which a value was stored in an element. -/
structure Keeps (cells room : Nat) (s : Store) (name : String) (vs : List Value) (v : Value)
    (s' : Store) : Prop where
  /-- the element is read back, as its kind takes the value -/
  stored : ∃ w, (Kind.ofName (s.resolve name)).coerce v = .ok w ∧
    ∀ cells' room', s'.getElement cells' room' name vs = (.ok w, s')
  /-- every array that existed has its bounds -/
  bounds : ∀ key g, s.arrays.get? key = some g →
    ∃ g', s'.arrays.get? key = some g' ∧ g'.bounds = g.bounds
  /-- if the array existed, all other subscripts are read, or refused, as before -/
  elements : s.arrays.contains (s.resolve name) = true →
    ∀ cells' room' vs', vs'.mapM readIndex ≠ vs.mapM readIndex →
      (s'.getElement cells' room' name vs').1 = (s.getElement cells' room' name vs').1
  /-- if it did not, they are what they would have been in the array that is made for them -/
  implied : ∀ vs', vs'.length = vs.length → vs'.mapM readIndex ≠ vs.mapM readIndex →
    (s'.getElement cells room name vs').1 = (s.getElement cells room name vs').1
  /-- every other array is read as before -/
  arrays : ∀ other, s.resolve other ≠ s.resolve name →
    s.arrays.contains (s.resolve other) = true → ∀ cells' room' vs',
      (s'.getElement cells' room' other vs').1 = (s.getElement cells' room' other vs').1
  /-- and so is every scalar -/
  scalars : ∀ other, s'.get other = s.get other ∧ s'.snapshot other = s.snapshot other

/-- What is read from an array once it is reached. -/
theorem getElement_of_reach {cells room : Nat} {vs : List Value} {g : Grid} {s₁ : Store}
    (hindices : vs.mapM readIndex = .ok is)
    (hreach : s.reach cells (room - 1) name is.length = (.ok g, s₁)) :
    s.getElement cells room name vs = match g.place? is with
      | none => (orFault (fail .subscriptOutOfRange), s₁)
      | some p => (.ok (g.cell p), s₁) := by
  unfold getElement
  cases hplace : g.place? is <;> simp only [hindices, hreach, hplace]

/-- **A value that is stored in an element is read back there, and nothing else is read
differently.** -/
theorem Regular.keeps {cells room : Nat} {vs : List Value} {v : Value} (h : s.Regular)
    (hset : s.setElement cells room name vs v = (.ok (), s')) :
    s.Keeps cells room name vs v s' := by
  have hstores := stores_setElement h cells room name vs v
  rw [hset] at hstores
  cases hstores with
  | @stores is w g s₁ _ indices coerced reach place rewrites read =>
    have hreached : s.Rewrites {.element (s.resolve name) is} s' :=
      (rewrites_reach reach).after rewrites
    have hkey : ∀ other, s'.resolve other = s.resolve other := resolve_congr hreached.letters
    have hget := get?_of_reach reach
    have hhas : s₁.Has (s.resolve name) is := ⟨g, hget, place⟩
    have hother : ∀ {vs' : List Value}, vs'.mapM readIndex ≠ vs.mapM readIndex →
        ∀ is', vs'.mapM readIndex = .ok is' →
          Cell.element (s.resolve name) is' ∉ ({.element (s.resolve name) is} : Set Cell) := by
      intro vs' hne is' indices' hmem
      exact hne (by rw [indices', indices, (Cell.element.inj hmem).2])
    refine ⟨⟨w, coerced, fun cells' room' => ?_⟩, hreached.bounds,
      fun hexists cells' room' vs' hne => getElement_congr hreached hexists (hother hne) _ _,
      fun vs' hlength hne => ?_, fun other hapart hexists cells' room' vs' => ?_, fun other => ?_⟩
    · have hstored := hhas.rewrites rewrites
      rw [← hkey] at hstored
      rw [getElement_of_has indices hstored, hkey, read]
    · -- reading finds the array that storing found or made
      cases indices' : vs'.mapM readIndex with
      | error e =>
        unfold getElement
        rw [indices']
      | ok is' =>
        have hdims : is'.length = is.length := by
          rw [length_of_mapM indices', length_of_mapM indices, hlength]
        rw [← hdims] at reach
        have hname : s₁.resolve name = s.resolve name :=
          resolve_congr (rewrites_reach reach).letters name
        have hexists : s₁.arrays.contains (s₁.resolve name) = true := by
          rw [Table.contains, hname, hget]
          rfl
        have hlater := getElement_congr rewrites hexists
          (fun is' indices' => hname ▸ hother hne is' indices') cells room
        rw [hlater, getElement_of_reach indices' reach,
          getElement_of_reach indices' (reach_of_get? (hname ▸ hget) _ _ _)]
    · refine getElement_congr hreached hexists (fun is' _ hmem => hapart ?_) _ _
      exact (Cell.element.inj hmem).1
    · have hscalar := hreached.scalars (s.resolve other) Cell.noConfusion
      simp only [get, snapshot, hkey, hscalar, and_self]

/-! ## The main result -/

/-- **The cells of arrays are apart.** For every list of bounds the subscripts within them and the
places below the size correspond one to one. In every store each array has all its cells, so no
place that an access finds is outside them; reading an array that exists with integers as subscripts
is refused just outside its bounds; and a value that is stored in an element is read back there,
while every array keeps its bounds and every other element, every other array and every scalar is
read as before. -/
theorem elements_apart :
    (∀ bounds is, (Grid.placeFrom? 0 bounds is).isSome ↔ List.Forall₂ (· ≤ ·) is bounds) ∧
    (∀ bounds is p, Grid.placeFrom? 0 bounds is = some p → p < Grid.sizeOf bounds) ∧
    (∀ bounds is is' p, Grid.placeFrom? 0 bounds is = some p →
      Grid.placeFrom? 0 bounds is' = some p → is = is') ∧
    (∀ bounds p, p < Grid.sizeOf bounds → ∃ is, Grid.placeFrom? 0 bounds is = some p) ∧
    ∀ s : Store, s.Made →
      (∀ key g, s.arrays.get? key = some g → g.cells.size = g.size ∧
        ∀ is p, g.place? is = some p → p < g.cells.size) ∧
      (∀ cells room name g vs ns, s.arrays.get? (s.resolve name) = some g →
        vs.mapM Value.integer = .ok ns →
        ((s.getElement cells room name vs).1 = .error (.error (.of .subscriptOutOfRange)) ↔
          ns.length ≠ g.bounds.length ∨ ∃ x ∈ ns.zip g.bounds, x.1 < 0 ∨ (x.2 : Int) < x.1) ∧
        ((s.getElement cells room name vs).1 ≠ .error (.error (.of .subscriptOutOfRange)) →
          ∃ v, (s.getElement cells room name vs).1 = .ok v)) ∧
      ∀ cells room name vs v s', s.setElement cells room name vs v = (.ok (), s') →
        s.Keeps cells room name vs v s' := by
  refine ⟨fun _ _ => Grid.isSome_placeFrom?_iff, fun _ _ _ => Grid.placeFrom?_lt_sizeOf,
    fun _ _ _ _ h h' => (Grid.placeFrom?_inj h h').2, fun _ _ => Grid.exists_placeFrom?_of_lt,
    fun s hmade => ⟨fun key g hget => ?_, fun cells room name g vs ns hget hints => ?_,
      fun _ _ name vs v s' => hmade.regular.keeps⟩⟩
  · have hcells := (hmade.regular.get? hget).2
    exact ⟨hcells, fun is p => Grid.place_lt hcells⟩
  · rcases getElement_of_get? hget hints cells room with ⟨houtside, hread⟩ | ⟨hinside, v, hread⟩
    · rw [hread]
      exact ⟨⟨fun _ => houtside, fun _ => rfl⟩, fun hne => absurd rfl hne⟩
    · rw [hread]
      exact ⟨⟨nofun, fun houtside => absurd houtside hinside⟩, fun _ => ⟨v, rfl⟩⟩

/-- A store with a matrix of three rows and four columns. -/
def threeByFour : Store := (({} : Store).dim 100 9 "A%" [.single 2.0, .single 3.0]).2

theorem elements_apart_threeByFour :
    threeByFour.Keeps 100 9 "A%" [.single 1.0, .single 0.0] (.single 7.0)
      (threeByFour.setElement 100 9 "A%" [.single 1.0, .single 0.0] (.single 7.0)).2 ∧
    (threeByFour.getElement 100 9 "A%" [.single 0.0, .single 4.0]).1 =
      .error (.error (.of .subscriptOutOfRange)) := by
  obtain ⟨-, -, -, -, hstores⟩ := elements_apart
  obtain ⟨-, hreads, hkeeps⟩ := hstores threeByFour (.change (.empty 65535) (.dim 100 9 _ _ _))
  have hset : (threeByFour.setElement 100 9 "A%" [.single 1.0, .single 0.0] (.single 7.0)).1 =
      .ok () := by
    decide +kernel
  have hints : [Value.single 0.0, .single 4.0].mapM Value.integer = .ok [0, 4] := by decide +kernel
  refine ⟨hkeeps _ _ _ _ _ _ (Prod.ext hset rfl),
    (hreads _ _ "A%" _ _ _ rfl hints).1.mpr (.inr ⟨(4, 3), ?_, ?_⟩)⟩
  all_goals decide +kernel

end Store

end LineBasic
