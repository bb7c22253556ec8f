import Mathlib
import LineBasic.Proofs.Conversions

/-!
# Cells

A cell is a scalar or an element of an array. What is read from cells tells two stores apart, but
for the arrays that exist: a new array changes nothing that is read.

* `Store.read`: what is read from a cell.
* `Store.Rewrites`: only certain cells differ. Reading and evaluating rewrite none, and storing
  rewrites one.
* `Store.Settled`: every cell holds a value that its kind takes as it is. `Session.Reached.settled`:
  so it is in every session.
-/

namespace LineBasic

/-! ## Places in arrays -/

namespace Grid

/-- Different subscripts have different places. -/
theorem placeFrom?_inj {n n' p : Nat} {bounds is is' : List Nat}
    (h : placeFrom? n bounds is = some p) (h' : placeFrom? n' bounds is' = some p) :
    n = n' ∧ is = is' := by
  induction bounds generalizing n n' is is' with
  | nil =>
    cases is with
    | cons => cases h
    | nil =>
      cases is' with
      | cons => cases h'
      | nil => exact ⟨(Option.some.inj h).trans (Option.some.inj h').symm, rfl⟩
  | cons b bounds ih =>
    cases is with
    | nil => cases h
    | cons i is =>
      cases is' with
      | nil => cases h'
      | cons i' is' =>
        unfold placeFrom? at h h'
        split_ifs at h h' with hi hi'
        obtain ⟨hplace, rfl⟩ := ih h h'
        have hdiv : ∀ n i, i ≤ b → (n * (b + 1) + i) / (b + 1) = n := by
          intro n i hi
          rw [Nat.mul_comm, Nat.mul_add_div (by omega), Nat.div_eq_of_lt (by omega), Nat.add_zero]
        obtain rfl : n = n' := by rw [← hdiv n i hi, hplace, hdiv n' i' hi']
        exact ⟨rfl, by rw [Nat.add_left_cancel hplace]⟩

/-- A place is in the row. -/
theorem placeFrom?_lt {n p : Nat} {bounds is : List Nat} (h : placeFrom? n bounds is = some p) :
    p < (n + 1) * (bounds.map (· + 1)).prod := by
  induction bounds generalizing n is with
  | nil =>
    cases is with
    | cons => cases h
    | nil =>
      obtain rfl := Option.some.inj h
      simp
  | cons b bounds ih =>
    cases is with
    | nil => cases h
    | cons i is =>
      unfold placeFrom? at h
      split_ifs at h with hi
      refine (ih h).trans_le ?_
      rw [List.map_cons, List.prod_cons, ← mul_assoc]
      refine Nat.mul_le_mul_right _ ?_
      nlinarith

theorem placeFrom?_lt_sizeOf {p : Nat} {bounds is : List Nat}
    (h : placeFrom? 0 bounds is = some p) :
    p < sizeOf bounds := by
  have hlt := placeFrom?_lt h
  rwa [Nat.zero_add, Nat.one_mul, ← sizeOf_eq_prod] at hlt

theorem place_lt {g : Grid} {is : List Nat} {p : Nat} (hcells : g.cells.size = g.size)
    (hplace : g.place? is = some p) : p < g.cells.size :=
  hcells ▸ placeFrom?_lt_sizeOf hplace

/-- What is read under subscripts; out of range it is what a new variable holds. -/
def read (g : Grid) (is : List Nat) : Value :=
  ((g.place? is).map g.cell).getD (Kind.ofName g.key).default

theorem read_of_place? {g : Grid} {is : List Nat} {p : Nat} (h : g.place? is = some p) :
    g.read is = g.cell p := by
  unfold read
  rw [h]
  rfl

theorem read_new (key : String) (bounds is : List Nat) :
    (new key bounds).read is = (Kind.ofName key).default := by
  unfold read
  cases (new key bounds).place? is with
  | none => rfl
  | some p =>
    change (Array.replicate _ _).getD p _ = _
    rw [Array.getD_eq_getD_getElem?, Array.getElem?_replicate]
    split <;> rfl

theorem read_setCell {g : Grid} {is : List Nat} {p : Nat} (hcells : g.cells.size = g.size)
    (hplace : g.place? is = some p) (v : Value) (is' : List Nat) :
    (g.setCell p v).read is' = if is' = is then v else g.read is' := by
  have hsame : (g.setCell p v).place? is' = g.place? is' := rfl
  unfold read
  rw [hsame]
  split_ifs with his
  · subst his
    rw [hplace]
    change (g.cells.setIfInBounds p v).getD p _ = v
    rw [Array.getD_eq_getD_getElem?, Array.getElem?_setIfInBounds_self_of_lt
      (place_lt hcells hplace)]
    rfl
  · cases hplace' : g.place? is' with
    | none => rfl
    | some p' =>
      have hne : p ≠ p' := fun heq => his (placeFrom?_inj hplace' (heq ▸ hplace)).2
      change (g.cells.setIfInBounds p v).getD p' _ = g.cells.getD p' _
      rw [Array.getD_eq_getD_getElem?, Array.getElem?_setIfInBounds_ne hne,
        Array.getD_eq_getD_getElem?]
      rfl

end Grid

namespace Store

variable {s s' s'' : Store} {X Y : Set Cell} {name key : String} {is : List Nat}

/-- What is read from a cell; elements of arrays that do not exist hold what new variables hold. -/
def read (s : Store) : Cell → Value
  | .scalar key => (s.scalars.get? key).getD (Kind.ofName key).default
  | .element key is => ((s.arrays.get? key).map (·.read is)).getD (Kind.ofName key).default

theorem read_element {g : Grid} (h : s.arrays.get? key = some g) (is : List Nat) :
    s.read (.element key is) = g.read is := by
  simp only [read, h, Option.map_some, Option.getD_some]

theorem read_element_of_none (h : s.arrays.get? key = none) (is : List Nat) :
    s.read (.element key is) = (Kind.ofName key).default := by
  simp only [read, h, Option.map_none, Option.getD_none]

/-- No cell differs but certain ones, and all arrays are still there. -/
structure Rewrites (X : Set Cell) (s s' : Store) : Prop where
  letters : s'.letters = s.letters
  scalars : ∀ key, .scalar key ∉ X → s'.scalars.get? key = s.scalars.get? key
  elements : ∀ key is, .element key is ∉ X → s'.read (.element key is) = s.read (.element key is)
  bounds : ∀ key g, s.arrays.get? key = some g → ∃ g', s'.arrays.get? key = some g' ∧
    g'.bounds = g.bounds

namespace Rewrites

theorem refl (X : Set Cell) (s : Store) : s.Rewrites X s :=
  ⟨rfl, fun _ _ => rfl, fun _ _ _ => rfl, fun _ g hg => ⟨g, hg, rfl⟩⟩

theorem trans (h : s.Rewrites X s') (h' : s'.Rewrites Y s'') : s.Rewrites (X ∪ Y) s'' where
  letters := h'.letters.trans h.letters
  scalars key hkey := (h'.scalars key (hkey ∘ .inr)).trans (h.scalars key (hkey ∘ .inl))
  elements key is hkey := (h'.elements key is (hkey ∘ .inr)).trans (h.elements key is (hkey ∘ .inl))
  bounds key g hg := by
    obtain ⟨g', hg', hbounds⟩ := h.bounds key g hg
    obtain ⟨g'', hg'', hbounds'⟩ := h'.bounds key g' hg'
    exact ⟨g'', hg'', hbounds'.trans hbounds⟩

theorem mono (h : s.Rewrites X s') (hle : X ⊆ Y) : s.Rewrites Y s' :=
  ⟨h.letters, fun key hkey => h.scalars key (hkey ∘ @hle _), fun key is hkey =>
    h.elements key is (hkey ∘ @hle _), h.bounds⟩

theorem read (h : s.Rewrites X s') {c : Cell} (hc : c ∉ X) : s'.read c = s.read c := by
  cases c with
  | scalar key => simp only [Store.read, h.scalars key hc]
  | element key is => exact h.elements key is hc

/-- First nothing was rewritten, then something. -/
theorem after (h : s.Rewrites ∅ s') (h' : s'.Rewrites X s'') : s.Rewrites X s'' :=
  (h.trans h').mono (Set.empty_union X).subset

end Rewrites

/-- New arrays change nothing that is read. -/
theorem Spans.rewrites {refers : String → Nat → Prop} {lost : Option (String × Nat)}
    (h : s.Spans ∅ refers lost s') : s.Rewrites ∅ s' := by
  obtain ⟨made, harrays, hmade, -, -⟩ := h.made
  have hfind : ∀ key g, s.arrays.get? key = some g → s'.arrays.get? key = some g := by
    intro key g hg
    unfold Table.get? at hg ⊢
    rw [harrays, Table.find?_append, hg]
    rfl
  refine ⟨h.letters, fun key _ => ?_, fun key is _ => ?_, fun key g hg => ⟨g, hfind key g hg, rfl⟩⟩
  · rw [Table.get?, h.scalars.eq]
    rfl
  · cases hg : s.arrays.get? key with
    | some g => rw [read_element hg, read_element (hfind key g hg)]
    | none =>
      -- the array did not exist, so it still does not, or it is new
      have hnew : s'.arrays.get? key = Table.find? key (made.map implied) := by
        unfold Table.get? at hg ⊢
        rw [harrays, Table.find?_append, hg]
        rfl
      rw [read_element_of_none hg]
      cases hg' : s'.arrays.get? key with
      | none => exact read_element_of_none hg' is
      | some g =>
        rw [hnew] at hg'
        obtain ⟨d, -, hd⟩ := List.mem_map.mp (Table.mem_of_find? hg')
        obtain ⟨rfl, rfl⟩ := Prod.mk.inj hd
        rw [read_element (hnew.trans hg')]
        exact Grid.read_new _ _ _

/-- When no array was made, nothing was. -/
theorem Spans.eq_of_arrays {refers : String → Nat → Prop} (h : s.Spans ∅ refers none s')
    (harrays : s'.arrays = s.arrays) : s' = s := by
  obtain ⟨hlimit, -, hletters, hvaries, ⟨made, hmade, -, -, hused⟩, -⟩ := h
  have hscalars : s'.scalars = s.scalars := congrArg Table.mk hvaries.eq
  clear hvaries
  rw [harrays, List.self_eq_append_right, List.map_eq_nil_iff] at hmade
  subst hmade
  cases s
  cases s'
  simp only at hlimit hletters hscalars harrays hused
  subst hlimit hletters hscalars harrays
  simpa [impliedSize] using hused

/-! ## Storing -/

theorem rewrites_set {v : Value} (h : s.set name v = .ok s') :
    ∃ w, (Kind.ofName (s.resolve name)).coerce v = .ok w ∧
    s.Rewrites {.scalar (s.resolve name)} s' ∧ s'.read (.scalar (s.resolve name)) = w := by
  obtain ⟨w, hcoerce, rfl, -⟩ := set_eq_ok h
  refine ⟨w, hcoerce, ⟨rfl, fun key hkey => ?_, fun _ _ _ => rfl, fun _ g hg => ⟨g, hg, rfl⟩⟩, ?_⟩
  · refine (Table.find?_put _ _ _ _).trans (if_neg fun heq => hkey ?_)
    rw [heq]
    rfl
  · simp only [read, Table.get?, Table.insert, Table.find?_put, if_true, Option.getD_some]

/-- A scalar takes a value of its kind, unless it is new and there is no room for it. -/
theorem set_of_coerce {v w : Value} (h : (Kind.ofName (s.resolve name)).coerce v = .ok w) :
    (∃ s', s.set name v = .ok s') ∨
    s.set name v = .error (.of .outOfMemory) ∧ s.scalars.get? (s.resolve name) = none ∧
      s.limit < s.used + 1 := by
  have hset : s.set name v = (do
      let s₁ ← if s.scalars.contains (s.resolve name) then pure s else s.reserve 1
      return { s₁ with scalars := s₁.scalars.insert (s.resolve name) w }) := by
    unfold set
    simp only
    rw [h]
    rfl
  rw [hset]
  by_cases hcontains : s.scalars.contains (s.resolve name)
  · rw [if_pos hcontains]
    exact .inl ⟨_, rfl⟩
  · rw [if_neg hcontains]
    unfold reserve
    by_cases hfull : s.limit < s.used + (1 : Nat)
    · rw [if_pos hfull]
      refine .inr ⟨rfl, ?_, hfull⟩
      simpa [Table.contains] using hcontains
    · rw [if_neg hfull]
      exact .inl ⟨_, rfl⟩

/-- A value that a scalar took once it takes again, unless there is no room. Then it is not among
what differs. -/
theorem set_again {v : Value} {s₁ : Store} (hset : s.set name v = .ok s') (h : s.Rewrites X s₁) :
    (∃ s₁', s₁.set name v = .ok s₁' ∧ s₁'.arrays = s₁.arrays ∧
      s'.Rewrites (X \ {.scalar (s.resolve name)}) s₁') ∨
        s₁.set name v = .error (.of .outOfMemory) := by
  obtain ⟨w, hcoerce, rfl, -⟩ := set_eq_ok hset
  have hkey := resolve_congr h.letters name
  rcases set_of_coerce (hkey ▸ hcoerce : (Kind.ofName (s₁.resolve name)).coerce v = .ok w)
    with ⟨s₁', hset₁⟩ | ⟨hfull, -⟩
  · obtain ⟨w', hcoerce', rfl, -⟩ := set_eq_ok hset₁
    rw [hkey] at hcoerce'
    obtain rfl := Except.ok.inj (hcoerce'.symm.trans hcoerce)
    refine .inl ⟨_, hset₁, rfl, h.letters, fun key hne => ?_, fun key is hne => ?_, h.bounds⟩
    · simp only [Table.get?, Table.insert, Table.find?_put, hkey]
      split_ifs with heq
      · rfl
      · exact h.scalars key fun hmem => hne ⟨hmem, fun hkey => heq (Cell.scalar.inj hkey)⟩
    · exact h.elements key is fun hmem => hne ⟨hmem, Cell.noConfusion⟩
  · exact .inr hfull

theorem Extends.rewrites {α : Type} {refers : String → Nat → Prop} {r : Except Fault α × Store}
    (h : s.Extends refers r) : s.Rewrites ∅ r.2 := by
  obtain ⟨_, hspans, -⟩ := h
  exact hspans.rewrites

theorem rewrites_reach {cells room dims : Nat} {r : Except Fault Grid}
    (h : s.reach cells room name dims = (r, s')) : s.Rewrites ∅ s' := by
  have hextends := @extends_reach (fun _ _ => True) s name cells room dims trivial
  rw [h] at hextends
  exact hextends.rewrites

/-- An array that is reached exists. -/
theorem get?_of_reach {cells room dims : Nat} {g : Grid}
    (h : s.reach cells room name dims = (.ok g, s')) :
    s'.arrays.get? (s.resolve name) = some g := by
  unfold reach at h
  simp only at h
  split at h
  · rename_i g' hget
    obtain ⟨hg, rfl⟩ := Prod.mk.inj h
    obtain rfl := Except.ok.inj hg
    exact hget
  · obtain ⟨rfl, -, rfl⟩ := addGrid_eq_ok h
    exact (Table.find?_put _ _ _ _).trans (if_pos rfl)

theorem rewrites_getElement (cells room : Nat) (name : String) (vs : List Value) :
    s.Rewrites ∅ (s.getElement cells room name vs).2 :=
  (@extends_getElement (fun _ _ => True) s name cells room vs trivial).rewrites

/-- The array has an element with the subscripts. -/
def Has (s : Store) (key : String) (is : List Nat) : Prop :=
  ∃ g, s.arrays.get? key = some g ∧ (g.place? is).isSome

theorem Has.rewrites (h : s.Has key is) (hrewrites : s.Rewrites X s') : s'.Has key is := by
  obtain ⟨g, hget, hplace⟩ := h
  obtain ⟨g', hget', hbounds⟩ := hrewrites.bounds key g hget
  refine ⟨g', hget', ?_⟩
  unfold Grid.place? at hplace ⊢
  rwa [hbounds]

theorem reach_of_get? {g : Grid} (h : s.arrays.get? (s.resolve name) = some g)
    (cells room dims : Nat) : s.reach cells room name dims = (.ok g, s) := by
  unfold reach
  simp only [h]

/-- What is read is what the cell holds, and the element exists from then on. -/
theorem getElement_eq_ok {cells room : Nat} {vs : List Value} {v : Value}
    (hrun : s.getElement cells room name vs = (.ok v, s')) :
    ∃ is, vs.mapM readIndex = .ok is ∧ s'.Has (s.resolve name) is ∧
      v = s'.read (.element (s.resolve name) is) := by
  unfold getElement at hrun
  split at hrun
  · cases hrun
  · rename_i is hindices
    split at hrun
    · cases hrun
    · rename_i g s₁ hreach
      have hget := get?_of_reach hreach
      split at hrun
      · cases hrun
      · rename_i p hplace
        obtain ⟨hv, rfl⟩ := Prod.mk.inj hrun
        refine ⟨is, hindices, ⟨g, hget, by rw [hplace]; rfl⟩, ?_⟩
        rw [read_element hget, Grid.read_of_place? hplace, ← Except.ok.inj hv]

/-- An element that exists can be read, and nothing changes. -/
theorem getElement_of_has {vs : List Value} (hindices : vs.mapM readIndex = .ok is)
    (h : s.Has (s.resolve name) is) (cells room : Nat) :
    s.getElement cells room name vs = (.ok (s.read (.element (s.resolve name) is)), s) := by
  obtain ⟨g, hget, hplace⟩ := h
  obtain ⟨p, hplace⟩ := Option.isSome_iff_exists.mp hplace
  unfold getElement
  simp only [hindices, reach_of_get? hget, hplace, read_element hget, Grid.read_of_place? hplace]

/-- What storing in an element comes to: the element is rewritten, or nothing is, since it does not
exist or does not take the value. -/
inductive Stores (cells room : Nat) (s : Store) (name : String) (vs : List Value) (v : Value) :
    Except Fault Unit × Store → Prop where
  | fails {f : Fault} {s' : Store} (rewrites : s.Rewrites ∅ s')
      (cause : ∀ is w, vs.mapM readIndex = .ok is → s.Has (s.resolve name) is →
        (Kind.ofName (s.resolve name)).coerce v ≠ .ok w) :
      Stores cells room s name vs v (.error f, s')
  | stores {is : List Nat} {w : Value} {g : Grid} {s₁ s' : Store}
      (indices : vs.mapM readIndex = .ok is)
      (coerced : (Kind.ofName (s.resolve name)).coerce v = .ok w)
      (reach : s.reach cells (room - 1) name is.length = (.ok g, s₁))
      (place : (g.place? is).isSome) (rewrites : s₁.Rewrites {.element (s.resolve name) is} s')
      (read : s'.read (.element (s.resolve name) is) = w) :
      Stores cells room s name vs v (.ok (), s')

/-- Every array is kept under its own key and has as many cells as its bounds say. -/
def Regular (s : Store) : Prop := ∀ e ∈ s.arrays.entries, e.2.key = e.1 ∧ e.2.cells.size = e.2.size

theorem Sound.regular (h : s.Sound) : s.Regular := by
  obtain ⟨lost, haccounts⟩ := h
  exact fun e he => ⟨(haccounts.arrays e he).1, (haccounts.arrays e he).2.cells⟩

namespace Regular

theorem get? {g : Grid} (h : s.Regular) (hget : s.arrays.get? key = some g) :
    g.key = key ∧ g.cells.size = g.size :=
  h _ (Table.mem_of_find? hget)

theorem insert {g : Grid} (h : s.Regular) (hkey : g.key = key) (hcells : g.cells.size = g.size)
    (used : Int) :
    Regular { s with arrays := s.arrays.insert key g, used } := by
  intro e he
  rcases Table.mem_put he with rfl | he
  · exact ⟨hkey, hcells⟩
  · exact h e he

theorem reach {cells room dims : Nat} {g : Grid} (h : s.Regular)
    (hreach : s.reach cells room name dims = (.ok g, s')) : s'.Regular := by
  unfold Store.reach at hreach
  simp only at hreach
  split at hreach
  · obtain ⟨-, rfl⟩ := Prod.mk.inj hreach
    exact h
  · obtain ⟨-, -, rfl⟩ := addGrid_eq_ok hreach
    exact h.insert rfl (Grid.sound_new _ _).cells _

end Regular

/-- The array with a cell changed takes its place. -/
theorem rewrites_insert {g : Grid} {p : Nat} (hget : s.arrays.get? key = some g)
    (hcells : g.cells.size = g.size) (hplace : g.place? is = some p) (w : Value) :
    s.Rewrites {.element key is} { s with arrays := s.arrays.insert key (g.setCell p w) } ∧
      read { s with arrays := s.arrays.insert key (g.setCell p w) } (.element key is) = w := by
  have hfind : ∀ key', (s.arrays.insert key (g.setCell p w)).get? key' =
      if key' = key then some (g.setCell p w) else s.arrays.get? key' :=
      fun key' => Table.find?_put _ _ _ _
  have hself : (s.arrays.insert key (g.setCell p w)).get? key = some (g.setCell p w) :=
    (hfind key).trans (if_pos rfl)
  have hread := Grid.read_setCell hcells hplace w
  refine ⟨⟨rfl, fun _ _ => rfl, fun key' is' hne => ?_, fun key' g' hg' => ?_⟩, ?_⟩
  · by_cases hkey : key' = key
    · subst hkey
      have his : is' ≠ is := fun heq => hne (by rw [heq]; rfl)
      rw [read_element hget, read_element hself, hread, if_neg his]
    · simp only [Store.read, hfind, if_neg hkey]
  · by_cases hkey : key' = key
    · subst hkey
      rw [hget] at hg'
      obtain rfl := Option.some.inj hg'
      exact ⟨_, hself, rfl⟩
    · exact ⟨g', (hfind key').trans ((if_neg hkey).trans hg'), rfl⟩
  · rw [read_element hself, hread, if_pos rfl]

theorem stores_setElement (h : s.Regular) (cells room : Nat) (name : String) (vs : List Value)
    (v : Value) : Stores cells room s name vs v (s.setElement cells room name vs v) := by
  unfold setElement
  split
  · rename_i hindices
    exact .fails (.refl _ _) fun is w his => by rw [hindices] at his; cases his
  · rename_i is hindices
    split
    · rename_i hreach
      refine .fails (rewrites_reach hreach) fun is' w _ ⟨g, hget, _⟩ => ?_
      rw [reach_of_get? hget] at hreach
      cases hreach
    · rename_i g s₁ hreach
      have hs₁ := rewrites_reach hreach
      have hget := get?_of_reach hreach
      obtain ⟨hkey, hcells⟩ := (h.reach hreach).get? hget
      rw [hkey]
      split
      · rename_i hcoerce
        exact .fails hs₁ fun is' w _ _ hw => by rw [hcoerce] at hw; cases hw
      · rename_i w hcoerce
        split
        · rename_i hplace
          refine .fails hs₁ fun is' w' his' ⟨g', hget', hplace'⟩ => ?_
          obtain rfl := Except.ok.inj (hindices.symm.trans his')
          rw [reach_of_get? hget'] at hreach
          obtain rfl := Except.ok.inj (Prod.mk.inj hreach).1
          rw [hplace] at hplace'
          cases hplace'
        · rename_i p hplace
          obtain ⟨hrewrites, hread⟩ := rewrites_insert hget hcells hplace w
          exact .stores hindices hcoerce hreach (by rw [hplace]; rfl) hrewrites hread

/-! ## Values as they were stored -/

/-- Every variable holds a value that its kind takes as it is. -/
structure Settled (s : Store) : Prop where
  scalars : ∀ e ∈ s.scalars.entries, (Kind.ofName e.1).coerce e.2 = .ok e.2
  arrays : ∀ e ∈ s.arrays.entries, ∀ v ∈ e.2.cells, (Kind.ofName e.2.key).coerce v = .ok v

namespace Settled

/-- The kind of a cell takes what is read from it as it is. -/
theorem read (h : s.Settled) (hregular : s.Regular) (c : Cell) :
    (Kind.ofName c.key).coerce (s.read c) = .ok (s.read c) := by
  cases c with
  | scalar key =>
    rw [Cell.key, Store.read]
    cases hget : s.scalars.get? key with
    | none => exact Kind.coerce_default _
    | some v => exact h.scalars _ (Table.mem_of_find? hget)
  | element key is =>
    rw [Cell.key]
    cases hget : s.arrays.get? key with
    | none =>
      rw [read_element_of_none hget]
      exact Kind.coerce_default _
    | some g =>
      have hmem := Table.mem_of_find? hget
      have hkey : g.key = key := (hregular _ hmem).1
      rw [read_element hget, ← hkey]
      cases hplace : g.place? is with
      | none =>
        unfold Grid.read
        rw [hplace]
        exact Kind.coerce_default _
      | some p =>
        have hlt := Grid.place_lt (hregular _ hmem).2 hplace
        rw [Grid.read_of_place? hplace, Grid.cell, Array.getD_eq_getD_getElem?,
          Array.getElem?_eq_getElem hlt]
        exact h.arrays _ hmem _ (Array.getElem_mem hlt)

theorem ofLimit (limit : Int) : Settled { limit } := ⟨nofun, nofun⟩

theorem new (key : String) (bounds : List Nat) :
    ∀ v ∈ (Grid.new key bounds).cells, (Kind.ofName key).coerce v = .ok v := by
  intro v hv
  obtain ⟨-, rfl⟩ := Array.mem_replicate.mp hv
  exact Kind.coerce_default _

theorem set {v : Value} (h : s.Settled) (hset : s.set name v = .ok s') : s'.Settled := by
  obtain ⟨w, hcoerce, rfl, -⟩ := set_eq_ok hset
  refine ⟨fun e he => ?_, h.arrays⟩
  rcases Table.mem_put he with rfl | he
  · exact Kind.coerce_coerce hcoerce
  · exact h.scalars e he

/-- An array comes into the store whose cells hold what they should. -/
theorem insert {g : Grid} (h : s.Settled) (hg : ∀ v ∈ g.cells, (Kind.ofName g.key).coerce v = .ok v)
    (used : Int) :
    Settled { s with arrays := s.arrays.insert key g, used } := by
  refine ⟨h.scalars, fun e he => ?_⟩
  rcases Table.mem_put he with rfl | he
  · exact hg
  · exact h.arrays e he

/-- Whether an array is made or not. -/
theorem addGrid (h : s.Settled) (cells room : Nat) (key : String) (bounds : List Nat) :
    (s.addGrid cells room key bounds).2.Settled := by
  have hadds := adds_addGrid cells room s key bounds
  generalize s.addGrid cells room key bounds = r at hadds
  cases hadds with
  | made => exact h.insert (new key bounds) _
  | lost | refused => exact ⟨h.scalars, h.arrays⟩

theorem reach (h : s.Settled) (cells room : Nat) (name : String) (dims : Nat) :
    (s.reach cells room name dims).2.Settled := by
  unfold Store.reach
  simp only
  split
  · exact h
  · exact h.addGrid _ _ _ _

theorem setElement (h : s.Settled) (cells room : Nat) (name : String) (vs : List Value)
    (v : Value) :
    (s.setElement cells room name vs v).2.Settled := by
  unfold Store.setElement
  split
  · exact h
  · rename_i is _
    have hs₁ := h.reach cells (room - 1) name is.length
    rcases hreach : s.reach cells (room - 1) name is.length with ⟨f | g, s₁⟩
    · rw [hreach] at hs₁
      exact hs₁
    · rw [hreach] at hs₁
      have hg := hs₁.arrays _ (Table.mem_of_find? (get?_of_reach hreach))
      simp only
      split
      · exact hs₁
      · rename_i w hcoerce
        split
        · exact hs₁
        · refine hs₁.insert (fun u hu => ?_) _
          rcases Array.mem_or_eq_of_mem_setIfInBounds hu with hu | rfl
          · exact hg u hu
          · exact Kind.coerce_coerce hcoerce

theorem dim (h : s.Settled) (cells room : Nat) (name : String) (bounds : List Value) :
    (s.dim cells room name bounds).2.Settled := by
  unfold Store.dim
  simp only
  split
  · exact h
  · split
    · exact h
    · exact h.addGrid _ _ _ _

theorem eraseArray (h : s.Settled) (herase : s.eraseArray name = .ok s') : s'.Settled := by
  unfold Store.eraseArray at herase
  simp only at herase
  split at herase
  · cases herase
  · obtain rfl := Except.ok.inj herase
    exact ⟨h.scalars, fun e he => h.arrays e (Table.mem_remove he)⟩

theorem declare (h : s.Settled) (letters : List String) (kind : Kind) :
    (s.declare letters kind).Settled := by
  unfold Store.declare
  induction letters generalizing s with
  | nil => exact h
  | cons letter letters ih =>
    refine ih ?_
    unfold declareLetter
    split <;> exact ⟨h.scalars, h.arrays⟩

end Settled

theorem Spans.settled {refers : String → Nat → Prop} {lost : Option (String × Nat)}
    (hspans : s.Spans ∅ refers lost s') (h : s.Settled) : s'.Settled := by
  obtain ⟨made, harrays, -⟩ := hspans.made
  refine ⟨hspans.scalars.eq ▸ h.scalars, fun e he => ?_⟩
  rw [harrays] at he
  rcases List.mem_append.mp he with he | he
  · exact h.arrays e he
  · obtain ⟨d, -, rfl⟩ := List.mem_map.mp he
    exact Settled.new _ _

/-- Every operation on variables keeps them settled. -/
theorem Change.settled {ended : Option Fault} (hchange : s.Change ended s') (h : s.Settled) :
    s'.Settled := by
  cases hchange with
  | set run => exact h.set run
  | setElement => exact h.setElement _ _ _ _ _
  | dim => exact h.dim _ _ _ _
  | eraseArray run => exact h.eraseArray run
  | eraseAll => exact ⟨h.scalars, nofun⟩
  | declare => exact h.declare _ _
  | clear => exact .ofLimit s.limit
  | evaluate room es scope m =>
    obtain ⟨_, hframes, -⟩ := evaluateAll_frames room es scope m
    exact hframes.store.settled h

theorem settled_of_changes (hchanges : Relation.ReflTransGen Changes s s') (h : s.Settled) :
    s'.Settled := by
  induction hchanges with
  | refl => exact h
  | tail _ hchanges ih =>
    obtain ⟨_, hchange⟩ := hchanges
    exact hchange.settled ih

end Store

/-- **In every session the variables hold values that their kinds take as they are.** -/
theorem Session.Reached.settled {settings : Settings} {s : Session} (h : Reached settings s) :
    s.machine.memory.store.Settled := by
  induction h with
  | refl =>
    rw [init_eq]
    exact .ofLimit settings.memoryLimit.1
  | tail _ hstep ih => exact Store.settled_of_changes hstep.alters ih

end LineBasic
