import Mathlib
import LineBasic.Proofs.ObservedEvaluation
import LineBasic.Proofs.Sessions

/-!
# What variables hold

The variables keep account of the memory that they take, and every variable holds a value of its
kind. This is so in every session and at every moment of it, also while a function of the program is
being called. There is one leak: the memory of an array is taken before the host makes it, and if
the host cannot, it stays taken for nothing until all variables are cleared.

* `Value.Fits`: a value that may be kept under a key.
* `Store.Accounts`: the invariant, with so much memory lost.
* `Store.Loses`: what an operation may leave, given the fault that it ended in.
* `Store.Change.loses`, `Store.Leads.loses`: no operation, and no moment of an evaluation, leaves
  anything else.
* `Session.variables_sound`: the main result. `Session.variables_leak`: memory does get lost.
-/

namespace LineBasic

/-! ## Values and keys -/

/-- The value may be kept under the key, whose last character tells the kind: `$` strings of at most
255 characters, `%` integers of 16 bits, `#` numbers in double precision, and any other one numbers
in single precision. -/
def Value.Fits (key : String) (v : Value) : Prop :=
  if key.toList.getLast? = some '$' then ∃ s, v = .text s ∧ s.length ≤ 255
  else if key.toList.getLast? = some '%' then ∃ n : Int, v = .single (Float.ofInt n) ∧
    -32768 ≤ n ∧ n ≤ 32767
  else if key.toList.getLast? = some '#' then ∃ x, v = .double x
  else ∃ x, v = .single x

theorem range_of_toInteger {x : Float} {n : Int} (h : toInteger x = .ok n) :
    -32768 ≤ n ∧ n ≤ 32767 := by
  unfold toInteger at h
  split at h
  · cases h
  · split at h
    · cases h
    · rename_i hrange
      obtain rfl := Except.ok.inj h
      simp only [Bool.or_eq_true, decide_eq_true_eq, not_or, not_lt] at hrange
      exact hrange

/-- What a variable of the kind holds. -/
def Kind.Holds : Kind → Value → Prop
  | .text, v => ∃ s, v = .text s ∧ s.length ≤ 255
  | .integer, v => ∃ n : Int, v = .single (Float.ofInt n) ∧ -32768 ≤ n ∧ n ≤ 32767
  | .double, v => ∃ x, v = .double x
  | .single, v => ∃ x, v = .single x

theorem Kind.ofName_eq (key : String) : Kind.ofName key =
    if key.toList.getLast? = some '$' then .text
    else if key.toList.getLast? = some '%' then .integer
    else if key.toList.getLast? = some '#' then .double
    else .single := by
  unfold Kind.ofName
  split <;> simp_all

theorem Value.fits_iff {key : String} {v : Value} : v.Fits key ↔ (Kind.ofName key).Holds v := by
  rw [Kind.ofName_eq]
  unfold Value.Fits
  split_ifs <;> exact Iff.rfl

theorem Kind.holds_of_coerce {k : Kind} {v w : Value} (h : k.coerce v = .ok w) : k.Holds w := by
  cases k with
  | text =>
    obtain ⟨s, -, h⟩ := ok_of_bind h
    obtain ⟨s', hcheck, h⟩ := ok_of_bind h
    obtain rfl := Except.ok.inj h
    unfold checkString at hcheck
    split at hcheck
    · cases hcheck
    · rename_i hlength
      obtain rfl := Except.ok.inj hcheck
      exact ⟨s, rfl, Nat.not_lt.mp hlength⟩
  | integer =>
    obtain ⟨n, hinteger, h⟩ := ok_of_bind h
    obtain ⟨x, -, hinteger⟩ := ok_of_bind hinteger
    obtain rfl := Except.ok.inj h
    exact ⟨n, rfl, range_of_toInteger hinteger⟩
  | double =>
    obtain ⟨x, -, h⟩ := ok_of_bind h
    obtain ⟨y, -, h⟩ := ok_of_bind h
    exact ⟨y, (Except.ok.inj h).symm⟩
  | single =>
    obtain ⟨x, -, h⟩ := ok_of_bind h
    obtain ⟨y, -, h⟩ := ok_of_bind h
    exact ⟨y, (Except.ok.inj h).symm⟩

theorem Kind.holds_default (k : Kind) : k.Holds k.default := by
  cases k with
  | text => exact ⟨"", rfl, by decide⟩
  | integer =>
    have hzero : Float.ofInt 0 = 0.0 := by decide +kernel
    exact ⟨0, by rw [hzero]; rfl, by decide, by decide⟩
  | double => exact ⟨0.0, rfl⟩
  | single => exact ⟨0.0, rfl⟩

/-! ## The invariant -/

namespace Grid

/-- The array has as many cells as its bounds say, and they hold what its name says. -/
structure Sound (g : Grid) : Prop where
  size : g.size = (g.bounds.map (· + 1)).prod
  cells : g.cells.size = g.size
  fits : ∀ v ∈ g.cells, v.Fits g.key

theorem sizeOf_eq_prod (bounds : List Nat) : sizeOf bounds = (bounds.map (· + 1)).prod := by
  have hfold : ∀ n, bounds.foldl (fun n b => n * (b + 1)) n = n * (bounds.map (· + 1)).prod := by
    induction bounds with
    | nil => simp
    | cons b bounds ih =>
      intro n
      rw [List.foldl_cons, ih, List.map_cons, List.prod_cons, Nat.mul_assoc]
  rw [sizeOf, hfold, Nat.one_mul]

theorem sound_new (key : String) (bounds : List Nat) : (new key bounds).Sound where
  size := sizeOf_eq_prod bounds
  cells := Array.size_replicate
  fits v hv := by
    obtain ⟨-, rfl⟩ := Array.mem_replicate.mp hv
    exact Value.fits_iff.mpr (Kind.holds_default _)

theorem Sound.setCell {g : Grid} {v : Value} (h : g.Sound) (hv : v.Fits g.key) (place : Nat) :
    (g.setCell place v).Sound where
  size := h.size
  cells := Array.size_setIfInBounds.trans h.cells
  fits w hw := by
    rcases Array.mem_or_eq_of_mem_setIfInBounds hw with hw | rfl
    · exact h.fits w hw
    · exact hv

end Grid

namespace Store

/-- The variables have each name once and hold values of their kinds; the memory in use is what they
take and the given amount more, within the limit. -/
structure Accounts (lost : Nat) (s : Store) : Prop where
  scalarKeys : (s.scalars.entries.map Prod.fst).Nodup
  arrayKeys : (s.arrays.entries.map Prod.fst).Nodup
  used : s.used = s.scalars.size + ((s.arrays.entries.map fun e => e.2.size).sum : Nat) + lost
  limit : 0 ≤ s.limit → s.used ≤ s.limit
  scalars : ∀ e ∈ s.scalars.entries, e.2.Fits e.1
  arrays : ∀ e ∈ s.arrays.entries, e.2.key = e.1 ∧ e.2.Sound

/-- The variables keep account of their memory, however much of it is lost. -/
def Sound (s : Store) : Prop := ∃ lost, s.Accounts lost

/-- The variables keep account of their memory. The memory of one more array is lost only if the
host could not make it. -/
def Loses (lost : Nat) (ended : Option Fault) (s : Store) : Prop :=
  s.Accounts lost ∨ ∃ f ∈ ended, f.Unmade ∧ ∃ bounds, s.Accounts (lost + Grid.sizeOf bounds)

theorem Loses.sound {lost : Nat} {ended : Option Fault} {s : Store} (h : s.Loses lost ended) :
    s.Sound := by
  rcases h with h | ⟨-, -, -, bounds, h⟩
  · exact ⟨_, h⟩
  · exact ⟨_, h⟩

/-- Where there is no fault, nothing is lost. -/
theorem Loses.accounts {lost : Nat} {s : Store} (h : s.Loses lost none) : s.Accounts lost := by
  rcases h with h | ⟨f, hf, -⟩
  · exact h
  · cases hf

namespace Accounts

variable {lost lost₀ : Nat} {s s' s₀ : Store} {name : String}

theorem ofLimit (limit : Int) : Accounts 0 { limit } :=
  ⟨.nil, .nil, rfl, id, nofun, nofun⟩

/-! ## Scalars -/

theorem set {v : Value} (h : s.Accounts lost) (hset : s.set name v = .ok s') :
    s'.Accounts lost := by
  obtain ⟨w, hcoerce, rfl, hroom⟩ := set_eq_ok hset
  refine ⟨Table.nodup_put h.scalarKeys, h.arrayKeys, ?_, fun hlimit => ?_, fun e he => ?_, h.arrays⟩
  · have hused := h.used
    rw [size_put]
    simp only
    split <;> omega
  · have hused := h.limit hlimit
    simp only
    split
    · exact hused
    · rename_i hnew
      exact hroom (by simpa using hnew)
  · rcases Table.mem_put he with rfl | he
    · exact Value.fits_iff.mpr (Kind.holds_of_coerce hcoerce)
    · exact h.scalars e he

/-- A scalar that was not there before is forgotten. -/
theorem delete (h : s.Accounts lost) (name : String) : (s.delete name).Accounts lost := by
  unfold Store.delete
  simp only
  split
  · rename_i hcontains
    refine ⟨Table.nodup_remove h.scalarKeys, h.arrayKeys, ?_, fun hlimit => ?_, fun e he => ?_,
      h.arrays⟩
    · have hused := h.used
      have hlength := Table.length_remove (s.resolve name) h.scalarKeys
      replace hcontains : (Table.find? (s.resolve name) s.scalars.entries).isSome =
        true := hcontains
      rw [hcontains] at hlength
      simp only [Table.size, Table.erase, if_true] at hlength hused ⊢
      omega
    · have hused := h.limit hlimit
      simp only
      omega
    · exact h.scalars e (Table.mem_remove he)
  · exact h

/-- A scalar gets back the value that it had. -/
theorem restore {keys : Set String} {refers : String → Nat → Prop} {d : Option (String × Nat)}
    (h₀ : s₀.Accounts lost₀) (hspans : s₀.Spans keys refers d s) (h : s.Accounts lost)
    (name : String) : (s.restore name (s₀.snapshot name)).Accounts lost := by
  cases hfind : s₀.snapshot name with
  | none => exact h.delete name
  | some v =>
    have hkey : s.resolve name = s₀.resolve name := resolve_congr hspans.letters name
    have hcontains : s.scalars.contains (s₀.resolve name) :=
      hspans.scalars.isSome_find? (Option.isSome_iff_exists.mpr ⟨v, hfind⟩)
    unfold Store.restore
    simp only [hkey]
    refine ⟨Table.nodup_put h.scalarKeys, h.arrayKeys, ?_, h.limit, fun e he => ?_, h.arrays⟩
    · have hused := h.used
      rw [size_put, hcontains]
      simpa using hused
    · rcases Table.mem_put he with rfl | he
      · exact h₀.scalars _ (Table.mem_of_find? hfind)
      · exact h.scalars e he

/-! ## Arrays -/

/-- An array is made, or its memory is lost, or nothing happens. -/
theorem addGrid {key : String} (h : s.Accounts lost) (hnew : s.arrays.get? key = none)
    (cells room : Nat) (bounds : List Nat) :
    (s.addGrid cells room key bounds).2.Loses lost
      (faultOf (s.addGrid cells room key bounds).1) := by
  have hadds := adds_addGrid cells room s key bounds
  generalize s.addGrid cells room key bounds = r at hadds
  cases hadds with
  | made hroom =>
    have hentries := Table.put_of_find?_eq_none (a := Grid.new key bounds) hnew
    refine .inl ⟨h.scalarKeys, Table.nodup_put h.arrayKeys, ?_, fun _ => hroom, h.scalars,
      fun e he => ?_⟩
    · have hused := h.used
      have hsize : (Grid.new key bounds).size = Grid.sizeOf bounds := rfl
      simp only [Table.insert, hentries, List.map_append, List.sum_append, List.map_cons,
        List.map_nil, List.sum_cons, List.sum_nil, hsize]
      omega
    · rcases Table.mem_put he with rfl | he
      · exact ⟨rfl, Grid.sound_new key bounds⟩
      · exact h.arrays e he
  | lost hunmade hroom =>
    have hused := h.used
    refine .inr ⟨_, rfl, hunmade, bounds, h.scalarKeys, h.arrayKeys, ?_, fun _ => hroom, h.scalars,
      h.arrays⟩
    simp only
    omega
  | refused => exact .inl h

theorem reach (h : s.Accounts lost) (cells room : Nat) (name : String) (dims : Nat) :
    (s.reach cells room name dims).2.Loses lost (faultOf (s.reach cells room name dims).1) := by
  unfold Store.reach
  simp only
  split
  · exact .inl h
  · rename_i hnone
    exact h.addGrid hnone _ _ _

/-- An array that was reached is kept under its own key. -/
theorem reach_eq_ok {cells room dims : Nat} {g : Grid} (h : s.Accounts lost)
    (hreach : s.reach cells room name dims = (.ok g, s')) :
    s'.Accounts lost ∧ s'.arrays.get? g.key = some g := by
  have hloses := h.reach cells room name dims
  rw [hreach] at hloses
  refine ⟨hloses.accounts, ?_⟩
  unfold Store.reach at hreach
  simp only at hreach
  split at hreach
  · rename_i g' hget
    obtain ⟨hg, rfl⟩ := Prod.mk.inj hreach
    obtain rfl := Except.ok.inj hg
    have hkey : g'.key = s.resolve name := (h.arrays _ (Table.mem_of_find? hget)).1
    rw [hkey, hget]
  · obtain ⟨rfl, -, rfl⟩ := addGrid_eq_ok hreach
    exact (Table.find?_put _ _ _ _).trans (if_pos rfl)

theorem getElement (h : s.Accounts lost) (cells room : Nat) (name : String) (vs : List Value) :
    (s.getElement cells room name vs).2.Loses lost
      (faultOf (s.getElement cells room name vs).1) := by
  unfold Store.getElement
  split
  · exact .inl h
  · rename_i is _
    have hreach := h.reach cells (room - 1) name is.length
    rcases hrun : s.reach cells (room - 1) name is.length with ⟨f | g, s₁⟩
    · rw [hrun] at hreach
      exact hreach
    · rw [hrun] at hreach
      simp only
      split <;> exact .inl hreach.accounts

/-- An array gets other values of its kind. -/
theorem insertGrid {g g' : Grid} (h : s.Accounts lost) (hget : s.arrays.get? g.key = some g)
    (hkey : g'.key = g.key) (hsize : g'.size = g.size) (hsound : g'.Sound) :
    Accounts lost { s with arrays := s.arrays.insert g.key g' } := by
  refine ⟨h.scalarKeys, Table.nodup_put h.arrayKeys, ?_, h.limit, h.scalars, fun e he => ?_⟩
  · have hused := h.used
    have hsum := Table.sum_put Grid.size (a := g') hget
    simp only [Table.insert]
    omega
  · rcases Table.mem_put he with rfl | he
    · exact ⟨hkey, hsound⟩
    · exact h.arrays e he

theorem setElement (h : s.Accounts lost) (cells room : Nat) (name : String) (vs : List Value)
    (v : Value) : (s.setElement cells room name vs v).2.Loses lost
      (faultOf (s.setElement cells room name vs v).1) := by
  unfold Store.setElement
  split
  · exact .inl h
  · rename_i is _
    have hloses := h.reach cells (room - 1) name is.length
    rcases hreach : s.reach cells (room - 1) name is.length with ⟨f | g, s₁⟩
    · rw [hreach] at hloses
      exact hloses
    · obtain ⟨hs₁, hget⟩ := h.reach_eq_ok hreach
      simp only
      split
      · exact .inl hs₁
      · rename_i w hcoerce
        split
        · exact .inl hs₁
        · have hg : g.Sound := (hs₁.arrays _ (Table.mem_of_find? hget)).2
          have hw := Value.fits_iff.mpr (Kind.holds_of_coerce hcoerce)
          exact .inl (hs₁.insertGrid hget rfl rfl (hg.setCell hw _))

theorem dim (h : s.Accounts lost) (cells room : Nat) (name : String) (bounds : List Value) :
    (s.dim cells room name bounds).2.Loses lost (faultOf (s.dim cells room name bounds).1) := by
  unfold Store.dim
  simp only
  split
  · exact .inl h
  · rename_i hnew
    split
    · exact .inl h
    · exact h.addGrid (by simpa [Table.contains] using hnew) _ _ _

theorem eraseArray (h : s.Accounts lost) (herase : s.eraseArray name = .ok s') :
    s'.Accounts lost := by
  unfold Store.eraseArray at herase
  simp only at herase
  split at herase
  · cases herase
  · rename_i g hget
    obtain rfl := Except.ok.inj herase
    refine ⟨h.scalarKeys, Table.nodup_remove h.arrayKeys, ?_, fun hlimit => ?_, h.scalars,
      fun e he => ?_⟩
    · have hused := h.used
      have hsum := Table.sum_remove Grid.size h.arrayKeys hget
      simp only [Table.erase]
      omega
    · have hused := h.limit hlimit
      simp only
      omega
    · exact h.arrays e (Table.mem_remove he)

theorem eraseAll (h : s.Accounts lost) : s.eraseAll.Accounts lost := by
  have hused := h.used
  refine ⟨h.scalarKeys, .nil, ?_, fun hlimit => ?_, h.scalars, nofun⟩
  · simp only [Store.eraseAll, List.map_nil, List.sum_nil]
    omega
  · have hlimit := h.limit hlimit
    simp only [Store.eraseAll]
    omega

theorem declare (h : s.Accounts lost) (letters : List String) (kind : Kind) :
    (s.declare letters kind).Accounts lost := by
  unfold Store.declare
  induction letters generalizing s with
  | nil => exact h
  | cons letter letters ih =>
    refine ih ?_
    unfold declareLetter
    split <;> exact ⟨h.scalarKeys, h.arrayKeys, h.used, h.limit, h.scalars, h.arrays⟩

end Accounts

/-! ## Evaluation -/

/-- The variables of a memory keep account: as before, or with one more array lost. -/
def AccountsIn (lost : Nat) : Bool → Memory → Prop
  | false, m => m.store.Accounts lost
  | true, m => ∃ bounds, m.store.Accounts (lost + Grid.sizeOf bounds)

theorem admits_accountsIn {lost : Nat} {ended : Option Fault} {m : Memory} :
    Admits (AccountsIn lost) ended m ↔ m.store.Loses lost ended := by
  constructor
  · rintro ⟨_ | _, h, hended⟩
    · exact .inl h
    · obtain ⟨f, hf, hunmade⟩ := hended rfl
      exact .inr ⟨f, hf, hunmade, h⟩
  · rintro (h | ⟨f, hf, hunmade, h⟩)
    · exact .intact h _
    · exact ⟨true, h, fun _ => ⟨f, hf, hunmade⟩⟩

theorem upheld_accountsIn (scope : Scope) (lost : Nat) : Upheld scope (AccountsIn lost) where
  varied _ _ h := h
  reached room name vs h := admits_accountsIn.mpr (h.getElement scope.cells room name vs)
  opened _ h := h
  bound hset h := h.set hset
  closed {lost} _ h := by cases lost <;> exact h
  restored {lost} _ _ _ _ _ hspans h₀ name h := by
    cases lost with
    | false => exact h₀.restore hspans h name
    | true =>
      obtain ⟨bounds, h⟩ := h
      exact ⟨bounds, h₀.restore hspans h name⟩

/-- **Whatever memory an evaluation passes through, the variables in it keep account.** -/
theorem Accounts.memories {lost : Nat} {m m' : Memory} (h : m.store.Accounts lost) {room : Nat}
    {es : List Expr} {scope : Scope}
    (hpasses : m' ∈ Observed.memories (observeAll room es scope m)) :
    m'.store.Loses lost (faultOf (observeAll room es scope m).1.1) :=
  admits_accountsIn.mp (upholds_evaluateAll (upheld_accountsIn scope lost) room es m h m' hpasses)

theorem Accounts.evaluateAll {lost : Nat} {m : Memory} (h : m.store.Accounts lost) (room : Nat)
    (es : List Expr) (scope : Scope) :
    (LineBasic.evaluateAll room es scope m).2.store.Loses lost
      (faultOf (LineBasic.evaluateAll room es scope m).1) := by
  rw [← observes_evaluateAll room es scope m]
  exact h.memories List.mem_cons_self

/-- **Every operation on variables keeps account of the memory**, but for an array that could not be
made, and clearing them gives back what was lost. -/
theorem Change.loses {lost : Nat} {ended : Option Fault} {s s' : Store}
    (hchange : s.Change ended s') (h : s.Accounts lost) :
    s'.Loses lost ended ∨ s' = s.clear ∧ s'.Accounts 0 := by
  cases hchange with
  | set run => exact .inl (.inl (h.set run))
  | setElement => exact .inl (h.setElement _ _ _ _ _)
  | dim => exact .inl (h.dim _ _ _ _)
  | eraseArray run => exact .inl (.inl (h.eraseArray run))
  | eraseAll => exact .inl (.inl h.eraseAll)
  | declare => exact .inl (.inl (h.declare _ _))
  | clear => exact .inr ⟨rfl, .ofLimit s.limit⟩
  | evaluate => exact .inl (h.evaluateAll _ _ _)

/-! ## The main result -/

/-- The variables at one moment and at a later one of a session: an operation was done on them, or
the evaluation of expressions passes from one to the other; and the fault that this ends in. -/
inductive Leads : Option Fault → Store → Store → Prop where
  | change {ended : Option Fault} {s s' : Store} (change : s.Change ended s') : Leads ended s s'
  | passes {room : Nat} {es : List Expr} {scope : Scope} {m m' : Memory}
      (passes : m' ∈ Observed.memories (observeAll room es scope m)) :
      Leads (faultOf (observeAll room es scope m).1.1) m.store m'.store

theorem Leads.loses {lost : Nat} {ended : Option Fault} {s s' : Store} (hleads : s.Leads ended s')
    (h : s.Accounts lost) : s'.Loses lost ended ∨ s' = s.clear ∧ s'.Accounts 0 := by
  cases hleads with
  | change change => exact change.loses h
  | passes passes => exact .inl (h.memories passes)

/-- Some moments have passed. -/
def Advances (s s' : Store) : Prop := ∃ ended, s.Leads ended s'

theorem Advances.sound {s s' : Store} (hadvances : s.Advances s') (h : s.Sound) : s'.Sound := by
  obtain ⟨ended, hleads⟩ := hadvances
  obtain ⟨lost, h⟩ := h
  rcases hleads.loses h with hloses | ⟨-, haccounts⟩
  · exact hloses.sound
  · exact ⟨0, haccounts⟩

theorem sound_of_advances {s s' : Store} (hadvances : Relation.ReflTransGen Advances s s')
    (h : s.Sound) : s'.Sound := by
  induction hadvances with
  | refl => exact h
  | tail _ hadvances ih => exact hadvances.sound ih

end Store

theorem Machine.Alters.advances {m m' : Machine} (h : m.Alters m') :
    Relation.ReflTransGen Store.Advances m.memory.store m'.memory.store :=
  Relation.ReflTransGen.mono (fun _ _ hchanges => hchanges.imp fun _ => .change) _ _ h

theorem Machine.Alters.sound {m m' : Machine} (h : m.Alters m') (hsound : m.memory.store.Sound) :
    m'.memory.store.Sound :=
  Store.sound_of_advances h.advances hsound

namespace Session

open Machine

theorem accounts_init (settings : Settings) :
    (init settings).machine.memory.store.Accounts 0 := by
  rw [init_eq]
  exact .ofLimit settings.memoryLimit.1

theorem Reached.sound {settings : Settings} {s : Session} (h : Reached settings s) :
    s.machine.memory.store.Sound := by
  induction h with
  | refl => exact ⟨0, accounts_init settings⟩
  | tail _ hstep ih => exact hstep.alters.sound ih

/-- **In every session the variables keep account of their memory and hold values of their kinds**,
at its steps and at every moment between them: after each operation on variables, and wherever an
evaluation passes through, also in the middle of calls of functions. On a new machine no memory is
lost. From one moment to the next it stays as it is, or all variables are cleared and nothing is
lost any more, or the host could not make an array and its memory is lost. -/
theorem variables_sound {settings : Settings} {s : Session} {store : Store} (h : Reached settings s)
    (hadvances : Relation.ReflTransGen Store.Advances s.machine.memory.store store) :
    (init settings).machine.memory.store.Accounts 0 ∧
    (∀ t, Step s t → Relation.ReflTransGen Store.Advances s.machine.memory.store
      t.machine.memory.store) ∧
    ∃ lost, store.Accounts lost ∧ ∀ ended store', store.Leads ended store' →
      store'.Accounts lost ∨ store' = store.clear ∧ store'.Accounts 0 ∨
      ∃ f ∈ ended, f.Unmade ∧ ∃ bounds, store'.Accounts (lost + Grid.sizeOf bounds) := by
  obtain ⟨lost, haccounts⟩ := Store.sound_of_advances hadvances h.sound
  refine ⟨accounts_init settings, fun t hstep => hstep.alters.advances, lost, haccounts,
    fun ended store' hleads => ?_⟩
  rcases hleads.loses haccounts with (hkeeps | hloses) | hcleared
  · exact .inl hkeeps
  · exact .inr (.inr hloses)
  · exact .inr (.inl hcleared)

/-- What evaluation reads when one function is defined, with room for its call. -/
def oneFunction : Scope :=
  { (default : Scope) with functions := ⟨[("FNA", ⟨["X"], .variable 8 "X"⟩)]⟩, stackLimit := 1 }

/-- The function is called on a new machine. -/
def callObserved : (Except Fault (List Value) × Memory) × List Moment :=
  observeAll 9 [.userCall 1 "FNA" [.literal 5 (.single 1.0)]] oneFunction
    (init default).machine.memory

/-- In the middle of the call there is a variable, and its memory is accounted for. -/
theorem variables_sound_inCall : ∃ store : Store, store.used = 1 ∧
    (store.scalars.get? "X").isSome ∧ ∃ lost, store.Accounts lost := by
  have hpasses : (Observed.memories callObserved).any (fun m =>
      m.store.used = 1 ∧ (m.store.scalars.get? "X").isSome) = true := by
    decide +kernel
  obtain ⟨m, hm, hfacts⟩ := List.any_eq_true.mp hpasses
  obtain ⟨hused, hset⟩ := of_decide_eq_true hfacts
  have hadvances : Relation.ReflTransGen Store.Advances
      (init default).machine.memory.store m.store :=
    .single ⟨_, .passes hm⟩
  obtain ⟨-, -, lost, haccounts, -⟩ := variables_sound (s := init default) .refl hadvances
  exact ⟨m.store, hused, hset, lost, haccounts⟩

/-- A session that was given a program and has started it. -/
def begun (s : Session) (text : String) : Session :=
  started (prepare none (loaded s.edited (load text s.machine)).machine)

theorem Reached.next_begun {settings : Settings} {s : Session} {text : String}
    (h : Reached settings s) (hprompt : s.phase = .prompt)
    (hloaded : (Session.loaded s.edited (load text s.machine)).phase = .prompt)
    (hrunning : (s.begun text).phase = .running) : Reached settings (s.begun text).next :=
  ((h.loaded hprompt text).started hloaded none).next hrunning

/-- A new machine, deep in calls of the host. -/
def cramped : Session :=
  { init default with machine := { (init default).machine with spare := 1 } }

/-- An array that is used under so many signs that the host cannot make it. -/
def buriedElement : String := "10 PRINT ---------------------------A(1)"

/-- A machine with more memory than can be counted. -/
def boundless : Settings := .ofList [("MEMORY_LIMIT", "1000000000000000000000000000000")]

/-- An array with more cells than the host can count. -/
def hugeArray : String := "10 DIM A(32767,32767,32767,32767,32767)"

/-- **Memory does get lost**: there are no variables, and memory is in use. -/
theorem variables_leak :
    (∃ s, Reached default s ∧ s.machine.memory.store.scalars.size = 0 ∧
      s.machine.memory.store.arrays.size = 0 ∧ s.machine.memory.store.used = 11) ∧
    ∃ s, Reached boundless s ∧ s.machine.memory.store.scalars.size = 0 ∧
      s.machine.memory.store.arrays.size = 0 ∧
      s.machine.memory.store.used = 37778931862957161709568 := by
  have hburied : (loaded cramped.edited (load buriedElement cramped.machine)).phase = .prompt ∧
      (cramped.begun buriedElement).phase = .running ∧
      (cramped.begun buriedElement).next.machine.memory.store.scalars.size = 0 ∧
      (cramped.begun buriedElement).next.machine.memory.store.arrays.size = 0 ∧
      (cramped.begun buriedElement).next.machine.memory.store.used = 11 := by
    decide +kernel
  have hhuge : (loaded (init boundless).edited
        (load hugeArray (init boundless).machine)).phase = .prompt ∧
      ((init boundless).begun hugeArray).phase = .running ∧
      ((init boundless).begun hugeArray).next.machine.memory.store.scalars.size = 0 ∧
      ((init boundless).begun hugeArray).next.machine.memory.store.arrays.size = 0 ∧
      ((init boundless).begun hugeArray).next.machine.memory.store.used =
        37778931862957161709568 := by
    decide +kernel
  have hcramped : Reached default cramped :=
    Relation.ReflTransGen.single (.world ⟨_, _, _, _, _, _, _, _, _, rfl⟩)
  exact ⟨⟨_, hcramped.next_begun rfl hburied.1 hburied.2.1, hburied.2.2⟩,
    _, Reached.next_begun .refl rfl hhuge.1 hhuge.2.1, hhuge.2.2⟩

end Session

end LineBasic
