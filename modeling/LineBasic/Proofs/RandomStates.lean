import Mathlib
import LineBasic.Random

/-!
# The states of the random numbers

Each of the three generators multiplies its state by a factor modulo a prime. A state that is no
multiple of the prime stays so for ever, and one that is becomes zero with the next step and stays
zero. A negative argument plants a seed of 24 bits in all three, which may be a multiple of one of
the primes.

* `Reduced.next`: one step keeps a state what it was with respect to the primes.
* `draw_cases`: what one call of RND does to the state.
* `Reduced.draws`: from any state in range, a generator is zero just if the last seed that was
  planted is a multiple of its prime.
* **`draws_reduced`**: this for every sequence of calls, together with what zero and negative
  arguments do.
-/

namespace LineBasic.Random

/-- The three generators. -/
inductive Generator where
  | first
  | second
  | third
  deriving DecidableEq

namespace Generator

/-- What a generator multiplies its state by. -/
def factor : Generator → Nat
  | first => 171
  | second => 172
  | third => 170

/-- The prime that a generator reduces its state by. -/
def modulus : Generator → Nat
  | first => 30269
  | second => 30307
  | third => 30323

theorem prime_modulus (g : Generator) : g.modulus.Prime := by
  cases g <;> norm_num [modulus]

theorem modulus_pos (g : Generator) : 0 < g.modulus :=
  g.prime_modulus.pos

theorem not_dvd_factor (g : Generator) : ¬ g.modulus ∣ g.factor := by
  cases g <;> decide

end Generator

/-- The state of one of the generators. -/
def part (r : Random) : Generator → Nat
  | .first => r.first
  | .second => r.second
  | .third => r.third

theorem part_next (r : Random) (g : Generator) :
    r.next.part g = g.factor * r.part g % g.modulus := by
  cases g <;> rfl

/-- Every generator is in its range: zero if its prime divides the seed that was planted, and else
not. -/
def Reduced (seed? : Option Nat) (r : Random) : Prop :=
  ∀ g : Generator, r.part g < g.modulus ∧ (r.part g = 0 ↔ ∃ seed ∈ seed?, g.modulus ∣ seed)

/-! ## One step -/

/-- A step gives zero just on multiples of the prime. -/
theorem part_next_eq_zero_iff (r : Random) (g : Generator) :
    r.next.part g = 0 ↔ g.modulus ∣ r.part g := by
  rw [part_next, ← Nat.dvd_iff_mod_eq_zero, g.prime_modulus.dvd_mul]
  exact or_iff_right g.not_dvd_factor

theorem part_next_lt (r : Random) (g : Generator) : r.next.part g < g.modulus := by
  rw [part_next]
  exact Nat.mod_lt _ g.modulus_pos

theorem Reduced.next {seed? : Option Nat} {r : Random} (h : r.Reduced seed?) :
    r.next.Reduced seed? := by
  intro g
  obtain ⟨hlt, hzero⟩ := h g
  refine ⟨part_next_lt r g, ?_⟩
  rw [part_next_eq_zero_iff, ← hzero]
  exact ⟨fun hdvd => Nat.eq_zero_of_dvd_of_lt hdvd hlt, fun h => h ▸ dvd_zero _⟩

theorem reduced_next_planted (seed : Nat) :
    Reduced (some seed) (Random.next ⟨seed, seed, seed⟩) := by
  intro g
  have hpart : Random.part ⟨seed, seed, seed⟩ g = seed := by cases g <;> rfl
  refine ⟨part_next_lt _ g, ?_⟩
  rw [part_next_eq_zero_iff, hpart]
  simp

/-! ## One call -/

theorem not_beq_of_lt {x y : Float} (h : x < y) : (x == y) = false := by
  have hlt : x.toModel.lt y.toModel = true := by simpa [LT.lt, Float.lt] using h
  have hcompare : x.toModel.unpack.compare y.toModel.unpack = some .lt := eq_of_beq hlt
  change (x.toModel.unpack.compare y.toModel.unpack == some .eq) = false
  rw [hcompare]
  rfl

theorem ofSeed_eq_ok {x : Float} {r : Random} (h : ofSeed x = .ok r) :
    ∃ seed, 0 < seed ∧ seed < 2 ^ 24 ∧ r = ⟨seed, seed, seed⟩ := by
  have hbits : ∀ bits, ∃ seed, 0 < seed ∧ seed < 2 ^ 24 ∧ ofBits bits = ⟨seed, seed, seed⟩ := by
    intro bits
    refine ⟨_, ?_, ?_, rfl⟩
    all_goals split <;> omega
  unfold ofSeed at h
  split at h
  · cases h
    exact hbits _
  · split at h
    · cases h
    · cases h
      exact hbits _

/-- What one call does: a negative argument plants its seed and steps on, zero leaves the state, and
any other argument steps on. -/
theorem draw_cases {r r' : Random} {x v : Float} (h : r.draw x = .ok (v, r')) :
    (x < 0.0 ∧ (x == 0.0) = false ∧ ∃ planted, ofSeed x = .ok planted ∧ r' = planted.next) ∨
      (¬ x < 0.0 ∧ (x == 0.0) = true ∧ r' = r) ∨
        (¬ x < 0.0 ∧ (x == 0.0) = false ∧ r' = r.next) := by
  have hafter : r.after x = .ok r' := by
    unfold draw at h
    cases hafter : r.after x with
    | error e => rw [hafter] at h; cases h
    | ok q =>
      rw [hafter] at h
      cases hfraction : q.fraction with
      | error e => simp [bind, Except.bind, hfraction, orFault] at h
      | ok w => simp_all [bind, Except.bind, orFault, pure, Except.pure]
  unfold after at hafter
  by_cases hneg : x < 0.0
  · have hzero := not_beq_of_lt hneg
    rw [if_pos hneg, hzero] at hafter
    cases hseed : ofSeed x with
    | error e => rw [hseed] at hafter; cases hafter
    | ok planted =>
      rw [hseed] at hafter
      cases hafter
      exact .inl ⟨hneg, hzero, planted, rfl, rfl⟩
  · rw [if_neg hneg] at hafter
    cases hzero : x == 0.0 with
    | true =>
      rw [hzero] at hafter
      cases hafter
      exact .inr (.inl ⟨hneg, rfl, rfl⟩)
    | false =>
      rw [hzero] at hafter
      cases hafter
      exact .inr (.inr ⟨hneg, rfl, rfl⟩)

/-! ## Sequences of calls -/

/-- The state after RND with each of the arguments in turn. -/
def draws (r : Random) (xs : List Float) : Except Fault Random :=
  xs.foldlM (fun r x => Prod.snd <$> r.draw x) r

/-- The seed after a call: a negative argument plants its own. -/
def reseeded (seed? : Option Nat) (x : Float) : Option Nat :=
  if x < 0.0 then (ofSeed x).toOption.map first else seed?

/-- The seed that the last negative argument has planted, if there is one. -/
def planted (xs : List Float) : Option Nat :=
  xs.foldl reseeded none

theorem Reduced.draw {seed? : Option Nat} {r r' : Random} {x v : Float} (h : r.Reduced seed?)
    (hdraw : r.draw x = .ok (v, r')) : r'.Reduced (reseeded seed? x) := by
  unfold reseeded
  obtain ⟨hneg, -, q, hseed, rfl⟩ | ⟨hneg, -, rfl⟩ | ⟨hneg, -, rfl⟩ := draw_cases hdraw
  · obtain ⟨seed, -, -, rfl⟩ := ofSeed_eq_ok hseed
    rw [if_pos hneg, hseed]
    exact reduced_next_planted seed
  · rwa [if_neg hneg]
  · rw [if_neg hneg]
    exact h.next

theorem Reduced.draws {seed? : Option Nat} {r r' : Random} {xs : List Float} (h : r.Reduced seed?)
    (hdraws : r.draws xs = .ok r') : r'.Reduced (xs.foldl reseeded seed?) := by
  induction xs generalizing r seed? with
  | nil =>
    cases hdraws
    exact h
  | cons x xs ih =>
    unfold Random.draws at hdraws
    rw [List.foldlM_cons] at hdraws
    cases hdraw : r.draw x with
    | error e => rw [hdraw] at hdraws; cases hdraws
    | ok q =>
      rw [hdraw] at hdraws
      exact ih (h.draw hdraw) hdraws

/-- A state that a fresh start may take. -/
def Fresh (r : Random) : Prop :=
  ∀ g, 1 ≤ r.part g ∧ r.part g ≤ 30000

theorem Fresh.reduced {r : Random} (h : r.Fresh) : r.Reduced none := by
  intro g
  have hbound : 30000 < g.modulus := by cases g <;> decide
  have := h g
  refine ⟨by omega, ?_⟩
  simp
  omega

/-- **The generators in every sequence of calls.** From a fresh state, each generator is below its
prime after every sequence of calls, and it is zero just if the last negative argument planted a
multiple of the prime. Zero leaves the state, and what a negative argument gives depends on that
argument only. -/
theorem draws_reduced {r r' : Random} {xs : List Float} (hfresh : r.Fresh)
    (hdraws : r.draws xs = .ok r') :
    (∀ g : Generator, r'.part g < g.modulus ∧
      (r'.part g = 0 ↔ ∃ seed ∈ planted xs, g.modulus ∣ seed)) ∧
      (∀ x v q, (x == 0.0) = true → r'.draw x = .ok (v, q) → q = r') ∧
      (∀ x, x < 0.0 → ∀ other : Random, r'.draw x = other.draw x) := by
  refine ⟨hfresh.reduced.draws hdraws, fun x v q hzero hdraw => ?_, fun x hneg other => ?_⟩
  · obtain ⟨-, hne, -⟩ | ⟨-, -, rfl⟩ | ⟨-, hne, -⟩ := draw_cases hdraw
    · rw [hzero] at hne; cases hne
    · rfl
    · rw [hzero] at hne; cases hne
  · simp only [draw, after, if_pos hneg]

/-- A draw, a repetition, a seed and another draw: no generator is at zero. -/
theorem draws_reduced_mixed :
    Fresh {} ∧ draws {} [1.0, 0.0, -3.0, 2.5] = .ok ⟨1319, 17124, 3646⟩ ∧
      ∀ g : Generator, Random.part ⟨1319, 17124, 3646⟩ g ≠ 0 := by
  have hfresh : Fresh {} := by
    intro g
    cases g <;> decide
  have hdraws : draws {} [1.0, 0.0, -3.0, 2.5] = .ok ⟨1319, 17124, 3646⟩ := by decide +kernel
  have hseed : planted [1.0, 0.0, -3.0, 2.5] = some 16576 := by decide +kernel
  refine ⟨hfresh, hdraws, fun g hzero => ?_⟩
  obtain ⟨seed, hmem, hdvd⟩ := ((draws_reduced hfresh hdraws).1 g).2.1 hzero
  rw [hseed] at hmem
  cases hmem
  cases g <;> revert hdvd <;> decide

/-- The seed of -20750 is a multiple of 30269: the first generator comes to zero and stays there. -/
theorem draws_stick_at_zero :
    Fresh {} ∧ draws {} [-20750.0] = .ok ⟨0, 19066, 6977⟩ ∧
      draws {} [-20750.0, 1.0] = .ok ⟨0, 6196, 3493⟩ := by
  refine ⟨fun g => ?_, by decide +kernel, by decide +kernel⟩
  cases g <;> decide

end LineBasic.Random
