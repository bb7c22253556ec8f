import Mathlib
import LineBasic.Proofs.ExactNumbers
import LineBasic.Proofs.StoreInvariant

/-!
# Numbers that were converted before

A number that a conversion gave is not changed by the same conversion: what a variable holds can be
stored in another variable of its kind as it is.

* `Floating.Parts.IsSingle`: what the numbers in single precision are.
* `toSingle_toSingle`, `toDouble_toDouble`, `toInteger_ofInt`: the conversions a second time.
* `Kind.coerce_coerce`: the main result.
-/

namespace LineBasic.Floating

variable {k : Nat} {e : Int} {negative : Bool}

/-! ## Single precision -/

theorem roundQuotient_le {num den bound : Nat} (hden : 0 < den) (h : num ≤ bound * den) :
    roundQuotient num den ≤ bound := by
  have hquotient : num / den ≤ bound := Nat.div_le_of_le_mul (by rwa [mul_comm] at h)
  have hsplit := Nat.div_add_mod num den
  have hup : num % den ≠ 0 → num / den + 1 ≤ bound := by
    intro hrest
    by_contra hfull
    have hsame : num / den = bound := by omega
    rw [hsame, mul_comm] at hsplit
    omega
  unfold roundQuotient
  simp only
  split_ifs <;> first | exact hquotient | exact hup (by omega)

/-- The parts of a number have 53 digits, or fewer just above zero. -/
theorem parts?_bounds {x : Float} {p : Parts} (h : parts? x = some p) :
    -1074 ≤ p.exponent ∧ (p.exponent = -1074 ∨ 2 ^ 52 ≤ p.mantissa) := by
  unfold parts? at h
  simp only at h
  split_ifs at h with hspecial hfield
  · obtain rfl := Option.some.inj h
    exact ⟨le_rfl, .inl rfl⟩
  · obtain rfl := Option.some.inj h
    exact ⟨by simp only; omega, .inr (Nat.le_add_right _ _)⟩

theorem le_singleMax_iff {p : Parts} (h : p.exponent ≤ 104) : p.ratio.1 ≤ singleMax * p.ratio.2 ↔
    p.mantissa ≤ (2 ^ 24 - 1) * 2 ^ (104 - p.exponent).toNat := by
  unfold Parts.ratio singleMax
  split_ifs with hpos
  · have hsplit : (2 ^ 24 - 1) * 2 ^ 104 =
        (2 ^ 24 - 1) * 2 ^ (104 - p.exponent).toNat * 2 ^ p.exponent.toNat := by
      rw [mul_assoc, ← pow_add]
      congr 2
      omega
    rw [mul_one, hsplit]
    exact Nat.mul_le_mul_right_iff (by positivity)
  · rw [mul_assoc, ← pow_add, show 104 + (-p.exponent).toNat = (104 - p.exponent).toNat by omega]

/-- The parts are those of a number in single precision: at most 24 digits, within its range. -/
structure Parts.IsSingle (q : Parts) : Prop where
  digits : q.mantissa ≤ 2 ^ 24
  least : -149 ≤ q.exponent
  most : q.exponent ≤ 104
  range : q.mantissa ≤ (2 ^ 24 - 1) * 2 ^ (104 - q.exponent).toNat

/-- Rounding gives a number in single precision. -/
theorem isSingle_round {x : Float} {p : Parts} (h : parts? x = some p)
    (hmax : p.ratio.1 ≤ singleMax * p.ratio.2) :
    (p.round 24 (-149)).IsSingle := by
  obtain ⟨hmin, hnormal⟩ := parts?_bounds h
  have hexponent : p.exponent ≤ 104 := by
    by_contra hlarge
    have hmantissa : 2 ^ 52 ≤ p.mantissa := hnormal.resolve_left (by omega)
    have hpow : 2 ^ 105 ≤ 2 ^ p.exponent.toNat := Nat.pow_le_pow_right (by decide) (by omega)
    unfold Parts.ratio singleMax at hmax
    rw [if_pos (by omega)] at hmax
    have hle := Nat.mul_le_mul hmantissa hpow
    omega
  rw [le_singleMax_iff hexponent] at hmax
  have htop : (p.mantissa.log2 : Int) + p.exponent ≤ 127 := by
    by_cases hzero : p.mantissa = 0
    · rw [hzero, Nat.log2_zero]
      omega
    · have hlt : p.mantissa < 2 ^ (24 + (104 - p.exponent).toNat) := by
        rw [pow_add]
        exact hmax.trans_lt (Nat.mul_lt_mul_of_pos_right (by decide) (by positivity))
      have hlog := (Nat.log2_lt hzero).mpr hlt
      omega
  obtain ⟨drop, hdrop⟩ : ∃ drop : Nat,
    (max ((p.mantissa.log2 : Int) + 1 - (24 : Nat)) (-149 - p.exponent)).toNat = drop := ⟨_, rfl⟩
  unfold Parts.round
  rw [hdrop]
  have hmost : p.exponent + drop ≤ 104 := by omega
  refine ⟨roundQuotient_le (by positivity) ?_, by simp only; omega, hmost,
    roundQuotient_le (by positivity) ?_⟩
  · have hlt : p.mantissa < 2 ^ (p.mantissa.log2 + 1) := Nat.lt_log2_self
    have hpow : 2 ^ (p.mantissa.log2 + 1) ≤ 2 ^ (24 + drop) :=
      Nat.pow_le_pow_right (by decide) (by omega)
    rw [← pow_add]
    exact hlt.le.trans hpow
  · rw [mul_assoc, ← pow_add, show (104 - (p.exponent + drop)).toNat + drop =
      (104 - p.exponent).toNat by omega]
    exact hmax

/-- A number with at most 24 digits is rounded to itself. -/
theorem toSingle_toFloat_of_lt (hk : k ≠ 0) (hdigits : k < 2 ^ 24)
    (h : Parts.IsSingle ⟨negative, k, e⟩) :
    toSingle (Parts.toFloat ⟨negative, k, e⟩) = .ok (Parts.toFloat ⟨negative, k, e⟩) := by
  obtain ⟨-, hleast, hmost, hrange⟩ := h
  simp only at hleast hmost hrange
  have hlog : k.log2 < 24 := (Nat.log2_lt hk).mpr hdigits
  obtain ⟨drop, hdrop⟩ : ∃ drop : Nat,
    (max (((52 : Nat) : Int) + 1 - (24 : Nat)) (-149 - (e - (52 - k.log2 : Nat)))).toNat =
    drop := ⟨_, rfl⟩
  have hsplit : k * 2 ^ (52 - k.log2) = k * 2 ^ (52 - k.log2 - drop) * 2 ^ drop := by
    rw [mul_assoc, ← pow_add]
    congr 2
    omega
  have hround : Parts.round 24 (-149) ⟨negative, k * 2 ^ (52 - k.log2), e - (52 - k.log2 : Nat)⟩ =
      ⟨negative, k * 2 ^ (52 - k.log2 - drop), e - (52 - k.log2 - drop : Nat)⟩ := by
    unfold Parts.round
    simp only [log2_scaled hk (show k.log2 ≤ 52 by omega), hdrop]
    rw [hsplit, roundQuotient_mul (by positivity)]
    congr 1
    omega
  have hmax : k * 2 ^ (52 - k.log2) ≤ (2 ^ 24 - 1) * 2 ^
      (104 - (e - (52 - k.log2 : Nat))).toNat := by
    rw [show (104 - (e - (52 - k.log2 : Nat))).toNat = (104 - e).toNat + (52 - k.log2) by omega,
      pow_add, ← mul_assoc]
    exact Nat.mul_le_mul_right _ hrange
  rw [toSingle_of_parts? (parts?_toFloat hk (by omega) (by omega) (by omega)), hround,
    toFloat_mul_pow hk _ (by omega)]
  · congr 3
    omega
  · exact (le_singleMax_iff (by simp only; omega)).mpr hmax

theorem mantissa_round_eq_zero {p : Parts} (digits : Nat) (least : Int) (h : p.mantissa = 0) :
    (p.round digits least).mantissa = 0 := by
  unfold Parts.round
  rw [h]
  exact Nat.le_zero.mp (roundQuotient_le (Nat.two_pow_pos _) (Nat.zero_le _))

theorem toSingle_zero : toSingle 0.0 = .ok 0.0 := by
  have hbits : (0.0 : Float).toBits = 0 := by decide +kernel
  have hparts : parts? 0.0 = some ⟨false, 0, -1074⟩ := by
    unfold parts?
    rw [hbits]
    rfl
  rw [toSingle_of_parts? hparts (Nat.zero_le _), Parts.toFloat,
    if_pos (mantissa_round_eq_zero _ _ rfl)]

theorem toSingle_toFloat {q : Parts} (h : q.IsSingle) : toSingle q.toFloat = .ok q.toFloat := by
  obtain ⟨negative, k, e⟩ := q
  by_cases hzero : k = 0
  · have hfloat : Parts.toFloat ⟨negative, k, e⟩ = 0.0 := if_pos hzero
    rw [hfloat]
    exact toSingle_zero
  by_cases hdigits : k < 2 ^ 24
  · exact toSingle_toFloat_of_lt hzero hdigits h
  -- twenty-five digits are a one and zeros, of which one can be dropped
  obtain ⟨hle, hleast, hmost, hrange⟩ := h
  simp only at hle hleast hmost hrange
  obtain rfl : k = 2 ^ 23 * 2 ^ 1 := by omega
  have hmost' : e ≤ 103 := by
    by_contra hlarge
    rw [show (104 - e).toNat = 0 by omega] at hrange
    omega
  have hlog : Nat.log2 (2 ^ 23) = 23 := Nat.log2_two_pow
  rw [toFloat_mul_pow (by decide) 1 (by rw [hlog]; omega)]
  refine toSingle_toFloat_of_lt (by decide) (by decide)
    ⟨?_, by simp only; omega, by simp only; omega, ?_⟩
  · exact Nat.pow_le_pow_right (by decide) (by decide)
  · have hpos : 0 < 2 ^ (104 - (e + (1 : Nat))).toNat := by positivity
    exact le_trans (show 2 ^ 23 ≤ 2 ^ 24 - 1 by decide) (Nat.le_mul_of_pos_right _ hpos)

end LineBasic.Floating

namespace LineBasic

open Floating

/-! ## Conversions a second time -/

theorem toSingle_toSingle {x y : Float} (h : toSingle x = .ok y) : toSingle y = .ok y := by
  unfold toSingle at h
  split at h
  · split at h <;> cases h
  · rename_i p hparts
    split at h
    · cases h
    · rename_i hmax
      obtain rfl := Except.ok.inj h
      exact toSingle_toFloat (isSingle_round hparts (Nat.not_lt.mp hmax))

open Float.Model Float.Model.UnpackedFloat in
/-- Adding zero makes a zero positive, and leaves every other number as it is. -/
theorem add_zero_eq {x : Float} (hnan : x.isNaN = false) (hinf : x.isInf = false) :
    x + 0.0 = 0.0 ∨ x + 0.0 = x := by
  have hzero : (0.0 : Float).toModel.unpack = .zero .positive := by
    have hbits : (0.0 : Float).toModel.toBits = 0 := by decide +kernel
    unfold Float.Model.unpack
    rw [hbits]
    rfl
  have hadd : x + 0.0 =
      Float.ofModel (.pack (.add .binary64 x.toModel.unpack (0.0 : Float).toModel.unpack)) := rfl
  rw [hadd, hzero]
  have hself := ofModel_pack_unpack x
  have hpacked := ofModel_pack_unpack 0.0
  rw [hzero] at hpacked
  replace hnan : x.toModel.unpack.isNaN = false := hnan
  replace hinf : x.toModel.unpack.isInf = false := hinf
  cases hx : x.toModel.unpack with
  | notANumber =>
    rw [hx] at hnan
    cases hnan
  | infinity s =>
    rw [hx] at hinf
    cases hinf
  | zero s =>
    refine .inl (hpacked ▸ ?_)
    cases s <;> rfl
  | finite s m e pos =>
    rw [hx] at hself
    exact .inr hself

theorem toDouble_zero : toDouble 0.0 = .ok 0.0 := by
  have hplus : (0.0 : Float) + 0.0 = 0.0 := by decide +kernel
  unfold toDouble
  rw [if_neg (by decide +kernel), if_neg (by decide +kernel), hplus]

theorem toDouble_toDouble {x y : Float} (h : toDouble x = .ok y) : toDouble y = .ok y := by
  unfold toDouble at h
  split_ifs at h with hnan hinf
  · cases h
  · cases h
  obtain rfl := Except.ok.inj h
  have hself : toDouble x = .ok (x + 0.0) := by
    unfold toDouble
    rw [if_neg hnan, if_neg hinf]
  rcases add_zero_eq (Bool.eq_false_iff.mpr hnan) (Bool.eq_false_iff.mpr hinf) with hzero | hsame
  · rw [hzero]
    exact toDouble_zero
  · rw [hsame] at hself ⊢
    exact hself

theorem toInteger_of_parts? {x : Float} {p q : Parts} {n : Int} (hparts : parts? x = some p)
    (hhalf : parts? (x + 0.5) = some q) (hfloor : q.floor = n) (hlow : -32768 ≤ n)
    (hhigh : n ≤ 32767) : toInteger x = .ok n := by
  subst hfloor
  have hmin : ¬q.floor < integerMin := Int.not_lt.mpr hlow
  have hmax : ¬integerMax < q.floor := Int.not_lt.mpr hhigh
  unfold toInteger
  rw [hparts, Option.bind_some, hhalf]
  exact if_neg (by simp [hmin, hmax])

/-- An integer of 16 bits is stored as itself. -/
theorem toInteger_ofInt {n : Int} (hlow : -32768 ≤ n) (hhigh : n ≤ 32767) :
    toInteger (Float.ofInt n) = .ok n := by
  by_cases hzero : n = 0
  · rw [hzero]
    decide +kernel
  obtain ⟨negative, k, rfl⟩ : ∃ negative k, n = (signOf negative).apply (k : Nat) := by
    rcases Int.le_total 0 n with hpos | hneg
    · exact ⟨false, n.toNat, (Int.toNat_of_nonneg hpos).symm⟩
    · refine ⟨true, (-n).toNat, ?_⟩
      change n = -((-n).toNat : Int)
      omega
  have hk : k ≠ 0 := by
    rintro rfl
    cases negative <;> exact hzero rfl
  have hlt : k < 2 ^ 16 := by
    cases negative with
    | false =>
      replace hhigh : (k : Int) ≤ 32767 := hhigh
      omega
    | true =>
      replace hlow : -32768 ≤ -(k : Int) := hlow
      omega
  have hlog : k.log2 < 16 := (Nat.log2_lt hk).mpr hlt
  have hhalves : halves negative k ≠ 0 ∧ halves negative k < 2 ^ 53 := by
    unfold halves
    split <;> omega
  have hlog' : (halves negative k).log2 < 53 := (Nat.log2_lt hhalves.1).mpr hhalves.2
  rw [ofInt_eq_toFloat hk (by omega)]
  refine toInteger_of_parts? (parts?_toFloat hk (by omega) (by omega) (by omega)) ?_
    (floor_halves hk (52 - (halves negative k).log2)) hlow hhigh
  rw [add_half hk (by omega)]
  exact parts?_toFloat hhalves.1 (by omega) (by omega) (by omega)

/-- **A value that a variable of a kind took is taken by every variable of the kind as it is.** -/
theorem Kind.coerce_coerce {kind : Kind} {v w : Value} (h : kind.coerce v = .ok w) :
    kind.coerce w = .ok w := by
  cases kind with
  | text =>
    obtain ⟨s, -, h⟩ := ok_of_bind h
    obtain ⟨s', hcheck, h⟩ := ok_of_bind h
    obtain rfl := Except.ok.inj h
    unfold checkString at hcheck
    split at hcheck
    · cases hcheck
    · rename_i hlength
      obtain rfl := Except.ok.inj hcheck
      change (checkString s >>= fun s => pure (Value.text s)) = _
      rw [checkString, if_neg hlength]
      rfl
  | integer =>
    obtain ⟨n, hinteger, h⟩ := ok_of_bind h
    obtain ⟨x, -, hinteger⟩ := ok_of_bind hinteger
    obtain rfl := Except.ok.inj h
    obtain ⟨hlow, hhigh⟩ := range_of_toInteger hinteger
    change (toInteger (Float.ofInt n) >>= fun n => pure (Value.ofInt n)) = _
    rw [toInteger_ofInt hlow hhigh]
    rfl
  | double =>
    obtain ⟨x, -, h⟩ := ok_of_bind h
    obtain ⟨y, hdouble, h⟩ := ok_of_bind h
    obtain rfl := Except.ok.inj h
    change (toDouble y >>= fun y => pure (Value.double y)) = _
    rw [toDouble_toDouble hdouble]
    rfl
  | single =>
    obtain ⟨x, -, h⟩ := ok_of_bind h
    obtain ⟨y, hsingle, h⟩ := ok_of_bind h
    obtain rfl := Except.ok.inj h
    change (toSingle y >>= fun y => pure (Value.single y)) = _
    rw [toSingle_toSingle hsingle]
    rfl

/-- What a new variable holds. -/
theorem Kind.coerce_default (kind : Kind) : kind.coerce kind.default = .ok kind.default := by
  cases kind with
  | text => rfl
  | integer =>
    have hzero : Float.ofInt 0 = 0.0 := by decide +kernel
    change (toInteger 0.0 >>= fun n => pure (Value.ofInt n)) = .ok (.single 0.0)
    rw [← hzero, toInteger_ofInt (by decide) (by decide)]
    rfl
  | double =>
    change (toDouble 0.0 >>= fun y => pure (Value.double y)) = .ok (.double 0.0)
    rw [toDouble_zero]
    rfl
  | single =>
    have hcoerce : ∀ x, Kind.single.coerce (.single x) =
        (toSingle x >>= fun y => pure (.single y)) := fun _ => rfl
    change Kind.single.coerce (.single 0.0) = .ok (.single 0.0)
    rw [hcoerce, toSingle_zero]
    rfl

end LineBasic
