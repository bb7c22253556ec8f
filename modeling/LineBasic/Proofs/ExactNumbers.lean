import Mathlib
import LineBasic.Proofs.LineNumber

/-!
# Numbers without rounding

Binary64 numbers of at most 53 binary digits are what they are made of, and sums of whole numbers
and a half are exact.

* `parts?_toFloat`: the parts of a number that was put together.
* `round_exact`: a number with at most 53 digits is not rounded. `unpack_toFloat`: nor is it changed
  by being packed.
* `ofInt_eq_toFloat`, `add_half`: a whole number, and a half more than it.
-/

namespace LineBasic.Floating

variable {k : Nat} {e : Int} {negative : Bool}

/-! ## Putting together and taking apart -/

theorem parts?_ofSignedBits {field fraction : Nat} (hpos : 0 < field) (hfield : field < 2047)
    (hfraction : fraction < 2 ^ 52) :
    parts? (Float.ofBits
      ((if negative then 2 ^ 63 else 0) + (field * 2 ^ 52 + fraction)).toUInt64) =
      some ⟨negative, 2 ^ 52 + fraction, (field : Int) - 1075⟩ := by
  cases negative with
  | false =>
    simp only [Bool.false_eq_true, if_false, Nat.zero_add]
    exact parts?_ofBits hpos hfield hfraction
  | true =>
    simp only [if_true]
    have hbits : (2 ^ 63 + (field * 2 ^ 52 + fraction)).toUInt64.toNat =
        2 ^ 63 + (field * 2 ^ 52 + fraction) := by
      rw [Nat.toUInt64_eq, UInt64.toNat_ofNat']
      omega
    have hdiv : (2 ^ 63 + (field * 2 ^ 52 + fraction)) / 2 ^ 52 % 2 ^ 11 = field := by omega
    have hmod : (2 ^ 63 + (field * 2 ^ 52 + fraction)) % 2 ^ 52 = fraction := by omega
    have hsign : (2 ^ 63 + (field * 2 ^ 52 + fraction)) / 2 ^ 63 = 1 := by omega
    unfold parts?
    rw [toBits_ofBits (by rw [hbits, hdiv]; omega), hbits]
    simp only [hdiv, hmod, hsign]
    rw [if_neg (by omega), if_neg (by omega)]
    rfl

theorem log2_mul_pow (hk : k ≠ 0) (j : Nat) : (k * 2 ^ j).log2 = k.log2 + j := by
  have hlow : 2 ^ k.log2 ≤ k := Nat.log2_self_le hk
  have hhigh : k < 2 ^ (k.log2 + 1) := Nat.lt_log2_self
  rw [Nat.log2_eq_iff (by positivity), pow_add, Nat.add_right_comm, pow_add]
  exact ⟨Nat.mul_le_mul_right _ hlow, Nat.mul_lt_mul_of_pos_right hhigh (by positivity)⟩

/-- Its digits scaled to 53, shifted to the place of the implicit one. -/
theorem shifted_eq (hlog : k.log2 ≤ 52) : k * 2 ^ 52 / 2 ^ k.log2 = k * 2 ^ (52 - k.log2) := by
  have hsplit : k * 2 ^ 52 = k * 2 ^ (52 - k.log2) * 2 ^ k.log2 := by
    rw [mul_assoc, ← pow_add, Nat.sub_add_cancel hlog]
  rw [hsplit, Nat.mul_div_cancel _ (by positivity)]

/-- A number that is put together from at most 53 binary digits has these digits, scaled to 53. -/
theorem parts?_toFloat (hk : k ≠ 0) (hlog : k.log2 ≤ 52) (hlow : -1022 ≤ (k.log2 : Int) + e)
    (hhigh : (k.log2 : Int) + e ≤ 1023) :
    parts? (Parts.toFloat ⟨negative, k, e⟩) =
      some ⟨negative, k * 2 ^ (52 - k.log2), e - (52 - k.log2 : Nat)⟩ := by
  obtain ⟨hmin, hmax⟩ := scaled_bounds hk hlog
  obtain ⟨fraction, hfraction⟩ := Nat.exists_eq_add_of_le hmin
  obtain ⟨field, hfield⟩ : ∃ field : Nat, ((k.log2 : Int) + e + 1022).toNat = field := ⟨_, rfl⟩
  have hbits : field * 2 ^ 52 + (2 ^ 52 + fraction) = (field + 1) * 2 ^ 52 + fraction := by ring
  have hexponent : ((field + 1 : Nat) : Int) - 1075 = e - (52 - k.log2 : Nat) := by omega
  unfold Parts.toFloat
  simp only [shifted_eq hlog, hfield]
  rw [if_neg hk, if_neg (Int.not_lt.mpr hlow), if_neg (Int.not_lt.mpr hhigh), hfraction, hbits,
    parts?_ofSignedBits (by omega) (by omega) (by omega), hexponent]

/-- How the digits are scaled makes no difference. -/
theorem toFloat_mul_pow (hk : k ≠ 0) (j : Nat) (hlow : -1022 ≤ (k.log2 : Int) + (e + j)) :
    Parts.toFloat ⟨negative, k * 2 ^ j, e⟩ = Parts.toFloat ⟨negative, k, e + j⟩ := by
  have hne : k * 2 ^ j ≠ 0 := by positivity
  have htop : ((k.log2 + j : Nat) : Int) + e = (k.log2 : Int) + (e + j) := by omega
  have hquotient : k * 2 ^ j * 2 ^ 52 / 2 ^ (k.log2 + j) = k * 2 ^ 52 / 2 ^ k.log2 := by
    rw [mul_right_comm, pow_add, Nat.mul_div_mul_right _ _ (by positivity)]
  unfold Parts.toFloat
  simp only [log2_mul_pow hk, htop, hquotient]
  rw [if_neg hne, if_neg hk, if_neg (Int.not_lt.mpr hlow), if_neg (Int.not_lt.mpr hlow)]

/-! ## Exact results -/

open Float.Model Float.Model.UnpackedFloat

variable {s : Sign}

/-- A number that is not zero and has at most 53 binary digits, scaled to 53. -/
def scaled (s : Sign) (k : Nat) (hk : k ≠ 0) (e : Int) : UnpackedFloat :=
  .finite s (k * 2 ^ (52 - k.log2)) (e - (52 - k.log2 : Nat)) (by positivity)

theorem shiftRight_exact (m j : Nat) :
    (ExtendedMantissa.mk (m * 2 ^ j) false false >>> j) = ⟨m, false, false⟩ := by
  induction j generalizing m with
  | zero => simp [HShiftRight.hShiftRight, Nat.repeat]
  | succ j ih =>
    have hih := ih (m * 2)
    rw [mul_assoc, ← pow_succ'] at hih
    change ExtendedMantissa.shiftRightOne
      (ExtendedMantissa.mk (m * 2 ^ (j + 1)) false false >>> j) = _
    rw [hih]
    simp [ExtendedMantissa.shiftRightOne]

/-- Where 53 digits end. -/
theorem targetExponent_exact (hk : k ≠ 0) (hlog : k.log2 ≤ 52) {j : Nat}
    (hlow : -1074 ≤ e + j - (52 - k.log2 : Nat)) :
    Format.binary64.targetExponent (totalExponent (k * 2 ^ j) e) = e + j - (52 - k.log2 : Nat) := by
  simp only [Format.targetExponent, totalExponent, Format.mantissaBits, Format.minExponent,
    log2_mul_pow hk]
  norm_num
  omega

theorem shiftToTargetExponent_exact (hk : k ≠ 0) (hlog : k.log2 ≤ 52) {j : Nat}
    (hj : 52 - k.log2 ≤ j) (hlow : -1074 ≤ e + j - (52 - k.log2 : Nat)) :
    shiftToTargetExponent Format.binary64 (k * 2 ^ j) e .exact =
      (⟨k * 2 ^ (52 - k.log2), false, false⟩, e + j - (52 - k.log2 : Nat)) := by
  have htarget := targetExponent_exact hk hlog hlow
  obtain ⟨shift, hshift⟩ : ∃ shift : Nat, (e + j - (52 - k.log2 : Nat) - e).toNat =
      shift := ⟨_, rfl⟩
  have hsplit : k * 2 ^ j = k * 2 ^ (52 - k.log2) * 2 ^ shift := by
    rw [mul_assoc, ← pow_add]
    congr 2
    omega
  unfold shiftToTargetExponent shiftToExponent
  simp only [htarget, hshift, ExtendedMantissa.ofMantissaAndAccuracy]
  rw [hsplit, shiftRight_exact]
  congr 1
  omega

theorem roundWithAccuracy_exact (hk : k ≠ 0) (hlog : k.log2 ≤ 52) {j : Nat} (hj : 52 - k.log2 ≤ j)
    (hlow : -1074 ≤ e + j - (52 - k.log2 : Nat)) :
    roundWithAccuracy Format.binary64 s (k * 2 ^ j) e .exact = scaled s k hk (e + j) := by
  have hne : k * 2 ^ (52 - k.log2) ≠ 0 := by positivity
  have hrounded : (ExtendedMantissa.mk (k * 2 ^ (52 - k.log2)) false false).roundedMantissa =
      k * 2 ^ (52 - k.log2) := rfl
  unfold roundWithAccuracy
  rw [shiftToTargetExponent_exact hk hlog hj hlow]
  have hagain :=
    shiftToTargetExponent_exact hk hlog le_rfl (e := e + j - (52 - k.log2 : Nat)) (by omega)
  simp only [hrounded, hagain, dif_neg hne]
  unfold scaled
  congr 1
  omega

/-- A number of at most 53 digits is not rounded. -/
theorem round_exact (hk : k ≠ 0) (hlog : k.log2 ≤ 52) (j : Nat)
    (hlow : -1074 ≤ e + j - (52 - k.log2 : Nat)) :
    UnpackedFloat.round Format.binary64 s (k * 2 ^ j) e = scaled s k hk (e + j) := by
  have htarget := targetExponent_exact hk hlog hlow
  obtain ⟨shift, hshift⟩ : ∃ shift : Nat, (e - (e + j - (52 - k.log2 : Nat))).toNat =
      shift := ⟨_, rfl⟩
  unfold UnpackedFloat.round decreaseExponent
  simp only [htarget, hshift]
  rw [Nat.shiftLeft_eq, mul_assoc, ← pow_add, roundWithAccuracy_exact hk hlog (by omega) (by omega)]
  congr 1
  omega

/-- The sign of the parts of a number. -/
def signOf (negative : Bool) : Sign := if negative then .negative else .positive

/-- The parts of a number with 53 digits are what it is unpacked to. -/
theorem unpack_of_parts? {x : Float} {p : Parts} (h : parts? x = some p)
    (hp : 2 ^ 52 ≤ p.mantissa) :
    x.toModel.unpack = .finite (signOf p.negative) p.mantissa p.exponent (by omega) := by
  obtain ⟨negative, mantissa, exponent⟩ := p
  simp only at hp
  obtain ⟨b, hb⟩ : ∃ b : BitVec 64, x.toModel.toBits.toBitVec = b := ⟨_, rfl⟩
  have hnat : x.toBits.toNat = b.toNat := by rw [← hb]; rfl
  have hfield : (@unpackExponent Format.binary64 b).toNat = b.toNat / 2 ^ 52 % 2 ^ 11 := by
    rw [unpackExponent_def, BitVec.extractLsb'_toNat, Nat.shiftRight_eq_div_pow]
  have hfraction : (@unpackMantissa Format.binary64 b).toNat = b.toNat % 2 ^ 52 := by
    rw [unpackMantissa_def, BitVec.extractLsb'_toNat, Nat.shiftRight_eq_div_pow, pow_zero,
      Nat.div_one]
  have hsign : (@unpackSign Format.binary64 b).toNat = b.toNat / 2 ^ 63 % 2 := by
    rw [unpackSign_def, BitVec.extractLsb'_toNat, Nat.shiftRight_eq_div_pow]
    rfl
  unfold parts? at h
  rw [hnat] at h
  simp only at h
  split_ifs at h with hspecial hzero
  · simp only [Option.some.injEq, Parts.mk.injEq] at h
    omega
  · simp only [Option.some.injEq, Parts.mk.injEq] at h
    obtain ⟨rfl, rfl, rfl⟩ := h
    have hspecial' : @unpackExponent Format.binary64 b ≠ -1#11 := fun heq => by
      rw [heq] at hfield
      exact hspecial hfield.symm
    have hzero' : @unpackExponent Format.binary64 b ≠ 0#11 := fun heq => by
      rw [heq] at hfield
      exact hzero hfield.symm
    have hdigits : (1#1 ++ @unpackMantissa Format.binary64 b).toNat =
        2 ^ 52 + b.toNat % 2 ^ 52 := by
      rw [BitVec.toNat_append, hfraction,
        ← Nat.shiftLeft_add_eq_or_of_lt (Nat.mod_lt _ (by positivity)), Nat.shiftLeft_eq]
      rfl
    have hbit : Sign.ofBitVec (@unpackSign Format.binary64 b) = signOf (b.toNat / 2 ^ 63 == 1) := by
      have hlt := b.isLt
      have hone : b.toNat / 2 ^ 63 = 0 ∨ b.toNat / 2 ^ 63 = 1 := by omega
      rcases hone with hone | hone
      · have hsign' : @unpackSign Format.binary64 b = 0#1 :=
          BitVec.eq_of_toNat_eq (by rw [hsign, hone]; rfl)
        rw [hsign', hone]
        rfl
      · have hsign' : @unpackSign Format.binary64 b = 1#1 :=
          BitVec.eq_of_toNat_eq (by rw [hsign, hone]; rfl)
        rw [hsign', hone]
        rfl
    unfold Float.Model.unpack UnpackedFloat.unpack
    rw [hb]
    simp only [if_neg hspecial', if_neg hzero', hdigits, hbit, hfield]
    congr 1

/-- Unpacked digits are put together by packing them. -/
theorem unpack_toFloat (hk : k ≠ 0) (hlog : k.log2 ≤ 52) (hlow : -1022 ≤ (k.log2 : Int) + e)
    (hhigh : (k.log2 : Int) + e ≤ 1023) :
    (Parts.toFloat ⟨negative, k, e⟩).toModel.unpack = scaled (signOf negative) k hk e :=
  unpack_of_parts? (parts?_toFloat hk hlog hlow hhigh) (scaled_bounds hk hlog).1

theorem ofModel_pack_unpack (x : Float) :
    Float.ofModel (Float.Model.pack x.toModel.unpack) = x := by
  have hbits := pack_unpack_of_valid x.toModel.valid
  obtain ⟨⟨bits, valid⟩⟩ := x
  unfold Float.Model.pack Float.Model.unpack
  congr

theorem ofModel_pack_eq {f : UnpackedFloat} (hk : k ≠ 0) (hlog : k.log2 ≤ 52)
    (hlow : -1022 ≤ (k.log2 : Int) + e) (hhigh : (k.log2 : Int) + e ≤ 1023)
    (h : f = scaled (signOf negative) k hk e) :
    Float.ofModel (Float.Model.pack f) = Parts.toFloat ⟨negative, k, e⟩ := by
  rw [h, ← unpack_toFloat hk hlog hlow hhigh, ofModel_pack_unpack]

/-! ## Whole numbers and a half -/

theorem normalize_pos (hk : k ≠ 0) (hlog : k.log2 ≤ 52) (j : Nat)
    (hlow : -1074 ≤ e + j - (52 - k.log2 : Nat)) (s' : Sign) :
    UnpackedFloat.normalize Format.binary64 ((signOf negative).apply (k * 2 ^ j : Nat)) e s' =
      scaled (signOf negative) k hk (e + j) := by
  have hpos : (0 : Int) < (k * 2 ^ j : Nat) := by positivity
  unfold UnpackedFloat.normalize
  cases negative with
  | false =>
    have hcompare : compare ((signOf false).apply (k * 2 ^ j : Nat)) 0 = .gt :=
      Int.compare_eq_gt.mpr hpos
    rw [hcompare]
    exact round_exact hk hlog j hlow
  | true =>
    have hcompare : compare ((signOf true).apply (k * 2 ^ j : Nat)) 0 = .lt :=
      Int.compare_eq_lt.mpr (Int.neg_neg_of_pos hpos)
    have hneg : (-(signOf true).apply (k * 2 ^ j : Nat)).toNat = k * 2 ^ j := by
      change (- -((k * 2 ^ j : Nat) : Int)).toNat = _
      rw [neg_neg, Int.toNat_natCast]
    rw [hcompare]
    simp only [hneg]
    exact round_exact hk hlog j hlow

theorem unpack_one :
    (Float.ofBits 4607182418800017408).toModel.unpack =
      .finite .positive (2 ^ 52) (-52) (by decide) :=
  unpack_of_parts? (@parts?_ofBits 1023 0 (by decide) (by decide) (by decide)) le_rfl

theorem unpack_half :
    (0.5 : Float).toModel.unpack = .finite .positive (2 ^ 52) (-53) (by decide) := by
  have hbits : (0.5 : Float) = Float.ofBits (1022 * 2 ^ 52 + 0).toUInt64 := by decide
  rw [hbits]
  exact unpack_of_parts? (@parts?_ofBits 1022 0 (by decide) (by decide) (by decide)) le_rfl

theorem toFloat_toUInt64 (hk : k ≠ 0) (hlog : k.log2 ≤ 52) :
    k.toUInt64.toFloat = Parts.toFloat ⟨false, k, 0⟩ := by
  have hlt : k < 2 ^ 53 := (Nat.log2_lt hk).mp (by omega)
  have hnat : k.toUInt64.toNat = k := by
    rw [Nat.toUInt64_eq, UInt64.toNat_ofNat']
    omega
  have hnormal := @normalize_pos k 0 false hk hlog 0 (by omega) .positive
  rw [pow_zero, mul_one] at hnormal
  refine ofModel_pack_eq hk hlog (by omega) (by omega) ?_
  change UnpackedFloat.normalize Format.binary64 (k.toUInt64.toNat : Int) 0 .positive = _
  rw [hnat]
  exact hnormal

/-- A positive whole number. -/
theorem ofNat_eq_toFloat (hk : k ≠ 0) (hlog : k.log2 ≤ 52) :
    Float.ofNat k = Parts.toFloat ⟨false, k, 0⟩ := by
  have hlt : k < 2 ^ 53 := (Nat.log2_lt hk).mp (by omega)
  -- a decimal without a fraction is read as its digits times a power of ten, here one
  have hdecimal : Float.ofNat k = k.toUInt64.toFloat * Float.ofBits 4607182418800017408 := by
    change Float.ofScientific k false 0 = _
    unfold Float.ofScientific
    rw [dif_pos ⟨hlt, by decide⟩]
    rfl
  have hproduct : k * 2 ^ (52 - k.log2) * 2 ^ 52 = k * 2 ^ (52 - k.log2 + 52) := by
    rw [mul_assoc, ← pow_add]
  rw [hdecimal, toFloat_toUInt64 hk hlog]
  refine ofModel_pack_eq hk hlog (by omega) (by omega) ?_
  rw [unpack_toFloat hk hlog (by omega) (by omega), unpack_one]
  unfold scaled UnpackedFloat.mul
  simp only [hproduct]
  refine (roundWithAccuracy_exact hk hlog (by omega) (by omega)).trans ?_
  unfold scaled
  congr 1
  omega

/-- A whole number with its sign. -/
theorem ofInt_eq_toFloat (hk : k ≠ 0) (hlog : k.log2 ≤ 52) :
    Float.ofInt ((signOf negative).apply k) = Parts.toFloat ⟨negative, k, 0⟩ := by
  cases negative with
  | false => exact ofNat_eq_toFloat hk hlog
  | true =>
    obtain ⟨n, rfl⟩ := Nat.exists_eq_succ_of_ne_zero hk
    change (Float.ofNat (n + 1)).neg = _
    rw [ofNat_eq_toFloat hk hlog]
    refine ofModel_pack_eq hk hlog (by omega) (by omega) ?_
    rw [unpack_toFloat hk hlog (by omega) (by omega)]
    rfl

/-- The size of twice a whole number and one, so of the number and a half counted in halves. -/
def halves (negative : Bool) (k : Nat) : Nat := if negative then 2 * k - 1 else 2 * k + 1

theorem apply_halves (hk : k ≠ 0) (negative : Bool) :
    (signOf negative).apply (halves negative k) = 2 * (signOf negative).apply k + 1 := by
  cases negative with
  | false => exact Int.natCast_add _ _
  | true =>
    change -((2 * k - 1 : Nat) : Int) = 2 * -(k : Int) + 1
    omega

theorem add_half (hk : k ≠ 0) (hlog : k.log2 ≤ 50) :
    Parts.toFloat ⟨negative, k, 0⟩ + 0.5 = Parts.toFloat ⟨negative, halves negative k, -1⟩ := by
  have hlow : 2 ^ k.log2 ≤ k := Nat.log2_self_le hk
  have hhigh : k < 2 ^ (k.log2 + 1) := Nat.lt_log2_self
  have hhalves : halves negative k ≠ 0 := by
    unfold halves
    split <;> omega
  have hlog' : (halves negative k).log2 ≤ 52 := by
    have hpow : 2 ^ (k.log2 + 1) ≤ 2 ^ 51 := Nat.pow_le_pow_right (by decide) (by omega)
    have hlt : halves negative k < 2 ^ 53 := by
      unfold halves
      split <;> omega
    have := (Nat.log2_lt hhalves).mpr hlt
    omega
  refine ofModel_pack_eq hhalves hlog' (by omega) (by omega) ?_
  rw [unpack_toFloat hk (by omega) (by omega) (by omega), unpack_half]
  -- both numbers are counted in units of 2 ^ -53
  have hmin : min (0 - ((52 - k.log2 : Nat) : Int)) (-53) = -53 := by omega
  have hshift : (0 - ((52 - k.log2 : Nat) : Int) - -53).toNat = k.log2 + 1 := by omega
  have hfirst : (k * 2 ^ (52 - k.log2)) <<< (k.log2 + 1) = k * 2 ^ 53 := by
    rw [Nat.shiftLeft_eq, mul_assoc, ← pow_add]
    congr 2
    omega
  have hsum : (signOf negative).apply (k * 2 ^ 53 : Nat) + Sign.positive.apply
    ((2 ^ 52) <<< 0 : Nat) =
      (signOf negative).apply (halves negative k * 2 ^ 52 : Nat) := by
    have hmul : ∀ n j : Nat, (signOf negative).apply (n * 2 ^ j : Nat) =
        (signOf negative).apply n * 2 ^ j := by
      intro n j
      cases negative with
      | false => exact Nat.cast_mul n _ |>.trans (by norm_cast)
      | true =>
        change -((n * 2 ^ j : Nat) : Int) = -(n : Int) * 2 ^ j
        push_cast
        ring
    rw [hmul, hmul, apply_halves hk]
    change _ + ((2 ^ 52 : Nat) : Int) = _
    push_cast
    ring
  unfold scaled UnpackedFloat.add decreaseExponent
  simp only [hmin, hshift, hfirst, sub_self, Int.toNat_zero, hsum]
  refine (normalize_pos hhalves hlog' 52 (by omega) .positive).trans ?_
  unfold scaled
  congr 1

/-- The greatest integer that is not above an odd number of halves. -/
theorem floor_halves (hk : k ≠ 0) (j : Nat) :
    Parts.floor ⟨negative, halves negative k * 2 ^ j, -1 - (j : Nat)⟩ =
      (signOf negative).apply k := by
  have hratio : Parts.ratio ⟨negative, halves negative k * 2 ^ j, -1 - (j : Nat)⟩ =
      (halves negative k * 2 ^ j, 2 ^ j * 2) := by
    unfold Parts.ratio
    rw [if_neg (by simp only; omega), ← pow_succ]
    congr 2
    simp only
    omega
  have hquotient : halves negative k * 2 ^ j / (2 ^ j * 2) = halves negative k / 2 := by
    rw [mul_comm, Nat.mul_div_mul_left _ _ (by positivity)]
  have hrest : halves negative k * 2 ^ j % (2 ^ j * 2) ≠ 0 := by
    rw [mul_comm, Nat.mul_mod_mul_left]
    have hodd : halves negative k % 2 = 1 := by
      unfold halves
      split <;> omega
    rw [hodd]
    positivity
  unfold Parts.floor Parts.whole
  rw [hratio]
  simp only [hquotient, if_neg hrest]
  cases negative with
  | false =>
    change (((2 * k + 1) / 2 : Nat) : Int) = k
    omega
  | true =>
    change -(((2 * k - 1) / 2 : Nat) : Int) - 1 = -(k : Int)
    omega

end LineBasic.Floating
