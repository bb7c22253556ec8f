import Mathlib
import LineBasic.Parser.Cursor
import LineBasic.Token.Lexer
import LineBasic.Proofs.ListedLine

/-!
# Line numbers as numbers

The digits of a line number are read as a number that names that line. All conversions on the way
are exact for numbers of at most 24 binary digits.

* `Floating.parts?_ofBits`: the parts of a number put together from its fields.
* `Floating.parts?_wholeFloat`: a positive whole number has its own value.
* `Parser.lineNumber?_wholeFloat`: a line number names its line.
* `Lexer.Writing.value_ofNat`: the digits of a line number are read as that number.
-/

namespace LineBasic.Floating

/-! ## Putting together and taking apart -/

open Float.Model Float.Model.UnpackedFloat in
/-- The bits of a number that is not NaN are kept. -/
theorem toBits_ofBits {b : UInt64} (h : b.toNat / 2 ^ 52 % 2 ^ 11 ≠ 2047) :
    (Float.ofBits b).toBits = b := by
  have hvalid : Format.binary64.Valid b.toBitVec := by
    refine ⟨fun hexponent => absurd ?_ h⟩
    have hfield := congrArg BitVec.toNat hexponent
    rw [unpackExponent_def, BitVec.extractLsb'_toNat, Nat.shiftRight_eq_div_pow] at hfield
    exact hfield
  exact congrArg UInt64.ofBitVec (pack_unpack_of_valid hvalid)

/-- The parts of a number that is put together from its exponent field and its fraction. -/
theorem parts?_ofBits {field fraction : Nat} (hpos : 0 < field) (hfield : field < 2047)
    (hfraction : fraction < 2 ^ 52) :
    parts? (Float.ofBits (field * 2 ^ 52 + fraction).toUInt64) =
      some ⟨false, 2 ^ 52 + fraction, (field : Int) - 1075⟩ := by
  have hbits : (field * 2 ^ 52 + fraction).toUInt64.toNat = field * 2 ^ 52 + fraction := by
    rw [Nat.toUInt64_eq, UInt64.toNat_ofNat']
    omega
  have hdiv : (field * 2 ^ 52 + fraction) / 2 ^ 52 % 2 ^ 11 = field := by omega
  have hmod : (field * 2 ^ 52 + fraction) % 2 ^ 52 = fraction := by omega
  have hsign : (field * 2 ^ 52 + fraction) / 2 ^ 63 = 0 := by omega
  unfold parts?
  rw [toBits_ofBits (by rw [hbits, hdiv]; omega), hbits]
  simp only [hdiv, hmod, hsign]
  rw [if_neg (by omega), if_neg (by omega)]
  rfl

/-! ## Whole numbers -/

/-- A positive whole number with at most 53 binary digits as a binary64 number. -/
def wholeFloat (n : Nat) : Float :=
  Float.ofBits ((n.log2 + 1022) * 2 ^ 52 + n * 2 ^ (52 - n.log2)).toUInt64

variable {n : Nat}

theorem scaled_bounds {k : Nat} (hn : n ≠ 0) (hk : n.log2 ≤ k) :
    2 ^ k ≤ n * 2 ^ (k - n.log2) ∧ n * 2 ^ (k - n.log2) < 2 * 2 ^ k := by
  have hsplit : 2 ^ k = 2 ^ n.log2 * 2 ^ (k - n.log2) := by rw [← pow_add, Nat.add_sub_cancel' hk]
  have hlow : 2 ^ n.log2 ≤ n := Nat.log2_self_le hn
  have hhigh : n < 2 ^ n.log2 * 2 := by
    rw [← pow_succ]
    exact Nat.lt_log2_self
  constructor
  · rw [hsplit]
    exact Nat.mul_le_mul_right _ hlow
  · rw [hsplit, ← mul_assoc, mul_comm 2]
    exact Nat.mul_lt_mul_of_pos_right hhigh (by positivity)

theorem log2_scaled {k : Nat} (hn : n ≠ 0) (hk : n.log2 ≤ k) : (n * 2 ^ (k - n.log2)).log2 = k := by
  obtain ⟨hlow, hhigh⟩ := scaled_bounds hn hk
  have hne : n * 2 ^ (k - n.log2) ≠ 0 := by positivity
  rw [Nat.log2_eq_iff hne, pow_succ]
  omega

/-- A whole number with its digits scaled up is put together alike for every scale. -/
theorem toFloat_scaled {k : Nat} (hn : n ≠ 0) (hk : n.log2 ≤ k) (hk' : k ≤ 52) :
    Parts.toFloat ⟨false, n * 2 ^ (k - n.log2), (n.log2 : Int) - k⟩ = wholeFloat n := by
  have hne : n * 2 ^ (k - n.log2) ≠ 0 := by positivity
  have hquotient : n * 2 ^ (k - n.log2) * 2 ^ 52 / 2 ^ k = n * 2 ^ (52 - n.log2) := by
    have hsplit : n * 2 ^ (k - n.log2) * 2 ^ 52 = n * 2 ^ (52 - n.log2) * 2 ^ k := by
      rw [mul_assoc, mul_assoc, ← pow_add, ← pow_add]
      congr 2
      omega
    rw [hsplit, Nat.mul_div_cancel _ (by positivity)]
  have htop : (k : Int) + ((n.log2 : Int) - k) = n.log2 := by omega
  have hfield : ((n.log2 : Int) + 1022).toNat = n.log2 + 1022 := by omega
  have hlow : ¬(n.log2 : Int) < -1022 := by omega
  have hhigh : ¬(1023 : Int) < n.log2 := by omega
  unfold Parts.toFloat wholeFloat
  simp only [log2_scaled hn hk, htop, hquotient, hfield]
  rw [if_neg hne, if_neg hlow, if_neg hhigh, if_neg (by decide), Nat.zero_add]

/-- The parts of a whole number. -/
theorem parts?_wholeFloat (hn : n ≠ 0) (hlog : n.log2 ≤ 52) :
    parts? (wholeFloat n) = some ⟨false, n * 2 ^ (52 - n.log2), (n.log2 : Int) - 52⟩ := by
  obtain ⟨hlow, hhigh⟩ := scaled_bounds hn hlog
  obtain ⟨fraction, hfraction⟩ := Nat.exists_eq_add_of_le hlow
  have hbits : (n.log2 + 1022) * 2 ^ 52 + n * 2 ^ (52 - n.log2) =
      (n.log2 + 1023) * 2 ^ 52 + fraction := by omega
  have hexponent : ((n.log2 + 1023 : Nat) : Int) - 1075 = n.log2 - 52 := by omega
  unfold wholeFloat
  rw [hbits, parts?_ofBits (by omega) (by omega) (by omega), hfraction, hexponent]

theorem roundQuotient_mul {q d : Nat} (hd : 0 < d) : roundQuotient (q * d) d = q := by
  unfold roundQuotient
  simp only [Nat.mul_mod_left, Nat.mul_div_cancel _ hd, Nat.mul_zero]
  rw [if_pos hd]

/-- Rounding to enough digits drops zeros only. -/
theorem round_scaled {digits k : Nat} {least : Int} (hn : n ≠ 0) (hk : n.log2 + 1 ≤ digits)
    (hdigits : digits ≤ k + 1) (hleast : least ≤ (n.log2 : Int) + 1 - digits) :
    Parts.round digits least ⟨false, n * 2 ^ (k - n.log2), (n.log2 : Int) - k⟩ =
      ⟨false, n * 2 ^ (digits - 1 - n.log2), (n.log2 : Int) - (digits - 1 : Nat)⟩ := by
  have hlog : (n * 2 ^ (k - n.log2)).log2 = k := log2_scaled hn (by omega)
  have hdrop : (max ((k : Int) + 1 - digits) (least - ((n.log2 : Int) - k))).toNat =
      k + 1 - digits := by omega
  have hsplit : n * 2 ^ (k - n.log2) = n * 2 ^ (digits - 1 - n.log2) * 2 ^ (k + 1 - digits) := by
    rw [mul_assoc, ← pow_add]
    congr 2
    omega
  unfold Parts.round
  simp only [hlog, hdrop]
  rw [hsplit, roundQuotient_mul (by positivity)]
  congr 1
  omega

theorem ofQuotient_one (hn : n ≠ 0) (hlog : n.log2 ≤ 52) : ofQuotient n 1 = wholeFloat n := by
  have hone : Nat.log2 1 = 0 := by decide
  have hdouble : 2 * (n * 2 ^ (55 - n.log2)) = n * 2 ^ (56 - n.log2) := by
    have hpow : 2 ^ (56 - n.log2) = 2 ^ (55 - n.log2) * 2 := by
      rw [← pow_succ]
      congr 1
      omega
    rw [hpow]
    ring
  have hexponent : (-((55 - n.log2 + 1 : Nat) : Int)) = (n.log2 : Int) - 56 := by omega
  unfold ofQuotient
  simp only [hone, Nat.add_zero, Nat.div_one, Nat.mod_one, if_true, hdouble, hexponent]
  have hround := @round_scaled n 53 56 (-1074) hn (by omega) (by omega) (by omega)
  rw [Nat.cast_ofNat] at hround
  rw [hround]
  exact toFloat_scaled hn hlog le_rfl

theorem toSingle_of_parts? {x : Float} {p : Parts} (h : parts? x = some p)
    (hmax : p.ratio.1 ≤ singleMax * p.ratio.2) :
    toSingle x = .ok (p.round 24 (-149)).toFloat := by
  unfold toSingle
  rw [h]
  exact if_neg (Nat.not_lt.mpr hmax)

theorem ratio_scaled (hlog : n.log2 < 52) :
    Parts.ratio ⟨false, n * 2 ^ (52 - n.log2), (n.log2 : Int) - 52⟩ =
      (n * 2 ^ (52 - n.log2), 2 ^ (52 - n.log2)) := by
  have hexponent : (-((n.log2 : Int) - 52)).toNat = 52 - n.log2 := by omega
  unfold Parts.ratio
  rw [if_neg (by simp only; omega)]
  simp only [hexponent]

/-- A whole number of at most 24 binary digits is a single-precision number. -/
theorem toSingle_wholeFloat (hn : n ≠ 0) (hlog : n.log2 ≤ 23) :
    toSingle (wholeFloat n) = .ok (wholeFloat n) := by
  have hle : n ≤ singleMax := by
    have hhigh : n < 2 ^ (n.log2 + 1) := Nat.lt_log2_self
    have hpow : 2 ^ (n.log2 + 1) ≤ 2 ^ 24 := Nat.pow_le_pow_right (by decide) (by omega)
    exact (hhigh.trans_le hpow).le.trans (by norm_num [singleMax])
  have hround := @round_scaled n 24 52 (-149) hn (by omega) (by omega) (by omega)
  rw [Nat.cast_ofNat] at hround
  rw [toSingle_of_parts? (parts?_wholeFloat hn (by omega)), hround,
    toFloat_scaled hn hlog (by decide)]
  rw [ratio_scaled (by omega)]
  exact Nat.mul_le_mul_right _ hle

end LineBasic.Floating

namespace LineBasic.Parser

open Floating (wholeFloat)

theorem lineNumber?_of_parts? {x : Float} {p : Floating.Parts} {n : Nat}
    (h : Floating.parts? x = some p) (hnegative : p.negative = false) (hwhole : p.isWhole = true)
    (hvalue : p.whole = n) (hmax : n ≤ maxLineNumber) :
    lineNumber? (.single x) = some n := by
  unfold lineNumber?
  simp only [h, hnegative, hwhole, hvalue, hmax]
  rfl

/-- **A line number names its line.** -/
theorem lineNumber?_wholeFloat {n : Nat} (hn : n ≠ 0) (hmax : n ≤ maxLineNumber) :
    lineNumber? (.single (wholeFloat n)) = some n := by
  have hlog : n.log2 < 16 := (Nat.log2_lt hn).mpr (hmax.trans_lt (by decide))
  have hratio := Floating.ratio_scaled (n := n) (by omega)
  refine lineNumber?_of_parts? (Floating.parts?_wholeFloat hn (by omega)) rfl ?_ ?_ hmax
  · unfold Floating.Parts.isWhole
    rw [hratio, Nat.mul_mod_left]
    rfl
  · unfold Floating.Parts.whole
    rw [hratio, Nat.mul_div_cancel _ (by positivity)]

end LineBasic.Parser

namespace LineBasic.Lexer

open Floating (wholeFloat)

/-- A number written with digits alone. -/
def Writing.ofNat (n : Nat) : Writing := ⟨(toString n).toList, false, [], none, none⟩

namespace Writing

theorem chars_ofNat (n : Nat) : (ofNat n).chars = (toString n).toList := by
  simp [ofNat, chars, ending, exponentChars]

theorem formed_ofNat (n : Nat) : (ofNat n).Formed where
  whole c hc := Text.isDigit_of_isDigit (Text.isDigit_of_mem_toString hc)
  fraction := by simp [ofNat]
  point _ := rfl
  digit := Or.inl (Text.toString_ne_nil n)
  exponent := by simp [ofNat]
  mark := by simp [ofNat]

theorem ofDecimal_ofNat {n : Nat} (hn : n ≠ 0) (hmax : n ≤ Parser.maxLineNumber) :
    Floating.ofDecimal n 0 = wholeFloat n := by
  have hlog : n.log2 < 16 := (Nat.log2_lt hn).mpr (hmax.trans_lt (by decide))
  have hcount : Floating.digitCount n ≤ 5 := by
    unfold Floating.digitCount
    rw [Nat.length_toDigits_le_iff (by decide) (by decide)]
    exact hmax.trans_lt (by decide)
  unfold Floating.ofDecimal
  simp only [Int.add_zero, Int.toNat_zero, pow_zero, Nat.mul_one, le_refl, if_true]
  rw [if_neg (by simp [hn]), if_neg (by omega), Floating.ofQuotient_one hn (by omega)]

/-- **The digits of a line number are read as that number.** -/
theorem value_ofNat {n : Nat} (hn : n ≠ 0) (hmax : n ≤ Parser.maxLineNumber) :
    ((ofNat n).read []).value = .ok (.single (wholeFloat n)) := by
  have hlog : n.log2 < 16 := (Nat.log2_lt hn).mpr (hmax.trans_lt (by decide))
  have hreal : ((ofNat n).read []).real = wholeFloat n := by
    rw [← ofDecimal_ofNat hn hmax]
    unfold NumberText.real Floating.Numeral.toFloat
    simp only [read, ofNat, List.append_nil, Text.digitsValue_toString]
    rfl
  have hprecision : ((ofNat n).read []).precision = .single := by
    have hlength := Parser.length_toString_le hmax
    have hshort : ¬singleDigits < (toString n).toList.length + 0 := by
      have hdigits : singleDigits = 7 := rfl
      omega
    change (if (false || false ||
      (true && decide (singleDigits < (toString n).toList.length + 0))) = true
      then Precision.double else Precision.single) = _
    rw [decide_eq_false hshort]
    rfl
  unfold NumberText.value
  rw [hreal, hprecision, Precision.fit, Floating.toSingle_wholeFloat hn (by omega)]
  rfl

end Writing

end LineBasic.Lexer
