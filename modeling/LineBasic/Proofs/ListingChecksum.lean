import Mathlib
import LineBasic.Checksum
import LineBasic.Proofs.SavedFiles

/-!
# The checksum of a listing

The checksum goes through a listing line by line and byte by byte, and complements its register
before and after each line. `crc32` is the standard CRC-32 of a sequence of bits: a register of
ones, one step for every bit, and one complement at the end.

* `foldl_feedBit`: eight steps of the register for the bits of a byte are what feeding the byte
  does.
* `foldl_extend`: the complements between the lines cancel.
* `register_foldl_feedBit`: the register is a remainder of the polynomial that the bits spell, so
  the steps divide.
* **`ofLines_eq_crc32`**: the checksum of a listing is the CRC-32 of the UTF-8 of its lines, written
  without anything between them.
-/

namespace LineBasic.Checksum

open Polynomial

/-! ## CRC-32, bit by bit -/

/-- Takes one bit into the register: the polynomial is added if the bit that leaves the register is
not the same. -/
def feedBit (r : BitVec 32) (bit : Bool) : BitVec 32 :=
  if r.getLsbD 0 = bit then r >>> 1 else (r >>> 1) ^^^ 0xEDB88320#32

/-- The standard CRC-32 of a sequence of bits. -/
def crc32 (bits : List Bool) : BitVec 32 :=
  ~~~ (bits.foldl feedBit (BitVec.allOnes 32))

/-- The bits of a byte, the least significant first. -/
def byteBits (b : UInt8) : List Bool :=
  (List.range 8).map b.toBitVec.getLsbD

/-- The bits of a text in UTF-8. -/
def textBits (s : String) : List Bool :=
  s.toUTF8.toList.flatMap byteBits

/-! ## Bits and bytes -/

/-- `shiftBit` on bit vectors. -/
def shift (r : BitVec 32) : BitVec 32 :=
  if r.getLsbD 0 then (r >>> 1) ^^^ 0xEDB88320#32 else r >>> 1

theorem and_one_eq_one_iff (r : UInt32) : r &&& 1 = 1 ↔ r.toBitVec.getLsbD 0 = true := by
  have hlow : (r &&& 1).toBitVec = BitVec.setWidth 32 (BitVec.ofBool (r.toBitVec.getLsbD 0)) := by
    rw [UInt32.toBitVec_and]
    exact BitVec.and_one_eq_setWidth_ofBool_getLsbD
  rw [← UInt32.toBitVec_inj, hlow]
  cases r.toBitVec.getLsbD 0 <;> decide

theorem toBitVec_shiftBit (r : UInt32) : (shiftBit r).toBitVec = shift r.toBitVec := by
  unfold shiftBit shift
  simp only [and_one_eq_one_iff]
  split <;> simp [polynomial]

/-- A register to which bits were added beforehand differs by the bits that are still to come. -/
theorem foldl_feedBit (r b : BitVec 32) (n : Nat) :
    ((List.range n).map b.getLsbD).foldl feedBit r = shift^[n] (r ^^^ b) ^^^ (b >>> n) := by
  induction n with
  | zero => simp
  | succ n ih =>
    rw [List.range_succ, List.map_append, List.foldl_append, ih, Function.iterate_succ_apply']
    generalize shift^[n] (r ^^^ b) = s
    have hbit : (b >>> n).getLsbD 0 = b.getLsbD n := by simp
    have hsame : (s ^^^ b >>> n).getLsbD 0 = b.getLsbD n ↔ s.getLsbD 0 = false := by
      rw [BitVec.getLsbD_xor, hbit]
      cases s.getLsbD 0 <;> cases b.getLsbD n <;> decide
    simp only [List.map_cons, List.map_nil, List.foldl_cons, List.foldl_nil, feedBit, shift, hsame,
      BitVec.ushiftRight_xor_distrib, BitVec.shiftRight_add]
    cases s.getLsbD 0 with
    | false => simp
    | true => simp only [Bool.true_eq_false, if_false, if_true]; ac_rfl

theorem toBitVec_feedByte (r : UInt32) (b : UInt8) :
    (feedByte r b).toBitVec = (byteBits b).foldl feedBit r.toBitVec := by
  have hbits : byteBits b = (List.range 8).map b.toUInt32.toBitVec.getLsbD := by
    unfold byteBits
    refine List.map_congr_left fun i hi => ?_
    have hi : i < 8 := List.mem_range.1 hi
    simp [show i < 32 by omega]
  have hnone : b.toUInt32.toBitVec >>> 8 = 0#32 := by
    ext i hi
    simp
  have height : (feedByte r b).toBitVec = shift^[8] (r.toBitVec ^^^ b.toUInt32.toBitVec) := by
    simp only [feedByte, toBitVec_shiftBit, UInt32.toBitVec_xor]
    rfl
  rw [hbits, foldl_feedBit, hnone, height, BitVec.xor_zero]

theorem toBitVec_foldl_feedByte (r : UInt32) (bytes : List UInt8) :
    (bytes.foldl feedByte r).toBitVec = (bytes.flatMap byteBits).foldl feedBit r.toBitVec := by
  induction bytes generalizing r with
  | nil => rfl
  | cons b bytes ih =>
    rw [List.foldl_cons, ih, toBitVec_feedByte, List.flatMap_cons, List.foldl_append]

/-! ## Lines -/

/-- The complements between the lines cancel. -/
theorem foldl_extend (crc : UInt32) (lines : List String) :
    ~~~ (lines.foldl (fun crc line => extend crc line.toUTF8.toList) crc) =
      (lines.flatMap fun line => line.toUTF8.toList).foldl feedByte (~~~ crc) := by
  induction lines generalizing crc with
  | nil => rfl
  | cons line lines ih =>
    rw [List.foldl_cons, ih, List.flatMap_cons, List.foldl_append]
    simp [extend]

theorem flatMap_toUTF8 (lines : List String) :
    (lines.flatMap fun line => line.toUTF8.toList) = (String.join lines).toUTF8.toList := by
  simp only [Text.toList_toUTF8]
  induction lines with
  | nil => rfl
  | cons line lines ih =>
    rw [List.flatMap_cons, ih, String.join_cons, String.toList_append, List.flatMap_append]

theorem toBitVec_foldl_extend (lines : List String) :
    (lines.foldl (fun crc line => extend crc line.toUTF8.toList) 0).toBitVec =
      crc32 (textBits (String.join lines)) := by
  have hregister := congrArg UInt32.toBitVec (foldl_extend 0 lines)
  rw [toBitVec_foldl_feedByte, flatMap_toUTF8, UInt32.toBitVec_not] at hregister
  rw [crc32, textBits, ← BitVec.not_not (b := UInt32.toBitVec _), hregister]
  rfl

/-! ## Division of polynomials -/

/-- A bit as a coefficient. -/
noncomputable def coefficient (bit : Bool) : (ZMod 2)[X] :=
  if bit then 1 else 0

/-- The polynomial that a register holds; its lowest bit is the highest coefficient. -/
noncomputable def register (r : BitVec 32) : (ZMod 2)[X] :=
  ∑ i ∈ Finset.range 32, coefficient (r.getLsbD i) * X ^ (31 - i)

/-- The polynomial that a sequence of bits spells, the first bit the highest coefficient. -/
noncomputable def message (bits : List Bool) : (ZMod 2)[X] :=
  bits.foldl (fun p bit => p * X + coefficient bit) 0

/-- The generator polynomial of CRC-32: `X ^ 32` and the terms of the register EDB88320. -/
noncomputable def generator : (ZMod 2)[X] :=
  X ^ 32 + register 0xEDB88320#32

theorem coefficient_xor (a b : Bool) : coefficient (a ^^ b) = coefficient a + coefficient b := by
  cases a <;> cases b <;> simp [coefficient, CharTwo.add_self_eq_zero]

theorem register_xor (r s : BitVec 32) : register (r ^^^ s) = register r + register s := by
  simp only [register, BitVec.getLsbD_xor, coefficient_xor, add_mul, Finset.sum_add_distrib]

/-- A shift moves every term up by one; the highest one leaves. -/
theorem register_ushiftRight (r : BitVec 32) :
    register (r >>> 1) = register r * X + coefficient (r.getLsbD 0) * X ^ 32 := by
  have hterms : ∀ i ∈ Finset.range 31, coefficient ((r >>> 1).getLsbD i) * X ^ (31 - i) =
      coefficient (r.getLsbD (i + 1)) * X ^ (31 - (i + 1)) * X := by
    intro i hi
    have hi : i < 31 := Finset.mem_range.1 hi
    rw [mul_assoc, ← pow_succ, BitVec.getLsbD_ushiftRight, Nat.add_comm 1 i]
    congr 2
    omega
  have hlast : (r >>> 1).getLsbD 31 = false := by simp
  unfold register
  rw [Finset.sum_range_succ, Finset.sum_congr rfl hterms, hlast, ← Finset.sum_mul,
    Finset.sum_range_succ' _ 31]
  simp only [coefficient, Bool.false_eq_true, if_false, zero_mul, add_zero, add_mul, Nat.sub_zero,
    mul_assoc, ← pow_succ, Nat.reduceAdd]
  rw [add_assoc, CharTwo.add_self_eq_zero, add_zero]

/-- One step of the register, up to a multiple of the generator. -/
theorem register_feedBit (r : BitVec 32) (bit : Bool) :
    register (feedBit r bit) = register r * X + coefficient bit * X ^ 32 +
      coefficient (r.getLsbD 0 ^^ bit) * generator := by
  have hshift := register_ushiftRight r
  have htwo : (X ^ 32 + X ^ 32 : (ZMod 2)[X]) = 0 := CharTwo.add_self_eq_zero _
  unfold feedBit generator
  generalize r.getLsbD 0 = low at *
  cases low <;> cases bit <;> simp [register_xor, hshift, coefficient]
  · linear_combination - htwo
  · ring

theorem degree_register_lt (r : BitVec 32) : (register r).degree < 32 := by
  refine (degree_sum_le _ _).trans_lt ((Finset.sup_lt_iff (by decide)).2 fun i hi => ?_)
  have hterm : (coefficient (r.getLsbD i) * X ^ (31 - i)).degree ≤
      ((31 - i : Nat) : WithBot Nat) := by
    unfold coefficient
    split <;> simp
  exact hterm.trans_lt (by exact_mod_cast (by omega : 31 - i < 32))

theorem monic_generator : generator.Monic :=
  monic_X_pow_add (degree_register_lt _)

theorem degree_generator : generator.degree = 32 := by
  have hpower : (X ^ 32 : (ZMod 2)[X]).degree = 32 := degree_X_pow 32
  rw [generator, degree_add_eq_left_of_degree_lt, hpower]
  rw [hpower]
  exact degree_register_lt _

/-- What the register holds and what the bits spell differ by a multiple of the generator. -/
theorem exists_quotient (r : BitVec 32) (bits : List Bool) :
    ∃ q, register (bits.foldl feedBit r) + generator * q =
      message bits * X ^ 32 + register r * X ^ bits.length := by
  induction bits using List.reverseRecOn with
  | nil => exact ⟨0, by simp [message]⟩
  | append_singleton bits bit ih =>
    obtain ⟨q, hq⟩ := ih
    rw [List.foldl_append, List.foldl_cons, List.foldl_nil, register_feedBit]
    generalize bits.foldl feedBit r = s at hq ⊢
    refine ⟨q * X - coefficient (s.getLsbD 0 ^^ bit), ?_⟩
    have hmessage : message (bits ++ [bit]) = message bits * X + coefficient bit := by
      simp [message]
    rw [hmessage, List.length_append, List.length_singleton, pow_succ]
    linear_combination X * hq

/-- The steps of the register divide: it holds the remainder of the bits, behind which 32 zeros
stand, and of what it held before them. -/
theorem register_foldl_feedBit (r : BitVec 32) (bits : List Bool) :
    register (bits.foldl feedBit r) =
      (message bits * X ^ 32 + register r * X ^ bits.length) %ₘ generator := by
  obtain ⟨q, hq⟩ := exists_quotient r bits
  have hdegree : (register (bits.foldl feedBit r)).degree < generator.degree := by
    rw [degree_generator]
    exact degree_register_lt _
  exact (div_modByMonic_unique q _ monic_generator ⟨hq, hdegree⟩).2.symm

/-! ## Listings -/

/-- **The checksum of a listing is the CRC-32 of its lines without anything between them.** It is
below `2 ^ 32`, and listings whose lines make the same text have the same checksum. Complemented, it
is a remainder: that of the text's polynomial, behind which 32 zeros stand and in front of which 32
ones are added. -/
theorem ofLines_eq_crc32 (lines : List String) :
    ofLines lines = (crc32 (textBits (String.join lines))).toNat ∧ ofLines lines < 2 ^ 32 ∧
      (∀ others : List String, String.join others = String.join lines →
        ofLines others = ofLines lines) ∧
      register (~~~ (BitVec.ofNat 32 (ofLines lines))) =
        (message (textBits (String.join lines)) * X ^ 32 +
          register (BitVec.allOnes 32) * X ^ (textBits (String.join lines)).length) %ₘ
            generator := by
  have hvalue : ∀ lines, ofLines lines = (crc32 (textBits (String.join lines))).toNat :=
      fun lines => by
    rw [← toBitVec_foldl_extend]
    rfl
  refine ⟨hvalue lines, ?_, fun others h => ?_, ?_⟩
  · rw [hvalue]
    exact BitVec.isLt _
  · rw [hvalue, hvalue, h]
  · rw [hvalue, BitVec.ofNat_toNat, BitVec.setWidth_eq, crc32, BitVec.not_not,
      register_foldl_feedBit]

/-- The nine digits, cut into lines, with the checksum by which CRC-32 is known. -/
theorem ofLines_eq_crc32_nineDigits :
    ofLines ["1234", "", "56789"] = 0xCBF43926 ∧
      ofLines ["1234", "", "56789"] = ofLines ["123456789"] :=
  ⟨by cbv, (ofLines_eq_crc32 ["123456789"]).2.2.1 ["1234", "", "56789"] (by decide)⟩

end LineBasic.Checksum
