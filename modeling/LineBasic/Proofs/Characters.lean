import Mathlib
import LineBasic.Text.Blank
import LineBasic.Text.Capital
import LineBasic.Text.Digit

/-!
# Runs of characters

Facts about the beginnings and the ends of texts, and about the capitals of digits.

* `takeWhile_run`, `dropWhile_run`: where a run of characters stops.
* `dropEnd_append`, `dropEnd_append_of_all`: what is dropped at the end of two texts in a row.
* `trim_blanks_append`, `trim_append_blanks`: blanks around a text are trimmed.
* `capital_of_isDigit`: a digit of any script is its own capital.
-/

namespace LineBasic.Text

variable {p : Char → Bool} {cs ds : List Char}

/-! ## Beginnings -/

theorem takeWhile_run (hc : ∀ c ∈ cs, p c = true) (hd : ∀ c ∈ ds.head?, p c = false) :
    (cs ++ ds).takeWhile p = cs := by
  rw [List.takeWhile_append_of_pos hc]
  cases ds with
  | nil => simp
  | cons d ds => simp [hd d rfl]

theorem dropWhile_run (hc : ∀ c ∈ cs, p c = true) (hd : ∀ c ∈ ds.head?, p c = false) :
    (cs ++ ds).dropWhile p = ds := by
  rw [List.dropWhile_append_of_pos hc]
  cases ds with
  | nil => rfl
  | cons d ds => simp [hd d rfl]

/-- Where `dropWhile` stops, the property fails. -/
theorem head?_dropWhile {c : Char} (h : c ∈ (cs.dropWhile p).head?) : p c = false := by
  have := List.head?_dropWhile_not p cs
  rw [Option.mem_def.mp h] at this
  simpa using this

/-! ## Ends -/

theorem dropEnd_eq_nil_iff : dropEnd p cs = [] ↔ ∀ c ∈ cs, p c = true :=
  List.rdropWhile_eq_nil_iff

theorem dropEnd_append_of_all (h : ∀ c ∈ ds, p c = true) : dropEnd p (cs ++ ds) = dropEnd p cs := by
  unfold dropEnd
  rw [List.reverse_append, List.dropWhile_append_of_pos fun c hc => h c (List.mem_reverse.mp hc)]

theorem dropEnd_append (h : dropEnd p ds ≠ []) : dropEnd p (cs ++ ds) = cs ++ dropEnd p ds := by
  unfold dropEnd at h ⊢
  rw [List.reverse_append, List.dropWhile_append, if_neg, List.reverse_append, List.reverse_reverse]
  simpa using h

/-- Nothing is dropped after a character that stays. -/
theorem dropEnd_concat {c : Char} (h : p c = false) : dropEnd p (cs ++ [c]) = cs ++ [c] :=
  List.rdropWhile_concat_neg p cs c (by simp [h])

/-- Characters are dropped behind one that stays. -/
theorem dropEnd_append_cons {c : Char} (h : p c = false) :
    dropEnd p (cs ++ c :: ds) = cs ++ c :: dropEnd p ds := by
  rw [← List.singleton_append, ← List.append_assoc]
  by_cases hnil : dropEnd p ds = []
  · rw [dropEnd_append_of_all (dropEnd_eq_nil_iff.mp hnil), dropEnd_concat h, hnil]
  · rw [dropEnd_append hnil, List.append_assoc]
    rfl

theorem dropEnd_dropEnd : dropEnd p (dropEnd p cs) = dropEnd p cs :=
  List.rdropWhile_idempotent p cs

/-- The last character that is left does not have the property. -/
theorem getLast?_dropEnd {c : Char} (h : c ∈ (dropEnd p cs).getLast?) : p c = false := by
  unfold dropEnd at h
  rw [List.getLast?_reverse] at h
  exact head?_dropWhile h

theorem dropEnd_eq_self (h : ∀ c ∈ cs.getLast?, p c = false) : dropEnd p cs = cs := by
  cases cs using List.reverseRecOn with
  | nil => rfl
  | append_singleton cs c => exact dropEnd_concat (h c (by simp))

theorem mem_of_mem_dropEnd {c : Char} (h : c ∈ dropEnd p cs) : c ∈ cs :=
  (List.rdropWhile_prefix p cs).subset h

theorem exists_append_dropEnd (p : Char → Bool) (cs : List Char) :
    ∃ ds, cs = dropEnd p cs ++ ds ∧ ∀ c ∈ ds, p c = true := by
  refine ⟨(cs.reverse.takeWhile p).reverse, ?_, fun c hc =>
    List.mem_takeWhile_imp (List.mem_reverse.mp hc)⟩
  unfold dropEnd
  rw [← List.reverse_append, List.takeWhile_append_dropWhile, List.reverse_reverse]

/-! ## Blanks on either side -/

theorem trim_blanks_append (h : ∀ c ∈ ds, isBlank c = true) : trim (ds ++ cs) = trim cs := by
  unfold trim
  rw [List.dropWhile_append_of_pos h]

theorem trim_append_blanks (h : ∀ c ∈ ds, isBlank c = true) : trim (cs ++ ds) = trim cs := by
  unfold trim
  by_cases hall : ∀ c ∈ cs, isBlank c = true
  · rw [List.dropWhile_append_of_pos hall, List.dropWhile_eq_nil_iff.mpr h,
      List.dropWhile_eq_nil_iff.mpr hall]
  · have hne : cs.dropWhile isBlank ≠ [] := fun hnil => hall (List.dropWhile_eq_nil_iff.mp hnil)
    rw [List.dropWhile_append, if_neg (by simpa using hne), dropEnd_append_of_all h]

theorem trim_trim (cs : List Char) : trim (trim cs) = trim cs := by
  obtain ⟨ds, hsplit, hblank⟩ := exists_append_dropEnd isBlank (cs.dropWhile isBlank)
  have hfront : ∀ c ∈ cs.takeWhile isBlank, isBlank c = true := fun _ => List.mem_takeWhile_imp
  calc trim (trim cs) = trim (trim cs ++ ds) := (trim_append_blanks hblank).symm
    _ = trim (cs.dropWhile isBlank) := congrArg trim hsplit.symm
    _ = trim (cs.takeWhile isBlank ++ cs.dropWhile isBlank) := (trim_blanks_append hfront).symm
    _ = trim cs := by rw [List.takeWhile_append_dropWhile]

/-! ## Digits and capitals -/

/-- No digit lies in the table of small letters. -/
theorem zeros_apart : ∀ z ∈ zeros, ∀ part ∈ capitalRuns, ∀ r ∈ part, z + 9 < r.first ∨
    r.last < z := by
  decide +kernel

theorem zeros_apart_long : ∀ z ∈ zeros, ∀ e ∈ longCapitals, z + 9 < e.1 ∨ e.1 < z := by
  decide +kernel

theorem exists_zero_of_isDigit {c : Char} (h : isDigit c = true) :
    ∃ z ∈ zeros, z ≤ c.toNat ∧ c.toNat ≤ z + 9 := by
  unfold isDigit digitValue? at h
  rw [Option.isSome_map, List.find?_isSome] at h
  obtain ⟨z, hz, hc⟩ := h
  refine ⟨z, hz, ?_⟩
  simpa using hc

theorem wideCapital_of_isDigit {c : Char} (h : isDigit c = true) : wideCapital c = [c] := by
  obtain ⟨z, hz, hlo, hhi⟩ := exists_zero_of_isDigit h
  have hlong : (longCapitals.find? fun e => e.1 == c.toNat) = none := by
    rw [List.find?_eq_none]
    intro e he
    have := zeros_apart_long z hz e he
    simp only [beq_iff_eq]
    omega
  have hrun : (capitalRuns.findSome? fun part => part.findSome? fun r => r.capital? c.toNat) =
      none := by
    simp only [List.findSome?_eq_none_iff]
    intro part hpart r hr
    have := zeros_apart z hz part hpart r hr
    unfold CapitalRun.capital?
    rw [if_neg]
    simp only [Bool.and_eq_true, decide_eq_true_eq, beq_iff_eq, not_and]
    omega
  unfold wideCapital
  rw [hlong, hrun]

/-- Below 128 the digits are the common ones. -/
theorem zeros_low : ∀ z ∈ zeros, z < 128 → z = 0x30 := by decide

theorem isAlpha_iff_toNat {c : Char} :
    c.isAlpha = true ↔ 65 ≤ c.toNat ∧ c.toNat ≤ 90 ∨ 97 ≤ c.toNat ∧ c.toNat ≤ 122 := by
  simp [Char.isAlpha, Char.isUpper, Char.isLower, UInt32.le_iff_toNat_le]

theorem not_isAlpha_of_isDigit {c : Char} (h : isDigit c = true) : c.isAlpha = false := by
  obtain ⟨z, hz, hlo, hhi⟩ := exists_zero_of_isDigit h
  have hz' := zeros_low z hz
  by_contra ha
  rw [Bool.not_eq_false, isAlpha_iff_toNat] at ha
  omega

theorem toUpper_of_not_isAlpha {c : Char} (h : c.isAlpha = false) : c.toUpper = c := by
  apply Char.toUpper_eq_of_not_isLower
  simp only [Char.isAlpha, Bool.or_eq_false_iff] at h
  simp [h.2]

/-- A property of characters other than letters does not see the difference between a letter and its
capital. -/
theorem apply_toUpper {q : Char → Bool} (h : ∀ d, q d = true → d.isAlpha = false) (c : Char) :
    q c.toUpper = q c := by
  cases ha : c.isAlpha with
  | false => rw [toUpper_of_not_isAlpha ha]
  | true =>
    have hc : q c = false := by
      by_contra hq
      rw [h c (by simpa using hq)] at ha
      exact Bool.false_ne_true ha
    have hu : q c.toUpper = false := by
      by_contra hq
      have := h c.toUpper (by simpa using hq)
      rw [Char.isAlpha_toUpper_eq_isAlpha, ha] at this
      exact absurd this (by simp)
    rw [hc, hu]

theorem toUpper_of_isDigit {c : Char} (h : isDigit c = true) : c.toUpper = c :=
  toUpper_of_not_isAlpha (not_isAlpha_of_isDigit h)

/-- **A digit of any script is its own capital.** -/
theorem capital_of_isDigit {c : Char} (h : isDigit c = true) : capital c = [c] := by
  unfold capital
  split
  · rw [toUpper_of_isDigit h]
  · exact wideCapital_of_isDigit h

theorem flatMap_capital_of_isDigit (h : ∀ c ∈ cs, isDigit c = true) : cs.flatMap capital = cs := by
  induction cs with
  | nil => rfl
  | cons c cs ih =>
    rw [List.flatMap_cons, capital_of_isDigit (h c List.mem_cons_self),
      ih fun d hd => h d (List.mem_cons_of_mem c hd)]
    rfl

theorem longCapitals_ne_nil : ∀ e ∈ longCapitals, e.2 ≠ [] := by decide +kernel

theorem capital_ne_nil (c : Char) : capital c ≠ [] := by
  unfold capital wideCapital
  split
  · simp
  · split
    · rename_i e he
      simpa using longCapitals_ne_nil e (List.mem_of_find?_eq_some he)
    · split <;> simp

end LineBasic.Text
